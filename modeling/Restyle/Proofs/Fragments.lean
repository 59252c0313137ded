import Restyle.Proofs.Cascade
import Restyle.Proofs.Filling
import Restyle.Proofs.Guards
import Restyle.Proofs.Scoping

/-!
# Fragments of values

A test that gives only a part of a value takes the whole declaration into its variants: each of them has the
value with a branch in the place of the slot.  A branch without a value has no variant, though, so that the
rest of the value is lost with it.  Under which conditions the variants that apply make up the declaration
again is worked out exactly.
-/

namespace Restyle.Interpolation

open Restyle.Style (Key Object Value)

/-! ## A branch in the place of the slot -/

/-- The text that a branch has in a value; an empty one has none. -/
def fragmentText : Value → String
  | .bool true => "true"
  | v => if isEmptyBranch v then "" else literalText v

/-- A value under conditions, the first one outermost. -/
def underConditions (conditions : List String) (value : Value) : Value :=
  conditions.foldr (fun condition v => .obj (Object.set [(Key.default, .null)] (.name condition) v)) value

theorem underConditions_inj {conditions : List String} {v w : Value}
    (h : underConditions conditions v = underConditions conditions w) : v = w := by
  induction conditions with
  | nil => exact h
  | cons condition conditions ih =>
      have hget := congrArg (fun o => Object.get? o (.name condition)) (Value.obj.inj h)
      rw [Object.get?_set_self, Object.get?_set_self] at hget
      exact ih (Option.some.inj hget)

/-- A place in a declaration whose value has one slot, with the texts before and after it. -/
structure Place.HasFragment (place : Place) (before after : List Char) : Prop where
  isBlock_eq : place.isBlock = false
  pieces_eq : Css.Slot.pieces place.request.value.toList =
    [.text before, .slot place.request.index (Css.Slot.mark place.request.index), .text after]
  full : place.request.isFullValue = true → before = [] ∧ after = []

/-- The value of a declaration with a text in the place of its slot, under the conditions around it. -/
def Place.valueWith (place : Place) (before after : List Char) (text : String) : Value :=
  underConditions place.request.scope.conditions
    (Style.normalizeValue place.request.property (String.ofList (before ++ text.toList ++ after)))

/--
The value that a declaration has to get from a branch: that with the text of the branch in the place of the
slot.  An empty branch in the place of the whole value gives none.
-/
def Place.fragment? (place : Place) (before after : List Char) (branch : Value) : Option Value :=
  if Css.Slot.isWhole place.request.value && isEmptyBranch branch then none
  else some (place.valueWith before after (fragmentText branch))

/-- The value that the variant of a branch sets; an empty branch has no variant. -/
def Place.written? (place : Place) (before after : List Char) (branch : Value) : Option Value :=
  if isEmptyBranch branch then none else some (place.valueWith before after (literalText branch))

/--
The variant of a branch sets the value that the declaration has to get exactly if it is not lost with an
empty branch, and its text is not the other spelling of a truth value.
-/
theorem written?_eq_fragment?_iff (place : Place) (before after : List Char) (branch : Value) :
    place.written? before after branch = place.fragment? before after branch ↔
      (Css.Slot.isWhole place.request.value = true ∨ isEmptyBranch branch = false) ∧ branch ≠ .bool true := by
  unfold Place.written? Place.fragment?
  cases hempty : isEmptyBranch branch with
  | true =>
      have hne : branch ≠ .bool true := by
        rintro rfl
        cases hempty
      cases Css.Slot.isWhole place.request.value <;> simp [hne]
  | false =>
      simp only [Bool.false_eq_true, if_false, Bool.and_false, Option.some.injEq, or_true, true_and]
      constructor
      · rintro h rfl
        exact Style.normalizeValue_spelled_true_ne _ _ _ (underConditions_inj h)
      · intro hne
        have htext : fragmentText branch = literalText branch := by
          unfold fragmentText
          split
          · exact absurd rfl hne
          · rw [hempty]
            rfl
        rw [htext]

/-- A branch with styles sets its value, and an empty one sets nothing. -/
theorem branchStyles_eq {value : Value} {place : Place} {before after : List Char} {styles : Object}
    (helement : place.inElement = false) (hplace : place.HasFragment before after)
    (h : branchStyles value place = .ok (.ok styles)) :
    styles = ((place.written? before after value).map fun v => (Key.name place.request.property, v)).toList := by
  unfold branchStyles at h
  unfold Place.written?
  dsimp only at h
  by_cases hempty : isEmptyBranch value = true
  · rw [if_pos hempty] at h ⊢
    cases h
    rfl
  · rw [if_neg hempty] at h ⊢
    rw [hplace.isBlock_eq] at h
    split at h
    · cases h
    · have htext : (if place.request.isFullValue = true then literalText value
          else Css.Slot.fill place.request.value place.request.index (literalText value)) =
          String.ofList (before ++ (literalText value).toList ++ after) := by
        split
        · next hfull =>
            obtain ⟨rfl, rfl⟩ := hplace.full hfull
            simp
        · rw [← Css.Slot.toList_fill hplace.pieces_eq, String.ofList_toList]
      rw [htext] at h
      have hscope := Except.ok.inj h
      rw [scopeStyles?_of_inElement helement] at hscope
      unfold Place.valueWith underConditions
      rcases hconditions : place.request.scope.conditions with _ | ⟨condition, _ | _⟩
      · rw [hconditions] at hscope
        cases hscope
        rfl
      · rw [hconditions] at hscope
        simp only [List.mapM_cons, Style.isObject_normalizeValue] at hscope
        cases hscope
        rfl
      · rw [hconditions] at hscope
        cases hscope

/-- The variant of a branch with a value. -/
def Place.variant? (place : Place) (before after : List Char) (names : String × String) (branch : Value) :
    Option Branch :=
  (place.written? before after branch).map fun value =>
    { name := names.1, guard := names.2, styles := [(.name place.request.property, value)] }

/-- The branches with a value become variants. -/
theorem branchesOf_eq {place : Place} {before after : List Char} (helement : place.inElement = false)
    (hplace : place.HasFragment before after) {given : List ((String × String) × Value)}
    {branches : List Branch} (h : branchesOf place given = .ok (.ok branches)) :
    branches = given.filterMap fun (names, branch) => place.variant? before after names branch := by
  induction given generalizing branches with
  | nil =>
      cases h
      rfl
  | cons head rest ih =>
      obtain ⟨⟨name, guard⟩, branch⟩ := head
      obtain ⟨styles, more, hstyles, hrest, rfl⟩ := branchesOf_cons_eq_ok_iff.mp h
      rw [List.filterMap_cons, ← ih hrest, branchStyles_eq helement hplace hstyles]
      dsimp only [Place.variant?]
      cases place.written? before after branch <;> rfl

end Restyle.Interpolation

namespace Restyle.Style

/-! ## Merging one property -/

theorem mergeValue_none (value : Value) : mergeValue none value = value := by
  cases value <;> simp [mergeValue]

namespace Object

/-- Merging styles without a property leaves it alone. -/
theorem get?_merge_of_get?_none {source : Object} {key : Key} (h : source.get? key = none) (target : Object) :
    (target.merge source).get? key = target.get? key := by
  induction source generalizing target with
  | nil => rw [merge_nil]
  | cons entry source ih =>
      obtain ⟨k, v⟩ := entry
      rw [get?_cons] at h
      split at h
      · cases h
      · next hne => rw [merge_cons, ih h, get?_set_of_ne _ _ hne]

/-- A property that only the merged styles have keeps their value. -/
theorem get?_merge_set {source target : Object} {key : Key} (hsource : source.get? key = none)
    (htarget : target.get? key = none) (value : Value) :
    (target.merge (source.set key value)).get? key = some value := by
  induction source generalizing target with
  | nil => rw [set, merge_cons, merge_nil, htarget, mergeValue_none, get?_set_self]
  | cons entry source ih =>
      obtain ⟨k, v⟩ := entry
      rw [get?_cons] at hsource
      split at hsource
      · cases hsource
      · next hne =>
          rw [set, if_neg hne, merge_cons]
          exact ih hsource (by rw [get?_set_of_ne _ _ hne, htarget])

end Object

end Restyle.Style

namespace Restyle.Script

open Restyle.Component (addBranch mem_addBranch)
open Restyle.Interpolation (Branch Classified Place classify decideConditional isEmptyBranch)
open Restyle.Style (Key Object)
open Restyle.Tsx (Node)

/-! ## Variants that apply -/

/-- Whether a guard holds for props. -/
def guardHolds (E : Engine) (props : Table Value) (guard : String) : Bool :=
  (guard? E guard).any fun (name, demand) => demand.holds (Value.field props name)

/-- The styles of the variants whose guards hold, later ones over earlier ones. -/
def appliedStyles (E : Engine) (props : Table Value) (variants : List Branch) : Object :=
  (variants.filter fun b => guardHolds E props b.guard).foldl (fun styles b => styles.merge b.styles) []

theorem get?_foldl_merge {key : Key} {variants : List Branch}
    (h : ∀ b ∈ variants, b.styles.get? key = none) (styles : Object) :
    (variants.foldl (fun styles b => styles.merge b.styles) styles).get? key = styles.get? key := by
  induction variants generalizing styles with
  | nil => rfl
  | cons b variants ih =>
      obtain ⟨hb, hvariants⟩ := List.forall_mem_cons.mp h
      rw [List.foldl_cons, ih hvariants, Object.get?_merge_of_get?_none hb]

/-- A variant that is added to others without its property sets it. -/
theorem get?_foldl_addBranch {key : Key} {value : Style.Value} {b : Branch} (hstyles : b.styles = [(key, value)])
    {variants : List Branch} (h : ∀ known ∈ variants, known.styles.get? key = none) {styles : Object}
    (hget : styles.get? key = none) :
    ((addBranch variants b).foldl (fun styles b => styles.merge b.styles) styles).get? key = some value := by
  induction variants generalizing styles with
  | nil =>
      rw [addBranch, List.foldl_cons, List.foldl_nil, hstyles]
      exact Object.get?_merge_set (Object.get?_nil key) hget value
  | cons known variants ih =>
      obtain ⟨hknown, hvariants⟩ := List.forall_mem_cons.mp h
      rw [addBranch]
      split
      · have hmerge : known.styles.merge b.styles = known.styles.set key value := by
          rw [hstyles, Object.merge_cons, Object.merge_nil, hknown, Style.mergeValue_none]
        rw [List.foldl_cons, get?_foldl_merge hvariants]
        dsimp only
        rw [hmerge, Object.get?_merge_set hknown hget]
      · rw [List.foldl_cons]
        exact ih hvariants (by rw [Object.get?_merge_of_get?_none hknown, hget])

/-- A variant of the same name has the same guard. -/
def Agrees (variants : List Branch) (b : Branch) : Prop :=
  ∀ known ∈ variants, known.name = b.name → known.guard = b.guard

/-- Adding a variant to those that apply is adding it, if it applies. -/
theorem filter_addBranch (holds : String → Bool) {variants : List Branch} {b : Branch}
    (h : Agrees variants b) :
    (addBranch variants b).filter (fun b => holds b.guard) =
      if holds b.guard then addBranch (variants.filter fun b => holds b.guard) b
      else variants.filter fun b => holds b.guard := by
  induction variants with
  | nil => cases hholds : holds b.guard <;> simp [addBranch, hholds]
  | cons known variants ih =>
      obtain ⟨hknown, hvariants⟩ := List.forall_mem_cons.mp h
      rw [addBranch]
      by_cases hname : known.name = b.name
      · rw [if_pos hname]
        cases hholds : holds b.guard <;> simp [hknown hname, hholds, addBranch, hname]
      · rw [if_neg hname]
        cases hown : holds known.guard
        · simp [hown, ih hvariants]
        · simp only [List.filter_cons, hown, if_true, ih hvariants]
          split
          · rw [addBranch, if_neg hname]
          · rfl

/-- A variant whose guard does not hold changes nothing. -/
theorem filter_addBranch_of_not (E : Engine) (props : Table Value) {variants : List Branch} {b : Branch}
    (h : Agrees variants b) (hguard : guardHolds E props b.guard = false) :
    (addBranch variants b).filter (fun b => guardHolds E props b.guard) =
      variants.filter fun b => guardHolds E props b.guard := by
  rw [filter_addBranch (guardHolds E props) h, hguard]
  rfl

/-- A variant whose guard holds sets a property that no other one that applies sets. -/
theorem get?_appliedStyles_addBranch (E : Engine) (props : Table Value) {variants : List Branch} {b : Branch}
    {key : Key} {value : Style.Value} (h : Agrees variants b) (hguard : guardHolds E props b.guard = true)
    (hstyles : b.styles = [(key, value)])
    (hvariants : ∀ known ∈ variants.filter (fun b => guardHolds E props b.guard),
      known.styles.get? key = none) :
    (appliedStyles E props (addBranch variants b)).get? key = some value := by
  rw [appliedStyles, filter_addBranch (guardHolds E props) h, if_pos hguard]
  exact get?_foldl_addBranch hstyles hvariants rfl

/-! ## The variants of a test -/

/-- The branch that a test selects; the missing one of a conjunction is empty. -/
def selectedBranch (c : Classified) (isTrue : Bool) : Style.Value :=
  if isTrue then c.truthy else if c.hasFalsyBranch then c.falsy else .null

/-- The variant of one of the branches of a test. -/
def fragmentVariant? (c : Classified) (place : Place) (before after : List Char) (isTrue : Bool) :
    Option Branch :=
  place.variant? before after (branchName c place.styleKey isTrue, guardOf c isTrue) (selectedBranch c isTrue)

/-- A test in a declaration becomes the variants of its branches. -/
theorem variants_of_fragment {c : Classified} {place : Place} {before after : List Char} {prop : String}
    {compared base : Style.Value} {branches : List Branch} (hplace : place.HasFragment before after)
    (h : decideConditional c place = .ok (.variant prop compared base branches)) :
    base = .null ∧ branches = [true, false].filterMap (fragmentVariant? c place before after) := by
  obtain ⟨htrue, hfalse⟩ := guardOf_eq c place.styleKey
  obtain ⟨⟨-, helement, -⟩, hbranches, -, -, rfl⟩ := Interpolation.decideConditional_eq_variant_iff.mp h
  refine ⟨rfl, ?_⟩
  have hwhenTrue : fragmentVariant? c place before after true =
      place.variant? before after (Interpolation.branchNames c place.styleKey).1 c.truthy := by
    rw [fragmentVariant?, ← htrue]
    rfl
  have hwhenFalse : fragmentVariant? c place before after false =
      place.variant? before after (Interpolation.branchNames c place.styleKey).2
        (if c.hasFalsyBranch then c.falsy else .null) := by
    rw [fragmentVariant?, ← hfalse]
    rfl
  rw [Interpolation.branchesOf_eq helement hplace hbranches]
  simp only [Classified.branches, List.filterMap_cons, List.filterMap_nil, hwhenTrue, hwhenFalse]
  cases c.hasFalsyBranch <;> rfl

/-- A branch of a faithful test is selected exactly if its guard holds. -/
theorem guardHolds_iff (E : Engine) {around : Interpolation.Surroundings} {index : Int} {n : Node}
    {c : Classified} (hc : classify around index n = c) (htag : c.tag = .conditional)
    (hfaithful : Faithful E n c) (props : Table Value) (isTrue : Bool) :
    guardHolds E props (guardOf c isTrue) = true ↔ selection E n props = some isTrue := by
  obtain ⟨name, demand, hguard, hiff⟩ := (guardAgrees_iff E hc htag isTrue).mpr hfaithful props
  rw [guardHolds, hguard]
  exact hiff

/-- Each branch of a faithful test is selected by some props. -/
theorem exists_selection (E : Engine) {around : Interpolation.Surroundings} {index : Int} {n : Node}
    {c : Classified} (hc : classify around index n = c) (htag : c.tag = .conditional)
    (hfaithful : Faithful E n c) (isTrue : Bool) : ∃ props, selection E n props = some isTrue := by
  obtain ⟨name, demand, hguard, -⟩ := (guardAgrees_iff E hc htag isTrue).mpr hfaithful []
  obtain ⟨v, hv⟩ := open_of_guard? hguard true
  refine ⟨[(name, v)], (guardHolds_iff E hc htag hfaithful _ isTrue).mp ?_⟩
  rw [guardHolds, hguard]
  exact (congrArg demand.holds (field_cons name v [])).trans hv

/-- A faithful test selects a branch for all props. -/
theorem exists_selected (E : Engine) {around : Interpolation.Surroundings} {index : Int} {n : Node}
    {c : Classified} (hc : classify around index n = c) (htag : c.tag = .conditional)
    (hfaithful : Faithful E n c) (props : Table Value) : ∃ isTrue, selection E n props = some isTrue := by
  obtain ⟨⟨first, rest, hpath, hcases⟩, hcomparison⟩ := selection_of_conditional E hc htag
  obtain ⟨prop, demand, hprop, hvariable, -, -⟩ := holds_of_faithful E hcomparison hfaithful
  cases hpath.symm.trans hprop
  rcases hcases with ⟨hname, -⟩ | ⟨-, hreach⟩
  · cases hname.symm.trans hvariable
  · exact ⟨_, hreach props _ rfl⟩

/-! ## Adding the variants to others -/

/-- A variant with the name of a branch has the guard of this branch. -/
def Guarded (variants : List Branch) (c : Classified) (place : Place) : Prop :=
  ∀ isTrue, ∀ known ∈ variants, known.name = branchName c place.styleKey isTrue →
    known.guard = guardOf c isTrue

/-- Variants that leave the property of a declaration and the branches of its test alone. -/
structure Spares (variants : List Branch) (c : Classified) (place : Place) : Prop where
  untouched : ∀ known ∈ variants, known.styles.get? (.name place.request.property) = none
  guarded : Guarded variants c place

/-- Adds the variant of one branch, if it has one. -/
def addFragment (c : Classified) (place : Place) (before after : List Char) (variants : List Branch)
    (isTrue : Bool) : List Branch :=
  match fragmentVariant? c place before after isTrue with
  | some b => addBranch variants b
  | none => variants

section

variable {c : Classified} {place : Place} {before after : List Char} {variants : List Branch} {isTrue : Bool}

theorem foldl_addBranch_fragments (c : Classified) (place : Place) (before after : List Char)
    (variants : List Branch) :
    ([true, false].filterMap (fragmentVariant? c place before after)).foldl addBranch variants =
      addFragment c place before after (addFragment c place before after variants true) false := by
  unfold addFragment
  simp only [List.filterMap_cons, List.filterMap_nil]
  cases fragmentVariant? c place before after true <;>
    cases fragmentVariant? c place before after false <;> rfl

/-- What the variant of a branch is made of. -/
theorem fragmentVariant?_eq_some {b : Branch} (h : fragmentVariant? c place before after isTrue = some b) :
    b.name = branchName c place.styleKey isTrue ∧ b.guard = guardOf c isTrue ∧
      ∃ value, place.written? before after (selectedBranch c isTrue) = some value ∧
        b.styles = [(.name place.request.property, value)] := by
  obtain ⟨value, hvalue, rfl⟩ := Option.map_eq_some_iff.mp h
  exact ⟨rfl, rfl, value, hvalue, rfl⟩

theorem Guarded.agrees (h : Guarded variants c place) {b : Branch}
    (hb : fragmentVariant? c place before after isTrue = some b) : Agrees variants b := by
  obtain ⟨hname, hguard, -⟩ := fragmentVariant?_eq_some hb
  intro known hknown heq
  rw [hguard]
  exact h isTrue known hknown (heq.trans hname)

theorem Guarded.addFragment (h : Guarded variants c place) :
    Guarded (addFragment c place before after variants isTrue) c place := by
  unfold Script.addFragment
  split
  · next b hb =>
      obtain ⟨hname, hguard, -⟩ := fragmentVariant?_eq_some hb
      intro flag x hx hxname
      rcases mem_addBranch hx with hx | rfl | ⟨known, hknown, rfl⟩
      · exact h flag x hx hxname
      · cases branchName_injective c place.styleKey (hname.symm.trans hxname)
        exact hguard
      · exact h flag known hknown hxname
  · exact h

/-- The variant of a branch whose guard does not hold does not apply. -/
theorem filter_addFragment_of_not (E : Engine) {props : Table Value} (h : Guarded variants c place)
    (hguard : guardHolds E props (guardOf c isTrue) = false) :
    (addFragment c place before after variants isTrue).filter (fun b => guardHolds E props b.guard) =
      variants.filter fun b => guardHolds E props b.guard := by
  unfold addFragment
  split
  · next b hb =>
      refine filter_addBranch_of_not E props (h.agrees hb) ?_
      rw [(fragmentVariant?_eq_some hb).2.1, hguard]
  · rfl

/-- The variant of a branch whose guard holds sets the property, if there is one. -/
theorem get?_appliedStyles_addFragment (E : Engine) {props : Table Value} (h : Guarded variants c place)
    (hguard : guardHolds E props (guardOf c isTrue) = true)
    (huntouched : ∀ known ∈ variants.filter (fun b => guardHolds E props b.guard),
      known.styles.get? (.name place.request.property) = none) :
    (appliedStyles E props (addFragment c place before after variants isTrue)).get?
      (.name place.request.property) = place.written? before after (selectedBranch c isTrue) := by
  unfold addFragment
  split
  · next b hb =>
      obtain ⟨-, hb', value, hvalue, hstyles⟩ := fragmentVariant?_eq_some hb
      rw [hvalue]
      exact get?_appliedStyles_addBranch E props (h.agrees hb) (by rw [hb', hguard]) hstyles huntouched
  · next hnone =>
      rw [Option.map_eq_none_iff.mp hnone]
      exact get?_foldl_merge huntouched []

/-- The variants of a test set what the variant of the selected branch sets. -/
theorem get?_appliedStyles_fragments (E : Engine) {around : Interpolation.Surroundings} {index : Int}
    {n : Node} (hc : classify around index n = c) (htag : c.tag = .conditional)
    (hfaithful : Faithful E n c) (h : Spares variants c place) {props : Table Value}
    (hselection : selection E n props = some isTrue) :
    (appliedStyles E props (([true, false].filterMap (fragmentVariant? c place before after)).foldl addBranch
      variants)).get? (.name place.request.property) =
        place.written? before after (selectedBranch c isTrue) := by
  have hholds := guardHolds_iff E hc htag hfaithful props
  have hselected : guardHolds E props (guardOf c isTrue) = true := (hholds isTrue).mpr hselection
  have hother : guardHolds E props (guardOf c !isTrue) = false := by
    refine Bool.eq_false_iff.mpr fun hguard => ?_
    have heq := Option.some.inj (hselection.symm.trans ((hholds !isTrue).mp hguard))
    cases isTrue <;> cases heq
  have huntouched : ∀ known ∈ variants.filter (fun b => guardHolds E props b.guard),
      known.styles.get? (.name place.request.property) = none :=
    fun known hknown => h.untouched known (List.mem_of_mem_filter hknown)
  rw [foldl_addBranch_fragments]
  -- The variant of the other branch is added after or before that of the selected one; it never applies.
  cases isTrue with
  | true =>
      have hother : guardHolds E props (guardOf c false) = false := hother
      rw [appliedStyles, filter_addFragment_of_not E h.guarded.addFragment hother]
      exact get?_appliedStyles_addFragment E h.guarded hselected huntouched
  | false =>
      have hother : guardHolds E props (guardOf c true) = false := hother
      refine get?_appliedStyles_addFragment E h.guarded.addFragment hselected ?_
      rw [filter_addFragment_of_not E h.guarded hother]
      exact huntouched

end

/-! ## Fragments -/

/--
A test in a declaration leaves no value in the styles of the component, and its variants apply the value of
the declaration with the selected branch in the place of the slot, for all props, exactly if no branch is
empty beside further text and none is the truth value that is spelled in another way.
-/
theorem fragments_kept_iff (E : Engine) {around : Interpolation.Surroundings} {index : Int} {n : Node}
    {c : Classified} {place : Place} {before after : List Char} {component : Component} {prop : String}
    {compared base : Style.Value} {branches : List Branch}
    (hc : classify around index n = c) (htag : c.tag = .conditional) (hfaithful : Faithful E n c)
    (hplace : place.HasFragment before after)
    (hdecision : decideConditional c place = .ok (.variant prop compared base branches))
    (hspares : Spares component.variants c place) :
    let recorded := component.record (.variant prop compared base branches) c place
    recorded.reply = .omit ∧
      ((∀ props, ∃ isTrue, selection E n props = some isTrue ∧
        (appliedStyles E props recorded.component.variants).get? (.name place.request.property) =
          place.fragment? before after (selectedBranch c isTrue)) ↔
        ∀ isTrue, (Css.Slot.isWhole place.request.value = true ∨
          isEmptyBranch (selectedBranch c isTrue) = false) ∧ selectedBranch c isTrue ≠ .bool true) := by
  obtain ⟨rfl, rfl⟩ := variants_of_fragment hplace hdecision
  refine ⟨rfl, ?_⟩
  rw [(Component.record_adds ..).1]
  change (∀ props, ∃ isTrue, selection E n props = some isTrue ∧
    (appliedStyles E props (([true, false].filterMap (fragmentVariant? c place before after)).foldl addBranch
      component.variants)).get? (.name place.request.property) =
        place.fragment? before after (selectedBranch c isTrue)) ↔ _
  constructor
  · intro h isTrue
    obtain ⟨props, hprops⟩ := exists_selection E hc htag hfaithful isTrue
    obtain ⟨selected, hselected, hget⟩ := h props
    cases hprops.symm.trans hselected
    rw [get?_appliedStyles_fragments E hc htag hfaithful hspares hprops] at hget
    exact (Interpolation.written?_eq_fragment?_iff ..).mp hget
  · intro h props
    obtain ⟨isTrue, hprops⟩ := exists_selected E hc htag hfaithful props
    refine ⟨isTrue, hprops, ?_⟩
    rw [get?_appliedStyles_fragments E hc htag hfaithful hspares hprops]
    exact (Interpolation.written?_eq_fragment?_iff ..).mpr (h isTrue)

/-- A component without styles. -/
def grid : Component where
  name := "Grid"
  styleKey := "grid"
  base := "table"

/-- The place of a slot that is the second of two lengths. -/
def spacingPlace : Place where
  component := grid.name
  styleKey := grid.styleKey
  request := {
    index := 0, property := "borderSpacing", value := "1px " ++ Css.Slot.markText 0
    token := Css.Slot.markText 0, tokens := ["1px", Css.Slot.markText 0], tokenIndex := 1 }

theorem hasFragment_spacingPlace : spacingPlace.HasFragment "1px ".toList [] :=
  ⟨by decide, by rfl, nofun⟩

/-- A test of a prop with two lengths. -/
def wideTest : Node := expression "p => p.wide ? \"2px\" : \"3px\""

/-- Two lengths in the place of a slot make up the whole value again. -/
theorem fragments_kept_wideTest :
    ∃ prop compared base branches,
      decideConditional (classify {} 0 wideTest) spacingPlace = .ok (.variant prop compared base branches) ∧
      ∀ props, ∃ isTrue, selection plainEngine wideTest props = some isTrue ∧
        (appliedStyles plainEngine props (grid.record (.variant prop compared base branches)
          (classify {} 0 wideTest) spacingPlace).component.variants).get? (.name "borderSpacing") =
          spacingPlace.fragment? "1px ".toList [] (selectedBranch (classify {} 0 wideTest) isTrue) := by
  have hchecks : ((classify {} 0 wideTest).tag == .conditional &&
      isPlainTest plainEngine wideTest (classify {} 0 wideTest) "wide" &&
      !(variantsOf (decideConditional (classify {} 0 wideTest) spacingPlace)).isEmpty &&
      [true, false].all fun isTrue => !isEmptyBranch (selectedBranch (classify {} 0 wideTest) isTrue) &&
        (selectedBranch (classify {} 0 wideTest) isTrue).text?.isSome) = true := by
    decide +kernel
  simp only [Bool.and_eq_true, beq_iff_eq, Bool.not_eq_true', List.isEmpty_eq_false_iff,
    List.all_eq_true] at hchecks
  obtain ⟨⟨⟨htag, hplain⟩, hne⟩, hbranches⟩ := hchecks
  have hspares : Spares grid.variants (classify {} 0 wideTest) spacingPlace :=
    ⟨List.forall_mem_nil _, fun _ => List.forall_mem_nil _⟩
  obtain ⟨b, hb⟩ := List.exists_mem_of_ne_nil _ hne
  obtain ⟨prop, compared, base, heq⟩ := eq_variant_of_mem hb
  refine ⟨prop, compared, base, _, heq, ?_⟩
  refine (fragments_kept_iff plainEngine rfl htag (faithful_of_isPlainTest hplain)
    hasFragment_spacingPlace heq hspares).2.mpr fun isTrue => ?_
  obtain ⟨hempty, htext⟩ := hbranches isTrue (by cases isTrue <;> decide)
  refine ⟨.inr hempty, fun htrue => ?_⟩
  rw [htrue] at htext
  cases htext

/-- A test of a prop with a length and nothing. -/
def blankTest : Node := expression "p => p.wide ? \"2px\" : \"\""

/-- Where nothing stands in the place of a slot, the length before it is lost. -/
theorem fragments_not_kept_blankTest :
    (classify {} 0 blankTest).tag = .conditional ∧ (classify {} 0 blankTest).path = ["wide"] ∧
    (classify {} 0 blankTest).comparison.isNone ∧ spacingPlace.HasFragment "1px ".toList [] ∧
    ∃ prop compared base branches,
      decideConditional (classify {} 0 blankTest) spacingPlace = .ok (.variant prop compared base branches) ∧
      selection plainEngine blankTest [] = some false ∧
      spacingPlace.fragment? "1px ".toList [] (selectedBranch (classify {} 0 blankTest) false) =
        some (.text "1px") ∧
      (appliedStyles plainEngine [] (grid.record (.variant prop compared base branches)
        (classify {} 0 blankTest) spacingPlace).component.variants).get? (.name "borderSpacing") = none := by
  have hchecks : ((classify {} 0 blankTest).tag == .conditional &&
      (classify {} 0 blankTest).path == ["wide"] && (classify {} 0 blankTest).comparison.isNone &&
      !(variantsOf (decideConditional (classify {} 0 blankTest) spacingPlace)).isEmpty &&
      selection plainEngine blankTest [] == some false &&
      (spacingPlace.fragment? "1px ".toList [] (selectedBranch (classify {} 0 blankTest) false)).bind
        Style.Value.text? == some "1px" &&
      ((appliedStyles plainEngine [] ((variantsOf (decideConditional (classify {} 0 blankTest)
        spacingPlace)).foldl addBranch grid.variants)).get? (.name "borderSpacing")).isNone) = true := by
    decide +kernel
  simp only [Bool.and_eq_true, beq_iff_eq, Bool.not_eq_true', List.isEmpty_eq_false_iff,
    Option.isNone_iff_eq_none (α := Style.Value)] at hchecks
  obtain ⟨⟨⟨⟨⟨⟨htag, hpath⟩, hcomparison⟩, hne⟩, hselection⟩, hfragment⟩, hlost⟩ := hchecks
  obtain ⟨b, hb⟩ := List.exists_mem_of_ne_nil _ hne
  obtain ⟨prop, compared, base, heq⟩ := eq_variant_of_mem hb
  obtain ⟨value, hvalue, htext⟩ := Option.bind_eq_some_iff.mp hfragment
  have hlength : value = .text "1px" := by
    cases value with
    | text s => rw [Option.some.inj htext]
    | _ => cases htext
  refine ⟨htag, hpath, hcomparison, hasFragment_spacingPlace, prop, compared, base, _, heq, hselection,
    hlength ▸ hvalue, ?_⟩
  rw [(Component.record_adds ..).1, Component.branchesOf]
  exact hlost

end Restyle.Script
