import Restyle.Css.Template
import Restyle.Proofs.Respelling
import Restyle.Proofs.Slots
import Restyle.Proofs.Tokens
import Mathlib.Data.List.Nodup
import Mathlib.Data.List.Perm.Basic

/-!
# Where the slots of a template go

The reader of a style sheet neither loses nor copies slots: the rule tree has those of the text tokens,
whatever order the declarations and blocks stand in.  So a slot of a template is left out exactly if its
mark is inside of a comment, and every other slot is recorded once, with the rule and the declaration that
its mark stands in.
-/

namespace Restyle.Css

open List (Perm)
open Slot (Plain slotsIn)

/-! ## The slots of a rule tree -/

namespace Rule

/-- The slots of a rule outside of its nested rules. -/
def ownSlots (rule : Rule) : List Nat :=
  Slot.indices rule.selector ++ rule.declarations.flatMap Declaration.slots

/-- The slots of a rule tree, those of outer rules first. -/
def slots (rule : Rule) : List Nat :=
  rule.walk.flatMap ownSlots

theorem walkAll_eq_flatMap (rules : List Rule) : walkAll rules = rules.flatMap walk := by
  induction rules with
  | nil => rfl
  | cons rule rules ih => rw [walkAll, List.flatMap_cons, ih]

theorem slots_eq (rule : Rule) : rule.slots = rule.ownSlots ++ rule.nested.flatMap slots := by
  obtain ⟨selector, declarations, nested, atRules⟩ := rule
  rw [slots, walk, List.flatMap_cons, walkAll_eq_flatMap, List.flatMap_assoc]
  rfl

theorem slots_addDeclarations (rule : Rule) (declarations : List Declaration) :
    Perm (slots { rule with declarations := rule.declarations ++ declarations })
      (rule.slots ++ declarations.flatMap Declaration.slots) := by
  rw [slots_eq, slots_eq rule]
  simp only [ownSlots, List.flatMap_append, List.append_assoc]
  exact (List.perm_append_comm.append_left _).append_left _

theorem slots_addNested (rule inner : Rule) :
    slots { rule with nested := rule.nested ++ [inner] } = rule.slots ++ inner.slots := by
  rw [slots_eq, slots_eq rule, List.flatMap_append, List.flatMap_singleton, List.append_assoc]
  rfl

end Rule

/-! ## Reading tokens keeps slots -/

/-- The slots of a token that becomes a part of the rule tree. -/
def Token.textSlots (token : Token) : List Nat :=
  if token.kind = .text then slotsIn token.value.toList else []

/-- The slots of a comment. -/
def Token.commentSlots (token : Token) : List Nat :=
  if token.kind = .comment then slotsIn token.value.toList else []

/-- Braces and semicolons have no slots. -/
theorem Token.StandsIn.slotsIn_value {token : Token} {text : List Char} (h : token.StandsIn text) :
    slotsIn token.value.toList = token.textSlots ++ token.commentSlots := by
  obtain ⟨before, raw, after, -, -, -, htakes⟩ := h
  rw [textSlots, commentSlots]
  by_cases htext : token.kind = .text
  · have hcomment : token.kind ≠ .comment := htext ▸ nofun
    rw [if_pos htext, if_neg hcomment, List.append_nil]
  · rw [if_neg htext, List.nil_append]
    split
    · rfl
    · next hcomment => rw [htakes.slots, htakes.bare htext hcomment]

namespace SheetState

/-- The slots of the open rules and of the pending text. -/
def slots (s : SheetState) : List Nat :=
  (s.current :: s.outer).flatMap Rule.slots ++ slotsIn s.text.toList

theorem slotsIn_text (s : SheetState) :
    slotsIn s.text.toList = s.pending.flatMap fun value => slotsIn value.toList := by
  rw [text, String.toList_intercalate, show " ".toList = [' '] from rfl, Slot.slotsIn_intercalate,
    List.flatMap_map]

theorem slots_eq_of_pending_nil {s : SheetState} (h : s.pending = []) :
    s.slots = (s.current :: s.outer).flatMap Rule.slots := by
  rw [slots, slotsIn_text, h, List.flatMap_nil, List.append_nil]

theorem pending_flush (s : SheetState) : s.flush.pending = [] := by
  rw [flush]
  split
  · next hempty => exact List.isEmpty_iff.mp hempty
  · rfl

theorem slots_flush (s : SheetState) : Perm s.flush.slots s.slots := by
  rw [flush]
  split
  · exact .refl _
  · rw [slots_eq_of_pending_nil rfl, slots, List.flatMap_cons, List.flatMap_cons,
      ← flatMap_slots_declarationsOf]
    refine ((s.current.slots_addDeclarations _).append_right _).trans ?_
    rw [List.append_assoc, List.append_assoc]
    exact List.perm_append_comm.append_left _

theorem slots_openRule (s : SheetState) : Perm s.openRule.slots s.slots := by
  have hpeel := slotsIn_peelSelector s.text.toList.length s.text.toList
  have hselector := slotsIn_normalizeSelector
    (String.ofList (peelSelector s.text.toList.length s.text.toList).2)
  rw [String.toList_ofList] at hselector
  rw [slots_eq_of_pending_nil rfl, slots, ← hpeel, openRule]
  generalize peelSelector _ _ = peeled at hselector ⊢
  have hinner : ∀ (selector : String) (atRules : List String),
      Rule.slots { selector, atRules } = slotsIn selector.toList := by
    intro selector atRules
    rw [Rule.slots_eq, Rule.ownSlots, Slot.indices_eq]
    simp
  simp only [List.flatMap_cons, hinner, hselector]
  refine ((s.current.slots_addDeclarations peeled.1).append_right _).append_left _ |>.trans ?_
  -- the selector of the new rule comes first, the peeled slots are in its parent
  refine List.perm_iff_count.mpr fun i => ?_
  simp only [List.count_append]
  omega

theorem slots_closeRule {s : SheetState} {parent : Rule} {outer : List Rule} (hpending : s.pending = [])
    (h : s.outer = parent :: outer) : Perm (s.closeRule parent outer).slots s.slots := by
  rw [slots_eq_of_pending_nil hpending, slots_eq_of_pending_nil rfl, h, closeRule]
  simp only [List.flatMap_cons, Rule.slots_addNested]
  rw [← List.append_assoc]
  exact List.perm_append_comm.append_right _

/-- A token adds its slots. -/
theorem slots_step {s s' : SheetState} {token : Token} (h : s.step token = .ok s') :
    Perm s'.slots (s.slots ++ token.textSlots) := by
  unfold step at h
  rw [Token.textSlots]
  split at h
  · next hkind =>
      cases h
      rw [hkind, if_neg nofun, List.append_nil]
  · next hkind =>
      cases h
      rw [if_pos hkind]
      simp only [slots, slotsIn_text, List.flatMap_append, List.flatMap_singleton, List.append_assoc]
      exact .refl _
  · next hkind =>
      cases h
      rw [hkind, if_neg nofun, List.append_nil]
      exact s.slots_flush
  · next hkind =>
      rw [hkind, if_neg nofun, List.append_nil]
      split at h
      · cases h
      · cases h
        exact s.slots_openRule
  · next hkind =>
      rw [hkind, if_neg nofun, List.append_nil]
      dsimp only at h
      split at h
      · cases h
      · next hopen =>
          cases h
          exact (slots_closeRule s.pending_flush hopen).trans s.slots_flush

/-- A list of tokens adds the slots of all of them. -/
theorem slots_run {tokens : List Token} {s s' : SheetState} (h : tokens.foldlM step s = .ok s') :
    Perm s'.slots (s.slots ++ tokens.flatMap Token.textSlots) := by
  induction tokens generalizing s with
  | nil =>
      cases h
      rw [List.flatMap_nil, List.append_nil]
  | cons token tokens ih =>
      rw [List.foldlM_cons] at h
      cases hstep : s.step token with
      | error fault =>
          rw [hstep] at h
          cases h
      | ok next =>
          rw [hstep] at h
          refine (ih h).trans (((slots_step hstep).append_right _).trans ?_)
          rw [List.flatMap_cons, List.append_assoc]

theorem slots_finish {s : SheetState} {root : Rule} (h : s.finish = .ok root) : Perm root.slots s.slots := by
  rw [finish] at h
  split at h
  · next houter =>
      cases h
      refine .trans ?_ s.slots_flush
      rw [slots_eq_of_pending_nil s.pending_flush, houter, List.flatMap_singleton]
  · cases h

end SheetState

/-- A rule tree has the slots of the text tokens that it is read from. -/
theorem slots_ruleOfTokens {tokens : List Token} {root : Rule} (h : ruleOfTokens tokens = .ok root) :
    Perm root.slots (tokens.flatMap Token.textSlots) := by
  cases hrun : tokens.foldlM SheetState.step { current := { selector := "&" } } with
  | error fault =>
      rw [ruleOfTokens, hrun] at h
      cases h
  | ok s =>
      rw [ruleOfTokens, hrun] at h
      exact (SheetState.slots_finish h).trans (SheetState.slots_run hrun)

/-! ## The rules around a rule -/

/-- The at-rule preludes around what stands in a block that is opened under `atRules`. -/
def preludes (atRules : List String) (selector : String) : List String :=
  if isAtRule selector then atRules ++ [selector] else atRules

/-- A rule tree in which every nested rule knows the preludes it stands under. -/
inductive Rule.Stacked : Rule → Prop
  | intro {rule : Rule} (atRules : ∀ inner ∈ rule.nested, inner.atRules = preludes rule.atRules inner.selector)
      (nested : ∀ inner ∈ rule.nested, inner.Stacked) : rule.Stacked

/-- The rules around a rule are open, and it knows the preludes it stands under. -/
def Opened : Rule → List Rule → Prop
  | rule, [] => rule.selector = "&" ∧ rule.atRules = []
  | rule, parent :: outer => rule.atRules = preludes parent.atRules rule.selector ∧ Opened parent outer

theorem Rule.Stacked.addDeclarations {rule : Rule} (h : rule.Stacked) (declarations : List Declaration) :
    Stacked { rule with declarations := rule.declarations ++ declarations } := by
  obtain ⟨hrules, hnested⟩ := h
  exact ⟨hrules, hnested⟩

theorem Opened.addDeclarations {rule : Rule} {outer : List Rule} (h : Opened rule outer)
    (declarations : List Declaration) :
    Opened { rule with declarations := rule.declarations ++ declarations } outer := by
  cases outer with
  | nil => exact h
  | cons parent outer => exact h

theorem Opened.addNested {rule : Rule} {outer : List Rule} (h : Opened rule outer) (inner : Rule) :
    Opened { rule with nested := rule.nested ++ [inner] } outer := by
  cases outer with
  | nil => exact h
  | cons parent outer => exact h

namespace SheetState

/-- The open rules and all rules inside of them know the preludes they stand under. -/
structure Stacked (s : SheetState) : Prop where
  rules : ∀ rule ∈ s.current :: s.outer, rule.Stacked
  opened : Opened s.current s.outer

theorem Stacked.flush {s : SheetState} (h : s.Stacked) : s.flush.Stacked := by
  obtain ⟨hrules, hopened⟩ := h
  obtain ⟨hcurrent, houter⟩ := List.forall_mem_cons.mp hrules
  rw [SheetState.flush]
  split
  · exact ⟨hrules, hopened⟩
  · exact ⟨List.forall_mem_cons.mpr ⟨hcurrent.addDeclarations _, houter⟩, hopened.addDeclarations _⟩

theorem Stacked.openRule {s : SheetState} (h : s.Stacked) : s.openRule.Stacked := by
  obtain ⟨hrules, hopened⟩ := h
  obtain ⟨hcurrent, houter⟩ := List.forall_mem_cons.mp hrules
  rw [SheetState.openRule]
  generalize peelSelector _ _ = peeled
  dsimp only
  generalize normalizeSelector _ = selector
  have hinner : Rule.Stacked { selector, atRules := preludes s.current.atRules selector } := ⟨nofun, nofun⟩
  have hparent := hcurrent.addDeclarations peeled.1
  exact ⟨List.forall_mem_cons.mpr ⟨hinner, List.forall_mem_cons.mpr ⟨hparent, houter⟩⟩,
    rfl, hopened.addDeclarations peeled.1⟩

theorem Stacked.closeRule {s : SheetState} (h : s.Stacked) {parent : Rule} {outer : List Rule}
    (hopen : s.outer = parent :: outer) : (s.closeRule parent outer).Stacked := by
  obtain ⟨hrules, hopened⟩ := h
  rw [hopen] at hrules hopened
  obtain ⟨hcurrent, hrest⟩ := List.forall_mem_cons.mp hrules
  obtain ⟨⟨hknown, hnested⟩, houter⟩ := List.forall_mem_cons.mp hrest
  refine ⟨List.forall_mem_cons.mpr ⟨⟨?_, ?_⟩, houter⟩, hopened.2.addNested _⟩
  · exact List.forall_mem_append.mpr ⟨hknown, List.forall_mem_singleton.mpr hopened.1⟩
  · exact List.forall_mem_append.mpr ⟨hnested, List.forall_mem_singleton.mpr hcurrent⟩

theorem Stacked.step {s s' : SheetState} {token : Token} (h : s.Stacked) (hstep : s.step token = .ok s') :
    s'.Stacked := by
  unfold SheetState.step at hstep
  split at hstep
  · cases hstep
    exact h
  · cases hstep
    exact ⟨h.rules, h.opened⟩
  · cases hstep
    exact h.flush
  · split at hstep
    · cases hstep
    · cases hstep
      exact h.openRule
  · dsimp only at hstep
    split at hstep
    · cases hstep
    · next hopen =>
        cases hstep
        exact h.flush.closeRule hopen

theorem Stacked.run {tokens : List Token} {s s' : SheetState} (h : s.Stacked)
    (hrun : tokens.foldlM SheetState.step s = .ok s') : s'.Stacked := by
  induction tokens generalizing s with
  | nil =>
      cases hrun
      exact h
  | cons token tokens ih =>
      rw [List.foldlM_cons] at hrun
      cases hstep : s.step token with
      | error fault =>
          rw [hstep] at hrun
          cases hrun
      | ok next =>
          rw [hstep] at hrun
          exact ih (h.step hstep) hrun

end SheetState

/-- The rules of a rule tree know the preludes they stand under, and its root stands under none. -/
theorem stacked_ruleOfTokens {tokens : List Token} {root : Rule} (h : ruleOfTokens tokens = .ok root) :
    root.Stacked ∧ root.selector = "&" ∧ root.atRules = [] := by
  cases hrun : tokens.foldlM SheetState.step { current := { selector := "&" } } with
  | error fault =>
      rw [ruleOfTokens, hrun] at h
      cases h
  | ok s =>
      rw [ruleOfTokens, hrun] at h
      have hstart : SheetState.Stacked { current := { selector := "&" } } :=
        ⟨List.forall_mem_singleton.mpr ⟨nofun, nofun⟩, rfl, rfl⟩
      obtain ⟨hrules, hopened⟩ := (hstart.run hrun).flush
      replace h : s.finish = .ok root := h
      rw [SheetState.finish] at h
      split at h
      · next houter =>
          cases h
          rw [houter] at hopened
          exact ⟨hrules _ List.mem_cons_self, hopened⟩
      · cases h

/--
A rule stands in a rule tree, with the selector of the nearest rule around it, itself included, that is no
at-rule, and with the preludes of the at-rules around it, itself included, outermost first.
-/
inductive Within (root : Rule) : Rule → String → List String → Prop
  | root : Within root root root.selector []
  | atRule {rule inner : Rule} {nearest : String} {atRules : List String}
      (outer : Within root rule nearest atRules) (nested : inner ∈ rule.nested)
      (prelude : isAtRule inner.selector = true) : Within root inner nearest (atRules ++ [inner.selector])
  | rule {rule inner : Rule} {nearest : String} {atRules : List String}
      (outer : Within root rule nearest atRules) (nested : inner ∈ rule.nested)
      (selector : isAtRule inner.selector = false) : Within root inner inner.selector atRules

/-- The mark of a slot stands at a place of a rule tree. -/
inductive Site (root : Rule) (index : Nat) : SlotPlace → Prop
  | selector {rule : Rule} {nearest : String} {atRules : List String}
      (within : Within root rule nearest atRules) (marked : index ∈ Slot.indices rule.selector) :
      Site root index { selector := rule.selector, atRules, inSelector := true }
  | property {rule : Rule} {nearest : String} {atRules : List String} {d : Declaration}
      (within : Within root rule nearest atRules) (declared : d ∈ rule.declarations)
      (marked : index ∈ Slot.indices d.property) :
      Site root index
        { selector := nearest, atRules, property := some d.property, value := d.value, inPropertyName := true }
  | value {rule : Rule} {nearest : String} {atRules : List String} {d : Declaration}
      (within : Within root rule nearest atRules) (declared : d ∈ rule.declarations)
      (marked : index ∈ Slot.indices d.value) :
      Site root index
        { selector := nearest, atRules, property := if d.property = "" then none else some d.property,
          value := d.value, isFullValue := decide (Text.strip d.value = Slot.markText index) }

/-- The places of the slots of a rule outside of its nested rules. -/
def ownPlaces (nearest : String) (rule : Rule) : List (Nat × SlotPlace) :=
  (Slot.indices rule.selector).map (fun index =>
      (index, { selector := rule.selector, atRules := rule.atRules, inSelector := true })) ++
    rule.declarations.flatMap (declarationPlaces nearest rule.atRules)

theorem placesInAll_eq_flatMap (nearest : String) (rules : List Rule) :
    placesInAll nearest rules = rules.flatMap fun inner =>
      placesIn (if isAtRule inner.selector then nearest else inner.selector) inner := by
  induction rules with
  | nil => rfl
  | cons inner rules ih => rw [placesInAll, List.flatMap_cons, ih]

theorem placesIn_eq (nearest : String) (rule : Rule) :
    placesIn nearest rule = ownPlaces nearest rule ++ rule.nested.flatMap fun inner =>
      placesIn (if isAtRule inner.selector then nearest else inner.selector) inner := by
  obtain ⟨selector, declarations, nested, atRules⟩ := rule
  rw [placesIn, placesInAll_eq_flatMap, ownPlaces]

/-- Every slot of a rule tree has one place. -/
theorem map_fst_placesIn (nearest : String) (rule : Rule) :
    (placesIn nearest rule).map Prod.fst = rule.slots := by
  induction rule using Rule.induction generalizing nearest with
  | step rule ih =>
      have hdeclaration : ∀ d, (declarationPlaces nearest rule.atRules d).map Prod.fst = d.slots := by
        intro d
        simp [declarationPlaces, Declaration.slots, Function.comp_def]
      rw [placesIn_eq, Rule.slots_eq, List.map_append, List.map_flatMap]
      congr 1
      · simp [ownPlaces, Rule.ownSlots, List.map_flatMap, hdeclaration, Function.comp_def]
      · exact List.flatMap_congr fun inner hinner => ih inner hinner _

theorem mem_ownPlaces_iff {nearest : String} {rule : Rule} {index : Nat} {place : SlotPlace} :
    (index, place) ∈ ownPlaces nearest rule ↔
      (index ∈ Slot.indices rule.selector ∧
        place = { selector := rule.selector, atRules := rule.atRules, inSelector := true }) ∨
      ∃ d ∈ rule.declarations,
        (index ∈ Slot.indices d.property ∧
          place = { selector := nearest, atRules := rule.atRules, property := some d.property,
                    value := d.value, inPropertyName := true }) ∨
        (index ∈ Slot.indices d.value ∧
          place = { selector := nearest, atRules := rule.atRules,
                    property := if d.property = "" then none else some d.property, value := d.value,
                    isFullValue := decide (Text.strip d.value = Slot.markText index) }) := by
  have hmap : ∀ (indices : List Nat) (at' : Nat → SlotPlace),
      (index, place) ∈ indices.map (fun i => (i, at' i)) ↔ index ∈ indices ∧ place = at' index := by
    intro indices at'
    simp only [List.mem_map, Prod.mk.injEq]
    constructor
    · rintro ⟨i, hi, rfl, rfl⟩
      exact ⟨hi, rfl⟩
    · rintro ⟨hi, rfl⟩
      exact ⟨index, hi, rfl, rfl⟩
  have hempty : ∀ text : String, text.isEmpty = true ↔ text = "" := fun text => String.isEmpty_iff
  simp only [ownPlaces, declarationPlaces, List.mem_append, List.mem_flatMap, hmap, hempty, beq_eq_decide]

theorem Within.eq_preludes {root rule inner : Rule} {nearest : String} {atRules : List String}
    (h : Within root rule nearest atRules) (hinner : inner ∈ rule.nested) :
    Within root inner (if isAtRule inner.selector then nearest else inner.selector)
      (preludes atRules inner.selector) := by
  rw [preludes]
  cases hprelude : isAtRule inner.selector with
  | true => exact .atRule h hinner hprelude
  | false => exact .rule h hinner hprelude

/-- The places of a rule tree are the sites of its slots. -/
theorem mem_placesIn_iff {root : Rule} (hroot : root.Stacked) (hbare : root.atRules = []) (index : Nat)
    (place : SlotPlace) : (index, place) ∈ placesIn root.selector root ↔ Site root index place := by
  constructor
  · have hall : ∀ (rule : Rule) (nearest : String), rule.Stacked → Within root rule nearest rule.atRules →
        (index, place) ∈ placesIn nearest rule → Site root index place := by
      intro rule
      induction rule using Rule.induction with
      | step rule ih =>
          rintro nearest ⟨hknown, hnested⟩ hwithin hplace
          rw [placesIn_eq] at hplace
          rcases List.mem_append.mp hplace with hown | hbelow
          · rcases mem_ownPlaces_iff.mp hown with ⟨hi, rfl⟩ | ⟨d, hd, ⟨hi, rfl⟩ | ⟨hi, rfl⟩⟩
            · exact .selector hwithin hi
            · exact .property hwithin hd hi
            · exact .value hwithin hd hi
          · obtain ⟨inner, hinner, hbelow⟩ := List.mem_flatMap.mp hbelow
            have hinside := hwithin.eq_preludes hinner
            rw [← hknown inner hinner] at hinside
            exact ih inner hinner _ (hnested inner hinner) hinside hbelow
    exact hall root root.selector hroot (hbare ▸ .root)
  · -- a rule in the tree has its places among those of the root
    have hall : ∀ {rule nearest atRules}, Within root rule nearest atRules →
        rule.Stacked ∧ rule.atRules = atRules ∧ placesIn nearest rule ⊆ placesIn root.selector root := by
      have hstep : ∀ {rule inner nearest atRules}, inner ∈ rule.nested →
          (rule.Stacked ∧ rule.atRules = atRules ∧ placesIn nearest rule ⊆ placesIn root.selector root) →
          inner.Stacked ∧ inner.atRules = preludes atRules inner.selector ∧
            placesIn (if isAtRule inner.selector then nearest else inner.selector) inner ⊆
              placesIn root.selector root := by
        rintro rule inner nearest atRules hinner ⟨⟨hknown, hnested⟩, rfl, hsubset⟩
        refine ⟨hnested inner hinner, hknown inner hinner, fun found hfound => hsubset ?_⟩
        rw [placesIn_eq]
        exact List.mem_append_right _ (List.mem_flatMap.mpr ⟨inner, hinner, hfound⟩)
      intro rule nearest atRules h
      induction h with
      | root => exact ⟨hroot, hbare, List.Subset.refl _⟩
      | atRule _ hinner hprelude ih => simpa only [preludes, hprelude, if_true] using hstep hinner ih
      | rule _ hinner hselector ih =>
          simpa only [preludes, hselector, Bool.false_eq_true, if_false] using hstep hinner ih
    have hown : ∀ {rule nearest atRules}, Within root rule nearest atRules →
        (index, place) ∈ ownPlaces nearest rule → (index, place) ∈ placesIn root.selector root := by
      intro rule nearest atRules h hplace
      refine (hall h).2.2 ?_
      rw [placesIn_eq]
      exact List.mem_append_left _ hplace
    intro hsite
    cases hsite with
    | selector hwithin hi =>
        obtain ⟨-, rfl, -⟩ := hall hwithin
        exact hown hwithin (mem_ownPlaces_iff.mpr (.inl ⟨hi, rfl⟩))
    | property hwithin hd hi =>
        obtain ⟨-, rfl, -⟩ := hall hwithin
        exact hown hwithin (mem_ownPlaces_iff.mpr (.inr ⟨_, hd, .inl ⟨hi, rfl⟩⟩))
    | value hwithin hd hi =>
        obtain ⟨-, rfl, -⟩ := hall hwithin
        exact hown hwithin (mem_ownPlaces_iff.mpr (.inr ⟨_, hd, .inr ⟨hi, rfl⟩⟩))

/-! ## Recording places -/

section

variable {α : Type} (expressions : List α)

/-- What is recorded of a place: the slot with its expression, if there is one. -/
def recorded? (entry : Nat × SlotPlace) : Option (PlacedSlot α) :=
  expressions[entry.1]?.map fun expression => ⟨entry.1, expression, entry.2⟩

theorem recorded?_eq_some_iff (entry : Nat × SlotPlace) (slot : PlacedSlot α) :
    recorded? expressions entry = some slot ↔
      (slot.index, slot.place) = entry ∧ expressions[slot.index]? = some slot.expression := by
  rw [recorded?, Option.map_eq_some_iff]
  constructor
  · rintro ⟨expression, hexpression, rfl⟩
    exact ⟨rfl, hexpression⟩
  · rintro ⟨rfl, hexpression⟩
    exact ⟨slot.expression, hexpression, rfl⟩

variable {places : List (Nat × SlotPlace)} (h : (places.map Prod.fst).Nodup)

include h

/-- If no slot has two places, the places behind those already found are recorded as well. -/
theorem reverse_foldl_place {found : List (PlacedSlot α)}
    (hfound : ∀ slot ∈ found, slot.index ∉ places.map Prod.fst) :
    (places.foldl (fun found (index, place) =>
      if found.any (·.index == index) then found
      else match expressions[index]? with
        | some expression => ⟨index, expression, place⟩ :: found
        | none => found) found).reverse =
      found.reverse ++ places.filterMap (recorded? expressions) := by
  induction places generalizing found with
  | nil => exact (List.append_nil _).symm
  | cons entry places ih =>
      obtain ⟨index, place⟩ := entry
      obtain ⟨hfresh, hrest⟩ := List.nodup_cons.mp h
      have hnew : found.any (·.index == index) = false := by
        rw [List.any_eq_false]
        intro slot hslot hindex
        exact hfound slot hslot (by rw [eq_of_beq hindex]; exact List.mem_cons_self)
      have hbehind : ∀ slot ∈ found, slot.index ∉ places.map Prod.fst :=
        fun slot hslot hmem => hfound slot hslot (List.mem_cons_of_mem _ hmem)
      rw [List.foldl_cons]
      dsimp only
      rw [hnew, if_neg Bool.false_ne_true]
      cases hexpression : expressions[index]? with
      | none =>
          rw [ih hrest hbehind, List.filterMap_cons_none (by rw [recorded?, hexpression]; rfl)]
      | some expression =>
          rw [ih hrest (List.forall_mem_cons.mpr ⟨hfresh, hbehind⟩), List.reverse_cons, List.append_assoc,
            List.filterMap_cons_some (by rw [recorded?, hexpression]; rfl)]
          rfl

/-- If no slot has two places, all places of slots with expressions are recorded. -/
theorem placeSlots_eq_filterMap : placeSlots expressions places = places.filterMap (recorded? expressions) :=
  reverse_foldl_place expressions h fun _ hslot => absurd hslot List.not_mem_nil

theorem mem_placeSlots_iff (slot : PlacedSlot α) :
    slot ∈ placeSlots expressions places ↔
      (slot.index, slot.place) ∈ places ∧ expressions[slot.index]? = some slot.expression := by
  rw [placeSlots_eq_filterMap expressions h, List.mem_filterMap]
  simp only [recorded?_eq_some_iff]
  constructor
  · rintro ⟨entry, hplace, rfl, hexpression⟩
    exact ⟨hplace, hexpression⟩
  · rintro ⟨hplace, hexpression⟩
    exact ⟨_, hplace, rfl, hexpression⟩

omit expressions in
theorem filter_fst_eq_singleton {index : Nat} {place : SlotPlace} (hplace : (index, place) ∈ places) :
    places.filter (·.1 == index) = [(index, place)] := by
  induction places with
  | nil => cases hplace
  | cons entry places ih =>
      obtain ⟨hfresh, hrest⟩ := List.nodup_cons.mp h
      rcases List.mem_cons.mp hplace with rfl | hplace
      · rw [List.filter_cons, if_pos (beq_self_eq_true index)]
        refine congrArg _ (List.filter_eq_nil_iff.mpr fun other hother heq => hfresh ?_)
        exact List.mem_map.mpr ⟨other, hother, eq_of_beq heq⟩
      · have hne : entry.1 ≠ index := fun heq => hfresh (heq ▸ List.mem_map_of_mem (f := Prod.fst) hplace)
        rw [List.filter_cons, if_neg (by simpa using hne), ih hrest hplace]

/-- A slot that has a place and an expression is recorded once. -/
theorem filter_placeSlots {index : Nat} {place : SlotPlace} (hplace : (index, place) ∈ places)
    {expression : α} (hexpression : expressions[index]? = some expression) :
    (placeSlots expressions places).filter (·.index == index) = [⟨index, expression, place⟩] := by
  have hentry : ∀ entry : Nat × SlotPlace, (recorded? expressions entry).filter (·.index == index) =
      if entry.1 == index then recorded? expressions entry else none := by
    intro entry
    rw [recorded?]
    cases expressions[entry.1]? with
    | none => rw [Option.map_none, Option.filter_none, ite_self]
    | some other => rw [Option.map_some, Option.filter_some]
  have hslot : recorded? expressions (index, place) = some ⟨index, expression, place⟩ :=
    (recorded?_eq_some_iff ..).mpr ⟨rfl, hexpression⟩
  rw [placeSlots_eq_filterMap expressions h, List.filter_filterMap]
  simp only [hentry]
  rw [← List.filterMap_filter, filter_fst_eq_singleton h hplace, List.filterMap_cons_some hslot]
  rfl

end

/-! ## The slots of a template -/

/-- The offset of the mark of a slot in the text of a template. -/
def markOffset (segments : List String) (index : Nat) : Nat :=
  (Slot.join (segments.take (index + 1))).length

/-- The mark of a slot lies inside of a comment. -/
def InComment (segments : List String) (tokens : List Token) (index : Nat) : Prop :=
  ∃ token ∈ tokens, token.kind = .comment ∧ token.offset ≤ markOffset segments index ∧
    markOffset segments index + (Slot.mark index).length ≤ token.offset + token.value.length

instance (segments : List String) (tokens : List Token) (index : Nat) :
    Decidable (InComment segments tokens index) :=
  inferInstanceAs (Decidable (∃ token ∈ tokens, _))

section

variable {segments : List String} (hplain : ∀ segment ∈ segments, Plain segment.toList)

include hplain

theorem slotsIn_join : slotsIn (Slot.join segments).toList = List.range (segments.length - 1) := by
  rw [Slot.join, Slot.slotsIn_joinFrom hplain, List.range_eq_range']

/-- The mark of a slot stands between the segments before it and those behind it. -/
theorem markedAfter_join {index : Nat} (h : index < segments.length - 1) :
    MarkedAfter (Slot.join (segments.take (index + 1))).toList index (Slot.join segments).toList := by
  have hlength : (segments.take (index + 1)).length = index + 1 := by
    rw [List.length_take]
    omega
  have hfront : segments.take (index + 1) ≠ [] := List.ne_nil_of_length_pos (by omega)
  have hback : segments.drop (index + 1) ≠ [] := by
    refine List.ne_nil_of_length_pos ?_
    rw [List.length_drop]
    omega
  have hplainFront : ∀ segment ∈ segments.take (index + 1), Plain segment.toList :=
    fun segment hsegment => hplain segment (List.mem_of_mem_take hsegment)
  have htext := Slot.toList_joinFrom_append hfront hback 0
  rw [List.take_append_drop, hlength, Nat.zero_add, Nat.add_sub_cancel, ← Slot.join] at htext
  refine ⟨⟨_, htext⟩, ?_, fun rest => ?_, ?_⟩
  · rw [slotsIn_join hplainFront, hlength, List.mem_range]
    omega
  · rw [Slot.join, Slot.slotsIn_joinFrom_append hplainFront hfront]
    exact List.mem_append_right _ List.mem_cons_self
  · rw [slotsIn_join hplain]
    exact List.nodup_range

variable {tokens : List Token} (htokens : tokenize (Slot.join segments) = .ok tokens)

include htokens

/-- The slots of a template are those of its text tokens and those of its comments. -/
theorem perm_textSlots_append_commentSlots :
    Perm (List.range (segments.length - 1))
      (tokens.flatMap Token.textSlots ++ tokens.flatMap Token.commentSlots) := by
  obtain ⟨hslots, hstands⟩ := tokensFrom_spec htokens (show ([] : List Char).length = 0 from rfl) (.inl rfl)
  rw [slotsIn_join hplain] at hslots
  rw [hslots, List.flatMap_congr fun token htoken => (hstands token htoken).slotsIn_value]
  exact (List.flatMap_append_perm tokens _ _).symm

theorem mem_commentSlots_iff {index : Nat} (h : index < segments.length - 1) :
    index ∈ tokens.flatMap Token.commentSlots ↔ InComment segments tokens index := by
  obtain ⟨-, hstands⟩ := tokensFrom_spec htokens (show ([] : List Char).length = 0 from rfl) (.inl rfl)
  have htoken : ∀ token ∈ tokens, token.kind = .comment →
      (index ∈ slotsIn token.value.toList ↔ token.offset ≤ markOffset segments index ∧
        markOffset segments index + (Slot.mark index).length ≤ token.offset + token.value.length) := by
    intro token htoken hkind
    rw [(hstands token htoken).mem_slotsIn_iff (hkind ▸ nofun) (markedAfter_join hplain h), markOffset,
      String.length_toList]
  rw [List.mem_flatMap]
  constructor
  · rintro ⟨token, hmem, hindex⟩
    rw [Token.commentSlots] at hindex
    split at hindex
    · next hkind => exact ⟨token, hmem, hkind, (htoken token hmem hkind).mp hindex⟩
    · cases hindex
  · rintro ⟨token, hmem, hkind, hinside⟩
    exact ⟨token, hmem, by rw [Token.commentSlots, if_pos hkind]; exact (htoken token hmem hkind).mpr hinside⟩

/-- The rule tree of a template has every slot once whose mark is outside of comments, and no other ones. -/
theorem slots_ruleOfTokens_iff {root : Rule} (hroot : ruleOfTokens tokens = .ok root) :
    root.slots.Nodup ∧
      ∀ index, index ∈ root.slots ↔ index < segments.length - 1 ∧ ¬ InComment segments tokens index := by
  have hperm := perm_textSlots_append_commentSlots hplain htokens
  have htext := slots_ruleOfTokens hroot
  obtain ⟨hnodup, -, hdisjoint⟩ := List.nodup_append.mp (hperm.nodup_iff.mp List.nodup_range)
  refine ⟨htext.nodup_iff.mpr hnodup, fun index => ?_⟩
  have hrange : index < segments.length - 1 ↔
      index ∈ tokens.flatMap Token.textSlots ∨ index ∈ tokens.flatMap Token.commentSlots := by
    rw [← List.mem_range, hperm.mem_iff, List.mem_append]
  rw [htext.mem_iff]
  constructor
  · intro hindex
    have hlt := hrange.mpr (.inl hindex)
    exact ⟨hlt, fun hcomment => hdisjoint _ hindex _ ((mem_commentSlots_iff hplain htokens hlt).mpr hcomment) rfl⟩
  · rintro ⟨hlt, houtside⟩
    exact (hrange.mp hlt).resolve_right fun hcomment =>
      houtside ((mem_commentSlots_iff hplain htokens hlt).mp hcomment)

end

namespace Template

variable {α : Type}

/--
What a template records of its slots: those in comments are left out, and each of the other ones is recorded
once, with its expression, at the only place of the rule tree where its mark stands.
-/
structure Accounts (t : Template α) (segments : List String) (expressions : List α) (tokens : List Token) :
    Prop where
  unplaced : ∀ index, index ∈ t.unplaced expressions.length ↔
    index < expressions.length ∧ InComment segments tokens index
  recorded : ∀ index expression, expressions[index]? = some expression → ¬ InComment segments tokens index →
    t.root.slots.count index = 1 ∧ ∃ place,
      t.slots.filter (·.index == index) = [⟨index, expression, place⟩] ∧
      ∀ other, Site t.root index other ↔ other = place
  outside : ∀ slot ∈ t.slots, slot.index < expressions.length ∧ ¬ InComment segments tokens slot.index

theorem read_eq_ok {segments : List String} {expressions : List α} {t : Template α}
    (h : Template.read segments expressions = .ok t) :
    ∃ tokens, tokenize (Slot.join segments) = .ok tokens ∧ ruleOfTokens tokens = .ok t.root ∧
      t.slots = placeSlots expressions (placesIn t.root.selector t.root) := by
  cases htokens : tokenize (Slot.join segments) with
  | error fault =>
      rw [Template.read, parseSheet, htokens] at h
      cases h
  | ok tokens =>
      cases hroot : ruleOfTokens tokens with
      | error fault =>
          rw [Template.read, parseSheet, htokens] at h
          change (ruleOfTokens tokens >>= _) = _ at h
          rw [hroot] at h
          cases h
      | ok root =>
          rw [Template.read, parseSheet, htokens] at h
          change (ruleOfTokens tokens >>= _) = _ at h
          rw [hroot] at h
          cases h
          exact ⟨tokens, rfl, hroot, rfl⟩

/-- The slots of a template are neither lost nor misplaced. -/
theorem read_accounts {segments : List String} {expressions : List α} {t : Template α}
    (hplain : ∀ segment ∈ segments, Plain segment.toList)
    (hlength : segments.length = expressions.length + 1)
    (hread : Template.read segments expressions = .ok t) :
    ∃ tokens, tokenize (Slot.join segments) = .ok tokens ∧ t.Accounts segments expressions tokens := by
  obtain ⟨tokens, htokens, hroot, hslots⟩ := read_eq_ok hread
  obtain ⟨hnodup, hmem⟩ := slots_ruleOfTokens_iff hplain htokens hroot
  obtain ⟨hstacked, -, hbare⟩ := stacked_ruleOfTokens hroot
  rw [hlength, Nat.add_sub_cancel] at hmem
  rw [← map_fst_placesIn t.root.selector] at hnodup
  have hplaced : ∀ index, index < expressions.length → ¬ InComment segments tokens index →
      ∃ place, (index, place) ∈ placesIn t.root.selector t.root := by
    intro index hlt houtside
    have hindex := (hmem index).mpr ⟨hlt, houtside⟩
    rw [← map_fst_placesIn t.root.selector] at hindex
    obtain ⟨⟨_, place⟩, hplace, rfl⟩ := List.mem_map.mp hindex
    exact ⟨place, hplace⟩
  have houtside : ∀ slot ∈ t.slots, slot.index < expressions.length ∧ ¬ InComment segments tokens slot.index := by
    intro slot hslot
    rw [hslots, mem_placeSlots_iff expressions hnodup] at hslot
    refine (hmem slot.index).mp ?_
    rw [← map_fst_placesIn t.root.selector]
    exact List.mem_map_of_mem hslot.1
  refine ⟨tokens, htokens, fun index => ?_, fun index expression hexpression hcomment => ?_, houtside⟩
  · rw [unplaced, List.mem_filter, List.mem_range, slot?, Option.isNone_iff_eq_none, List.find?_eq_none]
    refine and_congr_right fun hlt => ⟨fun hnone => ?_, fun hcomment slot hslot hindex => ?_⟩
    · by_contra hcomment
      obtain ⟨place, hplace⟩ := hplaced index hlt hcomment
      have hslot : (⟨index, expressions[index], place⟩ : PlacedSlot α) ∈ t.slots := by
        rw [hslots, mem_placeSlots_iff expressions hnodup]
        exact ⟨hplace, List.getElem?_eq_getElem hlt⟩
      exact hnone _ hslot (beq_self_eq_true index)
    · exact (houtside slot hslot).2 (eq_of_beq hindex ▸ hcomment)
  · have hlt := (List.getElem?_eq_some_iff.mp hexpression).1
    obtain ⟨place, hplace⟩ := hplaced index hlt hcomment
    refine ⟨?_, place, ?_, fun other => ?_⟩
    · rw [← map_fst_placesIn t.root.selector]
      exact List.count_eq_one_of_mem hnodup (List.mem_map_of_mem hplace)
    · rw [hslots, filter_placeSlots expressions hnodup hplace hexpression]
    · rw [← mem_placesIn_iff hstacked hbare]
      constructor
      · intro hother
        exact (Prod.mk.inj (List.inj_on_of_nodup_map hnodup hother hplace rfl)).2
      · rintro rfl
        exact hplace

/-- Segments with a slot in a value, in an at-rule prelude, in a comment and in a nested value. -/
def sampleSegments : List String :=
  ["color: ", ";\n@media (", ") \x7b &:hover \x7b /* ", " */ margin: ", " \x7d \x7d"]

/-- The slot in the comment is left out, and the last one is in the nested rule. -/
theorem accounts_sampleSegments :
    ∃ t tokens, Template.read sampleSegments ["ink", "wide", "note", "gap"] = .ok t ∧
      tokenize (Slot.join sampleSegments) = .ok tokens ∧
      t.Accounts sampleSegments ["ink", "wide", "note", "gap"] tokens ∧ t.unplaced 4 = [2] ∧
      (t.slot? 3).map (·.place) = some
        { selector := "&:hover", atRules := ["@media (__INTERPOLATION_1__)"], property := some "margin",
          value := "__INTERPOLATION_3__", isFullValue := true } := by
  have hrun : (match Template.read sampleSegments ["ink", "wide", "note", "gap"] with
      | .ok t => decide (t.unplaced 4 = [2] ∧ (t.slot? 3).map (·.place) = some
        { selector := "&:hover", atRules := ["@media (__INTERPOLATION_1__)"], property := some "margin",
          value := "__INTERPOLATION_3__", isFullValue := true })
      | .error _ => false) = true := by decide +kernel
  have hplain : ∀ segment ∈ sampleSegments, Plain segment.toList := by decide +kernel
  cases hread : Template.read sampleSegments ["ink", "wide", "note", "gap"] with
  | error fault =>
      rw [hread] at hrun
      cases hrun
  | ok t =>
      rw [hread] at hrun
      have hlength : sampleSegments.length = ["ink", "wide", "note", "gap"].length + 1 := rfl
      obtain ⟨tokens, htokens, haccounts⟩ := read_accounts hplain hlength hread
      exact ⟨t, tokens, rfl, htokens, haccounts, of_decide_eq_true hrun⟩

end Template

end Restyle.Css
