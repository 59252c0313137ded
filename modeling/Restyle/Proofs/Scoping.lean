import Restyle.Proofs.Building
import Restyle.Proofs.Enclosure
import Restyle.Registry

/-!
# The scope of variants and style functions

A slot that depends on props adds variants or style functions to its component.  They are compared with
what the same slot would add without any blocks around its declaration: the blocks have to stand around
each setting.  Variants keep all conditions, and style functions only the innermost one; neither knows of
raw selectors.
-/

namespace Restyle.Interpolation

open Restyle.Style (Enclosure IsConditionKey Key Object Value settings settingsAt)

/-! ## Branches -/

/-- The same place without blocks around the declaration. -/
def Place.bare (place : Place) : Place :=
  { place with request := { place.request with scope := {} } }

/-- The conditions around a place, as blocks. -/
def Place.conditional (place : Place) : Enclosure :=
  { conditions := place.request.scope.conditions }

/-- Styles under one condition say the same under it. -/
theorem settings_underCondition {condition : String} (hcondition : IsConditionKey condition)
    {styles out : Object} (h : styles.mapM (fun (prop, value) =>
      if value.isObject then none
      else some (prop, Value.obj (Object.set [(Key.default, .null)] (.name condition) value))) = some out) :
    settings {} out = settings { conditions := [condition] } styles ∧ out.isEmpty = styles.isEmpty := by
  induction styles generalizing out with
  | nil =>
      cases h
      exact ⟨rfl, rfl⟩
  | cons entry styles ih =>
      obtain ⟨prop, value⟩ := entry
      simp only [List.mapM_cons, Option.bind_eq_bind, Option.bind_eq_some_iff, Option.pure_def] at h
      obtain ⟨first, hfirst, rest, hrest, h⟩ := h
      cases h
      split at hfirst
      · cases hfirst
      · cases hfirst
        obtain ⟨hsettings, -⟩ := ih hrest
        refine ⟨?_, rfl⟩
        rw [settings, settings, hsettings, Style.settingsAt_condition _ _ hcondition]
        rfl

/-- Without a pseudo-element around a place, only conditions are put around styles. -/
theorem scopeStyles?_of_inElement {place : Place} (helement : place.inElement = false) (styles : Object) :
    scopeStyles? styles place =
      match place.request.scope.conditions with
      | [] => some styles
      | [condition] => styles.mapM fun (prop, value) =>
          if value.isObject then none
          else some (prop, .obj (Object.set [(Key.default, .null)] (.name condition) value))
      | _ => none := by
  unfold Place.inElement at helement
  unfold scopeStyles?
  cases hscope : place.request.scope.pseudoElement with
  | none =>
      dsimp only
      rw [hscope]
      rcases place.request.scope.conditions with _ | ⟨condition, _ | _⟩ <;> simp
  | some element =>
      rw [hscope] at helement
      have hempty : element.isEmpty = true := by simpa using helement
      dsimp only
      rw [hscope]
      rcases place.request.scope.conditions with _ | ⟨condition, _ | _⟩ <;> simp [hempty]

/-- Styles in a scope of conditions say what they say, inside of these conditions. -/
theorem settings_scopeStyles? {styles out : Object} {place : Place} (helement : place.inElement = false)
    (hconditions : ∀ key ∈ place.request.scope.conditions, IsConditionKey key)
    (h : scopeStyles? styles place = some out) :
    settings {} out = settings place.conditional styles ∧ out.isEmpty = styles.isEmpty := by
  rw [scopeStyles?_of_inElement helement] at h
  unfold Place.conditional
  cases hscope : place.request.scope.conditions with
  | nil =>
      rw [hscope] at h
      cases h
      exact ⟨rfl, rfl⟩
  | cons condition rest =>
      rw [hscope] at h hconditions
      cases rest with
      | nil => exact settings_underCondition (hconditions condition (List.mem_cons_self ..)) h
      | cons => cases h

/-- Styles put into their scope, unless they cannot be, say what they say inside of the conditions. -/
theorem settings_inScope {inner styles : Object} {place : Place} (helement : place.inElement = false)
    (hconditions : ∀ key ∈ place.request.scope.conditions, IsConditionKey key)
    (h : (match scopeStyles? inner place with
      | some out => Except.ok out
      | none => Except.error DiagnosticKind.cssBlockSelector) = .ok styles) :
    settings {} styles = settings place.conditional inner ∧ styles.isEmpty = inner.isEmpty := by
  cases hstyles : scopeStyles? inner place with
  | none =>
      rw [hstyles] at h
      cases h
  | some out =>
      rw [hstyles] at h
      cases h
      exact settings_scopeStyles? helement hconditions hstyles

/-- A branch says in its scope what it says without one, inside of the conditions. -/
theorem settings_branchStyles {value : Value} {place : Place} {styles : Object}
    (helement : place.inElement = false)
    (hconditions : ∀ key ∈ place.request.scope.conditions, IsConditionKey key)
    (h : branchStyles value place = .ok (.ok styles)) :
    ∃ bare, branchStyles value place.bare = .ok (.ok bare) ∧
      settings {} styles = settings place.conditional bare ∧ styles.isEmpty = bare.isEmpty := by
  unfold branchStyles at h ⊢
  dsimp only at h ⊢
  by_cases hempty : isEmptyBranch value = true
  · simp only [hempty, if_true] at h ⊢
    cases h
    exact ⟨[], rfl, rfl, rfl⟩
  · rw [if_neg hempty] at h ⊢
    have hbare : place.bare.isBlock = place.isBlock := rfl
    rw [hbare]
    split at h
    · split at h
      · next css hblock =>
          cases hstyles : blockStyles css with
          | error fault =>
              rw [hstyles] at h
              cases h
          | ok result =>
              rw [hstyles] at h
              cases result with
              | error problem => cases h
              | ok inner =>
                  obtain ⟨hsettings, hsize⟩ := settings_inScope helement hconditions (Except.ok.inj h)
                  exact ⟨inner, by rw [if_pos hblock]; rfl, hsettings, hsize⟩
      · cases h
    · split at h
      · cases h
      · next hblock =>
          obtain ⟨hsettings, hsize⟩ := settings_inScope helement hconditions (Except.ok.inj h)
          exact ⟨_, by rw [if_neg hblock]; rfl, hsettings, hsize⟩

/-- A branch, with the settings of its styles inside of blocks. -/
def Branch.reading (e : Enclosure) (b : Branch) : String × String × List Style.Setting :=
  (b.name, b.guard, settings e b.styles)

theorem reading_branchesOf {place : Place} (helement : place.inElement = false)
    (hconditions : ∀ key ∈ place.request.scope.conditions, IsConditionKey key)
    {given : List ((String × String) × Value)} {branches : List Branch}
    (h : branchesOf place given = .ok (.ok branches)) :
    ∃ bare, branchesOf place.bare given = .ok (.ok bare) ∧
      branches.map (Branch.reading {}) = bare.map (Branch.reading place.conditional) := by
  induction given generalizing branches with
  | nil =>
      cases h
      exact ⟨[], rfl, rfl⟩
  | cons head rest ih =>
      obtain ⟨⟨name, guard⟩, value⟩ := head
      obtain ⟨styles, more, hstyles, hrest, rfl⟩ := branchesOf_cons_eq_ok_iff.mp h
      obtain ⟨bare, hbare, hsettings, hsize⟩ := settings_branchStyles helement hconditions hstyles
      obtain ⟨bareRest, hbareRest, hreading⟩ := ih hrest
      refine ⟨_, branchesOf_cons_eq_ok_iff.mpr ⟨bare, bareRest, hbare, hbareRest, rfl⟩, ?_⟩
      rw [hsize]
      split
      · exact hreading
      · rw [List.map_cons, List.map_cons, hreading, Branch.reading, Branch.reading, hsettings]

/-- A test has the same variants without blocks around it, up to the conditions around their settings. -/
theorem reading_decideConditional {c : Classified} {place : Place} {prop : String}
    {compared base : Value} {branches : List Branch}
    (hconditions : ∀ key ∈ place.request.scope.conditions, IsConditionKey key)
    (h : decideConditional c place = .ok (.variant prop compared base branches)) :
    place.inElement = false ∧
    ∃ bare, decideConditional c place.bare = .ok (.variant prop compared base bare) ∧
      branches.map (Branch.reading {}) = bare.map (Branch.reading place.conditional) := by
  obtain ⟨⟨htheme, helement, hslots⟩, hbranches, hvariant⟩ := decideConditional_eq_variant_iff.mp h
  obtain ⟨bare, hbare, hreading⟩ := reading_branchesOf helement hconditions hbranches
  refine ⟨helement, bare, decideConditional_eq_variant_iff.mpr ?_, hreading⟩
  exact ⟨⟨htheme, rfl, hslots⟩, hbare, hvariant⟩

/-- A prop becomes the same parameter without blocks around it, and it has no fallback. -/
theorem decideProp_bare {c : Classified} {place : Place} {v : DynamicValue}
    (h : decideProp c place = .dynamic v) :
    place.inElement = false ∧ v.fallback = .null ∧ decideProp c place.bare = .dynamic v := by
  unfold decideProp at h ⊢
  dsimp only at h ⊢
  split at h
  · cases h
  next hblock =>
    split at h
    · cases h
    next hscope =>
      refine ⟨by simpa [Place.inElement] using hscope, ?_, ?_⟩
      · generalize (if (Style.borderTarget place.request.property place.request.tokens
          place.request.tokenIndex != place.request.property) = true then place.request.token
          else place.request.value) = text at h
        split at h <;> cases h
        rfl
      · rw [if_neg (by exact hblock), if_neg (by exact nofun)]
        exact h

/-! ## Which handlers depend on props -/

/-- A test becomes variants, or it is given up without an inline style. -/
theorem decideConditional_cases {c : Classified} {place : Place} {d : Decision}
    (h : decideConditional c place = .ok d) : (∃ reason props, d = .bail reason props) ∨
      ∃ prop compared branches, d = .variant prop compared .null branches := by
  unfold decideConditional at h
  dsimp only at h
  split at h
  · cases h
    exact .inl ⟨_, _, rfl⟩
  split at h
  · cases h
    exact .inl ⟨_, _, rfl⟩
  split at h
  · cases h
    exact .inl ⟨_, _, rfl⟩
  simp only [bind, Except.bind, pure, Except.pure] at h
  split at h
  · cases h
  · split at h <;> cases h
    · exact .inl ⟨_, _, rfl⟩
    · exact .inr ⟨_, _, _, rfl⟩

/-- A prop becomes a parameter of a style function, or it is given up without an inline style. -/
theorem decideProp_cases (c : Classified) (place : Place) :
    (∃ reason props, decideProp c place = .bail reason props) ∨ ∃ v, decideProp c place = .dynamic v := by
  unfold decideProp
  dsimp only
  split
  · exact .inl ⟨_, _, rfl⟩
  split
  · exact .inl ⟨_, _, rfl⟩
  generalize (if (Style.borderTarget place.request.property place.request.tokens
    place.request.tokenIndex != place.request.property) = true then place.request.token
    else place.request.value) = text
  split
  · exact .inl ⟨_, _, rfl⟩
  · exact .inr ⟨_, rfl⟩

/-- A decision that adds neither variants nor a style function. -/
def Decision.IsPlain : Decision → Prop
  | .variant .. | .dynamic _ => False
  | _ => True

/-- All results of a decision have a property. -/
def Gives {α : Type} (P : α → Prop) (work : Deciding α) : Prop :=
  ∀ t a t', work.run t = (.ok a, t') → P a

theorem gives_pure {α : Type} {P : α → Prop} {a : α} (h : P a) : Gives P (pure a) := by
  intro t b t' hrun
  cases hrun
  exact h

theorem Gives.bind {α β : Type} {P : β → Prop} {work : Deciding α} {next : α → Deciding β}
    (h : ∀ a, Gives P (next a)) : Gives P (work >>= next) := by
  intro t b t' hrun
  obtain ⟨a, s, -, hnext⟩ := Work.run_bind_eq_ok hrun
  exact h a s b t' hnext

theorem Gives.andThen {α β : Type} {P : α → Prop} {Q : β → Prop} {work : Deciding α}
    {next : α → Deciding β} (hwork : Gives P work) (h : ∀ a, P a → Gives Q (next a)) :
    Gives Q (work >>= next) := by
  intro t b t' hrun
  obtain ⟨a, s, ha, hnext⟩ := Work.run_bind_eq_ok hrun
  exact h a (hwork t a s ha) s b t' hnext

/--
A property of the decisions that come neither from tests nor from props: giving up, expressions, references and
the styles of a block in the scope of a condition.
-/
structure Unconditional (P : Decision → Prop) : Prop where
  bail : ∀ reason props, P (.bail reason props)
  js : ∀ code, P (.convert (.js code))
  reference : ∀ code, P (.reference code)
  within : ∀ {css : String} {styles out : Object} {place : Place}, place.inElement = false →
    place.request.scope.conditions ≠ [] → blockStyles css = .ok (.ok styles) →
    scopeStyles? styles place = some out → P (.convert (.obj out))

theorem unconditional_isPlain : Unconditional Decision.IsPlain :=
  ⟨fun _ _ => trivial, fun _ => trivial, fun _ => trivial, fun _ _ _ _ => trivial⟩

section

variable {P : Decision → Prop} (hP : Unconditional P)

include hP

theorem gives_convertTo (expr : String) (specs : List Adapter.ImportSpec) : Gives P (Deciding.convertTo expr specs) :=
  .bind fun _ => gives_pure (hP.js _)

theorem gives_decideTheme (env : Environment) (c : Classified) (place : Place) : Gives P (decideTheme env c place) := by
  refine .bind fun answer => ?_
  rcases answer with _ | _ | result
  · exact gives_pure (hP.bail ..)
  · exact gives_pure (hP.bail ..)
  · dsimp only
    split
    · exact gives_convertTo hP _ _
    · exact gives_pure (hP.bail ..)

theorem gives_decideLogical (env : Environment) {c : Classified} (place : Place)
    (hinline : P (.bail .arrowLogical ((c.path.take 1).filter (· != "theme")) (c.node.bind inlineExpression?))) :
    Gives P (decideLogical env c place) := by
  unfold decideLogical
  split
  · refine .bind fun answer => ?_
    rcases answer with _ | _ | result
    · exact gives_pure (hP.bail ..)
    · exact gives_pure (hP.bail ..)
    · dsimp only
      split
      · exact gives_convertTo hP _ _
      · exact gives_pure (hP.bail ..)
  · exact gives_pure hinline

theorem gives_decideBlockCall (place : Place) (result : Adapter.CallResult) :
    Gives P (decideBlockCall place result) := by
  unfold decideBlockCall
  dsimp only
  split
  · exact gives_pure (hP.bail ..)
  split
  · split
    · exact gives_pure (hP.bail ..)
    next hscope =>
    split
    · exact gives_pure (hP.bail ..)
    next css _ =>
    simp only [Bool.or_eq_true, not_or, Bool.not_eq_true] at hscope
    have hread : Gives (fun styles => blockStyles css = .ok styles) (liftM (blockStyles css) : Deciding _) := by
      intro t styles t' hrun
      cases hblock : blockStyles css with
      | error fault =>
          rw [hblock] at hrun
          cases hrun
      | ok found =>
          rw [hblock] at hrun
          cases hrun
          rfl
    refine hread.andThen fun styles hstyles => ?_
    rcases styles with _ | styles
    · exact gives_pure (hP.bail ..)
    · dsimp only
      split
      · exact gives_pure (hP.bail ..)
      · next out hout =>
          refine .bind fun _ => gives_pure (hP.within hscope.1.1 (fun hnil => ?_) hstyles hout)
          rw [hnil] at hscope
          cases hscope.1.2
  · split
    · exact gives_pure (hP.bail ..)
    · exact .bind fun _ => gives_pure (hP.reference _)

theorem gives_decideValueCall (place : Place) (result : Adapter.CallResult) :
    Gives P (decideValueCall place result) := by
  unfold decideValueCall
  dsimp only
  split
  · exact gives_pure (hP.bail ..)
  split
  · exact gives_pure (hP.bail ..)
  split
  · exact gives_pure (hP.bail ..)
  · exact gives_convertTo hP _ _

theorem gives_decideHelper (env : Environment) (c : Classified) (place : Place) :
    Gives P (decideHelper env c place) := by
  unfold decideHelper
  split
  · split
    · exact gives_pure (hP.bail ..)
    split
    · exact gives_pure (hP.bail ..)
    · exact gives_pure (hP.reference _)
  split
  · exact gives_pure (hP.bail ..)
  · refine .bind fun answer => ?_
    rcases answer with _ | _ | result
    · exact gives_pure (hP.bail ..)
    · exact gives_pure (hP.bail ..)
    · dsimp only
      split
      · exact gives_decideBlockCall hP place result
      · exact gives_decideValueCall hP place result

theorem gives_decideName? (env : Environment) (c : Classified) (place : Place) :
    Gives (fun d? => ∀ d ∈ d?, P d) (decideName? env c place) := by
  have hnone : ∀ d : Decision, d ∈ (none : Option Decision) → P d := nofun
  have hsome : ∀ {d : Decision}, P d → ∀ d' ∈ some d, P d' := by
    intro d hd d' hd'
    cases hd'
    exact hd
  unfold decideName?
  split
  · exact gives_pure hnone
  split
  · exact gives_pure hnone
  · exact gives_pure hnone
  · split
    · exact gives_pure (hsome (hP.bail ..))
    split
    · refine gives_pure (hsome ?_)
      split
      · exact hP.js _
      · exact hP.bail ..
    · refine .bind fun answer => ?_
      rcases answer with _ | _ | result
      · exact gives_pure (hsome (hP.bail ..))
      · exact gives_pure (hsome (hP.bail ..))
      · dsimp only
        split
        · exact (gives_convertTo hP _ _).andThen fun _ hd => gives_pure (hsome hd)
        · exact gives_pure (hsome (hP.bail ..))

/-- Slots that are neither tests nor props get such decisions from the handlers for their classes. -/
theorem gives_decideByTag (env : Environment) {c : Classified} (place : Place) (htest : c.tag ≠ .conditional)
    (hprop : c.tag ≠ .propAccess)
    (hinline : c.tag = .logical →
      P (.bail .arrowLogical ((c.path.take 1).filter (· != "theme")) (c.node.bind inlineExpression?))) :
    Gives (fun d? => ∀ d ∈ d?, P d) (decideByTag env c place) := by
  have hsome : ∀ {d : Decision}, P d → ∀ d' ∈ some d, P d' := by
    intro d hd d' hd'
    cases hd'
    exact hd
  unfold decideByTag
  split
  · exact (gives_decideTheme hP env c place).andThen fun _ hd => gives_pure (hsome hd)
  · next htag => exact absurd htag hprop
  · next htag => exact absurd htag htest
  · next htag => exact (gives_decideLogical hP env place (hinline htag)).andThen fun _ hd => gives_pure (hsome hd)
  · refine gives_pure (hsome ?_)
    split
    · exact hP.bail ..
    · exact hP.js _
  · exact (gives_decideHelper hP env c place).andThen fun _ hd => gives_pure (hsome hd)
  · exact gives_decideName? hP env c place

end

/-- The handler for the class of a slot decides so, whatever was asked before. -/
def Handled (env : Environment) (c : Classified) (place : Place) (d : Decision) : Prop :=
  ∃ t t', (decideByTag env c place).run t = (.ok (some d), t')

theorem handled_conditional_iff {env : Environment} {c : Classified} {place : Place} {d : Decision}
    (htag : c.tag = .conditional) : Handled env c place d ↔ decideConditional c place = .ok d := by
  unfold Handled decideByTag
  rw [htag]
  dsimp only
  cases hdecide : decideConditional c place with
  | error f =>
      refine iff_of_false ?_ nofun
      rintro ⟨t, t', hrun⟩
      cases hrun
  | ok d' =>
      constructor
      · rintro ⟨t, t', hrun⟩
        cases hrun
        rfl
      · rintro ⟨⟩
        exact ⟨{}, {}, rfl⟩

theorem handled_propAccess_iff {env : Environment} {c : Classified} {place : Place} {d : Decision}
    (htag : c.tag = .propAccess) : Handled env c place d ↔ decideProp c place = d := by
  unfold Handled decideByTag
  rw [htag]
  constructor
  · rintro ⟨t, t', hrun⟩
    cases hrun
    rfl
  · rintro rfl
    exact ⟨{}, {}, rfl⟩

/-- Only tests and props become variants and style functions. -/
theorem isPlain_of_handled {env : Environment} {c : Classified} {place : Place} {d : Decision}
    (h : Handled env c place d) (htest : c.tag ≠ .conditional) (hprop : c.tag ≠ .propAccess) :
    d.IsPlain := by
  obtain ⟨t, t', hrun⟩ := h
  exact gives_decideByTag unconditional_isPlain env place htest hprop (fun _ => trivial) t (some d) t' hrun d rfl

/-- Variants come from tests. -/
theorem tag_of_handled_variant {env : Environment} {c : Classified} {place : Place} {prop : String}
    {compared base : Value} {branches : List Branch}
    (h : Handled env c place (.variant prop compared base branches)) : c.tag = .conditional := by
  refine Classical.byContradiction fun htest => ?_
  by_cases hprop : c.tag = .propAccess
  · have hdecide := (handled_propAccess_iff hprop).mp h
    rcases decideProp_cases c place with ⟨_, _, heq⟩ | ⟨_, heq⟩ <;> cases heq.symm.trans hdecide
  · exact isPlain_of_handled h htest hprop

/-- Style functions come from props. -/
theorem tag_of_handled_dynamic {env : Environment} {c : Classified} {place : Place} {v : DynamicValue}
    (h : Handled env c place (.dynamic v)) : c.tag = .propAccess := by
  refine Classical.byContradiction fun hprop => ?_
  by_cases htest : c.tag = .conditional
  · rcases decideConditional_cases ((handled_conditional_iff htest).mp h) with ⟨_, _, heq⟩ | ⟨_, _, _, heq⟩ <;>
      cases heq
  · exact isPlain_of_handled h htest hprop

end Restyle.Interpolation

namespace Restyle.Component

open Restyle.Interpolation (Branch Classified Decision DynamicValue Environment Handled Place)
open Restyle.Style (Enclosure Fits Key Object Setting SlotRequest settings)
open Restyle.Tsx (Node)

/-! ## What a slot adds -/

/-- The body of the style function for an entry alone. -/
def DynamicEntry.body (entry : DynamicEntry) : Object :=
  (Registry.assign [] entry).toOption.getD []

/-- An entry, with the settings of its style function inside of blocks. -/
def DynamicEntry.reading (e : Enclosure) (entry : DynamicEntry) : String × String × List Setting :=
  (entry.key, entry.propName, settings e entry.body)

/-- The variants that a decision adds. -/
def branchesOf : Decision → List Branch
  | .variant _ _ _ branches => branches
  | _ => []

/-- The entries for style functions that a decision adds. -/
def entriesOf (c : Component) (place : Place) : Decision → List DynamicEntry
  | .dynamic v => [dynamicEntry c v place]
  | _ => []

/-- Recording a decision adds its variants and its entries to those of the component, and no others. -/
theorem record_adds (c : Component) (d : Decision) (classified : Classified) (place : Place) :
    (c.record d classified place).component.variants = (branchesOf d).foldl addBranch c.variants ∧
    (c.record d classified place).component.dynamicEntries =
      c.dynamicEntries ++ entriesOf c place d := by
  cases d with
  | convert value =>
      unfold record
      dsimp only
      split
      · split <;> exact ⟨rfl, (List.append_nil _).symm⟩
      · exact ⟨rfl, (List.append_nil _).symm⟩
  | reference code =>
      unfold record
      dsimp only
      split <;> exact ⟨rfl, (List.append_nil _).symm⟩
  | variant prop comparison base branches =>
      obtain ⟨deps, h⟩ := addPropDependencies_frame
        { c with variants := branches.foldl addBranch c.variants } [prop]
      simp only [record, h]
      exact ⟨rfl, (List.append_nil _).symm⟩
  | dynamic v =>
      obtain ⟨deps, h⟩ := addPropDependencies_frame
        { c with dynamicEntries := c.dynamicEntries ++ [dynamicEntry c v place] }
        [(dynamicEntry c v place).propName]
      simp only [record, h]
      exact ⟨rfl, rfl⟩
  | bail reason props inline =>
      unfold record recordBail
      dsimp only
      split
      · exact ⟨rfl, (List.append_nil _).symm⟩
      split
      · exact ⟨rfl, (List.append_nil _).symm⟩
      · split
        · exact ⟨rfl, (List.append_nil _).symm⟩
        · obtain ⟨deps, h⟩ := addPropDependencies_frame { c with inlineStyles := _ } props
          rw [h]
          exact ⟨rfl, (List.append_nil _).symm⟩

/-- After an addition there are the variants of before, the new one, or a merged one in its place. -/
theorem mem_addBranch {variants : List Branch} {b v : Branch} (h : v ∈ addBranch variants b) :
    v ∈ variants ∨ v = b ∨ ∃ known ∈ variants, v = { known with styles := known.styles.merge b.styles } := by
  induction variants with
  | nil => exact .inr (.inl (List.mem_singleton.mp h))
  | cons known rest ih =>
      rw [addBranch] at h
      split at h
      · rcases List.mem_cons.mp h with rfl | hrest
        · exact .inr (.inr ⟨known, List.mem_cons_self, rfl⟩)
        · exact .inl (List.mem_cons_of_mem _ hrest)
      · rcases List.mem_cons.mp h with rfl | hrest
        · exact .inl List.mem_cons_self
        · rcases ih hrest with hv | rfl | ⟨k, hk, hv⟩
          · exact .inl (List.mem_cons_of_mem _ hv)
          · exact .inr (.inl rfl)
          · exact .inr (.inr ⟨k, List.mem_cons_of_mem _ hk, hv⟩)

/-- A slot that is given up is reported. -/
theorem reports_bail (c : Component) (reason : DiagnosticKind) (props : List String)
    (inline : Option String) (classified : Classified) (place : Place) :
    reason ∈ (c.record (.bail reason props inline) classified place).reports := by
  unfold record recordBail
  dsimp only
  split
  · exact List.mem_cons_self ..
  split
  · exact List.mem_cons_self ..
  · split <;> exact List.mem_cons_self ..

/-- What a decision adds, with the settings of the styles inside of blocks. -/
def additions (c : Component) (place : Place) (e : Enclosure) (d : Decision) :
    List (String × String × List Setting) :=
  (branchesOf d).map (Branch.reading e) ++ (entriesOf c place d).map (DynamicEntry.reading e)

/--
A decision keeps the blocks around its slot.  If it gives the slot up, it reports this; if it adds
variants or a style function, these say what the slot would say without the blocks, inside of them.
-/
structure KeepsScope (env : Environment) (classified : Classified) (c : Component) (place : Place)
    (e : Enclosure) (d : Decision) : Prop where
  reported : ∀ reason props inline, d = .bail reason props inline →
    reason ∈ (c.record d classified place).reports
  kept : ¬ d.IsPlain → ∃ bare, Handled env classified place.bare bare ∧
    additions c place {} d = additions c place.bare e bare

theorem keepsScope_of_isPlain (env : Environment) (classified : Classified) (c : Component)
    (place : Place) (e : Enclosure) {d : Decision} (h : d.IsPlain) :
    KeepsScope env classified c place e d := by
  refine ⟨?_, fun hd => absurd h hd⟩
  rintro reason props inline rfl
  exact reports_bail c reason props inline classified place

/-- Branches read inside of different blocks differ if one of them has settings. -/
theorem map_reading_eq_iff (e f : Enclosure) (branches : List Branch) :
    branches.map (Branch.reading e) = branches.map (Branch.reading f) ↔
      (∀ b ∈ branches, settings {} b.styles = []) ∨ e = f := by
  have heach : ∀ b : Branch, Branch.reading e b = Branch.reading f b ↔
      settings {} b.styles = [] ∨ e = f := by
    intro b
    rw [← Style.settings_eq_iff]
    simp [Branch.reading]
  rw [List.map_inj_left]
  constructor
  · intro h
    by_cases hef : e = f
    · exact .inr hef
    · exact .inl fun b hb => ((heach b).mp (h b hb)).resolve_right hef
  · rintro (h | h) b hb
    · exact (heach b).mpr (.inl (h b hb))
    · exact (heach b).mpr (.inr h)

/-- Outside of pseudo-elements, all blocks around are conditions exactly if none is a raw selector. -/
theorem conditional_eq_iff {place : Place} {e : Enclosure} (hfits : Fits e place.request.scope)
    (helement : place.inElement = false) : place.conditional = e ↔ e.selectors = [] := by
  constructor
  · rintro rfl
    rfl
  · intro hplain
    obtain ⟨hconditions, hlast⟩ := hfits.plain hplain
    have helements : e.elements = [] := by
      rw [← List.getLast?_eq_none_iff, ← hlast]
      cases hscope : place.request.scope.pseudoElement with
      | none => rfl
      | some element =>
          have hempty := hfits.element element hscope
          simp [Place.inElement, hscope, hempty] at helement
    obtain ⟨selectors, elements, conditions⟩ := e
    cases hplain
    cases helements
    rw [Place.conditional, hconditions]

/-- The blocks that a style function knows of: the innermost condition. -/
def innermost (place : Place) : Enclosure :=
  { conditions := place.request.scope.conditions.getLast?.toList }

/-- The style function for a prop has one setting, inside of the innermost condition. -/
theorem settings_body {c : Component} {place : Place} {v : DynamicValue}
    (helement : place.inElement = false)
    (hconditions : ∀ key ∈ place.request.scope.conditions, Style.IsConditionKey key)
    (hfallback : v.fallback = .null) (e : Enclosure) :
    settings e (dynamicEntry c v place).body =
      [⟨e.append (innermost place), .name (dynamicEntry c v place).property, .js v.expression⟩] := by
  have hbody : (dynamicEntry c v place).body =
      [(.name (dynamicEntry c v place).property, Registry.functionValue (dynamicEntry c v place))] := by
    unfold DynamicEntry.body Registry.assign
    have hnone : ((dynamicEntry c v place).pseudoElement.filter fun p => !p.isEmpty) = none := by
      rw [Option.filter_eq_none_iff]
      intro element hscope
      unfold Place.inElement at helement
      rw [show (dynamicEntry c v place).pseudoElement = place.request.scope.pseudoElement from rfl]
        at hscope
      rw [hscope] at helement
      simpa using helement
    rw [hnone]
    rfl
  have hvalue : (dynamicEntry c v place).fallback.isNull = true := by
    show v.fallback.isNull = true
    rw [hfallback]
    rfl
  rw [hbody]
  unfold Registry.functionValue innermost
  rw [if_pos hvalue, show (dynamicEntry c v place).conditions = place.request.scope.conditions from rfl]
  cases hlast : place.request.scope.conditions.getLast? with
  | none =>
      dsimp only
      rw [settings, settings, Style.settingsAt, List.append_nil]
      simp [Enclosure.append, dynamicEntry]
  | some condition =>
      have hcondition := hconditions condition (List.mem_of_getLast? hlast)
      dsimp only
      rw [settings, settings, Style.settingsAt_condition _ _ hcondition, Style.settingsAt, List.append_nil]
      simp [Enclosure.append, Enclosure.under, dynamicEntry]

/-- The innermost condition is all there is around exactly if there is no raw selector and no other one. -/
theorem innermost_eq_iff {place : Place} {e : Enclosure} (hfits : Fits e place.request.scope)
    (helement : place.inElement = false) :
    innermost place = e ↔ e.selectors = [] ∧ e.conditions.length ≤ 1 := by
  constructor
  · rintro rfl
    refine ⟨rfl, ?_⟩
    unfold innermost
    cases place.request.scope.conditions.getLast? <;> simp
  · rintro ⟨hplain, hlength⟩
    have heq := (conditional_eq_iff hfits helement).mpr hplain
    subst heq
    unfold Place.conditional at hlength ⊢
    unfold innermost
    match hconditions : place.request.scope.conditions with
    | [] => rfl
    | [condition] => rfl
    | _ :: _ :: _ =>
        rw [hconditions] at hlength
        simp at hlength

theorem keepsScope_variant_iff {env : Environment} {classified : Classified} {c : Component}
    {place : Place} {e : Enclosure} {prop : String} {compared base : Style.Value} {branches : List Branch}
    (hfits : Fits e place.request.scope)
    (h : Handled env classified place (.variant prop compared base branches)) :
    KeepsScope env classified c place e (.variant prop compared base branches) ↔
      (∀ added ∈ additions c place {} (.variant prop compared base branches), added.2.2 = []) ∨
        e.selectors = [] := by
  have htag := Interpolation.tag_of_handled_variant h
  obtain ⟨helement, bare, hbare, hreading⟩ := Interpolation.reading_decideConditional hfits.conditions
    ((Interpolation.handled_conditional_iff htag).mp h)
  have hbare' : Handled env classified place.bare (.variant prop compared base bare) :=
    (Interpolation.handled_conditional_iff htag).mpr hbare
  have hadded : additions c place {} (.variant prop compared base branches) =
      bare.map (Branch.reading place.conditional) := by
    rw [← hreading]
    exact List.append_nil _
  have hkeeps : KeepsScope env classified c place e (.variant prop compared base branches) ↔
      bare.map (Branch.reading place.conditional) = bare.map (Branch.reading e) := by
    constructor
    · intro hkeeps
      obtain ⟨bare', hhandled, heq⟩ := hkeeps.kept id
      cases hbare.symm.trans ((Interpolation.handled_conditional_iff htag).mp hhandled)
      rw [← hadded, heq]
      exact List.append_nil _
    · intro heq
      refine ⟨nofun, fun _ => ⟨_, hbare', ?_⟩⟩
      rw [hadded, heq]
      exact (List.append_nil _).symm
  have hempty : (∀ b ∈ bare, settings {} b.styles = []) ↔
      ∀ added ∈ bare.map (Branch.reading place.conditional), added.2.2 = [] := by
    rw [List.forall_mem_map]
    simp only [Branch.reading, Style.settings_eq_map place.conditional, List.map_eq_nil_iff]
  rw [hkeeps, map_reading_eq_iff, conditional_eq_iff hfits helement, hempty, hadded]

theorem keepsScope_dynamic_iff {env : Environment} {classified : Classified} {c : Component}
    {place : Place} {e : Enclosure} {v : DynamicValue} (hfits : Fits e place.request.scope)
    (h : Handled env classified place (.dynamic v)) :
    KeepsScope env classified c place e (.dynamic v) ↔ e.selectors = [] ∧ e.conditions.length ≤ 1 := by
  have htag := Interpolation.tag_of_handled_dynamic h
  obtain ⟨helement, hfallback, hbare⟩ := Interpolation.decideProp_bare
    ((Interpolation.handled_propAccess_iff htag).mp h)
  have hbare' : Handled env classified place.bare (.dynamic v) :=
    (Interpolation.handled_propAccess_iff htag).mpr hbare
  have hadded := settings_body (c := c) helement hfits.conditions hfallback {}
  have hexpected : settings e (dynamicEntry c v place.bare).body =
      [⟨e.append {}, .name (dynamicEntry c v place.bare).property, .js v.expression⟩] :=
    @settings_body c place.bare v rfl nofun hfallback e
  rw [Enclosure.append_empty] at hexpected
  have hkeeps : KeepsScope env classified c place e (.dynamic v) ↔ innermost place = e := by
    constructor
    · intro hkeeps
      obtain ⟨bare', hhandled, heq⟩ := hkeeps.kept id
      cases hbare.symm.trans ((Interpolation.handled_propAccess_iff htag).mp hhandled)
      have hsettings : settings {} (dynamicEntry c v place).body =
          settings e (dynamicEntry c v place.bare).body :=
        congrArg (fun added => added.2.2) (List.cons.inj heq).1
      rw [hadded, hexpected] at hsettings
      exact congrArg Setting.around (List.cons.inj hsettings).1
    · rintro rfl
      refine ⟨nofun, fun _ => ⟨_, hbare', ?_⟩⟩
      show [(_, _, settings {} _)] = [(_, _, settings (innermost place) _)]
      rw [hadded, hexpected]
      rfl
  rw [hkeeps, innermost_eq_iff hfits helement]

/--
A decision of a handler keeps the blocks around its slot exactly if what it adds has no settings, or there
is no raw selector around the slot and a style function stands under one condition at most.
-/
theorem keepsScope_iff {env : Environment} {classified : Classified} {c : Component} {place : Place}
    {e : Enclosure} {d : Decision} (hfits : Fits e place.request.scope)
    (h : Handled env classified place d) :
    KeepsScope env classified c place e d ↔
      (∀ added ∈ additions c place {} d, added.2.2 = []) ∨
        e.selectors = [] ∧ ((∃ v, d = .dynamic v) → e.conditions.length ≤ 1) := by
  cases d with
  | variant prop compared base branches =>
      rw [keepsScope_variant_iff hfits h]
      refine or_congr_right ⟨fun hplain => ⟨hplain, ?_⟩, And.left⟩
      rintro ⟨v, ⟨⟩⟩
  | dynamic v =>
      rw [keepsScope_dynamic_iff hfits h]
      have hsome : ¬ ∀ added ∈ additions c place {} (.dynamic v), added.2.2 = [] := by
        intro hempty
        have htag := Interpolation.tag_of_handled_dynamic h
        obtain ⟨helement, hfallback, -⟩ := Interpolation.decideProp_bare
          ((Interpolation.handled_propAccess_iff htag).mp h)
        have hbody : settings {} (dynamicEntry c v place).body = [] := hempty _ (List.mem_cons_self ..)
        rw [settings_body helement hfits.conditions hfallback] at hbody
        cases hbody
      rw [or_iff_right hsome]
      exact and_congr_right fun _ => ⟨fun hlength _ => hlength, fun hlength => hlength ⟨v, rfl⟩⟩
  | convert value =>
      exact iff_of_true (keepsScope_of_isPlain env classified c place e trivial) (.inl nofun)
  | reference code =>
      exact iff_of_true (keepsScope_of_isPlain env classified c place e trivial) (.inl nofun)
  | bail reason props inline =>
      exact iff_of_true (keepsScope_of_isPlain env classified c place e trivial) (.inl nofun)

/-! ## The slots of a template -/

/-- The adapter leaves a slot to the handler for its class, which decides so. -/
structure Plant.Handles (plant : Plant) (slot : Css.PlacedSlot Node) (request : SlotRequest)
    (c : Component) (d : Decision) : Prop where
  left : Interpolation.decideByAdapter plant.env (plant.classified slot request) (c.placeOf request) = none
  handled : Handled plant.env (plant.classified slot request) (c.placeOf request) d

/-- A handled slot has its decision recorded on the component, and is answered by the record. -/
theorem resolveSlot_records (plant : Plant) (template : Css.Template Node) {request : SlotRequest}
    {slot : Css.PlacedSlot Node} (hslot : template.slot? request.index = some slot)
    {s : Session Workshop} {d : Decision} (h : plant.Handles slot request s.store.component d) :
    ∃ s', (resolveSlot plant template request).run s =
        (.ok (s.store.component.record d (plant.classified slot request)
          (s.store.component.placeOf request)).reply, s') ∧
      s'.store.component = (s.store.component.record d (plant.classified slot request)
        (s.store.component.placeOf request)).component := by
  obtain ⟨t, t', hrun⟩ := h.handled
  have hdecide : ((Interpolation.decide plant.env (plant.classified slot request)
      (s.store.component.placeOf request)).run t).1 = .ok d := by
    unfold Interpolation.decide
    rw [h.left]
    dsimp only
    rw [Work.run_bind_ok _ hrun]
    rfl
  have hconstant := (Interpolation.constant_decide plant.env (plant.classified slot request)
    (s.store.component.placeOf request)).run_fst_eq s.store.traces t
  rw [hdecide] at hconstant
  obtain ⟨diagnostics, hslotRun⟩ := run_resolveSlot plant template request hslot s
  cases hresult : (Interpolation.decide plant.env (plant.classified slot request)
      (s.store.component.placeOf request)).run s.store.traces with
  | mk result traces =>
      rw [hresult] at hconstant hslotRun
      cases hconstant
      exact ⟨_, hslotRun, rfl⟩

/-- A handled slot adds the variants and entries of its decision to the component. -/
theorem resolveSlot_adds (plant : Plant) (template : Css.Template Node) {request : SlotRequest}
    {slot : Css.PlacedSlot Node} (hslot : template.slot? request.index = some slot)
    {s : Session Workshop} {d : Decision} (h : plant.Handles slot request s.store.component d) :
    ∃ reply s', (resolveSlot plant template request).run s = (.ok reply, s') ∧
      s'.store.component.variants = (branchesOf d).foldl addBranch s.store.component.variants ∧
      s'.store.component.dynamicEntries = s.store.component.dynamicEntries ++
        entriesOf s.store.component (s.store.component.placeOf request) d := by
  obtain ⟨s', hrun, hcomponent⟩ := resolveSlot_records plant template hslot h
  refine ⟨_, s', hrun, ?_⟩
  rw [hcomponent]
  exact record_adds s.store.component d _ _

/--
A slot of a template that a handler decides adds the variants and entries of its decision.  There are blocks
around the slot, and they are kept exactly if what is added has no settings, or there is no raw selector around
the slot and a style function stands under one condition at most.
-/
theorem resolveSlot_keepsScope_iff (plant : Plant) (template : Css.Template Node) {request : SlotRequest}
    {slot : Css.PlacedSlot Node} {s : Session Workshop} {d : Decision}
    (hplaced : Style.Placed {} template.root request) (hslot : template.slot? request.index = some slot)
    (h : plant.Handles slot request s.store.component d) :
    (∃ reply s', (resolveSlot plant template request).run s = (.ok reply, s') ∧
      s'.store.component.variants = (branchesOf d).foldl addBranch s.store.component.variants ∧
      s'.store.component.dynamicEntries = s.store.component.dynamicEntries ++
        entriesOf s.store.component (s.store.component.placeOf request) d) ∧
    (∃ e, Style.PlacedIn {} {} template.root e request) ∧
    ∀ e, Style.PlacedIn {} {} template.root e request →
      (KeepsScope plant.env (plant.classified slot request) s.store.component
          (s.store.component.placeOf request) e d ↔
        (∀ added ∈ additions s.store.component (s.store.component.placeOf request) {} d,
          added.2.2 = []) ∨
        e.selectors = [] ∧ ((∃ v, d = .dynamic v) → e.conditions.length ≤ 1)) :=
  ⟨resolveSlot_adds plant template hslot h, Style.exists_placedIn hplaced {}, fun _ hin =>
    keepsScope_iff (Style.fits_of_placedIn hin Style.fits_empty) h.handled⟩

/-- A prop as the value of a declaration. -/
def colorSlot : Css.PlacedSlot Node where
  index := 0
  expression := (Tsx.readExpression "p => p.color").toOption.getD (Tsx.Source.read "").root
  place := { selector := "&", property := some "color", value := Css.Slot.markText 0, isFullValue := true }

/-- A template with that declaration in a nested rule. -/
def nestedTemplate (selector : String) : Css.Template Node where
  root :=
    { selector := "&"
      nested := [{ selector, declarations := [⟨"color", Css.Slot.markText 0⟩] }] }
  slots := [colorSlot]

/-- The request for the slot in a scope. -/
def colorRequest (scope : Style.Scope) : SlotRequest :=
  Style.wholeRequest scope "color" (Css.Slot.markText 0)

theorem asks_color (scope : Style.Scope) :
    Style.Asks (fun _ => True) scope ⟨"color", Css.Slot.markText 0⟩ (colorRequest scope) :=
  .whole ⟨by decide, by decide, by decide, by decide, by decide⟩ (by decide)

/-- A component that has nothing yet. -/
def blank : Component := { name := "Button", styleKey := "button", base := "button" }

/-- The decision for the slot in a scope. -/
def colorDecision (scope : Style.Scope) : Decision :=
  Interpolation.decideProp (Plant.classified { env := {} } colorSlot (colorRequest scope))
    (blank.placeOf (colorRequest scope))

theorem handles_color (scope : Style.Scope) :
    Plant.Handles { env := {} } colorSlot (colorRequest scope) blank (colorDecision scope) := by
  have htag : (Interpolation.classify {} 0 colorSlot.expression).tag = .propAccess := by decide +kernel
  exact ⟨rfl, (Interpolation.handled_propAccess_iff htag).mpr rfl⟩

/-- A prop under a pseudo-class keeps its scope. -/
theorem keepsScope_hover :
    KeepsScope {} (Plant.classified { env := {} } colorSlot (colorRequest { conditions := [":hover"] }))
      blank (blank.placeOf (colorRequest { conditions := [":hover"] })) { conditions := [":hover"] }
      (colorDecision { conditions := [":hover"] }) := by
  have hplaced : Style.PlacedIn {} {} (nestedTemplate "&:hover").root { conditions := [":hover"] }
      (colorRequest { conditions := [":hover"] }) :=
    .inPath (List.mem_cons_self ..)
      (show Style.nestedPaths? "&:hover" = some [[":hover"]] by decide)
      (List.mem_cons_self ..) (.own (List.mem_cons_self ..) (asks_color _))
  have hslot : (nestedTemplate "&:hover").slot? 0 = some colorSlot := rfl
  refine ((resolveSlot_keepsScope_iff { env := {} } (nestedTemplate "&:hover")
    (s := { store := { component := blank } }) hplaced.placed hslot (handles_color _)).2.2 _ hplaced).mpr ?_
  exact .inr ⟨rfl, fun _ => Nat.le_refl 1⟩

/-- A prop under a raw selector loses its scope. -/
theorem not_keepsScope_children :
    Style.PlacedIn {} {} (nestedTemplate "& > *").root { selectors := ["& > *"] }
      (colorRequest { selector := "& > *" }) ∧
    Plant.Handles { env := {} } colorSlot (colorRequest { selector := "& > *" }) blank
      (colorDecision { selector := "& > *" }) ∧
    ¬ KeepsScope {} (Plant.classified { env := {} } colorSlot (colorRequest { selector := "& > *" }))
      blank (blank.placeOf (colorRequest { selector := "& > *" })) { selectors := ["& > *"] }
      (colorDecision { selector := "& > *" }) := by
  have hplaced : Style.PlacedIn {} {} (nestedTemplate "& > *").root { selectors := ["& > *"] }
      (colorRequest { selector := "& > *" }) :=
    .inRaw (List.mem_cons_self ..) (show Style.nestedPaths? "& > *" = none by decide)
      (show Css.isAtRule "& > *" = false by decide) (.own (List.mem_cons_self ..) (asks_color _))
  refine ⟨hplaced, handles_color _, fun hkeeps => ?_⟩
  have hdynamic : (match colorDecision { selector := "& > *" } with
      | .dynamic _ => true
      | _ => false) = true := by
    decide
  have hhandled := (handles_color { selector := "& > *" }).handled
  cases hdecision : colorDecision { selector := "& > *" } with
  | dynamic v =>
      rw [hdecision] at hkeeps hhandled
      have hplain := (keepsScope_dynamic_iff
        (Style.fits_of_placedIn hplaced Style.fits_empty) hhandled).mp hkeeps
      cases hplain.1
  | _ =>
      rw [hdecision] at hdynamic
      cases hdynamic

end Restyle.Component
