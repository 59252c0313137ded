import Restyle.Interpolation.Handlers
import Restyle.Proofs.Work

/-!
# What decisions depend on

A decision leaves traces of the questions it asked, but no earlier trace has an influence on it.  The
registry keys of mixins only matter for the text of a reference.  A test becomes variants if all of its
branches have styles, an empty one none; how its branches become variants, one after the other, and when the
test as a whole is taken, is stated here once.
-/

namespace Restyle.Interpolation

open Restyle.Style (Value)
open Work (Alike Constant)

variable {α : Type}

/-! ## Decisions and traces -/

theorem constant_pure (a : α) : Constant (pure a : Deciding α) :=
  Alike.pure a

theorem constant_lift (x : Except Fault α) : Constant (liftM x : Deciding α) := by
  cases x with
  | ok a => exact Alike.pure a
  | error f => exact Alike.throw f

theorem constant_modify (f : Traces → Traces) : Constant (modify f : Deciding Unit) :=
  fun _ _ _ => ⟨rfl, trivial⟩

theorem constant_askValue (env : Environment) (q : Adapter.ValueQuery) :
    Constant (Deciding.askValue env q) :=
  (constant_modify _).bind fun _ => constant_pure _

theorem constant_askCall (env : Environment) (q : Adapter.CallQuery) :
    Constant (Deciding.askCall env q) :=
  (constant_modify _).bind fun _ => constant_pure _

theorem constant_convertTo (expr : String) (specs : List Adapter.ImportSpec) :
    Constant (Deciding.convertTo expr specs) :=
  (constant_modify _).bind fun _ => constant_pure _

theorem constant_decideTheme (env : Environment) (c : Classified) (place : Place) :
    Constant (decideTheme env c place) := by
  refine (constant_askValue env _).bind fun answer => ?_
  rcases answer with _ | _ | result
  · exact constant_pure _
  · exact constant_pure _
  · dsimp only
    split
    · exact constant_convertTo _ _
    · exact constant_pure _

theorem constant_decideLogical (env : Environment) (c : Classified) (place : Place) :
    Constant (decideLogical env c place) := by
  unfold decideLogical
  split
  · refine (constant_askValue env _).bind fun answer => ?_
    rcases answer with _ | _ | result
    · exact constant_pure _
    · exact constant_pure _
    · dsimp only
      split
      · exact constant_convertTo _ _
      · exact constant_pure _
  · exact constant_pure _

theorem constant_decideBlockCall (place : Place) (result : Adapter.CallResult) :
    Constant (decideBlockCall place result) := by
  unfold decideBlockCall
  dsimp only
  split
  · exact constant_pure _
  split
  · split
    · exact constant_pure _
    split
    · exact constant_pure _
    · refine (constant_lift _).bind fun styles => ?_
      rcases styles with _ | styles
      · exact constant_pure _
      · dsimp only
        split
        · exact constant_pure _
        · exact (constant_modify _).bind fun _ => constant_pure _
  · split
    · exact constant_pure _
    · exact (constant_modify _).bind fun _ => constant_pure _

theorem constant_decideValueCall (place : Place) (result : Adapter.CallResult) :
    Constant (decideValueCall place result) := by
  unfold decideValueCall
  dsimp only
  split
  · exact constant_pure _
  split
  · exact constant_pure _
  split
  · exact constant_pure _
  · exact constant_convertTo _ _

theorem constant_decideHelper (env : Environment) (c : Classified) (place : Place) :
    Constant (decideHelper env c place) := by
  unfold decideHelper
  split
  · split
    · exact constant_pure _
    split <;> exact constant_pure _
  split
  · exact constant_pure _
  · refine (constant_askCall env _).bind fun answer => ?_
    rcases answer with _ | _ | result
    · exact constant_pure _
    · exact constant_pure _
    · dsimp only
      split
      · exact constant_decideBlockCall place result
      · exact constant_decideValueCall place result

theorem constant_decideName? (env : Environment) (c : Classified) (place : Place) :
    Constant (decideName? env c place) := by
  unfold decideName?
  split
  · exact constant_pure _
  split
  · exact constant_pure _
  · exact constant_pure _
  · split
    · exact constant_pure _
    split
    · exact constant_pure _
    · refine (constant_askValue env _).bind fun answer => ?_
      rcases answer with _ | _ | result
      · exact constant_pure _
      · exact constant_pure _
      · dsimp only
        split
        · exact (constant_convertTo _ _).bind fun _ => constant_pure _
        · exact constant_pure _

/-- Earlier traces have no influence on a decision. -/
theorem constant_decide (env : Environment) (c : Classified) (place : Place) :
    Constant (decide env c place) := by
  unfold decide
  split
  · exact constant_pure _
  · refine Alike.bind ?_ fun _ => constant_pure _
    unfold decideByTag
    split
    · exact (constant_decideTheme env c place).bind fun _ => constant_pure _
    · exact constant_pure _
    · exact (constant_lift _).bind fun _ => constant_pure _
    · exact (constant_decideLogical env c place).bind fun _ => constant_pure _
    · exact constant_pure _
    · exact (constant_decideHelper env c place).bind fun _ => constant_pure _
    · exact constant_decideName? env c place

/-! ## Decisions and the keys of mixins -/

/-- The environment with other registry keys for mixins. -/
def Environment.withKeys (env : Environment) (keys : Table String) : Environment :=
  { env with mixinKeys := keys }

/-- Other keys give the same decision, or a reference where there was one. -/
theorem decideHelper_withKeys (env : Environment) (keys : Table String) (c : Classified)
    (place : Place) :
    decideHelper (env.withKeys keys) c place = decideHelper env c place ∨
      ∃ code code', decideHelper env c place = pure (.reference code) ∧
        decideHelper (env.withKeys keys) c place = pure (.reference code') := by
  unfold decideHelper
  cases c.mixinName.filter fun n => !n.isEmpty with
  | none => exact .inl rfl
  | some name =>
      dsimp only
      by_cases hblock : (!place.isBlock) = true
      · simp only [hblock, if_true]
        exact .inl trivial
      · by_cases hnested : place.isNested = true
        · simp only [hblock, hnested, Bool.false_eq_true, if_false, if_true]
          exact .inl trivial
        · simp only [hblock, hnested, Bool.false_eq_true, if_false]
          exact .inr ⟨_, _, rfl, rfl⟩

/-- Other keys for mixins change nothing in a decision but the text of a reference. -/
theorem decide_withKeys (env : Environment) (keys : Table String) (c : Classified) (place : Place) :
    decide (env.withKeys keys) c place = decide env c place ∨
      ∃ code code', decide env c place = pure (.reference code) ∧
        decide (env.withKeys keys) c place = pure (.reference code') := by
  unfold decide
  have hadapter : decideByAdapter (env.withKeys keys) c place = decideByAdapter env c place := rfl
  rw [hadapter]
  cases decideByAdapter env c place with
  | some d => exact .inl rfl
  | none =>
      dsimp only
      unfold decideByTag
      cases c.tag with
      | helperCall =>
          rcases decideHelper_withKeys env keys c place with h | ⟨code, code', h, h'⟩
          · dsimp only
            rw [h]
            exact .inl rfl
          · refine .inr ⟨code, code', ?_, ?_⟩
            · dsimp only
              rw [h]
              rfl
            · dsimp only
              rw [h']
              rfl
      | _ => exact .inl rfl

/-! ## Branches of tests -/

/-- Whether there is a pseudo-element around a place. -/
def Place.inElement (place : Place) : Bool :=
  place.request.scope.pseudoElement.any fun e => !e.isEmpty

/-- A branch in front of others becomes a variant in front of theirs, unless it has no styles. -/
theorem branchesOf_cons_eq_ok_iff {place : Place} {name guard : String} {value : Value}
    {rest : List ((String × String) × Value)} {branches : List Branch} :
    branchesOf place (((name, guard), value) :: rest) = .ok (.ok branches) ↔
      ∃ styles more, branchStyles value place = .ok (.ok styles) ∧ branchesOf place rest = .ok (.ok more) ∧
        branches = if styles.isEmpty then more else { name, guard, styles } :: more := by
  rw [branchesOf]
  cases branchStyles value place with
  | error fault => exact iff_of_false nofun nofun
  | ok result =>
      cases result with
      | error problem => exact iff_of_false nofun nofun
      | ok styles =>
          cases branchesOf place rest with
          | error fault => exact iff_of_false nofun nofun
          | ok result =>
              cases result with
              | error problem => exact iff_of_false nofun nofun
              | ok more =>
                  constructor
                  · intro h
                    exact ⟨styles, more, rfl, rfl, (Except.ok.inj (Except.ok.inj h)).symm⟩
                  · rintro ⟨_, _, ⟨⟩, ⟨⟩, rfl⟩
                    rfl

/-- Each variant has the name, the guard and the styles of a branch. -/
theorem mem_of_branchesOf {place : Place} {given : List ((String × String) × Value)}
    {branches : List Branch} (h : branchesOf place given = .ok (.ok branches)) :
    ∀ b ∈ branches, ∃ value, ((b.name, b.guard), value) ∈ given ∧
      branchStyles value place = .ok (.ok b.styles) := by
  induction given generalizing branches with
  | nil =>
      cases h
      exact nofun
  | cons head rest ih =>
      obtain ⟨⟨name, guard⟩, value⟩ := head
      obtain ⟨styles, more, hstyles, hrest, rfl⟩ := branchesOf_cons_eq_ok_iff.mp h
      intro b hb
      split at hb
      · obtain ⟨value', hmem, hvalue⟩ := ih hrest b hb
        exact ⟨value', List.mem_cons_of_mem _ hmem, hvalue⟩
      · rcases List.mem_cons.mp hb with rfl | hb
        · exact ⟨value, List.mem_cons_self .., hstyles⟩
        · obtain ⟨value', hmem, hvalue⟩ := ih hrest b hb
          exact ⟨value', List.mem_cons_of_mem _ hmem, hvalue⟩

/-- The branches of a test, with the names and guards that their variants get. -/
def Classified.branches (c : Classified) (styleKey : String) : List ((String × String) × Value) :=
  ((branchNames c styleKey).1, c.truthy) ::
    if c.hasFalsyBranch then [((branchNames c styleKey).2, c.falsy)] else []

/-- A test becomes variants exactly if it tests a prop, no pseudo-element is around it, its slot is the only
one of the declaration, and its branches become variants. -/
theorem decideConditional_eq_variant_iff {c : Classified} {place : Place} {prop : String}
    {compared base : Value} {branches : List Branch} :
    decideConditional c place = .ok (.variant prop compared base branches) ↔
      (c.isThemePath = false ∧ place.inElement = false ∧
        (!place.isBlock && Css.Slot.others place.request.value place.request.index) = false) ∧
      branchesOf place (c.branches place.styleKey) = .ok (.ok branches) ∧
      prop = c.path.head?.getD "" ∧ compared = (c.comparison.map (·.2)).getD .null ∧ base = .null := by
  unfold decideConditional Place.inElement Classified.branches
  dsimp only
  cases c.isThemePath
  case true => exact iff_of_false nofun nofun
  cases place.request.scope.pseudoElement.any fun e => !e.isEmpty
  case true => exact iff_of_false nofun nofun
  cases !place.isBlock && Css.Slot.others place.request.value place.request.index
  case true => exact iff_of_false nofun nofun
  cases branchesOf place (((branchNames c place.styleKey).1, c.truthy) ::
    if c.hasFalsyBranch = true then [((branchNames c place.styleKey).2, c.falsy)] else []) with
  | error fault => exact iff_of_false nofun nofun
  | ok result =>
      cases result with
      | error problem => exact iff_of_false nofun nofun
      | ok more =>
          constructor
          · rintro ⟨⟩
            exact ⟨⟨rfl, rfl, rfl⟩, rfl, rfl, rfl, rfl⟩
          · rintro ⟨-, ⟨⟩, rfl, rfl, rfl⟩
            rfl

end Restyle.Interpolation
