import Restyle.Proofs.Table
import Restyle.Proofs.Work
import Restyle.Registry

/-!
# Registries that cannot be written

A value has no literal form exactly when a static block stands somewhere in it.  The style functions of a
component fail before that: a pseudo-element may have been given a plain value as if it were a property.
-/

namespace Restyle.Style

/-- A static block stands somewhere in a value. -/
inductive Value.HasBlock : Value → Prop where
  | here {css : String} : HasBlock (.block css)
  | item {items : List Value} {value : Value} : value ∈ items → HasBlock value → HasBlock (.list items)
  | entry {entries : Object} {key : Key} {value : Value} :
      (key, value) ∈ entries → HasBlock value → HasBlock (.obj entries)

theorem hasBlock_list_iff (items : List Value) :
    Value.HasBlock (.list items) ↔ ∃ value ∈ items, value.HasBlock := by
  constructor
  · intro h
    cases h with
    | item hmem h => exact ⟨_, hmem, h⟩
  · rintro ⟨value, hmem, h⟩
    exact .item hmem h

theorem hasBlock_obj_iff (entries : Object) :
    Value.HasBlock (.obj entries) ↔ ∃ entry ∈ entries, entry.2.HasBlock := by
  constructor
  · intro h
    cases h with
    | entry hmem h => exact ⟨_, hmem, h⟩
  · rintro ⟨⟨key, value⟩, hmem, h⟩
    exact .entry hmem h

mutual

/-- A value can be rendered unless there is a static block in it. -/
theorem renderValue_error_iff (level : Nat) :
    ∀ value : Value, (∃ f, renderValue level value = .error f) ↔ value.HasBlock
  | .null => iff_of_false (by simp [renderValue]) nofun
  | .bool true => iff_of_false (by simp [renderValue]) nofun
  | .bool false => iff_of_false (by simp [renderValue]) nofun
  | .int _ => iff_of_false (by simp [renderValue]) nofun
  | .float _ => iff_of_false (by simp [renderValue]) nofun
  | .text _ => iff_of_false (by simp [renderValue]) nofun
  | .js _ => iff_of_false (by simp [renderValue]) nofun
  | .block _ => iff_of_true ⟨_, by rw [renderValue]⟩ .here
  | .list items => by
      rw [hasBlock_list_iff, ← renderItems_error_iff level items, renderValue]
      cases renderItems level items <;> simp [bind, Except.bind, pure, Except.pure]
  | .obj [] => by
      rw [hasBlock_obj_iff]
      simp [renderValue]
  | .obj (entry :: entries) => by
      rw [hasBlock_obj_iff, ← renderEntries_error_iff (level + 1) (entry :: entries), renderValue]
      cases renderEntries (level + 1) (entry :: entries) <;>
        simp [bind, Except.bind, pure, Except.pure]

theorem renderItems_error_iff (level : Nat) :
    ∀ items : List Value, (∃ f, renderItems level items = .error f) ↔ ∃ v ∈ items, v.HasBlock
  | [] => by simp [renderItems]
  | item :: items => by
      simp only [List.mem_cons, exists_eq_or_imp]
      rw [← renderValue_error_iff level item, ← renderItems_error_iff level items, renderItems]
      cases renderValue level item <;> cases renderItems level items <;>
        simp [bind, Except.bind, pure, Except.pure]

theorem renderEntries_error_iff (level : Nat) :
    ∀ entries : Object, (∃ f, renderEntries level entries = .error f) ↔ ∃ e ∈ entries, e.2.HasBlock
  | [] => by simp [renderEntries]
  | (key, value) :: entries => by
      simp only [List.mem_cons, exists_eq_or_imp]
      rw [← renderValue_error_iff level value, ← renderEntries_error_iff level entries, renderEntries]
      cases renderValue level value <;> cases renderEntries level entries <;>
        simp [bind, Except.bind, pure, Except.pure]

end

end Restyle.Style

namespace Restyle.Registry

open Restyle.Component (DynamicEntry)
open Restyle.Style (Key Object Value)

/-! ## Style functions -/

/-- The pseudo-element that a style function writes into. -/
def elementOf? (e : DynamicEntry) : Option String :=
  e.pseudoElement.filter fun p => !p.isEmpty

/-- A style function gives a name a value that holds under all conditions. -/
structure Fills (e : DynamicEntry) (key name : String) : Prop where
  key_eq : e.key = key
  plain : elementOf? e = none
  property_eq : e.property = name
  always : e.conditions = []

/-- A style function replaces what a name held. -/
def Replaces (e : DynamicEntry) (key name : String) : Prop :=
  e.key = key ∧ elementOf? e = none ∧ e.property = name

/-- After a row of style functions, a name holds a plain value. -/
def LeftPlain (entries : List DynamicEntry) (key name : String) : Prop :=
  ∃ before filler between, entries = before ++ filler :: between ∧ Fills filler key name ∧
    ∀ other ∈ between, ¬ Replaces other key name

/-- A property of a pseudo-element follows a plain value that the pseudo-element itself holds. -/
def Unwritable (entries : List DynamicEntry) : Prop :=
  ∃ before e after name, entries = before ++ e :: after ∧ elementOf? e = some name ∧
    LeftPlain before e.key name

theorem leftPlain_cons_iff (e : DynamicEntry) (entries : List DynamicEntry) (key name : String) :
    LeftPlain (e :: entries) key name ↔
      LeftPlain entries key name ∨
        Fills e key name ∧ ∀ other ∈ entries, ¬ Replaces other key name := by
  constructor
  · rintro ⟨before, filler, between, h, hfills, hkept⟩
    cases before with
    | nil =>
        cases h
        exact .inr ⟨hfills, hkept⟩
    | cons x before =>
        cases h
        exact .inl ⟨before, filler, between, rfl, hfills, hkept⟩
  · rintro (⟨before, filler, between, rfl, hfills, hkept⟩ | ⟨hfills, hkept⟩)
    · exact ⟨e :: before, filler, between, rfl, hfills, hkept⟩
    · exact ⟨[], e, entries, rfl, hfills, hkept⟩

/-- One more property of the style functions. -/
def addFunction (functions : Table StyleFunction) (e : DynamicEntry) :
    Except Fault (Table StyleFunction) := do
  let known := (functions.get? e.key).getD { paramName := e.paramName, paramType := e.paramType }
  let body ← assign known.body e
  return functions.set e.key { known with body }

theorem functionsOf_eq (entries : List DynamicEntry) :
    functionsOf entries = entries.foldlM addFunction [] := rfl

/-- A style function has a plain value under a name. -/
def HoldsPlain (functions : Table StyleFunction) (key name : String) : Prop :=
  ∃ f, functions.get? key = some f ∧
    ∃ value, Object.get? f.body (.name name) = some value ∧ value.isObject = false

theorem isObject_functionValue (e : DynamicEntry) :
    (functionValue e).isObject = false ↔ e.conditions = [] := by
  unfold functionValue
  cases h : e.conditions.getLast? with
  | none => simpa [Value.isObject] using h
  | some condition =>
      refine iff_of_false (by simp [Value.isObject]) fun hnil => ?_
      rw [hnil] at h
      cases h

theorem assign_plain {e : DynamicEntry} (h : elementOf? e = none) (body : Object) :
    assign body e = .ok (Object.set body (.name e.property) (functionValue e)) := by
  unfold assign
  rw [show e.pseudoElement.filter (fun p => !p.isEmpty) = none from h]

/-- A property goes into its pseudo-element unless that holds a plain value. -/
theorem assign_element {e : DynamicEntry} {name : String} (h : elementOf? e = some name)
    (body : Object) :
    ((∃ f, assign body e = .error f) ↔
        ∃ value, Object.get? body (.name name) = some value ∧ value.isObject = false) ∧
      ∀ body', assign body e = .ok body' → ∃ inner, body' = Object.set body (.name name) (.obj inner) := by
  unfold assign
  rw [show e.pseudoElement.filter (fun p => !p.isEmpty) = some name from h]
  dsimp only
  cases hvalue : Object.get? body (.name name) with
  | none =>
      refine ⟨by simp, fun body' h => ?_⟩
      cases h
      exact ⟨_, rfl⟩
  | some value =>
      cases value with
      | obj inner =>
          refine ⟨by simp [Value.isObject], fun body' h => ?_⟩
          cases h
          exact ⟨_, rfl⟩
      | _ =>
          refine ⟨by simp [Value.isObject], fun body' h => ?_⟩
          cases h

/-- The style function that a property belongs to, as it was before. -/
def knownFunction (functions : Table StyleFunction) (e : DynamicEntry) : StyleFunction :=
  (functions.get? e.key).getD { paramName := e.paramName, paramType := e.paramType }

theorem addFunction_error_iff_assign (functions : Table StyleFunction) (e : DynamicEntry) :
    (∃ f, addFunction functions e = .error f) ↔
      ∃ f, assign (knownFunction functions e).body e = .error f := by
  unfold addFunction
  change (∃ f, (assign (knownFunction functions e).body e >>= fun _ => _) = _) ↔ _
  cases assign (knownFunction functions e).body e <;> simp [bind, Except.bind, pure, Except.pure]

theorem addFunction_eq_ok {functions next : Table StyleFunction} {e : DynamicEntry}
    (h : addFunction functions e = .ok next) :
    ∃ body, assign (knownFunction functions e).body e = .ok body ∧
      next = functions.set e.key { knownFunction functions e with body } := by
  unfold addFunction at h
  change (assign (knownFunction functions e).body e >>= fun _ => _) = _ at h
  cases hassign : assign (knownFunction functions e).body e with
  | error f =>
      rw [hassign] at h
      cases h
  | ok body =>
      rw [hassign] at h
      cases h
      exact ⟨body, rfl, rfl⟩

theorem holdsPlain_iff_known (functions : Table StyleFunction) (e : DynamicEntry) (name : String) :
    HoldsPlain functions e.key name ↔
      ∃ value, Object.get? (knownFunction functions e).body (.name name) = some value ∧
        value.isObject = false := by
  unfold HoldsPlain knownFunction
  cases functions.get? e.key <;> simp

/-- A property cannot be added exactly when its pseudo-element holds a plain value. -/
theorem addFunction_error_iff (functions : Table StyleFunction) (e : DynamicEntry) :
    (∃ f, addFunction functions e = .error f) ↔
      ∃ name, elementOf? e = some name ∧ HoldsPlain functions e.key name := by
  rw [addFunction_error_iff_assign]
  cases helement : elementOf? e with
  | none =>
      rw [assign_plain helement]
      simp
  | some name =>
      rw [(assign_element helement _).1]
      simp [holdsPlain_iff_known]

/-- A name holds a plain value after a property that fills it, or as before unless it is replaced. -/
theorem holdsPlain_addFunction {functions next : Table StyleFunction} {e : DynamicEntry}
    (h : addFunction functions e = .ok next) (key name : String) :
    HoldsPlain next key name ↔
      Fills e key name ∨ HoldsPlain functions key name ∧ ¬ Replaces e key name := by
  obtain ⟨body, hassign, rfl⟩ := addFunction_eq_ok h
  by_cases hkey : e.key = key
  · subst hkey
    rw [holdsPlain_iff_known functions e name]
    simp only [HoldsPlain, Table.get?_set_self, Option.some.injEq, exists_eq_left']
    cases helement : elementOf? e with
    | none =>
        rw [assign_plain helement] at hassign
        cases hassign
        by_cases hname : e.property = name
        · subst hname
          simp only [Object.get?_set_self, Option.some.injEq, exists_eq_left',
            isObject_functionValue]
          constructor
          · exact fun halways => .inl ⟨rfl, helement, rfl, halways⟩
          · rintro (hfills | ⟨-, hnot⟩)
            · exact hfills.always
            · exact absurd ⟨rfl, helement, rfl⟩ hnot
        · have hne : Key.name e.property ≠ Key.name name := fun heq => hname (Key.name.inj heq)
          rw [Object.get?_set_of_ne _ _ hne]
          constructor
          · exact fun hold => .inr ⟨hold, fun hr => hname hr.2.2⟩
          · rintro (hfills | ⟨hold, -⟩)
            · exact absurd hfills.property_eq hname
            · exact hold
    | some element =>
        obtain ⟨hfails, hset⟩ := assign_element helement (knownFunction functions e).body
        obtain ⟨inner, rfl⟩ := hset body hassign
        have hnot : ¬ Replaces e e.key name := fun hr => nomatch helement.symm.trans hr.2.1
        have hnofill : ¬ Fills e e.key name := fun hf => nomatch helement.symm.trans hf.plain
        by_cases hname : element = name
        · subst hname
          have hfree := mt hfails.mpr (by rw [hassign]; simp)
          simp only [Object.get?_set_self, Option.some.injEq, exists_eq_left']
          refine iff_of_false (by simp [Value.isObject]) ?_
          rintro (hfills | ⟨hold, -⟩)
          · exact hnofill hfills
          · exact hfree hold
        · have hne : Key.name element ≠ Key.name name := fun heq => hname (Key.name.inj heq)
          rw [Object.get?_set_of_ne _ _ hne]
          simp [hnot, hnofill]
  · have hother : HoldsPlain (functions.set e.key { knownFunction functions e with body }) key name ↔
        HoldsPlain functions key name := by
      unfold HoldsPlain
      rw [Table.get?_set_of_ne _ _ hkey]
    rw [hother]
    constructor
    · exact fun hold => .inr ⟨hold, fun hr => hkey hr.1⟩
    · rintro (hfills | ⟨hold, -⟩)
      · exact absurd hfills.key_eq hkey
      · exact hold

theorem holdsPlain_foldlM {entries : List DynamicEntry} {functions done : Table StyleFunction}
    (h : entries.foldlM addFunction functions = .ok done) (key name : String) :
    HoldsPlain done key name ↔
      LeftPlain entries key name ∨
        HoldsPlain functions key name ∧ ∀ e ∈ entries, ¬ Replaces e key name := by
  induction entries generalizing functions with
  | nil =>
      cases h
      simp [LeftPlain]
  | cons e entries ih =>
      rw [List.foldlM_cons] at h
      cases he : addFunction functions e with
      | error f =>
          rw [he] at h
          cases h
      | ok next =>
          rw [he] at h
          rw [ih h, holdsPlain_addFunction he, leftPlain_cons_iff, List.forall_mem_cons]
          grind

/-- The style functions of a component fail exactly at a property that cannot be written. -/
theorem functionsOf_error_iff (entries : List DynamicEntry) :
    (∃ f, functionsOf entries = .error f) ↔ Unwritable entries := by
  rw [functionsOf_eq]
  constructor
  · intro h
    obtain ⟨before, e, after, functions, rfl, hbefore, herror⟩ := foldlM_error_iff.mp h
    obtain ⟨name, helement, hholds⟩ := (addFunction_error_iff functions e).mp herror
    refine ⟨before, e, after, name, rfl, helement, ?_⟩
    simpa [HoldsPlain, Table.get?] using (holdsPlain_foldlM hbefore e.key name).mp hholds
  · rintro ⟨before, e, after, name, rfl, helement, hplain⟩
    cases hrun : (before ++ e :: after).foldlM addFunction [] with
    | error f => exact ⟨f, rfl⟩
    | ok done =>
        obtain ⟨functions, next, hbefore, hnext, -⟩ := foldlM_ok_of_mem hrun
        have hholds := (holdsPlain_foldlM hbefore e.key name).mpr (.inl hplain)
        obtain ⟨f, hf⟩ := (addFunction_error_iff functions e).mpr ⟨name, helement, hholds⟩
        cases hnext.symm.trans hf

/-! ## The registry and its text -/

theorem entriesOf_error_iff (c : Component) :
    (∃ f, entriesOf c = .error f) ↔ Unwritable c.dynamicEntries :=
  bind_pure_error_iff.trans (functionsOf_error_iff _)

/-- There is a registry unless a component has style functions that cannot be written. -/
theorem ofComponents_error_iff (mixins : Table Object) (arena : Arena) :
    (∃ f, ofComponents mixins arena = .error f) ↔
      ∃ c ∈ arena.values, Unwritable c.dynamicEntries := by
  simp only [← entriesOf_error_iff, ← mapM_error_iff]
  exact bind_pure_error_iff

theorem renderStyles_error_iff (level : Nat) (o : Object) :
    (∃ f, renderStyles level o = .error f) ↔ Value.HasBlock (.obj o) := by
  rw [← Style.renderValue_error_iff level]
  unfold renderStyles Style.renderObject
  cases h : Style.renderValue level (.obj o) with
  | ok text => simp
  | error f =>
      cases f
      exact iff_of_true ⟨_, rfl⟩ ⟨_, rfl⟩

/-- The styles of an entry. -/
def stylesOf : RegistryEntry → Object
  | .styles o => o
  | .function f => f.body

theorem entry_error_iff (d : Dialect) (entry : RegistryEntry) :
    (∃ f, d.entry entry = .error f) ↔ Value.HasBlock (.obj (stylesOf entry)) := by
  cases entry with
  | styles o => exact renderStyles_error_iff 1 o
  | function f => exact bind_pure_error_iff.trans (renderStyles_error_iff 1 f.body)

/-- A registry has a text unless a static block stands in one of its entries. -/
theorem declaration_error_iff (d : Dialect) (r : Registry) :
    (∃ f, d.declaration r = .error f) ↔ ∃ entry ∈ r, Value.HasBlock (.obj (stylesOf entry.2)) := by
  have hlines : (∃ f, r.mapM (fun entry => do
      return "  " ++ Style.renderKey (.name entry.1) ++ ": " ++ (← d.entry entry.2) ++ ",") = .error f) ↔
        ∃ entry ∈ r, Value.HasBlock (.obj (stylesOf entry.2)) := by
    rw [mapM_error_iff]
    simp only [bind_pure_error_iff, entry_error_iff]
  rw [← hlines]
  unfold Dialect.declaration
  cases r with
  | nil => exact iff_of_false nofun nofun
  | cons entry r => exact bind_pure_error_iff

theorem keyframes_error_iff (d : Dialect) (name : String) (frames : Object) :
    (∃ f, d.keyframes name frames = .error f) ↔ Value.HasBlock (.obj frames) :=
  bind_pure_error_iff.trans (renderStyles_error_iff 0 frames)

end Restyle.Registry
