import Mathlib.Logic.Function.Basic
import Restyle.Plan.Planner
import Restyle.Proofs.Rendering

/-!
# What style functions assign

The entries of a component with the same key share one style function.  Each of them writes its expression
into the body, over whatever stood there, and all read the one parameter, which gets the prop of the first
entry.  So the value of an entry is lost where a later one writes over its place, where it stands under
several conditions, and where the first entry has another parameter or is called with another prop.
-/

namespace Restyle.Style

/-- The value at the end of a path of keys. -/
def Value.at? : Value → List Key → Option Value
  | v, [] => some v
  | .obj o, key :: path => (Object.get? o key).bind fun v => Value.at? v path
  | _, _ :: _ => none

theorem Value.at?_cons (o : Object) (key : Key) (path : List Key) :
    Value.at? (.obj o) (key :: path) = (o.get? key).bind fun v => Value.at? v path := by
  rw [Value.at?]

theorem Value.at?_set_self (o : Object) (key : Key) (value : Value) (path : List Key) :
    Value.at? (.obj (o.set key value)) (key :: path) = value.at? path := by
  rw [Value.at?_cons, Object.get?_set_self, Option.bind_some]

theorem Value.at?_set_of_ne (o : Object) {key other : Key} (h : key ≠ other) (value : Value)
    (path : List Key) :
    Value.at? (.obj (o.set key value)) (other :: path) = Value.at? (.obj o) (other :: path) := by
  rw [Value.at?_cons, Value.at?_cons, Object.get?_set_of_ne o value h]

end Restyle.Style

namespace Restyle.Registry

open Restyle.Component (DynamicEntry)
open Restyle.Style (Key Object Value)

/-! ## Places in a body -/

/-- The expression that an entry assigns. -/
def codeOf (e : DynamicEntry) : String :=
  if e.fallback.isNull then e.expression
  else e.expression ++ " ?? " ++ Style.literalCode e.fallback

/-- The path at which an entry writes: its property, inside of its pseudo-element. -/
def slot (e : DynamicEntry) : List Key :=
  (elementOf? e).toList.map Key.name ++ [.name e.property]

/-- The path to the value of an entry, under its conditions. -/
def place (e : DynamicEntry) : List Key :=
  slot e ++ e.conditions.map Key.name

/-- What an entry leaves at a path below the one at which it writes. -/
def leaves (e : DynamicEntry) (path : List Key) : Option Value :=
  (functionValue e).at? (path.drop (slot e).length)

/-- Of several conditions only the innermost one is written, so nothing stands under all of them. -/
theorem leaves_place_iff (e : DynamicEntry) :
    leaves e (place e) = some (.js (codeOf e)) ↔ e.conditions.length ≤ 1 := by
  rw [leaves, place, List.drop_left]
  unfold functionValue
  match hconditions : e.conditions with
  | [] => exact iff_of_true rfl (Nat.zero_le 1)
  | [condition] =>
      refine iff_of_true ?_ (Nat.le_refl 1)
      exact Value.at?_set_self [(Key.default, .null)] (.name condition) (.js (codeOf e)) []
  | first :: second :: rest =>
      refine iff_of_false ?_ (by simp)
      rw [List.getLast?_cons_cons, List.getLast?_cons]
      simp only [List.map_cons, Value.at?_cons]
      by_cases hlast : Key.name ((rest.getLast?).getD second) = .name first
      · rw [hlast, Object.get?_set_self]
        exact nofun
      · rw [Object.get?_set_of_ne _ _ hlast, Object.get?_cons]
        split <;> exact nofun

/-- Writing into a pseudo-element, spelled out. -/
theorem assign_inElement {e : DynamicEntry} {name : String} (h : elementOf? e = some name)
    {body body' : Object} (hassign : assign body e = .ok body') :
    ∃ inner : Object, (body.get? (.name name) = some (.obj inner) ∨
        body.get? (.name name) = none ∧ inner = []) ∧
      body' = body.set (.name name) (.obj (inner.set (.name e.property) (functionValue e))) := by
  unfold assign at hassign
  rw [show e.pseudoElement.filter (fun p => !p.isEmpty) = some name from h] at hassign
  dsimp only at hassign
  cases hget : body.get? (.name name) with
  | none =>
      rw [hget] at hassign
      cases hassign
      exact ⟨[], .inr ⟨rfl, rfl⟩, rfl⟩
  | some value =>
      rw [hget] at hassign
      cases value with
      | obj inner =>
          cases hassign
          exact ⟨inner, .inl rfl, rfl⟩
      | _ => cases hassign

/-- Below the path at which an entry writes, the body has what the entry leaves. -/
theorem at?_assign {e : DynamicEntry} {body body' : Object} (hassign : assign body e = .ok body')
    {path : List Key} (hover : slot e <+: path) : Value.at? (.obj body') path = leaves e path := by
  obtain ⟨rest, rfl⟩ := hover
  rw [leaves, List.drop_left]
  cases helement : elementOf? e with
  | none =>
      rw [assign_plain helement] at hassign
      cases hassign
      rw [slot, helement]
      exact Value.at?_set_self _ _ _ _
  | some name =>
      obtain ⟨inner, -, rfl⟩ := assign_inElement helement hassign
      rw [slot, helement]
      exact (Value.at?_set_self _ _ _ _).trans (Value.at?_set_self _ _ _ _)

/-- Elsewhere the expressions of a body stay what they are. -/
theorem at?_assign_of_not_over {e : DynamicEntry} {body body' : Object}
    (hassign : assign body e = .ok body') {path : List Key} (hover : ¬ slot e <+: path) (code : String) :
    Value.at? (.obj body') path = some (.js code) ↔ Value.at? (.obj body) path = some (.js code) := by
  cases path with
  | nil => exact iff_of_false nofun nofun
  | cons key path =>
      cases helement : elementOf? e with
      | none =>
          rw [assign_plain helement] at hassign
          cases hassign
          have hne : Key.name e.property ≠ key := by
            rintro rfl
            refine hover ⟨path, ?_⟩
            rw [slot, helement]
            rfl
          rw [Value.at?_set_of_ne _ hne]
      | some name =>
          obtain ⟨inner, hinner, rfl⟩ := assign_inElement helement hassign
          by_cases hkey : Key.name name = key
          · subst hkey
            rw [Value.at?_set_self]
            cases path with
            | nil =>
                refine iff_of_false nofun ?_
                rcases hinner with hget | ⟨hget, -⟩ <;> rw [Value.at?_cons, hget] <;> exact nofun
            | cons property path =>
                have hne : Key.name e.property ≠ property := by
                  rintro rfl
                  refine hover ⟨path, ?_⟩
                  rw [slot, helement]
                  rfl
                rw [Value.at?_set_of_ne _ hne]
                rcases hinner with hget | ⟨hget, rfl⟩
                · rw [Value.at?_cons body, hget, Option.bind_some]
                · rw [Value.at?_cons body, hget, Option.bind_none, Value.at?_cons, Object.get?_nil,
                    Option.bind_none]
          · rw [Value.at?_set_of_ne _ hkey]

/-! ## The functions of a component -/

/-- The function of a key has an expression at a path of its body. -/
def HoldsCode (functions : Table StyleFunction) (key : String) (path : List Key) (code : String) : Prop :=
  ∃ f, functions.get? key = some f ∧ Value.at? (.obj f.body) path = some (.js code)

/-- Whether an entry writes over a path of the function of a key. -/
def overwrites (e : DynamicEntry) (key : String) (path : List Key) : Bool :=
  e.key == key && (slot e).isPrefixOf path

/-- The last entry that writes over a path of the function of a key. -/
def lastOver? (entries : List DynamicEntry) (key : String) (path : List Key) : Option DynamicEntry :=
  entries.reverse.find? fun e => overwrites e key path

theorem holdsCode_iff_known (functions : Table StyleFunction) (e : DynamicEntry) (path : List Key)
    (code : String) : HoldsCode functions e.key path code ↔
      Value.at? (.obj (knownFunction functions e).body) path = some (.js code) := by
  unfold HoldsCode knownFunction
  cases functions.get? e.key with
  | some f => simp
  | none =>
      refine iff_of_false (by simp) ?_
      cases path with
      | nil => exact nofun
      | cons key path =>
          rw [Option.getD_none, Value.at?_cons, Object.get?_nil]
          exact nofun

/-- An entry decides what stands at the paths that it writes over, and at no others. -/
theorem holdsCode_addFunction {functions next : Table StyleFunction} {e : DynamicEntry}
    (h : addFunction functions e = .ok next) (key : String) (path : List Key) (code : String) :
    HoldsCode next key path code ↔
      if overwrites e key path then leaves e path = some (.js code)
      else HoldsCode functions key path code := by
  obtain ⟨body, hassign, rfl⟩ := addFunction_eq_ok h
  by_cases hkey : e.key = key
  · subst hkey
    have hnext : HoldsCode (functions.set e.key { knownFunction functions e with body }) e.key path code ↔
        Value.at? (.obj body) path = some (.js code) := by
      unfold HoldsCode
      simp only [Table.get?_set_self, Option.some.injEq, exists_eq_left']
    rw [hnext, overwrites, beq_self_eq_true, Bool.true_and]
    split
    · next hover => rw [at?_assign hassign (List.isPrefixOf_iff_prefix.mp hover)]
    · next hover =>
        rw [at?_assign_of_not_over hassign (mt List.isPrefixOf_iff_prefix.mpr hover), holdsCode_iff_known]
  · rw [overwrites, beq_false_of_ne hkey, Bool.false_and, if_neg Bool.false_ne_true]
    unfold HoldsCode
    rw [Table.get?_set_of_ne _ _ hkey]

/-- The last entry that writes over a path decides what stands there in the end. -/
theorem holdsCode_foldlM {entries : List DynamicEntry} {functions done : Table StyleFunction}
    (h : entries.foldlM addFunction functions = .ok done) (key : String) (path : List Key) (code : String) :
    HoldsCode done key path code ↔
      match lastOver? entries key path with
      | some e => leaves e path = some (.js code)
      | none => HoldsCode functions key path code := by
  induction entries generalizing functions with
  | nil =>
      cases h
      rfl
  | cons e entries ih =>
      rw [List.foldlM_cons] at h
      cases he : addFunction functions e with
      | error f =>
          rw [he] at h
          cases h
      | ok next =>
          rw [he] at h
          rw [ih h, lastOver?, lastOver?, List.reverse_cons, List.find?_append, List.find?_singleton]
          cases entries.reverse.find? fun e => overwrites e key path with
          | some d => rfl
          | none =>
              refine (holdsCode_addFunction he key path code).trans ?_
              cases overwrites e key path <;> rfl

/-- The parameter of a function is that of the first entry with its key. -/
theorem paramName_foldlM {entries : List DynamicEntry} {functions done : Table StyleFunction}
    (h : entries.foldlM addFunction functions = .ok done) (key : String) :
    (done.get? key).map (·.paramName) =
      ((functions.get? key).map (·.paramName)).or ((entries.find? (·.key == key)).map (·.paramName)) := by
  induction entries generalizing functions with
  | nil =>
      cases h
      exact (Option.or_none ..).symm
  | cons e entries ih =>
      rw [List.foldlM_cons] at h
      cases he : addFunction functions e with
      | error f =>
          rw [he] at h
          cases h
      | ok next =>
          rw [he] at h
          obtain ⟨body, -, rfl⟩ := addFunction_eq_ok he
          rw [ih h, List.find?_cons]
          by_cases hkey : e.key = key
          · subst hkey
            rw [Table.get?_set_self, beq_self_eq_true, knownFunction]
            cases functions.get? e.key <;> rfl
          · rw [Table.get?_set_of_ne _ _ hkey, beq_false_of_ne hkey]

/-- The plan has a single call of the function of a key, that of the first entry with the key. -/
theorem filter_firstByKey (entries : List DynamicEntry) (key : String) :
    (Plan.firstByKey entries).filter (·.key == key) = (entries.find? (·.key == key)).toList := by
  have hfold : ∀ kept : List DynamicEntry,
      (entries.foldl (fun kept e => if kept.any fun k => k.key == e.key then kept else kept ++ [e])
        kept).filter (·.key == key) =
        if kept.any (·.key == key) then kept.filter (·.key == key)
        else (entries.find? (·.key == key)).toList := by
    induction entries with
    | nil =>
        intro kept
        split
        · rfl
        · next hnone => simpa using hnone
    | cons e entries ih =>
        intro kept
        rw [List.foldl_cons, ih, List.find?_cons]
        by_cases hkey : e.key = key
        · subst hkey
          by_cases hkept : (kept.any fun k => k.key == e.key) = true
          · rw [if_pos hkept, if_pos hkept, if_pos hkept]
          · have hnew : kept.filter (·.key == e.key) = [] := by simpa using hkept
            simp [hkept, hnew]
        · rw [beq_false_of_ne hkey]
          by_cases hold : (kept.any fun k => k.key == e.key) = true
          · rw [if_pos hold]
          · simp [hold, hkey]
  exact hfold []

/-! ## Entries that arrive -/

/-- What expressions mean: a value each, given what the names in them stand for. -/
abbrev Evaluator (V : Type) := String → (String → V) → V

/-- Expressions with a parameter mean the same, however they are read, only if they are the same. -/
theorem evaluates_same_iff (code code' param param' prop prop' : String) :
    (∀ (V : Type) (eval : Evaluator V) (names props : String → V),
        eval code (Function.update names param (props prop)) =
          eval code' (Function.update names param' (props prop'))) ↔
      code = code' ∧ param = param' ∧ prop = prop' := by
  constructor
  · intro h
    refine ⟨?_, ?_⟩
    · exact h String (fun code _ => code) (fun _ => "") (fun _ => "")
    · have hread := h (Option String) (fun _ names => names param') (fun _ => none) some
      rw [Function.update_self] at hread
      by_cases hparam : param' = param
      · subst hparam
        rw [Function.update_self] at hread
        exact ⟨rfl, Option.some.inj hread⟩
      · rw [Function.update_of_ne hparam] at hread
        cases hread
  · rintro ⟨rfl, rfl, rfl⟩ V eval names props
    rfl

/--
The style function of an entry, called as planned, gives the property of the entry the value that the
expression of the entry has for the prop of the entry, under its conditions.
-/
def Arrives (entries : List DynamicEntry) (functions : Table StyleFunction) (e : DynamicEntry) : Prop :=
  ∃ f call code, functions.get? e.key = some f ∧
    (Plan.firstByKey entries).filter (·.key == e.key) = [call] ∧
    Value.at? (.obj f.body) (place e) = some (.js code) ∧
    ∀ (V : Type) (eval : Evaluator V) (names props : String → V),
      eval code (Function.update names f.paramName (props call.propName)) =
        eval (codeOf e) (Function.update names e.paramName (props e.propName))

/-- A later entry of the same function sets the same property in the same place. -/
def SetAgain (e : DynamicEntry) (later : List DynamicEntry) : Prop :=
  ∃ d ∈ later, d.key = e.key ∧ d.property = e.property ∧ elementOf? d = elementOf? e ∧
    d.conditions = e.conditions

/-- All entries of a component arrive, those aside that are set again. -/
def AllArrive (c : Component) : Prop :=
  ∃ functions, functionsOf c.dynamicEntries = .ok functions ∧
    ∀ before e later, c.dynamicEntries = before ++ e :: later →
      Arrives c.dynamicEntries functions e ∨ SetAgain e later

/-- The first entry with a key decides on the parameter of the function and on the prop that is passed. -/
def ReadsAsFirst (entries : List DynamicEntry) (e : DynamicEntry) : Prop :=
  ∃ first, entries.find? (·.key == e.key) = some first ∧ first.paramName = e.paramName ∧
    first.propName = e.propName

/--
The expression of an entry stays where it was written: nothing later writes over its place and it has one
condition at most, or what is written there last leaves the same expression.
-/
def StaysWritten (e : DynamicEntry) (later : List DynamicEntry) : Prop :=
  match lastOver? later e.key (place e) with
  | none => e.conditions.length ≤ 1
  | some d => leaves d (place e) = some (.js (codeOf e))

theorem overwrites_place (e : DynamicEntry) : overwrites e e.key (place e) = true := by
  rw [overwrites, beq_self_eq_true, Bool.true_and, List.isPrefixOf_iff_prefix]
  exact List.prefix_append _ _

/--
An entry arrives exactly if the first entry with its key has the same parameter and prop, and its expression
stays where it was written.
-/
theorem arrives_iff {entries : List DynamicEntry} {functions : Table StyleFunction}
    (h : functionsOf entries = .ok functions) {before later : List DynamicEntry} {e : DynamicEntry}
    (hsplit : entries = before ++ e :: later) :
    Arrives entries functions e ↔ ReadsAsFirst entries e ∧ StaysWritten e later := by
  rw [functionsOf_eq] at h
  have hholds : ∀ code, HoldsCode functions e.key (place e) code ↔
      leaves ((lastOver? later e.key (place e)).getD e) (place e) = some (.js code) := by
    intro code
    rw [holdsCode_foldlM h, hsplit, lastOver?, List.reverse_append, List.reverse_cons, List.find?_append,
      List.find?_append, List.find?_singleton, overwrites_place, lastOver?]
    cases later.reverse.find? fun d => overwrites d e.key (place e) <;> rfl
  have hstays : HoldsCode functions e.key (place e) (codeOf e) ↔ StaysWritten e later := by
    rw [hholds, StaysWritten]
    cases lastOver? later e.key (place e) with
    | none => exact leaves_place_iff e
    | some d => rfl
  have hparam := paramName_foldlM h e.key
  rw [Table.get?, Option.map_none, Option.none_or] at hparam
  constructor
  · rintro ⟨f, call, code, hf, hcall, hcode, hsame⟩
    obtain ⟨rfl, hparamName, hpropName⟩ := (evaluates_same_iff ..).mp hsame
    rw [filter_firstByKey, Option.toList_eq_singleton_iff] at hcall
    rw [hf, hcall] at hparam
    exact ⟨⟨call, hcall, (Option.some.inj hparam).symm.trans hparamName, hpropName⟩,
      hstays.mp ⟨f, hf, hcode⟩⟩
  · rintro ⟨⟨first, hfirst, hparamName, hpropName⟩, hwritten⟩
    obtain ⟨f, hf, hcode⟩ := hstays.mpr hwritten
    rw [hf, hfirst] at hparam
    refine ⟨f, first, codeOf e, hf, by rw [filter_firstByKey, hfirst]; rfl, hcode, ?_⟩
    exact (evaluates_same_iff ..).mpr ⟨rfl, (Option.some.inj hparam).trans hparamName, hpropName⟩

/--
No entry is lost exactly if all of them can be written, and each one that is not set again has the parameter
and the prop of the first entry with its key, and its expression stays where it was written.
-/
theorem allArrive_iff (c : Component) :
    AllArrive c ↔
      ¬ Unwritable c.dynamicEntries ∧
        ∀ before e later, c.dynamicEntries = before ++ e :: later →
          SetAgain e later ∨ ReadsAsFirst c.dynamicEntries e ∧ StaysWritten e later := by
  constructor
  · rintro ⟨functions, hfunctions, h⟩
    refine ⟨fun hunwritable => ?_, fun before e later hsplit => ?_⟩
    · obtain ⟨f, hf⟩ := (functionsOf_error_iff c.dynamicEntries).mpr hunwritable
      cases hf.symm.trans hfunctions
    · rw [← arrives_iff hfunctions hsplit]
      exact (h before e later hsplit).symm
  · rintro ⟨hwritable, h⟩
    cases hfunctions : functionsOf c.dynamicEntries with
    | error f => exact absurd ((functionsOf_error_iff _).mp ⟨f, hfunctions⟩) hwritable
    | ok functions =>
        refine ⟨functions, hfunctions, fun before e later hsplit => ?_⟩
        rw [arrives_iff hfunctions hsplit]
        exact (h before e later hsplit).symm

/-- The prop `color` as the color of a button under conditions. -/
def colorEntry (conditions : List String) : DynamicEntry where
  key := "buttonColor"
  paramName := "color"
  paramType := "string"
  property := "color"
  expression := "color"
  propName := "color"
  conditions := conditions

/-- A button that takes its color from the prop, always and while it is hovered. -/
def coloredButton : Component where
  name := "Button"
  styleKey := "button"
  base := "button"
  dynamicEntries := [colorEntry [], colorEntry [":hover"]]

/-- The color while the button is hovered is written over the color that always holds. -/
theorem not_allArrive_hovered : ¬ AllArrive coloredButton := by
  rintro ⟨functions, hfunctions, h⟩
  cases hfunctions
  rcases h [] (colorEntry []) [colorEntry [":hover"]] rfl with ⟨f, -, code, hf, -, hcode, -⟩ | ⟨d, hd, -, -, -, hsame⟩
  · cases hf
    cases hcode
  · cases List.mem_singleton.mp hd
    cases hsame

end Restyle.Registry
