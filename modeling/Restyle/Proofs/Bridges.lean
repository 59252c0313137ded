import Mathlib.Data.List.Nodup
import Restyle.Proofs.Carrying

/-!
# Custom properties of a component

At its end the pass for components in a pseudo state defines the custom properties on which others depend.  A
component is touched by the definitions for it alone, one after the other.  A property that has an entry in the
styles changes in its place, and the others are appended; so definitions of different properties may come in any
order, up to the order of what is appended.
-/

namespace Restyle.Style.Object

theorem mem_keys_of_get? {o : Object} {key : Key} {value : Value} (h : o.get? key = some value) : key ∈ o.keys := by
  rw [← has_iff_mem_keys, has, h]
  rfl

/-- Values under different keys that are present may be set in either order. -/
theorem set_comm {o : Object} {key other : Key} (hne : key ≠ other) (hkey : key ∈ o.keys) (hother : other ∈ o.keys)
    (v w : Value) : (o.set key v).set other w = (o.set other w).set key v := by
  induction o with
  | nil => cases hkey
  | cons entry o ih =>
      obtain ⟨k, u⟩ := entry
      by_cases hk : k = key
      · subst hk
        simp [set, hne]
      · by_cases ho : k = other
        · subst ho
          simp [set, hk]
        · have hkey' := (List.mem_cons.mp hkey).resolve_left (Ne.symm hk)
          have hother' := (List.mem_cons.mp hother).resolve_left (Ne.symm ho)
          simp only [set, hk, ho, if_false, ih hkey' hother']

theorem set_append_of_mem {o : Object} {key : Key} (h : key ∈ o.keys) (value : Value) (added : Object) :
    set (o ++ added) key value = o.set key value ++ added := by
  induction o with
  | nil => cases h
  | cons entry o ih =>
      obtain ⟨k, v⟩ := entry
      rw [List.cons_append, set, set]
      split
      · rfl
      · next hk =>
          rw [ih ((List.mem_cons.mp h).resolve_left (Ne.symm hk))]
          rfl

theorem get?_append_of_not_mem {added : Object} {key : Key} (h : key ∉ added.keys) (o : Object) :
    get? (o ++ added) key = o.get? key := by
  induction o with
  | nil => exact (get?_eq_none_iff _ _).mpr h
  | cons entry o ih =>
      obtain ⟨k, v⟩ := entry
      rw [List.cons_append, get?_cons, get?_cons, ih]

end Restyle.Style.Object

namespace Restyle.Lowering

open Restyle.Component (VariableInjection)
open Restyle.Style (Key Value Object)

/-! ## One definition after the other -/

/-- Styles that define a custom property. -/
def defined (styles : Object) (i : VariableInjection) : Object :=
  match definition styles i.varName with
  | .obj o => styles.set (.name i.varName) (.obj (Object.set o (.name i.pseudo) i.value))
  | _ => styles

/-- Styles in which a custom property is defined if they have an entry for it. -/
def redefined (styles : Object) (i : VariableInjection) : Object :=
  match styles.get? (.name i.varName) with
  | some (.obj o) => styles.set (.name i.varName) (.obj (Object.set o (.name i.pseudo) i.value))
  | _ => styles

/-- The entry of a custom property that is new. -/
def newEntry (i : VariableInjection) : Key × Value :=
  (.name i.varName, .obj (Object.set [(Key.default, .null)] (.name i.pseudo) i.value))

/-- Styles have no entry for a custom property. -/
def lacks (styles : Object) (i : VariableInjection) : Bool :=
  !styles.has (.name i.varName)

section

variable {i j : VariableInjection} {styles : Object}

theorem redefined_of_obj {o : Object} (h : styles.get? (.name i.varName) = some (.obj o)) :
    redefined styles i = styles.set (.name i.varName) (.obj (Object.set o (.name i.pseudo) i.value)) := by
  rw [redefined, h]

theorem redefined_of_not_obj (h : ¬ ∃ o, styles.get? (.name i.varName) = some (.obj o)) :
    redefined styles i = styles := by
  unfold redefined
  split
  · next o ho => exact absurd ⟨o, ho⟩ h
  · rfl

theorem get?_redefined_of_ne (h : i.varName ≠ j.varName) :
    (redefined styles i).get? (.name j.varName) = styles.get? (.name j.varName) := by
  by_cases hobj : ∃ o, styles.get? (.name i.varName) = some (.obj o)
  · obtain ⟨o, ho⟩ := hobj
    rw [redefined_of_obj ho]
    exact Object.get?_set_of_ne _ _ fun heq => h (Key.name.inj heq)
  · rw [redefined_of_not_obj hobj]

theorem keys_redefined (styles : Object) (i : VariableInjection) : Object.keys (redefined styles i) = styles.keys := by
  by_cases hobj : ∃ o, styles.get? (.name i.varName) = some (.obj o)
  · obtain ⟨o, ho⟩ := hobj
    rw [redefined_of_obj ho, Object.keys_set, if_pos (Object.mem_keys_of_get? ho)]
  · rw [redefined_of_not_obj hobj]

/-- Entries of different custom properties may change in either order. -/
theorem redefined_comm (h : i.varName ≠ j.varName) (styles : Object) :
    redefined (redefined styles i) j = redefined (redefined styles j) i := by
  have hi : (redefined styles j).get? (.name i.varName) = styles.get? (.name i.varName) :=
    get?_redefined_of_ne (Ne.symm h)
  have hj : (redefined styles i).get? (.name j.varName) = styles.get? (.name j.varName) := get?_redefined_of_ne h
  by_cases hobj : ∃ o, styles.get? (.name i.varName) = some (.obj o)
  · by_cases hobj' : ∃ o, styles.get? (.name j.varName) = some (.obj o)
    · obtain ⟨o, ho⟩ := hobj
      obtain ⟨o', ho'⟩ := hobj'
      rw [redefined_of_obj (hj.trans ho'), redefined_of_obj (hi.trans ho), redefined_of_obj ho, redefined_of_obj ho']
      exact Object.set_comm (fun heq => h (Key.name.inj heq)) (Object.mem_keys_of_get? ho)
        (Object.mem_keys_of_get? ho') _ _
    · rw [redefined_of_not_obj hobj', redefined_of_not_obj (hj ▸ hobj')]
  · rw [redefined_of_not_obj hobj, redefined_of_not_obj (i := i) (hi ▸ hobj)]

theorem redefined_append {added : Object} (h : Key.name i.varName ∉ added.keys) :
    redefined (styles ++ added) i = redefined styles i ++ added := by
  have hget := Object.get?_append_of_not_mem h styles
  by_cases hobj : ∃ o, styles.get? (.name i.varName) = some (.obj o)
  · obtain ⟨o, ho⟩ := hobj
    rw [redefined_of_obj (hget.trans ho), redefined_of_obj ho, Object.set_append_of_mem (Object.mem_keys_of_get? ho)]
  · rw [redefined_of_not_obj hobj, redefined_of_not_obj (hget ▸ hobj)]

theorem defined_of_lacks (h : lacks styles i = true) : defined styles i = styles ++ [newEntry i] := by
  have hnone : styles.get? (.name i.varName) = none := by simpa [lacks, Object.has] using h
  rw [defined, definition, hnone]
  exact Object.set_of_not_mem ((Object.get?_eq_none_iff _ _).mp hnone) _

theorem defined_of_not_lacks (h : lacks styles i = false) : defined styles i = redefined styles i := by
  have hsome : (styles.get? (.name i.varName)).isSome = true := by simpa [lacks, Object.has] using h
  obtain ⟨value, hvalue⟩ := Option.isSome_iff_exists.mp hsome
  rw [defined, definition, redefined, hvalue, Option.getD_some]
  cases value <;> rfl

theorem lacks_redefined (styles : Object) (i j : VariableInjection) : lacks (redefined styles i) j = lacks styles j := by
  have hkeys := keys_redefined styles i
  rw [lacks, lacks, Bool.eq_iff_iff]
  simp only [Bool.not_eq_true', Bool.eq_false_iff, ne_eq, Object.has_iff_mem_keys, hkeys]

theorem lacks_append_newEntry (h : i.varName ≠ j.varName) :
    lacks (styles ++ [newEntry i]) j = lacks styles j := by
  rw [lacks, lacks, Object.has, Object.has, Object.get?_append_of_not_mem]
  exact fun hmem => h (Key.name.inj (List.mem_singleton.mp hmem)).symm

end

theorem foldl_redefined_append {added : Object} {is : List VariableInjection}
    (h : ∀ i ∈ is, Key.name i.varName ∉ added.keys) (styles : Object) :
    is.foldl redefined (styles ++ added) = is.foldl redefined styles ++ added := by
  induction is generalizing styles with
  | nil => rfl
  | cons i is ih =>
      obtain ⟨hi, his⟩ := List.forall_mem_cons.mp h
      rw [List.foldl_cons, List.foldl_cons, redefined_append hi, ih his]

/-- Custom properties that have an entry are defined in its place, and the entries of the others are appended. -/
theorem foldl_defined {is : List VariableInjection} (h : (is.map (·.varName)).Nodup) (styles : Object) :
    is.foldl defined styles = is.foldl redefined styles ++ (is.filter (lacks styles)).map newEntry := by
  induction is generalizing styles with
  | nil => exact (List.append_nil styles).symm
  | cons i is ih =>
      obtain ⟨hfresh, hrest⟩ := List.nodup_cons.mp h
      have hne : ∀ j ∈ is, i.varName ≠ j.varName := fun j hj heq => hfresh (List.mem_map.mpr ⟨j, hj, heq.symm⟩)
      rw [List.foldl_cons, List.foldl_cons]
      cases hlacks : lacks styles i with
      | false =>
          rw [defined_of_not_lacks hlacks, ih hrest, List.filter_cons_of_neg (by rw [hlacks]; decide)]
          exact congrArg (fun p => _ ++ (is.filter p).map newEntry) (funext fun j => lacks_redefined styles i j)
      | true =>
          have hnot : ¬ ∃ o, styles.get? (.name i.varName) = some (.obj o) := by
            rintro ⟨o, ho⟩
            simp [lacks, Object.has, ho] at hlacks
          have hothers : is.filter (lacks (styles ++ [newEntry i])) = is.filter (lacks styles) :=
            List.filter_congr fun j hj => lacks_append_newEntry (hne j hj)
          rw [defined_of_lacks hlacks, ih hrest, hothers, List.filter_cons_of_pos hlacks, List.map_cons,
            redefined_of_not_obj hnot, foldl_redefined_append, List.append_assoc, List.singleton_append]
          exact fun j hj hmem => hne j hj (Key.name.inj (List.mem_singleton.mp hmem)).symm

/-! ## What the last pass defines -/

/-- The custom properties on which components of an arena depend. -/
def bridges (arena : Arena) : List VariableInjection :=
  arena.values.flatMap (·.injections)

/-- The definitions that a component gets. -/
def bridgesTo (name : String) (arena : Arena) : List VariableInjection :=
  (bridges arena).filter (·.target == name)

/-- A component after the definition of a custom property in the component of a name. -/
def receive (name : String) (c : Component) (i : VariableInjection) : Component :=
  if i.target = name then { c with styles := defined c.styles i } else c

theorem foldl_receive (name : String) (is : List VariableInjection) (c : Component) :
    is.foldl (receive name) c = { c with styles := (is.filter (·.target == name)).foldl defined c.styles } := by
  induction is generalizing c with
  | nil => rfl
  | cons i is ih =>
      rw [List.foldl_cons, ih, receive, List.filter_cons]
      split
      · next htarget => rw [if_pos (beq_iff_eq.mpr htarget), List.foldl_cons]
      · next htarget => rw [if_neg fun h => htarget (beq_iff_eq.mp h)]

theorem get?_inject {arena : Arena} {i : VariableInjection} {made : Option Arena} (h : inject arena i = .ok made)
    (name : String) : (made.getD arena).get? name = (arena.get? name).map fun c => receive name c i := by
  cases made with
  | none =>
      have hnone : arena.get? i.target = none := by
        unfold inject at h
        split at h
        · assumption
        · dsimp only at h
          split at h <;> cases h
      by_cases htarget : i.target = name
      · rw [← htarget, Option.getD_none, hnone, Option.map_none]
      · simp only [receive, if_neg htarget, Option.getD_none, Option.map_id']
  | some arena' =>
      obtain ⟨parent, o, hparent, hdefinition, rfl⟩ := inject_eq_ok_definition h
      rw [Option.getD_some]
      by_cases htarget : i.target = name
      · rw [← htarget, Table.get?_set_self, hparent, Option.map_some, receive, if_pos rfl, defined, hdefinition]
        rfl
      · simp only [receive, if_neg htarget, Option.map_id', Table.get?_set_of_ne _ _ htarget]

theorem get?_injectAll {source : String} {is : List VariableInjection}
    {acc done : Arena × List (String × String × String)} (h : injectAll source is acc = .ok done) (name : String) :
    done.1.get? name = (acc.1.get? name).map fun c => is.foldl (receive name) c := by
  induction is generalizing acc with
  | nil =>
      cases h
      exact Option.map_id'.symm
  | cons i is ih =>
      obtain ⟨arena, notes⟩ := acc
      rw [injectAll] at h
      cases hi : inject arena i with
      | error f =>
          rw [hi] at h
          cases h
      | ok made =>
          have hfirst := get?_inject hi name
          rw [hi] at h
          have hrest : done.1.get? name =
              ((made.getD arena).get? name).map fun c => is.foldl (receive name) c := by
            cases made with
            | none => exact ih h
            | some arena' => exact ih h
          rw [hrest, hfirst, Option.map_map]
          rfl

/-- At the end of its pass every component has got the definitions that are for it. -/
theorem get?_finish_ancestor {arena : Arena} {done : Arena × List (String × String × String)}
    (h : ancestor.finish arena = .ok done) (name : String) :
    done.1.get? name =
      (arena.get? name).map fun c => { c with styles := (bridgesTo name arena).foldl defined c.styles } := by
  have hloop : ∀ (cs : List Component) (acc : Arena × List (String × String × String)),
      cs.foldlM (fun acc c => injectAll c.name c.injections acc) acc = .ok done →
        done.1.get? name =
          (acc.1.get? name).map fun c => (cs.flatMap (·.injections)).foldl (receive name) c := by
    intro cs
    induction cs with
    | nil =>
        intro acc hacc
        cases hacc
        exact Option.map_id'.symm
    | cons c cs ih =>
        intro acc hacc
        rw [List.foldlM_cons] at hacc
        cases hinject : injectAll c.name c.injections acc with
        | error f =>
            rw [hinject] at hacc
            cases hacc
        | ok next =>
            rw [hinject] at hacc
            rw [ih next hacc, get?_injectAll hinject name, Option.map_map]
            simp only [List.flatMap_cons, List.foldl_append]
            rfl
  rw [hloop arena.values (arena, []) h]
  exact congrArg (fun f => Option.map f (arena.get? name)) (funext fun c => foldl_receive name _ c)

/-! ## Definitions in another order -/

/--
A component is the same as another one up to the order of entries at the end of its styles, all of them custom
properties of a list.
-/
def SameUpTo (names : List String) (c d : Component) : Prop :=
  ∃ own added added' : Object, c.styles = own ++ added ∧ d = { c with styles := own ++ added' } ∧
    added.Perm added' ∧ ∀ entry ∈ added, ∃ name ∈ names, entry.1 = .name name

/-- Definitions of different custom properties make the same of a component in every order. -/
theorem sameUpTo_foldl_defined {is js : List VariableInjection} (hnames : (is.map (·.varName)).Nodup)
    (hperm : is.Perm js) (c : Component) :
    SameUpTo (is.map (·.varName)) { c with styles := is.foldl defined c.styles }
      { c with styles := js.foldl defined c.styles } := by
  have hown : is.foldl redefined c.styles = js.foldl redefined c.styles := by
    refine hperm.foldl_eq' (fun i hi j hj styles => ?_) _
    by_cases heq : i.varName = j.varName
    · rw [List.inj_on_of_nodup_map hnames hi hj heq]
    · exact redefined_comm heq styles
  refine ⟨is.foldl redefined c.styles, _, (js.filter (lacks c.styles)).map newEntry, foldl_defined hnames _, ?_,
    (hperm.filter _).map _, ?_⟩
  · rw [foldl_defined ((hperm.map _).nodup_iff.mp hnames), hown]
  · intro entry hentry
    obtain ⟨i, hi, rfl⟩ := List.mem_map.mp hentry
    exact ⟨i.varName, List.mem_map_of_mem (List.mem_of_mem_filter hi), rfl⟩

end Restyle.Lowering
