import Restyle.Proofs.Reordering

/-!
# Values that depend on other components

The last pass takes care of selectors for a component inside another one that is in a pseudo state.  Every plain
value of such a body crosses over to the other component: the property of the component inside refers to a custom
property from then on, with its earlier value as the fallback, and the other component gets the definition of the
custom property.  Components are visited one after the other; the definitions are made once all of them have been
visited, so that what becomes of a component can be told from the components as they were before the pass.
-/

namespace Restyle.Lowering

open Restyle.Component (VariableInjection)
open Restyle.Style (Key Value Object)

/-! ## The crossings of a component -/

/-- A value that crosses over to another component: what is defined there, and the property that refers to it. -/
structure Crossing extends VariableInjection where
  property : String

/-- The other component and its pseudo state, for a selector that the last pass takes care of. -/
def crossed? (arena : Arena) (c : Component) (selector : String) : Option (Component × String) := do
  let (name, pseudo) ← ancestor? (Text.strip selector)
  let parent ← arena.get? name
  if parent.name == c.name then none else some (parent, pseudo)

/-- An entry of a body that crosses over: its key is a plain name, and its value no body. -/
def entryCrossing? (c parent : Component) (pseudo : String) (key : Key) (value : Value) : Option Crossing :=
  match key, value.isObject with
  | .name property, false =>
    some { target := parent.name, varName := bridgeVariable c property parent pseudo, pseudo, value, source := c.name,
           property }
  | _, _ => none

/-- The values of a body that cross over. -/
def bodyCrossings (c parent : Component) (pseudo : String) (body : Object) : List Crossing :=
  body.filterMap fun (key, value) => entryCrossing? c parent pseudo key value

/-- The values that cross over because of a selector. -/
def selectorCrossings (arena : Arena) (c : Component) (selector : String) (body : Object) : List Crossing :=
  match crossed? arena c selector with
  | some (parent, pseudo) => bodyCrossings c parent pseudo body
  | none => []

/-- All values of a component that cross over to other components. -/
def crossings (arena : Arena) (c : Component) : List Crossing :=
  (rawSelectors c.styles).flatMap fun entry => selectorCrossings arena c entry.1 entry.2

/-- The values of a property that cross over. -/
def crossingsAt (arena : Arena) (c : Component) (property : String) : List Crossing :=
  (crossings arena c).filter (·.property == property)

/-- The value of a property once it refers to a custom property. -/
def crossValue (varName : String) : Option Value → Value
  | some (.obj o) =>
    if Object.isConditional o then
      .obj (Object.set o Key.default (variableReference varName ((Object.get? o Key.default).getD .null)))
    else variableReference varName (.obj o)
  | other => variableReference varName (other.getD .null)

/-- Styles after a value has crossed over. -/
def cross (styles : Object) (x : Crossing) : Object :=
  styles.set (.name x.property) (crossValue x.varName (styles.get? (.name x.property)))

/-- Values of a component cross over: its styles refer to the custom properties, which are to be defined. -/
structure Crossed (c d : Component) (xs : List Crossing) : Prop where
  label : label d = label c
  styles : d.styles = xs.foldl cross c.styles
  injections : d.injections = c.injections ++ xs.map (·.toVariableInjection)

namespace Crossed

variable {c d e : Component} {xs ys : List Crossing}

theorem refl (c : Component) : Crossed c c [] :=
  ⟨rfl, rfl, (List.append_nil _).symm⟩

theorem trans (h : Crossed c d xs) (h' : Crossed d e ys) : Crossed c e (xs ++ ys) := by
  constructor
  · rw [h'.label, h.label]
  · rw [h'.styles, h.styles, List.foldl_append]
  · rw [h'.injections, h.injections, List.map_append, List.append_assoc]

end Crossed

/-- There is no value, or a plain one, or a conditional map. -/
def NoBody (value : Option Value) : Prop :=
  ∀ o, value = some (.obj o) → Object.isConditional o = true

/-- A crossing leaves no body behind. -/
theorem noBody_crossValue (varName : String) (old : Option Value) : NoBody (some (crossValue varName old)) := by
  intro o ho
  have hvalue := Option.some.inj ho
  have hreference : ∀ value, variableReference varName value ≠ .obj o := by
    intro value heq
    have hplain := isObject_variableReference varName value
    rw [heq] at hplain
    cases hplain
  unfold crossValue at hvalue
  split at hvalue
  · split at hvalue
    · next hconditional =>
        cases hvalue
        exact Object.isConditional_set hconditional Key.isCondition_default _
    · exact absurd hvalue (hreference _)
  · exact absurd hvalue (hreference _)

/-! ## The visit -/

section

variable {arena : Arena} {c d : Component}

theorem crossed?_congr (h : label d = label c) (selector : String) :
    crossed? arena d selector = crossed? arena c selector := by
  rw [crossed?, crossed?, (Prod.mk.inj h).1]

theorem entryCrossing?_congr (h : label d = label c) (parent : Component) (pseudo : String) (key : Key)
    (value : Value) :
    entryCrossing? d parent pseudo key value = entryCrossing? c parent pseudo key value := by
  have hvariable : ∀ property, bridgeVariable d property parent pseudo = bridgeVariable c property parent pseudo := by
    intro property
    rw [bridgeVariable, bridgeVariable, (Prod.mk.inj h).2]
  simp only [entryCrossing?, hvariable, (Prod.mk.inj h).1]

theorem entryCrossing?_eq_none {parent : Component} {pseudo : String} {key : Key} {value : Value}
    (h : ∀ property, key = .name property → value.isObject = false → False) :
    entryCrossing? c parent pseudo key value = none := by
  unfold entryCrossing?
  split
  · next hobject => exact (h _ rfl hobject).elim
  · rfl

theorem bodyCrossings_cons (c parent : Component) (pseudo : String) (key : Key) (value : Value) (rest : Object) :
    bodyCrossings c parent pseudo ((key, value) :: rest) =
      (entryCrossing? c parent pseudo key value).toList ++ bodyCrossings c parent pseudo rest := by
  rw [bodyCrossings, List.filterMap_cons, bodyCrossings]
  dsimp only
  cases entryCrossing? c parent pseudo key value <;> rfl

/-- The values of a body cross over one after the other. -/
theorem crossed_bridgeEntries (parent : Component) (pseudo selector : String) (body : Object) {l : Lowered}
    (h : label l.component = label c) :
    Crossed l.component (bridgeEntries parent pseudo selector body l).component
      (bodyCrossings c parent pseudo body) := by
  induction body generalizing l with
  | nil => exact .refl _
  | cons entry rest ih =>
      obtain ⟨key, value⟩ := entry
      rw [bodyCrossings_cons, ← entryCrossing?_congr h]
      unfold bridgeEntries
      split
      · next property hobject =>
          simp only [entryCrossing?, hobject]
          refine Crossed.trans ?_ (ih ?_)
          · exact ⟨rfl, rfl, rfl⟩
          · exact h
      · next hother =>
          rw [entryCrossing?_eq_none hother]
          exact ih (l := l.report .complexSelector selector) h

/-- The last pass lets the values of a body cross over. -/
theorem lower?_ancestor (settings : Settings) (arena : Arena) (c : Component) (selector : String) (body : Object) :
    ancestor.lower? settings arena c selector body =
      (crossed? arena c selector).map fun crossed =>
        bridgeEntries crossed.1 crossed.2 selector body { component := c } := by
  simp only [ancestor, crossed?, Option.bind_eq_bind]
  cases ancestor? (Text.strip selector) with
  | none => rfl
  | some read =>
      simp only [Option.bind_some]
      cases arena.get? read.1 with
      | none => rfl
      | some parent =>
          simp only [Option.bind_some]
          split <;> rfl

/-- A body in the styles that is no conditional map has been there before. -/
def KeepsBodies (before after : Object) : Prop :=
  ∀ key o, after.get? key = some (.obj o) → Object.isConditional o = false → before.get? key = some (.obj o)

theorem KeepsBodies.cross {before after : Object} (h : KeepsBodies before after) (x : Crossing) :
    KeepsBodies before (cross after x) := by
  intro key o hget hbody
  by_cases hkey : Key.name x.property = key
  · subst hkey
    rw [Lowering.cross, Object.get?_set_self] at hget
    rw [noBody_crossValue _ _ o hget] at hbody
    cases hbody
  · rw [Lowering.cross, Object.get?_set_of_ne _ _ hkey] at hget
    exact h key o hget hbody

theorem KeepsBodies.foldl_cross {before after : Object} (h : KeepsBodies before after) (xs : List Crossing) :
    KeepsBodies before (xs.foldl Lowering.cross after) := by
  induction xs generalizing after with
  | nil => exact h
  | cons x xs ih => exact ih (h.cross x)

/-- The body of a selector is read as it was before the pass. -/
theorem KeepsBodies.currentBody_eq (hkeys : DistinctKeys c) (h : KeepsBodies c.styles d.styles) {selector : String}
    {body : Object} (hraw : (selector, body) ∈ rawSelectors c.styles) : currentBody d selector body = body := by
  unfold currentBody
  split
  · next o ho =>
      cases hconditional : Object.isConditional o with
      | true => rfl
      | false =>
          have hbefore := h _ _ ho hconditional
          rw [Object.get?_of_mem hkeys (mem_of_mem_rawSelectors hraw)] at hbefore
          cases hbefore
          rfl
  · rfl

/-- The selectors that the last pass takes care of. -/
def consumed (arena : Arena) (c : Component) (selectors : List (String × Object)) : List String :=
  (selectors.map (·.1)).filter fun selector => (crossed? arena c selector).isSome

/-- The selectors of a component are dealt with one after the other. -/
theorem crossed_lowerEach (settings : Settings) (arena : Arena) (hkeys : DistinctKeys c)
    {selectors : List (String × Object)} (hselectors : ∀ entry ∈ selectors, entry ∈ rawSelectors c.styles)
    (hlabel : label d = label c) (hbodies : KeepsBodies c.styles d.styles) :
    Crossed d (lowerEach ancestor settings arena d selectors).1
        (selectors.flatMap fun entry => selectorCrossings arena c entry.1 entry.2) ∧
      (lowerEach ancestor settings arena d selectors).2.2 = consumed arena c selectors := by
  induction selectors generalizing d with
  | nil => exact ⟨.refl _, rfl⟩
  | cons entry rest ih =>
      obtain ⟨selector, body⟩ := entry
      obtain ⟨hraw, hrest⟩ := List.forall_mem_cons.mp hselectors
      rw [lowerEach, hbodies.currentBody_eq hkeys hraw, lower?_ancestor, crossed?_congr hlabel, List.flatMap_cons,
        consumed, List.map_cons, List.filter_cons, selectorCrossings]
      cases hcrossed : crossed? arena c selector with
      | none => exact ih hrest hlabel hbodies
      | some crossed =>
          obtain ⟨parent, pseudo⟩ := crossed
          have hfirst := crossed_bridgeEntries parent pseudo selector body (l := { component := d }) hlabel
          have hbodies' := hbodies.foldl_cross (bodyCrossings c parent pseudo body)
          rw [← hfirst.styles] at hbodies'
          obtain ⟨hlater, hconsumed⟩ := ih hrest (hfirst.label.trans hlabel) hbodies'
          exact ⟨hfirst.trans hlater, congrArg (selector :: ·) hconsumed⟩

/-- The styles of a component after all its crossings, without the selectors that have been taken care of. -/
def crossedStyles (arena : Arena) (c : Component) : Object :=
  eraseAll ((crossings arena c).foldl cross c.styles) (consumed arena c (rawSelectors c.styles))

/-- A component after the visit of the last pass. -/
theorem crossed_visited (settings : Settings) (arena : Arena) (hkeys : DistinctKeys c) :
    (visited ancestor settings arena c).styles = crossedStyles arena c ∧
      (visited ancestor settings arena c).injections =
        c.injections ++ (crossings arena c).map (·.toVariableInjection) := by
  obtain ⟨hcrossed, hconsumed⟩ := crossed_lowerEach settings arena hkeys (fun _ h => h) rfl fun _ _ h _ => h
  constructor
  · rw [visited]
    dsimp only
    rw [visitOf, hconsumed, hcrossed.styles]
    rfl
  · exact hcrossed.injections

end

/-- Where a crossing of a component leads, and what it is called there. -/
structure Crossing.Leads (x : Crossing) (arena : Arena) (c target : Component) : Prop where
  found : arena.get? x.target = some target
  source : x.source = c.name
  varName : x.varName = bridgeVariable c x.property target x.pseudo
  pseudo : (Key.name x.pseudo).isBranch = true

theorem entryCrossing?_eq_some {c parent : Component} {pseudo : String} {key : Key} {value : Value} {x : Crossing}
    (h : entryCrossing? c parent pseudo key value = some x) :
    x.target = parent.name ∧ x.source = c.name ∧ x.pseudo = pseudo ∧
      x.varName = bridgeVariable c x.property parent x.pseudo := by
  unfold entryCrossing? at h
  split at h
  · cases h
    exact ⟨rfl, rfl, rfl, rfl⟩
  · cases h

theorem exists_leads {arena : Arena} (hnamed : Named arena) {c : Component} {x : Crossing}
    (hx : x ∈ crossings arena c) :
    ∃ target, x.Leads arena c target := by
  obtain ⟨entry, -, hx⟩ := List.mem_flatMap.mp hx
  unfold selectorCrossings at hx
  split at hx
  · next parent pseudo hcrossed =>
      simp only [crossed?, Option.bind_eq_bind, Option.bind_eq_some_iff] at hcrossed
      obtain ⟨read, hread, other, hparent, hcrossed⟩ := hcrossed
      split at hcrossed
      · cases hcrossed
      · cases hcrossed
        obtain ⟨entry', -, hentry⟩ := List.mem_filterMap.mp hx
        obtain ⟨htarget, hsource, hpseudo, hvarName⟩ := entryCrossing?_eq_some hentry
        rw [hnamed _ _ hparent] at htarget
        exact ⟨parent, htarget ▸ hparent, hsource, hvarName, hpseudo ▸ isBranch_of_ancestor? hread⟩
  · cases hx

/-! ## The whole pass -/

/-- The custom properties that the last pass defines. -/
def definitions (arena : Arena) : List VariableInjection :=
  arena.values.flatMap fun c => c.injections ++ (crossings arena c).map (·.toVariableInjection)

theorem mem_definitions {arena : Arena} {name : String} {c : Component} (hc : arena.get? name = some c) {x : Crossing}
    (hx : x ∈ crossings arena c) : x.toVariableInjection ∈ definitions arena := by
  refine List.mem_flatMap.mpr ⟨c, List.mem_map.mpr ⟨_, Table.mem_of_get? hc, rfl⟩, ?_⟩
  exact List.mem_append_right _ (List.mem_map_of_mem hx)

/-- The custom properties that the last pass defines in the component of a name. -/
def definitionsIn (name : String) (arena : Arena) : List VariableInjection :=
  (definitions arena).filter (·.target == name)

section

variable {settings : Settings} {s s' : Session Arena}

theorem bridges_visit (hnames : s.store.names.Nodup) (hkeys : s.store.All DistinctKeys)
    (hrun : (ancestor.visit settings).run s = (.ok ⟨⟩, s')) : bridges s'.store = definitions s.store := by
  have hpass : ancestor ∈ allPasses := by simp [allPasses]
  obtain ⟨hstore, -⟩ := run_visit_eq_ok (unaware_of_ne hpass (by decide) settings s.store) hnames hrun
  have hsame := names_visit ancestor hrun
  rw [bridges, definitions, Table.flatMap_values hnames, Table.flatMap_values (hsame ▸ hnames), hsame]
  refine List.flatMap_congr fun name _ => ?_
  rw [hstore]
  cases hc : s.store.get? name with
  | none => rfl
  | some c => exact (crossed_visited settings s.store (hkeys.of_get? hc)).2

/-- After the last pass a component has its own styles, crossed, and what is defined in it. -/
theorem styles_run_ancestor (hnames : s.store.names.Nodup) (hkeys : s.store.All DistinctKeys)
    (hrun : (ancestor.run settings).run s = (.ok ⟨⟩, s')) {name : String} {c : Component}
    (hc : s.store.get? name = some c) :
    ∃ c', s'.store.get? name = some c' ∧
      c'.styles = (definitionsIn name s.store).foldl defined (crossedStyles s.store c) := by
  have hpass : ancestor ∈ allPasses := by simp [allPasses]
  obtain ⟨s₁, notes, hvisit, hfinish, -⟩ := run_pass_eq_ok hrun
  obtain ⟨hstore, -⟩ := run_visit_eq_ok (unaware_of_ne hpass (by decide) settings s.store) hnames hvisit
  have hget := get?_finish_ancestor hfinish name
  rw [hstore, hc] at hget
  refine ⟨_, hget, ?_⟩
  dsimp only
  rw [bridgesTo, bridges_visit hnames hkeys hvisit, (crossed_visited settings s.store (hkeys.of_get? hc)).1]
  rfl

end

/-! ## Values after the pass -/

/-- A property refers to one custom property after the other. -/
theorem get?_foldl_cross (xs : List Crossing) (styles : Object) (property : String) :
    Object.get? (xs.foldl cross styles) (.name property) =
      (xs.filter (·.property == property)).foldl (fun old x => some (crossValue x.varName old))
        (styles.get? (.name property)) := by
  induction xs generalizing styles with
  | nil => rfl
  | cons x xs ih =>
      rw [List.foldl_cons, ih, cross, List.filter_cons]
      split
      · next h => rw [List.foldl_cons, beq_iff_eq.mp h, Object.get?_set_self]
      · next h => rw [Object.get?_set_of_ne _ _ fun heq => h (beq_iff_eq.mpr (Key.name.inj heq))]

theorem get?_crossedStyles (arena : Arena) {c : Component} (hkeys : DistinctKeys c) {property : String}
    (h : NoBody (c.styles.get? (.name property))) :
    Object.get? (crossedStyles arena c) (.name property) =
      (crossingsAt arena c property).foldl (fun old x => some (crossValue x.varName old))
        (Object.get? c.styles (.name property)) := by
  rw [crossedStyles, get?_eraseAll_of_ne, get?_foldl_cross, ← crossingsAt]
  intro selector hselector heq
  obtain ⟨entry, hraw, rfl⟩ := List.mem_map.mp (List.mem_of_mem_filter hselector)
  have hget := Object.get?_of_mem hkeys (mem_of_mem_rawSelectors hraw)
  rw [← heq] at hget
  have hbody := isConditional_of_mem_rawSelectors hraw
  rw [h _ hget] at hbody
  cases hbody

theorem get?_crossedStyles_eq_none (arena : Arena) {c : Component} (hkeys : DistinctKeys c) {name : String}
    (hbase : .name name ∉ c.styles.keys) (hcrossed : ∀ x ∈ crossings arena c, x.property ≠ name) :
    Object.get? (crossedStyles arena c) (.name name) = none := by
  have hnone := (Object.get?_eq_none_iff _ _).mpr hbase
  have hfilter : crossingsAt arena c name = [] :=
    List.filter_eq_nil_iff.mpr fun x hx heq => hcrossed x hx (beq_iff_eq.mp heq)
  rw [get?_crossedStyles arena hkeys (hnone ▸ nofun), hfilter, hnone]
  rfl

theorem get?_defined_of_ne {i : VariableInjection} {name : String} (h : i.varName ≠ name) (styles : Object) :
    (defined styles i).get? (.name name) = styles.get? (.name name) := by
  unfold defined
  split
  · exact Object.get?_set_of_ne _ _ fun heq => h (Key.name.inj heq)
  · rfl

theorem get?_foldl_defined_of_ne {is : List VariableInjection} {name : String} (h : ∀ i ∈ is, i.varName ≠ name)
    (styles : Object) : Object.get? (is.foldl defined styles) (.name name) = styles.get? (.name name) := by
  induction is generalizing styles with
  | nil => rfl
  | cons i is ih =>
      obtain ⟨hi, his⟩ := List.forall_mem_cons.mp h
      rw [List.foldl_cons, ih his, get?_defined_of_ne hi]

/-- A custom property that is defined once, in styles that have had no entry for it. -/
theorem get?_foldl_defined_of_mem {is : List VariableInjection} (hnames : (is.map (·.varName)).Nodup)
    {i : VariableInjection} (hi : i ∈ is) {styles : Object} (hnone : styles.get? (.name i.varName) = none) :
    Object.get? (is.foldl defined styles) (.name i.varName) = some (newEntry i).2 := by
  induction is generalizing styles with
  | nil => cases hi
  | cons j is ih =>
      obtain ⟨hfresh, hrest⟩ := List.nodup_cons.mp hnames
      rw [List.foldl_cons]
      rcases List.mem_cons.mp hi with rfl | hmem
      · have hlater : ∀ j ∈ is, j.varName ≠ i.varName := fun j hj heq => hfresh (List.mem_map.mpr ⟨j, hj, heq⟩)
        rw [get?_foldl_defined_of_ne hlater, defined, definition, hnone]
        exact Object.get?_set_self _ _ _
      · refine ih hrest hmem ?_
        rw [get?_defined_of_ne fun heq => hfresh (List.mem_map.mpr ⟨i, hmem, heq.symm⟩), hnone]

/-! ## When the pass comes to its end -/

/-- A component has a plain value where a custom property is to be defined in it. -/
def PlainlyDeclared (arena : Arena) : Prop :=
  ∃ i ∈ definitions arena, ∃ target value, arena.get? i.target = some target ∧
    Object.get? (crossedStyles arena target) (.name i.varName) = some value ∧ value.isObject = false

/-- Components do not have the custom properties that are to be defined in them, nor get them by their own crossings. -/
def Undeclared (arena : Arena) : Prop :=
  ∀ i ∈ definitions arena, ∀ target ∈ arena.get? i.target,
    .name i.varName ∉ target.styles.keys ∧ ∀ x ∈ crossings arena target, x.property ≠ i.varName

instance (arena : Arena) : Decidable (Undeclared arena) := by
  unfold Undeclared
  infer_instance

theorem Undeclared.not_plainlyDeclared {arena : Arena} (h : Undeclared arena) (hkeys : arena.All DistinctKeys) :
    ¬ PlainlyDeclared arena := by
  rintro ⟨i, hi, target, value, htarget, hvalue, -⟩
  obtain ⟨hbase, hcrossed⟩ := h i hi target htarget
  rw [get?_crossedStyles_eq_none arena (hkeys.of_get? htarget) hbase hcrossed] at hvalue
  cases hvalue

section

variable {s : Session Arena}

/-- The last pass breaks off exactly if a custom property that is to be defined has a plain value. -/
theorem stops_ancestor_iff_plainlyDeclared (settings : Settings) (hnames : s.store.names.Nodup)
    (hkeys : s.store.All DistinctKeys) : Work.Stops (ancestor.run settings) s ↔ PlainlyDeclared s.store := by
  have hpass : ancestor ∈ allPasses := by simp [allPasses]
  obtain ⟨⟨⟩, s₁, hvisit⟩ := Work.exists_run_of_not_stops (neverStops_visit faultless_ancestor settings s)
  obtain ⟨hstore, -⟩ := run_visit_eq_ok (unaware_of_ne hpass (by decide) settings s.store) hnames hvisit
  have hvisited : ∀ name c, s.store.get? name = some c →
      (visited ancestor settings s.store c).styles = crossedStyles s.store c :=
    fun _ _ hc => (crossed_visited settings s.store (hkeys.of_get? hc)).1
  rw [stops_ancestor, hvisit, PlainlyDeclared, ← bridges_visit hnames hkeys hvisit]
  constructor
  · rintro ⟨c, hc, i, hi, t, value, ht, hvalue, hplain⟩
    rw [hstore] at ht
    obtain ⟨target, htarget, rfl⟩ := Option.map_eq_some_iff.mp ht
    rw [hvisited _ _ htarget] at hvalue
    exact ⟨i, List.mem_flatMap.mpr ⟨c, hc, hi⟩, target, value, htarget, hvalue, hplain⟩
  · rintro ⟨i, hi, target, value, htarget, hvalue, hplain⟩
    obtain ⟨c, hc, hi⟩ := List.mem_flatMap.mp hi
    rw [← hvisited _ _ htarget] at hvalue
    refine ⟨c, hc, i, hi, visited ancestor settings s.store target, value, ?_, hvalue, hplain⟩
    rw [hstore, htarget, Option.map_some]

/-- The last pass comes to its end if all custom properties are new. -/
theorem exists_run_ancestor (settings : Settings) (hnames : s.store.names.Nodup) (hkeys : s.store.All DistinctKeys)
    (h : Undeclared s.store) : ∃ s', (ancestor.run settings).run s = (.ok ⟨⟩, s') := by
  have hends := mt (stops_ancestor_iff_plainlyDeclared settings hnames hkeys).mp (h.not_plainlyDeclared hkeys)
  obtain ⟨_, s', hrun⟩ := Work.exists_run_of_not_stops hends
  exact ⟨s', hrun⟩

/-- A pass that has come to its end has found objects where it has defined custom properties. -/
theorem not_plainlyDeclared_of_run {settings : Settings} {s' : Session Arena} (hnames : s.store.names.Nodup)
    (hkeys : s.store.All DistinctKeys) (hrun : (ancestor.run settings).run s = (.ok ⟨⟩, s')) :
    ¬ PlainlyDeclared s.store := by
  rw [← stops_ancestor_iff_plainlyDeclared settings hnames hkeys]
  rintro ⟨f, hf⟩
  rw [hrun] at hf
  cases hf

end

/-- Entries that stand under their names. -/
theorem named_of_forall {arena : Arena} (h : ∀ entry ∈ arena, entry.2.name = entry.1) : Named arena :=
  fun _ _ hc => h _ (Table.mem_of_get? hc)

end Restyle.Lowering
