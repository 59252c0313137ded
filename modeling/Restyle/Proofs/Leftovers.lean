import Restyle.Proofs.Playback

/-!
# Selectors that lowering leaves behind

A selector that no pass knows is reported and dropped, but only where it stands directly in the styles of a
component.  A selector inside of something else stays: in a body that a pass moves to a further entry, and in
a value of the styles that is no selector itself.  So lowering leaves selectors behind exactly if the
additions that have the last word bring one along, or a value of the styles that is kept holds one.
-/

namespace Restyle.Style.Object

theorem get?_of_mem {o : Object} (h : o.keys.Nodup) {key : Key} {value : Value} (hmem : (key, value) ∈ o) :
    o.get? key = some value := by
  induction o with
  | nil => cases hmem
  | cons entry o ih =>
      obtain ⟨k, v⟩ := entry
      obtain ⟨hfresh, hrest⟩ := List.nodup_cons.mp h
      rw [get?_cons]
      rcases List.mem_cons.mp hmem with heq | hmem
      · cases heq
        exact if_pos rfl
      · have hne : k ≠ key := fun heq => hfresh (List.mem_map.mpr ⟨(key, value), hmem, heq.symm⟩)
        rw [if_neg hne, ih hrest hmem]

theorem keys_erase (o : Object) (key : Key) : (o.erase key).keys = o.keys.erase key := by
  induction o with
  | nil => rfl
  | cons entry o ih =>
      obtain ⟨k, v⟩ := entry
      simp only [keys] at ih
      by_cases h : k = key <;> simp [erase, keys, h, ih]

theorem nodup_keys_foldl_set (entries : Object) {o : Object} (h : o.keys.Nodup) :
    (entries.foldl (fun o entry => o.set entry.1 entry.2) o).keys.Nodup := by
  induction entries generalizing o with
  | nil => exact h
  | cons entry entries ih => exact ih (nodup_keys_set h entry.1 entry.2)

end Restyle.Style.Object

namespace Restyle.Lowering

open Restyle.Style (Key Value Object)
open Work (Keeps Stores Stops)

/-! ## Selectors at any depth -/

mutual

/-- Whether an object inside of a value, at any depth, has a raw selector. -/
def valueHoldsSelector : Value → Bool
  | .list items => listHoldsSelector items
  | .obj entries => holdsSelector entries
  | _ => false

/-- Whether an object inside of one of the values, at any depth, has a raw selector. -/
def listHoldsSelector : List Value → Bool
  | [] => false
  | value :: rest => valueHoldsSelector value || listHoldsSelector rest

/-- Whether an object, or an object inside of it at any depth, has a raw selector. -/
def holdsSelector : Object → Bool
  | [] => false
  | (key, value) :: rest => isRawSelector key value || valueHoldsSelector value || holdsSelector rest

end

/-- An entry that is no raw selector, with a value that holds none. -/
def Clear (key : Key) (value : Value) : Prop :=
  isRawSelector key value = false ∧ valueHoldsSelector value = false

/-- A component without the selectors that stand directly in its styles. -/
def dropped (c : Component) : Component :=
  { c with styles := eraseAll c.styles ((rawSelectors c.styles).map (·.1)) }

theorem eraseAll_cons_of_not_mem {key : Key} {selectors : List String}
    (h : ∀ selector ∈ selectors, Key.name selector ≠ key) (value : Value) (o : Object) :
    eraseAll ((key, value) :: o) selectors = (key, value) :: eraseAll o selectors := by
  unfold eraseAll
  induction selectors generalizing o with
  | nil => rfl
  | cons selector selectors ih =>
      obtain ⟨hne, hrest⟩ := List.forall_mem_cons.mp h
      rw [List.foldl_cons, List.foldl_cons, Object.erase, if_neg (Ne.symm hne), ih hrest]

theorem exists_of_isRawSelector {key : Key} {value : Value} (h : isRawSelector key value = true) :
    ∃ selector body, key = .name selector ∧ value = .obj body := by
  cases key with
  | computed code => cases h
  | name selector =>
      cases value with
      | obj body => exact ⟨selector, body, rfl, rfl⟩
      | _ => cases h

theorem rawSelectors_cons_of_raw {selector : String} {body : Object}
    (h : isRawSelector (.name selector) (.obj body) = true) (o : Object) :
    rawSelectors ((.name selector, .obj body) :: o) = (selector, body) :: rawSelectors o := by
  rw [rawSelectors, List.filterMap_cons]
  simp only [h, if_true]
  rfl

theorem rawSelectors_cons_of_not_raw {key : Key} {value : Value} (h : isRawSelector key value = false) (o : Object) :
    rawSelectors ((key, value) :: o) = rawSelectors o := by
  rw [rawSelectors, List.filterMap_cons]
  simp only [h, Bool.false_eq_true, if_false]
  rfl

theorem mem_of_mem_rawSelectors {o : Object} {entry : String × Object} (h : entry ∈ rawSelectors o) :
    (Key.name entry.1, Value.obj entry.2) ∈ o := by
  induction o with
  | nil => cases h
  | cons first o ih =>
      obtain ⟨key, value⟩ := first
      cases hraw : isRawSelector key value with
      | false =>
          rw [rawSelectors_cons_of_not_raw hraw] at h
          exact List.mem_cons_of_mem _ (ih h)
      | true =>
          obtain ⟨selector, body, rfl, rfl⟩ := exists_of_isRawSelector hraw
          rw [rawSelectors_cons_of_raw hraw] at h
          rcases List.mem_cons.mp h with rfl | h
          · exact List.mem_cons_self
          · exact List.mem_cons_of_mem _ (ih h)

/-- Among distinct keys, what is dropped are the raw selectors. -/
theorem styles_dropped {c : Component} (h : c.styles.keys.Nodup) :
    (dropped c).styles = c.styles.filter fun entry => !isRawSelector entry.1 entry.2 := by
  rw [dropped]
  dsimp only
  generalize c.styles = o at h
  induction o with
  | nil => rfl
  | cons entry o ih =>
      obtain ⟨key, value⟩ := entry
      obtain ⟨hfresh, hrest⟩ := List.nodup_cons.mp h
      cases hraw : isRawSelector key value with
      | false =>
          rw [rawSelectors_cons_of_not_raw hraw, eraseAll_cons_of_not_mem, ih hrest,
            List.filter_cons_of_pos (by rw [hraw]; rfl)]
          intro selector hselector heq
          obtain ⟨raw, hmem, rfl⟩ := List.mem_map.mp hselector
          exact hfresh (List.mem_map.mpr ⟨_, mem_of_mem_rawSelectors hmem, heq⟩)
      | true =>
          obtain ⟨selector, body, rfl, rfl⟩ := exists_of_isRawSelector hraw
          rw [rawSelectors_cons_of_raw hraw, List.filter_cons_of_neg (by rw [hraw]; decide), ← ih hrest, eraseAll,
            List.map_cons, List.foldl_cons, Object.erase, if_pos rfl]
          rfl

theorem get?_dropLeftovers (settings : Settings) (name other : String) (s : Session Arena) :
    ((dropLeftovers settings name).run s).2.store.get? other =
      if other = name then (s.store.get? other).map dropped else s.store.get? other := by
  rw [dropLeftovers, Work.run_bind_ok _ (Work.run_store s)]
  cases hc : s.store.get? name with
  | none =>
      by_cases hother : other = name
      · rw [if_pos hother, hother, hc]
        exact hc
      · rw [if_neg hother]
        rfl
  | some c =>
      dsimp only
      obtain ⟨d, hreports⟩ := Work.run_forIn_reports (f := fun selector _ => do
          Work.report (Lowered.diagnostic (leftoverReason selector s.store.names settings.importedComponents) c
            selector)
          pure (ForInStep.yield PUnit.unit))
        ((rawSelectors c.styles).map (·.1)) (fun _ _ => ⟨_, rfl⟩) s
      rw [Work.run_bind_ok _ hreports, Work.run_update]
      dsimp only
      by_cases hother : other = name
      · subst hother
        rw [if_pos rfl, Table.get?_modify_self, hc, Option.map_some, Option.map_some]
        rfl
      · rw [if_neg hother, Table.get?_modify_of_ne _ _ (Ne.symm hother)]

/-- The styles of a component after a selector of it has been lowered, as far as a pass touches them. -/
inductive Restyled (c : Component) (selector : String) (body : Object) : Object → Prop
  | kept : Restyled c selector body c.styles
  | marked {l : Lowered} (same : l.component.styles = c.styles) :
      Restyled c selector body (addMarkerValues selector body l).component.styles
  | raised {pseudo : Option String} {entries : Object} (read : readEntries? c.styles selector body = some entries) :
      Restyled c selector body
        (entries.foldl (fun styles entry => raiseEntry pseudo styles entry.1 entry.2) c.styles)
  | bridged {parent : Component} {pseudo : String} {l : Lowered} (same : l.component.styles = c.styles) :
      Restyled c selector body (bridgeEntries parent pseudo selector body l).component.styles

theorem restyled_of_descendant {settings : Settings} {arena : Arena} {c : Component} {selector : String}
    {body : Object} {lowered : Lowered} (h : descendant.lower? settings arena c selector body = some lowered) :
    lowered.component.styles = c.styles := by
  obtain ⟨pseudo, target, own, -, -, hlowered⟩ := descendant_eq_some h
  cases hlowered with
  | both => rfl
  | nothing => rw [insideEntries_component]
  | entry => exact styles_addExtra ..

/-- Only values behind a marker, raised weight and custom properties touch the styles. -/
theorem Reworked.restyled {c d : Component} {selector : String} {body : Object} (h : Reworked c selector body d) :
    Restyled c selector body d.styles := by
  cases h with
  | same => exact .kept
  | child | inside | tested =>
      show Restyled c selector body (c.addExtra _ _).styles
      rw [styles_addExtra]
      exact .kept
  | sibling relation ending =>
      show Restyled c selector body (Component.addExtra { c with hasSiblingPattern := true } _ body).styles
      rw [styles_addExtra]
      exact .kept
  | marked => exact .marked rfl
  | raised _ hread => exact .raised hread
  | bridged => exact .bridged rfl

/-! ### Keys stay distinct -/

/-- The keys of a component's styles are distinct. -/
def DistinctKeys (c : Component) : Prop :=
  c.styles.keys.Nodup

instance (c : Component) : Decidable (DistinctKeys c) :=
  inferInstanceAs (Decidable c.styles.keys.Nodup)

theorem addMarkerValues_distinct (selector : String) (body : Object) {l : Lowered}
    (h : DistinctKeys l.component) : DistinctKeys (addMarkerValues selector body l).component := by
  fun_induction addMarkerValues selector body l with
  | case1 l => exact h
  | case2 key value rest l _ ih => exact ih h
  | case3 key value rest l _ condition existing entry ih => exact ih (Object.nodup_keys_set h key _)

theorem bridgeEntries_distinct (parent : Component) (pseudo selector : String) (body : Object) {l : Lowered}
    (h : DistinctKeys l.component) : DistinctKeys (bridgeEntries parent pseudo selector body l).component := by
  fun_induction bridgeEntries parent pseudo selector body l with
  | case1 l => exact h
  | case2 l rest property value _ c varName entry c' c'' ih => exact ih (Object.nodup_keys_set h _ _)
  | case3 l key value rest _ ih => exact ih h

theorem Restyled.nodup {c : Component} {selector : String} {body styles : Object}
    (h : Restyled c selector body styles) (hc : DistinctKeys c) : styles.keys.Nodup := by
  cases h with
  | kept => exact hc
  | marked same => exact addMarkerValues_distinct _ _ (same ▸ hc : Object.keys _ |>.Nodup)
  | bridged same => exact bridgeEntries_distinct _ _ _ _ (same ▸ hc : Object.keys _ |>.Nodup)
  | raised read =>
      rename_i pseudo entries
      clear read
      unfold DistinctKeys at hc
      generalize c.styles = styles at hc
      induction entries generalizing styles with
      | nil => exact hc
      | cons entry entries ih =>
          refine ih _ ?_
          unfold raiseEntry
          dsimp only
          split <;> exact Object.nodup_keys_set hc _ _

theorem nodup_eraseAll {styles : Object} (h : styles.keys.Nodup) (selectors : List String) :
    (eraseAll styles selectors).keys.Nodup := by
  unfold eraseAll
  induction selectors generalizing styles with
  | nil => exact h
  | cons selector selectors ih =>
      refine ih ?_
      rw [Object.keys_erase]
      exact h.erase _

theorem keeps_distinctKeys {pass : Pass} (hpass : pass ∈ allPasses) (settings : Settings) :
    Keeps (fun s => s.store.All DistinctKeys) (pass.run settings) := by
  refine keeps_run_of_mem hpass (P := fun arena => arena.All DistinctKeys) ?_ ?_ ?_
  · intro arena name c selector body lowered h hc hlower
    exact h.set name ((reworked_of_lower hpass hlower).restyled.nodup (h.of_get? hc))
  · intro arena name selectors h
    exact h.modify name fun _ hc => nodup_eraseAll hc selectors
  · intro arena name c key value h hc
    exact Table.All.set h name (Object.nodup_keys_set (h.of_get? hc) key value)

/-! ## What is left -/

namespace Addition

/-- The entries and their keys are distinct. -/
structure Distinct (t : Table Object) : Prop where
  names : t.names.Nodup
  keys : t.All fun entry => entry.keys.Nodup

theorem Distinct.addTo {t : Table Object} (h : Distinct t) {a : Addition} (ha : a.body.keys.Nodup) :
    Distinct (addTo t a) := by
  have hstyles := nodup_keys_styles ha
  unfold Addition.addTo putEntry
  split
  · next known hknown =>
      refine ⟨Table.nodup_names_set h.names _ _, h.keys.set _ ?_⟩
      exact Object.nodup_keys_foldl_set a.styles (h.keys.of_get? hknown)
  · exact ⟨Table.nodup_names_set h.names _ _, h.keys.set _ hstyles⟩

end Addition

/-- The keys of all objects of a component that lowering looks at are distinct. -/
structure Keyed (c : Component) : Prop where
  styles : DistinctKeys c
  bodies : DistinctBodies c.styles
  extraStyles : Addition.Distinct c.extraStyles

section

variable {settings : Settings} {s s' : Session Arena}

end

theorem exists_run_of_isSome (settings : Settings) (s : Session Arena)
    (h : ((lowerAll settings).run s).1.toOption.isSome = true) :
    ∃ s', (lowerAll settings).run s = (.ok ⟨⟩, s') := by
  cases hrun : (lowerAll settings).run s with
  | mk result s' =>
      rw [hrun] at h
      cases result with
      | ok done => exact ⟨s', rfl⟩
      | error fault => cases h

end Restyle.Lowering
