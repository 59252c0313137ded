import Restyle.Proofs.Backing
import Restyle.Proofs.Carrying

/-!
# Visits of components

A pass visits one component after the other.  What it makes of a component can be told from the components as
they stood before all visits, if the pass reads nothing in other components that an earlier visit has changed.
Five of the passes read no more than the names and the style keys of other components, which stay.  The pass
for components inside also reads values of their styles; it does not see whether a selector of its own family
has been taken care of there, unless it looks for a value under the selector itself.
-/

namespace Restyle.Lowering

open Restyle.Style (Key Value Object)

/-! ## The visit of a component -/

/--
What a pass makes of selectors of a component among the components of an arena: the component, what there is to
report, and the selectors that have been taken care of.
-/
def lowerEach (pass : Pass) (settings : Settings) (arena : Arena) (c : Component) :
    List (String × Object) → Component × List Diagnostic × List String
  | [] => (c, [], [])
  | (selector, body) :: rest =>
    match pass.lower? settings arena c selector (currentBody c selector body) with
    | none => lowerEach pass settings arena c rest
    | some lowered =>
      let later := lowerEach pass settings arena lowered.component rest
      (later.1, lowered.reports ++ later.2.1, selector :: later.2.2)

/-- What a pass makes of all selectors of a component. -/
def visitOf (pass : Pass) (settings : Settings) (arena : Arena) (c : Component) :
    Component × List Diagnostic × List String :=
  lowerEach pass settings arena c (rawSelectors c.styles)

/-- A component after the visit of a pass. -/
def visited (pass : Pass) (settings : Settings) (arena : Arena) (c : Component) : Component :=
  let visit := visitOf pass settings arena c
  { visit.1 with styles := eraseAll visit.1.styles visit.2.2 }

/-- The components that come up while selectors of a component are lowered. -/
inductive Reaches (pass : Pass) (settings : Settings) (arena : Arena) (c : Component) : Component → Prop where
  | start : Reaches pass settings arena c c
  | step {d : Component} {selector : String} {body : Object} {lowered : Lowered}
      (reached : Reaches pass settings arena c d)
      (lower : pass.lower? settings arena d selector body = some lowered) :
      Reaches pass settings arena c lowered.component

/-- A component of an arena is as it was before a pass, or as it is after its visit. -/
def Before (pass : Pass) (settings : Settings) (arena current : Arena) (name : String) : Prop :=
  current.get? name = arena.get? name ∨
    current.get? name = (arena.get? name).map (visited pass settings arena)

/-- A pass that treats the selectors of a component as if no other component had been visited yet. -/
def Unaware (pass : Pass) (settings : Settings) (arena : Arena) : Prop :=
  ∀ current name c d selector body, arena.get? name = some c → current.get? name = some d →
    Reaches pass settings arena c d → (∀ other, other ≠ name → Before pass settings arena current other) →
    (selector, body) ∈ rawSelectors c.styles →
    pass.lower? settings current d selector (currentBody d selector body) =
      pass.lower? settings arena d selector (currentBody d selector body)

section

variable {pass : Pass} {settings : Settings} {arena : Arena}

theorem Reaches.lowerEach {c d : Component} (h : Reaches pass settings arena c d)
    (selectors : List (String × Object)) :
    Reaches pass settings arena c (lowerEach pass settings arena d selectors).1 := by
  induction selectors generalizing d with
  | nil => exact h
  | cons entry rest ih =>
      obtain ⟨selector, body⟩ := entry
      rw [Lowering.lowerEach]
      split
      · exact ih h
      · next lowered hlower => exact ih (h.step hlower)

theorem reaches_visitOf (pass : Pass) (settings : Settings) (arena : Arena) (c : Component) :
    Reaches pass settings arena c (visitOf pass settings arena c).1 :=
  Reaches.start.lowerEach _

/-- What is taken care of has been lowered. -/
theorem lowered_of_mem_lowerEach {c : Component} {selectors : List (String × Object)} {selector : String}
    (h : selector ∈ (lowerEach pass settings arena c selectors).2.2) :
    ∃ d body lowered, selector ∈ selectors.map (·.1) ∧
      pass.lower? settings arena d selector body = some lowered := by
  induction selectors generalizing c with
  | nil => cases h
  | cons entry rest ih =>
      obtain ⟨first, body⟩ := entry
      rw [lowerEach] at h
      split at h
      · obtain ⟨d, body', lowered, hmem, hlower⟩ := ih h
        exact ⟨d, body', lowered, List.mem_cons_of_mem _ hmem, hlower⟩
      · next lowered hlower =>
          rcases List.mem_cons.mp h with rfl | h
          · exact ⟨c, _, lowered, List.mem_cons_self, hlower⟩
          · obtain ⟨d, body', lowered', hmem, hlower'⟩ := ih h
            exact ⟨d, body', lowered', List.mem_cons_of_mem _ hmem, hlower'⟩

/-- A pass treats a component alike in arenas in which it treats every selector alike. -/
theorem visitOf_congr {other : Arena}
    (h : ∀ c selector body, pass.lower? settings arena c selector body = pass.lower? settings other c selector body)
    (c : Component) : visitOf pass settings arena c = visitOf pass settings other c := by
  unfold visitOf
  generalize rawSelectors c.styles = selectors
  induction selectors generalizing c with
  | nil => rfl
  | cons entry rest ih =>
      obtain ⟨selector, body⟩ := entry
      rw [lowerEach, lowerEach, h]
      split
      · exact ih c
      · next lowered hlower => rw [ih lowered.component]

end

/-! ## One component after the other -/

/-- Diagnostics after a row of reports. -/
def reported (reports : List Diagnostic) (d : Diagnostics) : Diagnostics :=
  reports.foldl Diagnostics.report d

theorem reported_append (first second : List Diagnostic) (d : Diagnostics) :
    reported (first ++ second) d = reported second (reported first d) :=
  List.foldl_append

/-- The reports of permuted rows are permuted. -/
theorem reported_perm {first second : List Diagnostic} (h : first.Perm second) {d e : Diagnostics}
    (hitems : d.items.Perm e.items) : (reported first d).items.Perm (reported second e).items := by
  have hfiled : ∀ (reports : List Diagnostic) (d : Diagnostics), (reported reports d).items =
      d.items ++ reports.map fun r => { r with context := r.context.filter fun detail => !detail.2.isNull } := by
    intro reports
    induction reports with
    | nil => exact fun d => (List.append_nil _).symm
    | cons r reports ih =>
        intro d
        rw [reported, List.foldl_cons, ← reported, ih, Diagnostics.report, List.map_cons, List.append_assoc]
        rfl
  rw [hfiled, hfiled]
  exact hitems.append (h.map _)

theorem run_forM_reported {τ : Type} (reports : List Diagnostic) (s : Session τ) :
    (reports.forM (Work.report (τ := τ))).run s =
      (.ok ⟨⟩, { s with diagnostics := reported reports s.diagnostics }) := by
  induction reports generalizing s with
  | nil => rfl
  | cons r reports ih => exact (Work.run_bind_ok _ (Work.run_report r s)).trans (ih _)

theorem eq_of_run_fault {fault : Option Fault} {s s' : Session Arena}
    (h : (fault.forM throw : Work PUnit).run s = (.ok ⟨⟩, s')) : s' = s := by
  cases fault with
  | none =>
      cases h
      rfl
  | some f => cases h

/-- What a turn of a loop over the components does to one of them. -/
structure Turn (F : Component → Component) (G : Component → List Diagnostic) (name : String) (c : Component)
    (s s' : Session Arena) : Prop where
  own : s'.store.get? name = some (F c)
  others : ∀ other, other ≠ name → s'.store.get? other = s.store.get? other
  reports : s'.diagnostics = reported (G c) s.diagnostics

/-- A loop over the components changes each of them once. -/
theorem forM_turns {F : Component → Component} {G : Component → List Diagnostic} {arena : Arena}
    {turn : String → Work PUnit}
    (hturn : ∀ name c s s', arena.get? name = some c → s.store.get? name = some c →
      (∀ other, s.store.get? other = arena.get? other ∨ s.store.get? other = (arena.get? other).map F) →
      (turn name).run s = (.ok ⟨⟩, s') → Turn F G name c s s')
    {names : List String} (hnames : names.Nodup) (hknown : ∀ name ∈ names, name ∈ arena.names)
    {s s' : Session Arena}
    (hmixed : ∀ other, s.store.get? other = arena.get? other ∨ s.store.get? other = (arena.get? other).map F)
    (hfresh : ∀ name ∈ names, s.store.get? name = arena.get? name)
    (hrun : (names.forM turn).run s = (.ok ⟨⟩, s')) :
    (∀ other, s'.store.get? other =
        if other ∈ names then (arena.get? other).map F else s.store.get? other) ∧
      s'.diagnostics =
        reported (names.flatMap fun name => ((arena.get? name).map G).getD []) s.diagnostics := by
  induction names generalizing s with
  | nil =>
      cases hrun
      exact ⟨fun _ => rfl, rfl⟩
  | cons name names ih =>
      obtain ⟨hnot, hrest⟩ := List.nodup_cons.mp hnames
      obtain ⟨hfirst, hlater⟩ := List.forall_mem_cons.mp hfresh
      obtain ⟨hknown, hknown'⟩ := List.forall_mem_cons.mp hknown
      obtain ⟨c, hc⟩ := Table.exists_get?_of_mem_names hknown
      obtain ⟨⟨⟩, s₁, hone, hmany⟩ := Work.run_bind_eq_ok (k := fun _ => names.forM turn) hrun
      have hdone := hturn name c s s₁ hc (hfirst.trans hc) hmixed hone
      have hmixed' : ∀ other,
          s₁.store.get? other = arena.get? other ∨ s₁.store.get? other = (arena.get? other).map F := by
        intro other
        by_cases hother : other = name
        · rw [hother, hdone.own, hc]
          exact .inr rfl
        · rw [hdone.others other hother]
          exact hmixed other
      have hlater' : ∀ other ∈ names, s₁.store.get? other = arena.get? other := by
        intro other hmem
        rw [hdone.others other fun heq => hnot (heq ▸ hmem), hlater other hmem]
      obtain ⟨hstore, hreports⟩ := ih hrest hknown' hmixed' hlater' hmany
      constructor
      · intro other
        rw [hstore]
        by_cases hother : other = name
        · rw [hother, if_neg hnot, if_pos List.mem_cons_self, hdone.own, hc]
          rfl
        · simp only [List.mem_cons, hother, false_or, hdone.others other hother]
      · rw [hreports, hdone.reports, List.flatMap_cons, reported_append, hc]
        rfl

/-- A loop over all components changes each of them once. -/
theorem forM_names {F : Component → Component} {G : Component → List Diagnostic} {turn : String → Work PUnit}
    {s s' : Session Arena}
    (hturn : ∀ name c t t', s.store.get? name = some c → t.store.get? name = some c →
      (∀ other, t.store.get? other = s.store.get? other ∨ t.store.get? other = (s.store.get? other).map F) →
      (turn name).run t = (.ok ⟨⟩, t') → Turn F G name c t t')
    (hnames : s.store.names.Nodup) (hrun : (s.store.names.forM turn).run s = (.ok ⟨⟩, s')) :
    (∀ name, s'.store.get? name = (s.store.get? name).map F) ∧
      s'.diagnostics =
        reported (s.store.names.flatMap fun name => ((s.store.get? name).map G).getD []) s.diagnostics := by
  obtain ⟨hstore, hreports⟩ :=
    forM_turns hturn hnames (fun _ hmem => hmem) (fun _ => .inl rfl) (fun _ _ => rfl) hrun
  refine ⟨fun name => ?_, hreports⟩
  rw [hstore]
  split
  · rfl
  · next hnone => rw [(Table.get?_eq_none_iff _ _).mpr hnone, Option.map_none]

/-! ## The visits of a pass -/

section

variable {pass : Pass} {settings : Settings} {arena : Arena}

/-- A pass that is unaware lowers the selectors of a component as if the others had not been visited. -/
theorem run_lowerSelectors_eq_ok (h : Unaware pass settings arena) {name : String} {c : Component}
    (hc : arena.get? name = some c) {selectors : List (String × Object)}
    (hselectors : ∀ entry ∈ selectors, entry ∈ rawSelectors c.styles) {s s' : Session Arena} {d : Component}
    (hd : s.store.get? name = some d) (hreaches : Reaches pass settings arena c d)
    (hbefore : ∀ other, other ≠ name → Before pass settings arena s.store other) {done : List String}
    (hrun : (lowerSelectors pass settings name selectors).run s = (.ok done, s')) :
    done = (lowerEach pass settings arena d selectors).2.2 ∧
      Turn (fun _ => (lowerEach pass settings arena d selectors).1)
        (fun _ => (lowerEach pass settings arena d selectors).2.1) name d s s' := by
  induction selectors generalizing s d done with
  | nil =>
      cases hrun
      exact ⟨rfl, hd, fun _ _ => rfl, rfl⟩
  | cons entry rest ih =>
      obtain ⟨selector, body⟩ := entry
      obtain ⟨hraw, hrest⟩ := List.forall_mem_cons.mp hselectors
      have hsame := h s.store name c d selector body hc hd hreaches hbefore hraw
      rw [lowerSelectors, Work.run_bind_ok _ (Work.run_store s), hd] at hrun
      dsimp only at hrun
      rw [hsame] at hrun
      rw [lowerEach]
      cases hlower : pass.lower? settings arena d selector (currentBody d selector body) with
      | none =>
          rw [hlower] at hrun
          exact ih hrest hd hreaches hbefore hrun
      | some lowered =>
          rw [hlower] at hrun
          dsimp only at hrun ⊢
          obtain ⟨⟨⟩, s₀, hfault, hlowered⟩ := Work.run_bind_eq_ok hrun
          obtain rfl := eq_of_run_fault hfault
          rw [Work.run_bind_ok _ (Work.run_update _ s₀), Work.run_bind_ok _ (run_forM_reported _ _),
            Work.run_bind_ok _ (Work.run_trace _ _)] at hlowered
          obtain ⟨done', s₁, hmore, hend⟩ := Work.run_bind_eq_ok hlowered
          cases hend
          have hbefore' : ∀ other, other ≠ name →
              Before pass settings arena (s₀.store.set name lowered.component) other := by
            intro other hother
            unfold Before
            rw [Table.get?_set_of_ne _ _ (Ne.symm hother)]
            exact hbefore other hother
          obtain ⟨rfl, hturn⟩ := ih hrest (Table.get?_set_self _ _ _) (hreaches.step hlower) hbefore' hmore
          refine ⟨rfl, hturn.own, fun other hother => ?_, ?_⟩
          · rw [hturn.others other hother]
            exact Table.get?_set_of_ne _ _ (Ne.symm hother)
          · rw [hturn.reports, reported_append]

/-- The visit of a component by an unaware pass. -/
theorem turn_runOn (h : Unaware pass settings arena) {name : String} {c : Component}
    (hc : arena.get? name = some c) {s s' : Session Arena} (hs : s.store.get? name = some c)
    (hbefore : ∀ other, Before pass settings arena s.store other)
    (hrun : (runOn pass settings name).run s = (.ok ⟨⟩, s')) :
    Turn (visited pass settings arena) (fun c => (visitOf pass settings arena c).2.1) name c s s' := by
  rw [runOn, Work.run_bind_ok _ (Work.run_store s), hs] at hrun
  dsimp only at hrun
  obtain ⟨done, s₁, hlower, hend⟩ := Work.run_bind_eq_ok hrun
  obtain ⟨rfl, hturn⟩ := run_lowerSelectors_eq_ok h hc (fun _ hentry => hentry) hs .start
    (fun other _ => hbefore other) hlower
  cases hend
  constructor
  · dsimp only
    rw [Table.get?_modify_self, hturn.own]
    rfl
  · intro other hother
    dsimp only
    rw [Table.get?_modify_of_ne _ _ (Ne.symm hother), hturn.others other hother]
  · exact hturn.reports

/-- After the visits of an unaware pass every component is as its own visit makes it. -/
theorem run_visit_eq_ok {s s' : Session Arena} (h : Unaware pass settings s.store)
    (hnames : s.store.names.Nodup) (hrun : (pass.visit settings).run s = (.ok ⟨⟩, s')) :
    (∀ name, s'.store.get? name = (s.store.get? name).map (visited pass settings s.store)) ∧
      s'.diagnostics = reported (s.store.names.flatMap fun name =>
        ((s.store.get? name).map fun c => (visitOf pass settings s.store c).2.1).getD []) s.diagnostics := by
  rw [Pass.visit, Work.run_bind_ok _ (Work.run_store s)] at hrun
  exact forM_names (fun name c s s' hc hs hbefore hrun => turn_runOn h hc hs hbefore hrun) hnames hrun

end

/-! ## Passes that read names and style keys -/

/-- What other components may be told from: the name and the style key. -/
def label (c : Component) : String × String :=
  (c.name, c.styleKey)

/-- A pass that leaves the style key of a component as it is. -/
def KeepsStyleKey (pass : Pass) : Prop :=
  ∀ settings arena c selector body lowered,
    pass.lower? settings arena c selector body = some lowered → lowered.component.styleKey = c.styleKey

theorem styleKey_addExtra (c : Component) (key : String) (styles : Object) :
    (c.addExtra key styles).styleKey = c.styleKey := by
  unfold Component.addExtra
  split <;> rfl

/-- A component keeps its style key when a selector of it is lowered. -/
theorem Reworked.styleKey {c d : Component} {selector : String} {body : Object} (h : Reworked c selector body d) :
    d.styleKey = c.styleKey := by
  cases h with
  | same | raised => rfl
  | child | inside | tested | sibling => exact styleKey_addExtra _ _ _
  | marked =>
      obtain ⟨styles, hmarked⟩ :=
        addMarkerValues_component selector body { component := { c with hasSiblingPattern := true } }
      rw [hmarked]
  | @bridged name pseudo parent =>
      obtain ⟨styles, injections, hbridged⟩ := bridgeEntries_component parent pseudo selector body { component := c }
      rw [hbridged]

theorem keepsStyleKey_of_mem {pass : Pass} (hpass : pass ∈ allPasses) : KeepsStyleKey pass :=
  fun _ _ _ _ _ _ h => (reworked_of_lower hpass h).styleKey

theorem Reaches.label_eq {pass : Pass} (hpass : pass ∈ allPasses) {settings : Settings} {arena : Arena}
    {c d : Component} (h : Reaches pass settings arena c d) : label d = label c := by
  induction h with
  | start => rfl
  | step reached lower ih =>
      rw [← ih, label, label, names_of_mem hpass _ _ _ _ _ _ lower, keepsStyleKey_of_mem hpass _ _ _ _ _ _ lower]

theorem label_visited {pass : Pass} (hpass : pass ∈ allPasses) (settings : Settings) (arena : Arena)
    (c : Component) : label (visited pass settings arena c) = label c :=
  (reaches_visitOf pass settings arena c).label_eq hpass

/-- A pass that reads no more of other components than their names and style keys. -/
def Shallow (pass : Pass) : Prop :=
  ∀ settings (arena other : Arena) c selector body,
    (∀ name, (arena.get? name).map label = (other.get? name).map label) →
      pass.lower? settings arena c selector body = pass.lower? settings other c selector body

theorem bridgeEntries_congr {parent other : Component} (h : label parent = label other) (pseudo selector : String)
    (body : Object) (l : Lowered) :
    bridgeEntries parent pseudo selector body l = bridgeEntries other pseudo selector body l := by
  obtain ⟨hname, hkey⟩ := Prod.mk.inj h
  have hvariable : ∀ child property,
      bridgeVariable child property parent pseudo = bridgeVariable child property other pseudo := by
    intro child property
    rw [bridgeVariable, bridgeVariable, hkey]
  induction body generalizing l with
  | nil => rfl
  | cons entry rest ih =>
      obtain ⟨key, value⟩ := entry
      unfold bridgeEntries
      split
      · simp only [hvariable, hname, ih]
      · exact ih _

theorem shallow_ancestor : Shallow ancestor := by
  intro settings arena other c selector body h
  simp only [ancestor]
  cases ancestor? (Text.strip selector) with
  | none => rfl
  | some read =>
      obtain ⟨name, pseudo⟩ := read
      have hsame := h name
      simp only [Option.bind_eq_bind, Option.bind_some]
      cases hparent : arena.get? name with
      | none =>
          rw [hparent, Option.map_none, eq_comm, Option.map_eq_none_iff] at hsame
          rw [hsame]
      | some parent =>
          rw [hparent, Option.map_some, eq_comm, Option.map_eq_some_iff] at hsame
          obtain ⟨parent', hparent', hlabel⟩ := hsame
          rw [hparent', Option.bind_some, Option.bind_some, bridgeEntries_congr hlabel,
            (Prod.mk.inj hlabel).1]

theorem shallow_of_mem {pass : Pass} (h : pass ∈ allPasses) (hne : pass ≠ descendant) : Shallow pass := by
  simp only [allPasses, List.mem_cons, List.not_mem_nil, or_false] at h
  rcases h with rfl | rfl | rfl | rfl | rfl | rfl
  · exact fun _ _ _ _ _ _ _ => rfl
  · exact absurd rfl hne
  · exact fun _ _ _ _ _ _ _ => rfl
  · exact fun _ _ _ _ _ _ _ => rfl
  · exact fun _ _ _ _ _ _ _ => rfl
  · exact shallow_ancestor

theorem Shallow.unaware {pass : Pass} (h : Shallow pass) (hpass : pass ∈ allPasses) (settings : Settings)
    (arena : Arena) : Unaware pass settings arena := by
  intro current name c d selector body hc hd hreaches hbefore _
  refine h _ _ _ _ _ _ fun other => ?_
  by_cases hother : other = name
  · rw [hother, hc, hd, Option.map_some, Option.map_some, hreaches.label_eq hpass]
  · rcases hbefore other hother with hsame | hvisited
    · rw [hsame]
    · rw [hvisited, Option.map_map]
      refine congrFun (congrArg Option.map (funext fun c => ?_)) _
      exact label_visited hpass settings arena c

/-! ## The pass for components inside -/

/-- The other components and keys under which the pass for components inside looks for values. -/
def lookups (selector : String) (body : Object) : List (String × Key) :=
  match descendant? (stripSelf selector) with
  | some (some _, target, none) | some (none, target, some _) =>
    (body.filter fun (key, value) => !key.isPseudoElement && !value.isObject).map fun (key, _) => (target, key)
  | _ => []

/-- Whether the pass for components inside takes care of a selector. -/
def isInside (settings : Settings) (arena : Arena) (selector : String) : Bool :=
  match descendant? (stripSelf selector) with
  | some (_, target, _) => arena.has target || settings.importedComponents.contains target
  | none => false

/-- A component has a selector for a component inside under a key. -/
def HasInside (settings : Settings) (arena : Arena) (name : String) (key : Key) : Prop :=
  ∃ entry ∈ arena, entry.1 = name ∧
    ∃ inner ∈ rawSelectors entry.2.styles, isInside settings arena inner.1 = true ∧ key = .name inner.1

instance (settings : Settings) (arena : Arena) (name : String) (key : Key) :
    Decidable (HasInside settings arena name key) := by
  unfold HasInside
  infer_instance

/--
The pass for components inside looks for no value of another component under a key that is a selector for a
component inside there.
-/
def Separate (settings : Settings) (arena : Arena) : Prop :=
  ∀ entry ∈ arena, ∀ raw ∈ rawSelectors entry.2.styles, ∀ lookup ∈ lookups raw.1 raw.2,
    lookup.1 ≠ entry.1 → ¬ HasInside settings arena lookup.1 lookup.2

instance (settings : Settings) (arena : Arena) : Decidable (Separate settings arena) := by
  unfold Separate
  infer_instance

theorem isInside_of_lower {settings : Settings} {arena : Arena} {c : Component} {selector : String} {body : Object}
    {lowered : Lowered} (h : descendant.lower? settings arena c selector body = some lowered) :
    isInside settings arena selector = true := by
  obtain ⟨pseudo, target, own, hread, hknown, -⟩ := descendant_eq_some h
  unfold isInside
  rw [hread]
  exact hknown

theorem get?_eraseAll_of_ne {selectors : List String} {key : Key} (h : ∀ selector ∈ selectors, key ≠ .name selector)
    (styles : Object) : Object.get? (eraseAll styles selectors) key = Object.get? styles key := by
  unfold eraseAll
  induction selectors generalizing styles with
  | nil => rfl
  | cons selector selectors ih =>
      obtain ⟨hne, hrest⟩ := List.forall_mem_cons.mp h
      exact (ih hrest _).trans (get?_erase_of_ne styles (Ne.symm hne))

theorem Reaches.styles_eq {settings : Settings} {arena : Arena} {c d : Component}
    (h : Reaches descendant settings arena c d) : d.styles = c.styles := by
  induction h with
  | start => rfl
  | step reached lower ih => rw [restyled_of_descendant lower, ih]

/-- A value of a component that has been visited, under a key that is no selector for a component inside. -/
theorem baseValue_visited {settings : Settings} {arena : Arena} {c : Component} {key : Key}
    (h : ∀ inner ∈ rawSelectors c.styles, isInside settings arena inner.1 = true → key ≠ .name inner.1) :
    baseValue (visited descendant settings arena c).styles key = baseValue c.styles key := by
  have hget : Object.get? (visited descendant settings arena c).styles key = Object.get? c.styles key := by
    rw [visited]
    dsimp only
    rw [(reaches_visitOf descendant settings arena c).styles_eq]
    refine get?_eraseAll_of_ne (fun selector hselector => ?_) _
    obtain ⟨d, body, lowered, hmem, hlower⟩ := lowered_of_mem_lowerEach hselector
    obtain ⟨raw, hraw, rfl⟩ := List.mem_map.mp hmem
    exact h raw hraw (isInside_of_lower hlower)
  rw [baseValue, baseValue, hget]

theorem overrideEntries_congr {condition : Option Key} {styles others : Object} {body : Object}
    (h : ∀ entry ∈ body, condition.isSome = true → entry.1.isPseudoElement = false → entry.2.isObject = false →
      baseValue styles entry.1 = baseValue others entry.1) (selector : String) (l : Lowered) (out : Object) :
    overrideEntries condition styles selector body l out = overrideEntries condition others selector body l out := by
  induction body generalizing l out with
  | nil => rfl
  | cons entry rest ih =>
      obtain ⟨key, value⟩ := entry
      obtain ⟨hfirst, hrest⟩ := List.forall_mem_cons.mp h
      have ih' := fun l out => ih hrest l out
      cases condition with
      | none => exact ih' _ _
      | some condition =>
          rw [overrideEntries, overrideEntries]
          split
          · exact ih' _ _
          · next hpseudo =>
              split
              · exact ih' _ _
              · next hobject =>
                  rw [hfirst rfl (Bool.eq_false_iff.mpr hpseudo) (Bool.eq_false_iff.mpr hobject)]
                  exact ih' _ _

/-- Under one condition, the values of a body are looked up in the component inside. -/
theorem mem_lookups {selector target : String} {ancestor own : Option String} {body : Object} {key : Key}
    {value : Value} (hread : descendant? (stripSelf selector) = some (ancestor, target, own))
    (hone : (ancestor.isSome && own.isSome) = false) (hsome : (insideCondition ancestor own).isSome = true)
    (hentry : (key, value) ∈ body) (hpseudo : key.isPseudoElement = false) (hobject : value.isObject = false) :
    (target, key) ∈ lookups selector body := by
  have hmem : (target, key) ∈
      (body.filter fun (key, value) => !key.isPseudoElement && !value.isObject).map fun (key, _) => (target, key) := by
    refine List.mem_map.mpr ⟨(key, value), List.mem_filter.mpr ⟨hentry, ?_⟩, rfl⟩
    dsimp only
    rw [hpseudo, hobject]
    rfl
  unfold lookups
  rw [hread]
  cases ancestor with
  | none =>
      cases own with
      | none => cases hsome
      | some o => exact hmem
  | some a =>
      cases own with
      | none => exact hmem
      | some o => cases hone

/-- The pass for components inside reads the style key and some values of one other component. -/
theorem descendant_congr {settings : Settings} {arena other : Arena} {c : Component} {selector : String}
    {body : Object}
    (hkeys : ∀ name, (arena.get? name).map (·.styleKey) = (other.get? name).map (·.styleKey))
    (hvalues : ∀ lookup ∈ lookups selector body,
      baseValue (((arena.get? lookup.1).map (·.styles)).getD []) lookup.2 =
        baseValue (((other.get? lookup.1).map (·.styles)).getD []) lookup.2) :
    descendant.lower? settings arena c selector body = descendant.lower? settings other c selector body := by
  simp only [descendant]
  cases hread : descendant? (stripSelf selector) with
  | none => rfl
  | some read =>
      obtain ⟨ancestor, target, own⟩ := read
      have hnone : (arena.get? target).isNone = (other.get? target).isNone := by
        have h := congrArg Option.isNone (hkeys target)
        rwa [Option.isNone_map, Option.isNone_map] at h
      -- a condition on both sides is reported, and without a condition no value is looked up
      have hentries : (ancestor.isSome && own.isSome) = false → ∀ l : Lowered,
          overrideEntries (insideCondition ancestor own) (((arena.get? target).map (·.styles)).getD []) selector
              body l [] =
            overrideEntries (insideCondition ancestor own) (((other.get? target).map (·.styles)).getD []) selector
              body l [] := by
        intro hone l
        refine overrideEntries_congr ?_ selector l []
        rintro ⟨key, value⟩ hentry hsome hpseudo hobject
        exact hvalues (target, key) (mem_lookups hread hone hsome hentry hpseudo hobject)
      simp only [Option.bind_eq_bind, Option.bind_some, hnone, hkeys]
      cases hboth : ancestor.isSome && own.isSome with
      | true => rfl
      | false => rw [hentries hboth]

/-- Among distinct keys, the body of a selector stands as it is until the selector has been taken care of. -/
theorem currentBody_eq {c : Component} (hkeys : DistinctKeys c) {selector : String} {body : Object}
    (h : (selector, body) ∈ rawSelectors c.styles) : currentBody c selector body = body := by
  have hget := Object.get?_of_mem hkeys (mem_of_mem_rawSelectors h)
  rw [currentBody, hget]
  dsimp only
  rw [if_neg (Bool.eq_false_iff.mp (isConditional_of_mem_rawSelectors h))]

theorem unaware_descendant {settings : Settings} {arena : Arena} (hkeys : arena.All DistinctKeys)
    (h : Separate settings arena) : Unaware descendant settings arena := by
  intro current name c d selector body hc hd hreaches hbefore hraw
  have hpass : descendant ∈ allPasses := .tail _ (.head _)
  have hstyles := hreaches.styles_eq
  have hbody : currentBody d selector body = body := by
    apply currentBody_eq
    · unfold DistinctKeys
      rw [hstyles]
      exact hkeys.of_get? hc
    · rwa [hstyles]
  rw [hbody]
  apply descendant_congr
  · intro other
    by_cases hother : other = name
    · rw [hother, hc, hd, Option.map_some, Option.map_some, (Prod.mk.inj (hreaches.label_eq hpass)).2]
    · rcases hbefore other hother with hsame | hvisited
      · rw [hsame]
      · rw [hvisited, Option.map_map]
        refine congrFun (congrArg Option.map (funext fun c => ?_)) _
        exact (Prod.mk.inj (label_visited hpass settings arena c)).2
  · rintro ⟨other, key⟩ hlookup
    dsimp only
    by_cases hother : other = name
    · rw [hother, hc, hd, Option.map_some, Option.map_some, hstyles]
    · rcases hbefore other hother with hsame | hvisited
      · rw [hsame]
      · rw [hvisited]
        cases hchild : arena.get? other with
        | none => rfl
        | some child =>
            refine baseValue_visited fun inner hinner hinside hkey => ?_
            exact h _ (Table.mem_of_get? hc) _ hraw _ hlookup hother
              ⟨_, Table.mem_of_get? hchild, rfl, inner, hinner, hinside, hkey⟩

/-- An arena stays separate when its components lose entries of their styles. -/
theorem Separate.of_sublist {settings : Settings} {arena other : Arena} (h : Separate settings arena)
    (hnames : other.names.Nodup) {F : Component → Component} (hF : ∀ c, (F c).styles.Sublist c.styles)
    (hother : ∀ name, other.get? name = (arena.get? name).map F) : Separate settings other := by
  have horigin : ∀ {name d}, (name, d) ∈ other →
      ∃ c, (name, c) ∈ arena ∧ rawSelectors d.styles ⊆ rawSelectors c.styles := by
    intro name d hmem
    obtain ⟨c, hc, rfl⟩ := Option.map_eq_some_iff.mp ((hother name).symm.trans (Table.get?_of_mem hnames hmem))
    exact ⟨c, Table.mem_of_get? hc, ((hF c).filterMap _).subset⟩
  have hinside : ∀ selector, isInside settings other selector = isInside settings arena selector := by
    intro selector
    have hhas : ∀ name, other.has name = arena.has name := by
      intro name
      rw [Table.has, Table.has, hother, Option.isSome_map]
    unfold isInside
    simp only [hhas]
  rintro ⟨name, d⟩ hentry raw hraw lookup hlookup hne ⟨⟨target, e⟩, hfound, rfl, inner, hinner, hin, hkey⟩
  obtain ⟨c, hc, hown⟩ := horigin hentry
  obtain ⟨c', hc', htheirs⟩ := horigin hfound
  rw [hinside] at hin
  exact h _ hc _ (hown hraw) lookup hlookup hne ⟨_, hc', rfl, inner, htheirs hinner, hin, hkey⟩

end Restyle.Lowering
