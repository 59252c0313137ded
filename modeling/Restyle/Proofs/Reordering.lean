import Mathlib.Data.List.Perm.Basic
import Restyle.Proofs.Bridges
import Restyle.Proofs.Visits

/-!
# Components in another order

Lowering visits the components in the order of their declarations, but the order has little influence on what
becomes of them.  A pass treats a component as if no other one had been visited before, so its visits give the
same components in every order; only the custom properties that a component defines for several others stand
in the order of these.  The exception are values that the pass for components inside looks up in another
component under a key that is a selector of its own family there: they are gone once the other component has
been visited.
-/

namespace Restyle

namespace Table

variable {α : Type}

/-- Tables with the same distinct names and the same values are permuted. -/
theorem perm_of_get? {t u : Table α} (hnames : t.names.Nodup) (hperm : t.names.Perm u.names)
    (hget : ∀ name, t.get? name = u.get? name) : t.Perm u := by
  have hnames' := hperm.nodup_iff.mp hnames
  rw [List.perm_ext_iff_of_nodup hnames.of_map hnames'.of_map]
  rintro ⟨name, value⟩
  constructor
  · exact fun hmem => mem_of_get? ((hget name).symm.trans (get?_of_mem hnames hmem))
  · exact fun hmem => mem_of_get? ((hget name).trans (get?_of_mem hnames' hmem))

/-- Under distinct names, a table can be read name by name. -/
theorem flatMap_values {β : Type} {t : Table α} (hnames : t.names.Nodup) (f : α → List β) :
    t.values.flatMap f = t.names.flatMap fun name => ((t.get? name).map f).getD [] := by
  induction t with
  | nil => rfl
  | cons entry t ih =>
      obtain ⟨k, v⟩ := entry
      obtain ⟨hfresh, hrest⟩ := List.nodup_cons.mp hnames
      have hothers : (names t).flatMap (fun name => ((get? ((k, v) :: t) name).map f).getD []) =
          (names t).flatMap fun name => ((get? t name).map f).getD [] := by
        refine List.flatMap_congr fun name hname => ?_
        rw [get?, if_neg]
        rintro rfl
        exact hfresh hname
      show f v ++ (values t).flatMap f =
        ((get? ((k, v) :: t) k).map f).getD [] ++
          (names t).flatMap fun name => ((get? ((k, v) :: t) name).map f).getD []
      rw [hothers, ih hrest, get?, if_pos rfl]
      rfl

end Table

/-- What work keeps holds in the state in which it ends. -/
theorem Work.Keeps.ended {σ α : Type} {P : σ → Prop} {w : Effect σ α} (h : Keeps P w) {s s' : σ}
    {result : Except Fault α} (hs : P s) (hrun : w.run s = (result, s')) : P s' := by
  have hkept := h s hs
  rwa [hrun] at hkept

namespace Lowering

open Restyle.Style (Key Value Object)
open Work (Keeps)

/-! ## Two runs -/

/--
Two pieces of work that come to their ends lead from related arenas to related arenas, and report the same up to
order.
-/
def Leads (R : Arena → Arena → Prop) (w v : Work Unit) (S : Arena → Arena → Prop) : Prop :=
  ∀ s t s' t' : Session Arena, R s.store t.store → s.diagnostics.items.Perm t.diagnostics.items →
    w.run s = (.ok ⟨⟩, s') → v.run t = (.ok ⟨⟩, t') →
      S s'.store t'.store ∧ s'.diagnostics.items.Perm t'.diagnostics.items

/-- The passes of a list as phases of the trace. -/
def phases (settings : Settings) (passes : List Pass) : Work PUnit :=
  forIn passes PUnit.unit fun pass _ => do
    Work.trace (·.startPhase ("lower:" ++ pass.name) ("Selector lowering pass '" ++ pass.name ++ "'"))
    pass.run settings
    Work.trace (·.endPhase)
    return .yield ⟨⟩

theorem lowerAll_eq (settings : Settings) :
    lowerAll settings =
      phases settings allPasses >>= fun _ => Work.store >>= fun a => a.names.forM (dropLeftovers settings) :=
  rfl

section

variable {R S T : Arena → Arena → Prop} {settings : Settings}

theorem Leads.done (h : ∀ a b, R a b → S a b) : Leads R (phases settings []) (phases settings []) S := by
  intro s t s' t' hst hreports hs ht
  cases hs
  cases ht
  exact ⟨h _ _ hst, hreports⟩

theorem run_phases_cons {pass : Pass} {passes : List Pass} {s s' : Session Arena}
    (h : (phases settings (pass :: passes)).run s = (.ok ⟨⟩, s')) :
    ∃ s₁ s₂ s₃, s₁.store = s.store ∧ s₁.diagnostics = s.diagnostics ∧
      (pass.run settings).run s₁ = (.ok ⟨⟩, s₂) ∧ s₃.store = s₂.store ∧ s₃.diagnostics = s₂.diagnostics ∧
        (phases settings passes).run s₃ = (.ok ⟨⟩, s') := by
  unfold phases at h
  rw [List.forIn_cons] at h
  simp only [bind_assoc, pure_bind] at h
  rw [Work.run_bind_ok _ (Work.run_trace _ s)] at h
  obtain ⟨⟨⟩, s₂, hpass, h⟩ := Work.run_bind_eq_ok h
  rw [Work.run_bind_ok _ (Work.run_trace _ s₂)] at h
  refine ⟨_, s₂, { s₂ with trace := s₂.trace.endPhase }, ?_, ?_, hpass, rfl, rfl, h⟩
  · rfl
  · rfl

theorem Leads.phase {pass : Pass} {passes : List Pass} (hpass : Leads R (pass.run settings) (pass.run settings) S)
    (hrest : Leads S (phases settings passes) (phases settings passes) T) :
    Leads R (phases settings (pass :: passes)) (phases settings (pass :: passes)) T := by
  intro s t s' t' hst hreports hs ht
  obtain ⟨s₁, s₂, s₃, hstore, hitems, hs, hstore', hitems', hs'⟩ := run_phases_cons hs
  obtain ⟨t₁, t₂, t₃, tstore, titems, ht, tstore', titems', ht'⟩ := run_phases_cons ht
  rw [← hstore, ← tstore] at hst
  rw [← hitems, ← titems] at hreports
  obtain ⟨hS, hreports'⟩ := hpass _ _ _ _ hst hreports hs ht
  rw [← hstore', ← tstore'] at hS
  rw [← hitems', ← titems'] at hreports'
  exact hrest _ _ _ _ hS hreports' hs' ht'

end

theorem run_notes (notes : List (String × String × String)) (s : Session Arena) :
    ∃ trace, (notes.forM fun (subject, outcome, detail) =>
        (Work.trace (·.inspection subject outcome detail) : Work Unit)).run s =
      (.ok ⟨⟩, { s with trace := trace }) := by
  induction notes generalizing s with
  | nil => exact ⟨s.trace, rfl⟩
  | cons note notes ih =>
      obtain ⟨trace, h⟩ := ih { s with trace := s.trace.inspection note.1 note.2.1 note.2.2 }
      exact ⟨trace, (Work.run_bind_ok _ (Work.run_trace _ s)).trans h⟩

/-- A pass that comes to its end has visited the components and then done what was left. -/
theorem run_pass_eq_ok {pass : Pass} {settings : Settings} {s s' : Session Arena}
    (h : (pass.run settings).run s = (.ok ⟨⟩, s')) :
    ∃ s₁ notes, (pass.visit settings).run s = (.ok ⟨⟩, s₁) ∧ pass.finish s₁.store = .ok (s'.store, notes) ∧
      s'.diagnostics = s₁.diagnostics := by
  rw [Pass.run_eq] at h
  obtain ⟨⟨⟩, s₁, hvisit, h⟩ := Work.run_bind_eq_ok h
  rw [Pass.close, Work.run_bind_ok _ (Work.run_store s₁)] at h
  cases hfinish : pass.finish s₁.store with
  | error f =>
      rw [hfinish] at h
      cases h
  | ok done =>
      obtain ⟨arena, notes⟩ := done
      obtain ⟨trace, hnotes⟩ := run_notes notes { s₁ with store := arena }
      rw [hfinish] at h
      dsimp only at h
      rw [Work.run_bind_ok _ (Work.run_update _ s₁), hnotes] at h
      cases h
      exact ⟨s₁, notes, hvisit, hfinish, rfl⟩

theorem names_run_eq_ok {pass : Pass} (hpass : pass ∈ allPasses) {settings : Settings} {s s' : Session Arena}
    (h : (pass.run settings).run s = (.ok ⟨⟩, s')) : s'.store.names = s.store.names :=
  (names_run hpass settings s.store.names).ended rfl h

theorem distinctKeys_run_eq_ok {pass : Pass} (hpass : pass ∈ allPasses) {settings : Settings}
    {s s' : Session Arena} (hkeys : s.store.All DistinctKeys) (h : (pass.run settings).run s = (.ok ⟨⟩, s')) :
    s'.store.All DistinctKeys :=
  (keeps_distinctKeys hpass settings).ended hkeys h

theorem names_visit (pass : Pass) {settings : Settings} {s s' : Session Arena} (h : (pass.visit settings).run s = (.ok ⟨⟩, s')) :
    s'.store.names = s.store.names := by
  rw [Pass.visit, Work.run_bind_ok _ (Work.run_store s)] at h
  refine (Keeps.forM (P := fun t : Session Arena => t.store.names = s.store.names) _ fun name _ => ?_).ended rfl h
  refine keeps_runOn (P := fun arena => arena.names = s.store.names) ?_ ?_
  · intro arena c selector body lowered harena hc _
    rw [Table.names_set_of_get? hc, harena]
  · intro arena selectors harena
    rw [Table.names_modify, harena]

/-! ## Visits in another order -/

/-- The same components in another order; the names are distinct, and so are the keys of the styles. -/
structure Reordered (a b : Arena) : Prop where
  perm : a.Perm b
  names : a.names.Nodup
  keys : a.All DistinctKeys

section

variable {a b : Arena} (h : Reordered a b)
include h

theorem Reordered.get?_eq (name : String) : a.get? name = b.get? name :=
  Table.get?_of_perm h.perm h.names name

theorem Reordered.names' : b.names.Nodup :=
  (h.perm.map _).nodup_iff.mp h.names

theorem Reordered.keys' : b.All DistinctKeys :=
  fun entry hentry => h.keys entry (h.perm.mem_iff.mpr hentry)

theorem Reordered.separate {settings : Settings} (hseparate : Separate settings a) : Separate settings b := by
  refine hseparate.of_sublist h.names' (F := id) (fun c => List.Sublist.refl c.styles) fun name => ?_
  rw [Option.map_id, h.get?_eq]
  rfl

end

theorem visitOf_reordered {pass : Pass} (hpass : pass ∈ allPasses) {settings : Settings} {a b : Arena}
    (h : Reordered a b) (c : Component) : visitOf pass settings a c = visitOf pass settings b c := by
  refine visitOf_congr (fun c selector body => ?_) c
  by_cases hne : pass = descendant
  · subst hne
    apply descendant_congr
    · exact fun name => by rw [h.get?_eq]
    · exact fun lookup _ => by rw [h.get?_eq]
  · exact shallow_of_mem hpass hne settings a b c selector body fun name => by rw [h.get?_eq]

/-- A pass that is unaware in both arenas visits their components to the same effect. -/
theorem Reordered.visit {pass : Pass} (hpass : pass ∈ allPasses) {settings : Settings} {s t s' t' : Session Arena}
    (h : Reordered s.store t.store) (ha : Unaware pass settings s.store) (hb : Unaware pass settings t.store)
    (hreports : s.diagnostics.items.Perm t.diagnostics.items)
    (hrun : (pass.visit settings).run s = (.ok ⟨⟩, s')) (hrun' : (pass.visit settings).run t = (.ok ⟨⟩, t')) :
    (∀ name, s'.store.get? name = (s.store.get? name).map (visited pass settings s.store)) ∧
      s'.store.Perm t'.store ∧ s'.diagnostics.items.Perm t'.diagnostics.items := by
  obtain ⟨hstore, hitems⟩ := run_visit_eq_ok ha h.names hrun
  obtain ⟨hstore', hitems'⟩ := run_visit_eq_ok hb h.names' hrun'
  have hnames := names_visit pass hrun
  have hnames' := names_visit pass hrun'
  refine ⟨hstore, ?_, ?_⟩
  · have hvisited : visited pass settings s.store = visited pass settings t.store := by
      funext c
      rw [visited, visited, visitOf_reordered hpass h]
    refine Table.perm_of_get? (hnames ▸ h.names) (hnames ▸ hnames' ▸ h.perm.map _) fun name => ?_
    rw [hstore, hstore', h.get?_eq, hvisited]
  · rw [hitems, hitems']
    refine reported_perm ((h.perm.map (·.1)).flatMap fun name _ => ?_) hreports
    simp only [h.get?_eq, visitOf_reordered hpass h]
    exact .refl _

/-- The order of the components has no influence on a pass that has nothing left to do after its visits. -/
theorem Reordered.run {pass : Pass} (hpass : pass ∈ allPasses) (hclosed : pass.finish = fun a => .ok (a, []))
    {settings : Settings} {s t s' t' : Session Arena} (h : Reordered s.store t.store)
    (hreports : s.diagnostics.items.Perm t.diagnostics.items) (ha : Unaware pass settings s.store)
    (hb : Unaware pass settings t.store) (hs : (pass.run settings).run s = (.ok ⟨⟩, s'))
    (ht : (pass.run settings).run t = (.ok ⟨⟩, t')) :
    Reordered s'.store t'.store ∧ s'.diagnostics.items.Perm t'.diagnostics.items ∧
      ∀ name, s'.store.get? name = (s.store.get? name).map (visited pass settings s.store) := by
  obtain ⟨s₁, notes, hvisit, hfinish, hitems⟩ := run_pass_eq_ok hs
  obtain ⟨t₁, notes', hvisit', hfinish', hitems'⟩ := run_pass_eq_ok ht
  rw [hclosed] at hfinish hfinish'
  obtain ⟨hstore, -⟩ := Prod.mk.inj (Except.ok.inj hfinish)
  obtain ⟨hstore', -⟩ := Prod.mk.inj (Except.ok.inj hfinish')
  obtain ⟨hget, hsame, hperm⟩ := h.visit hpass ha hb hreports hvisit hvisit'
  rw [hstore] at hget hsame
  rw [hstore'] at hsame
  rw [hitems, hitems']
  exact ⟨⟨hsame, names_run_eq_ok hpass hs ▸ h.names, distinctKeys_run_eq_ok hpass h.keys hs⟩, hperm, hget⟩

section

variable {settings : Settings}

theorem unaware_of_ne {pass : Pass} (hpass : pass ∈ allPasses) (hne : pass.name ≠ descendant.name)
    (settings : Settings) (arena : Arena) : Unaware pass settings arena :=
  (shallow_of_mem hpass (mt (congrArg Pass.name) hne)).unaware hpass settings arena

theorem leads_closed {pass : Pass} (hpass : pass ∈ allPasses) (hne : pass.name ≠ descendant.name)
    (hclosed : pass.finish = fun a => .ok (a, [])) :
    Leads Reordered (pass.run settings) (pass.run settings) Reordered := by
  intro s t s' t' h hreports hs ht
  have hunaware := unaware_of_ne hpass hne settings
  obtain ⟨h', hreports', -⟩ := h.run hpass hclosed hreports (hunaware _) (hunaware _) hs ht
  exact ⟨h', hreports'⟩

theorem leads_descendant :
    Leads (fun a b => Reordered a b ∧ Separate settings a) (descendant.run settings) (descendant.run settings)
      Reordered := by
  rintro s t s' t' ⟨h, hseparate⟩ hreports hs ht
  obtain ⟨h', hreports', -⟩ := h.run (.tail _ (.head _)) rfl hreports (unaware_descendant h.keys hseparate)
    (unaware_descendant h.keys' (h.separate hseparate)) hs ht
  exact ⟨h', hreports'⟩

theorem erase_sublist (o : Object) (key : Key) : (o.erase key).Sublist o := by
  induction o with
  | nil => exact List.Sublist.refl _
  | cons entry o ih =>
      obtain ⟨k, v⟩ := entry
      rw [Object.erase]
      split
      · exact List.sublist_cons_self _ _
      · exact ih.cons_cons _

theorem eraseAll_sublist (styles : Object) (selectors : List String) : (eraseAll styles selectors).Sublist styles := by
  unfold eraseAll
  induction selectors generalizing styles with
  | nil => exact List.Sublist.refl _
  | cons selector selectors ih => exact (ih _).trans (erase_sublist styles (.name selector))

/-- The pass for children takes nothing but selectors out of the styles. -/
theorem styles_visited_universal (arena : Arena) (c : Component) :
    (visited universal settings arena c).styles.Sublist c.styles := by
  have hstyles : ∀ {d}, Reaches universal settings arena c d → d.styles = c.styles := by
    intro d h
    induction h with
    | start => rfl
    | step reached lower ih =>
        obtain ⟨kind, ending, -, rfl⟩ := universal_eq_some lower
        exact (styles_addExtra _ _ _).trans ih
  rw [visited]
  dsimp only
  rw [hstyles (reaches_visitOf universal settings arena c)]
  exact eraseAll_sublist _ _

theorem leads_universal :
    Leads (fun a b => Reordered a b ∧ Separate settings a) (universal.run settings) (universal.run settings)
      (fun a b => Reordered a b ∧ Separate settings a) := by
  rintro s t s' t' ⟨h, hseparate⟩ hreports hs ht
  have hpass : universal ∈ allPasses := .head _
  have hunaware := unaware_of_ne hpass (by decide) settings
  obtain ⟨h', hreports', hget⟩ := h.run hpass rfl hreports (hunaware _) (hunaware _) hs ht
  exact ⟨⟨h', hseparate.of_sublist h'.names (styles_visited_universal _) hget⟩, hreports'⟩

/-! ## Custom properties in another order -/

/--
The same components in another order.  The custom properties that a component defines for others stand in another
order too, if they are distinct.
-/
structure Agree (a b : Arena) : Prop where
  names : a.names.Perm b.names
  distinct : a.names.Nodup
  keys : a.All DistinctKeys
  keys' : b.All DistinctKeys
  same : ∀ name c, a.get? name = some c → ((bridgesTo name a).map (·.varName)).Nodup →
    ∃ d, b.get? name = some d ∧ SameUpTo ((bridgesTo name a).map (·.varName)) c d

/-- The custom properties on which components depend can be told from the components. -/
theorem bridges_congr {a b : Arena} (hnames : a.names = b.names) (hdistinct : a.names.Nodup)
    (h : ∀ name, (a.get? name).map (·.injections) = (b.get? name).map (·.injections)) : bridges a = bridges b := by
  rw [bridges, bridges, Table.flatMap_values hdistinct, Table.flatMap_values (hnames ▸ hdistinct), hnames]
  simp only [h]

/-- The last pass makes the same of components in another order, up to the order of new custom properties. -/
theorem leads_ancestor : Leads Reordered (ancestor.run settings) (ancestor.run settings) Agree := by
  intro s t s' t' h hreports hs ht
  have hpass : ancestor ∈ allPasses := by simp [allPasses]
  have hunaware := unaware_of_ne hpass (by decide) settings
  obtain ⟨s₁, notes, hvisit, hfinish, hitems⟩ := run_pass_eq_ok hs
  obtain ⟨t₁, notes', hvisit', hfinish', hitems'⟩ := run_pass_eq_ok ht
  obtain ⟨-, hsame, hperm⟩ := h.visit hpass (hunaware _) (hunaware _) hreports hvisit hvisit'
  have hnames := names_run_eq_ok hpass hs
  have hnames' := names_run_eq_ok hpass ht
  have hvisited := names_visit ancestor hvisit
  have hget := get?_finish_ancestor hfinish
  have hget' := get?_finish_ancestor hfinish'
  have hbridges : bridges s'.store = bridges s₁.store := by
    apply bridges_congr (hnames.trans hvisited.symm) (hnames ▸ h.names)
    intro name
    rw [hget, Option.map_map]
    rfl
  constructor
  · constructor
    case names => exact hnames ▸ hnames' ▸ h.perm.map _
    case distinct => exact hnames ▸ h.names
    case keys => exact distinctKeys_run_eq_ok hpass h.keys hs
    case keys' => exact distinctKeys_run_eq_ok hpass h.keys' ht
    case same =>
      intro name c hc hvariables
      rw [bridgesTo, hbridges] at hvariables ⊢
      rw [hget] at hc
      obtain ⟨c₁, hc₁, rfl⟩ := Option.map_eq_some_iff.mp hc
      have htargets : (bridgesTo name s₁.store).Perm (bridgesTo name t₁.store) :=
        ((hsame.map _).flatMap_right _).filter _
      refine ⟨_, ?_, sameUpTo_foldl_defined hvariables htargets c₁⟩
      rw [hget', ← Table.get?_of_perm hsame (hvisited ▸ h.names), hc₁]
      rfl
  · rwa [hitems, hitems']

/-- The order of the components has no influence on the passes, up to the order of new custom properties. -/
theorem leads_phases :
    Leads (fun a b => Reordered a b ∧ Separate settings a) (phases settings allPasses) (phases settings allPasses)
      Agree := by
  apply leads_universal.phase
  apply leads_descendant.phase
  apply Leads.phase (leads_closed (by simp [allPasses]) (by decide) rfl)
  apply Leads.phase (leads_closed (by simp [allPasses]) (by decide) rfl)
  apply Leads.phase (leads_closed (by simp [allPasses]) (by decide) rfl)
  apply leads_ancestor.phase
  exact Leads.done fun _ _ h => h

/-! ## What is left in another order -/

/-- Reports about the selectors of a component that are left among components of certain names. -/
def leftoverReports (settings : Settings) (known : List String) (c : Component) : List Diagnostic :=
  (rawSelectors c.styles).map fun (selector, _) =>
    Lowered.diagnostic (leftoverReason selector known settings.importedComponents) c selector

theorem leftoverReports_congr {known other : List String} (h : ∀ name, name ∈ known ↔ name ∈ other) (c : Component) :
    leftoverReports settings known c = leftoverReports settings other c := by
  have hcontains : ∀ name, known.contains name = other.contains name := by
    intro name
    rw [Bool.eq_iff_iff, List.contains_iff_mem, List.contains_iff_mem, h]
  simp only [leftoverReports, leftoverReason, hcontains]

theorem run_forIn_reported (selectors : List String) (f : String → Diagnostic) (s : Session Arena) :
    (forIn selectors PUnit.unit fun selector _ => do
        Work.report (f selector)
        pure (ForInStep.yield PUnit.unit) : Work PUnit).run s =
      (.ok ⟨⟩, { s with diagnostics := reported (selectors.map f) s.diagnostics }) := by
  induction selectors generalizing s with
  | nil => rfl
  | cons selector selectors ih =>
      rw [List.forIn_cons]
      exact ih { s with diagnostics := s.diagnostics.report (f selector) }

theorem turn_dropLeftovers {name : String} {c : Component} {s s' : Session Arena} (hc : s.store.get? name = some c)
    (h : (dropLeftovers settings name).run s = (.ok ⟨⟩, s')) :
    Turn dropped (leftoverReports settings s.store.names) name c s s' := by
  rw [dropLeftovers, Work.run_bind_ok _ (Work.run_store s), hc] at h
  dsimp only at h
  rw [Work.run_bind_ok _ (run_forIn_reported _ _ s)] at h
  cases h
  constructor
  · dsimp only
    rw [Table.get?_modify_self, hc]
    rfl
  · intro other hother
    dsimp only
    exact Table.get?_modify_of_ne _ _ (Ne.symm hother)
  · rw [leftoverReports]
    dsimp only
    rw [List.map_map]
    rfl

/-- In the end the selectors of all components are reported and dropped. -/
theorem run_drops_eq_ok {s s' : Session Arena} (hnames : s.store.names.Nodup)
    (h : (s.store.names.forM (dropLeftovers settings)).run s = (.ok ⟨⟩, s')) :
    s'.store.names = s.store.names ∧ (∀ name, s'.store.get? name = (s.store.get? name).map dropped) ∧
      s'.diagnostics = reported (s.store.names.flatMap fun name =>
        ((s.store.get? name).map (leftoverReports settings s.store.names)).getD []) s.diagnostics := by
  have hkept : s'.store.names = s.store.names := by
    refine (Keeps.forM (P := fun t : Session Arena => t.store.names = s.store.names) _ fun name _ => ?_).ended rfl h
    refine keeps_dropLeftovers (P := fun arena => arena.names = s.store.names) fun arena selectors harena => ?_
    rw [Table.names_modify, harena]
  have hturn : ∀ name c t t', s.store.get? name = some c → t.store.get? name = some c →
      (∀ other, t.store.get? other = s.store.get? other ∨ t.store.get? other = (s.store.get? other).map dropped) →
      (dropLeftovers settings name).run t = (.ok ⟨⟩, t') →
      Turn dropped (leftoverReports settings s.store.names) name c t t' := by
    intro name c t t' _ hc hmixed hrun
    have hturn := turn_dropLeftovers hc hrun
    have hknown : ∀ other, other ∈ t.store.names ↔ other ∈ s.store.names := by
      intro other
      rw [← not_iff_not, ← Table.get?_eq_none_iff, ← Table.get?_eq_none_iff]
      rcases hmixed other with hsame | hdropped
      · rw [hsame]
      · rw [hdropped, Option.map_eq_none_iff]
    refine ⟨hturn.own, hturn.others, ?_⟩
    rw [hturn.reports, leftoverReports_congr hknown]
  exact ⟨hkept, forM_names hturn hnames h⟩

/-- The selectors of components that are the same up to the order of entries are reported in another order. -/
theorem SameUpTo.leftoverReports_perm {names : List String} {c d : Component} (h : SameUpTo names c d)
    (known : List String) : (leftoverReports settings known c).Perm (leftoverReports settings known d) := by
  obtain ⟨own, added, added', hc, rfl, hperm, -⟩ := h
  have hselectors : (rawSelectors (own ++ added)).Perm (rawSelectors (own ++ added')) :=
    (hperm.append_left own).filterMap _
  rw [leftoverReports, hc]
  exact hselectors.map _

theorem SameUpTo.dropped {names : List String} {c d : Component} (h : SameUpTo names c d) (hc : DistinctKeys c)
    (hd : DistinctKeys d) : SameUpTo names (dropped c) (dropped d) := by
  obtain ⟨own, added, added', hstyles, rfl, hperm, hadded⟩ := h
  let clear (entry : Key × Value) : Bool := !isRawSelector entry.1 entry.2
  refine ⟨own.filter clear, added.filter clear, added'.filter clear, ?_, ?_, hperm.filter _, ?_⟩
  · rw [styles_dropped hc, hstyles, List.filter_append]
  · rw [← List.filter_append, ← styles_dropped hd]
    rfl
  · exact fun entry hentry => hadded entry (List.mem_of_mem_filter hentry)

/-! ## Lowering in another order -/

/--
Lowering does not depend on the order of the components, if no two of them make others define a custom property of
the same name, and no value is looked up that stands under a selector for a component inside: every component comes
out the same up to the order of such properties, and the same is reported up to order.
-/
theorem lowerAll_reordered {s t s' t' : Session Arena} (hperm : s.store.Perm t.store)
    (hnames : s.store.names.Nodup) (hkeys : s.store.All DistinctKeys) (hseparate : Separate settings s.store)
    (hreports : s.diagnostics.items.Perm t.diagnostics.items)
    (hs : (lowerAll settings).run s = (.ok ⟨⟩, s')) (ht : (lowerAll settings).run t = (.ok ⟨⟩, t'))
    (hvariables : ((bridges s'.store).map (·.varName)).Nodup) :
    s'.store.names.Perm t'.store.names ∧ s'.diagnostics.items.Perm t'.diagnostics.items ∧
      ∀ name c, s'.store.get? name = some c → ∃ d, t'.store.get? name = some d ∧
        SameUpTo ((bridgesTo name s'.store).map (·.varName)) c d := by
  rw [lowerAll_eq] at hs ht
  obtain ⟨⟨⟩, s₁, hphases, hs⟩ := Work.run_bind_eq_ok hs
  obtain ⟨⟨⟩, t₁, hphases', ht⟩ := Work.run_bind_eq_ok ht
  obtain ⟨hagree, hitems⟩ := leads_phases s t s₁ t₁ ⟨⟨hperm, hnames, hkeys⟩, hseparate⟩ hreports hphases hphases'
  rw [Work.run_bind_ok _ (Work.run_store _)] at hs ht
  obtain ⟨hkept, hstore, hdropped⟩ := run_drops_eq_ok hagree.distinct hs
  obtain ⟨hkept', hstore', hdropped'⟩ := run_drops_eq_ok (hagree.names.nodup_iff.mp hagree.distinct) ht
  have hbridges : bridges s'.store = bridges s₁.store := by
    apply bridges_congr hkept (hkept ▸ hagree.distinct)
    intro name
    rw [hstore, Option.map_map]
    rfl
  have hsame : ∀ name c, s₁.store.get? name = some c → ∃ d, t₁.store.get? name = some d ∧
      SameUpTo ((bridgesTo name s'.store).map (·.varName)) c d := by
    intro name c hc
    rw [bridgesTo, hbridges]
    rw [hbridges] at hvariables
    exact hagree.same name c hc ((List.filter_sublist.map _).nodup hvariables)
  refine ⟨?_, ?_, ?_⟩
  · rw [hkept, hkept']
    exact hagree.names
  · rw [hdropped, hdropped']
    refine reported_perm (hagree.names.flatMap fun name hname => ?_) hitems
    obtain ⟨c, hc⟩ := Table.exists_get?_of_mem_names hname
    obtain ⟨d, hd, hcd⟩ := hsame name c hc
    rw [hc, hd, Option.map_some, Option.map_some, leftoverReports_congr fun name => hagree.names.mem_iff]
    exact hcd.leftoverReports_perm _
  · intro name c hc
    obtain ⟨c₁, hc₁, rfl⟩ := Option.map_eq_some_iff.mp ((hstore name).symm.trans hc)
    obtain ⟨d, hd, hcd⟩ := hsame name c₁ hc₁
    refine ⟨dropped d, ?_, hcd.dropped (hagree.keys.of_get? hc₁) (hagree.keys'.of_get? hd)⟩
    rw [hstore', hd]
    rfl

end

theorem all_distinctKeys {a : Arena} (h : a.all (fun entry => decide entry.2.styles.keys.Nodup) = true) :
    a.All DistinctKeys :=
  fun entry hentry => of_decide_eq_true (List.all_eq_true.mp h entry hentry)

/-- A component with a style key and styles. -/
def tagged (name styleKey : String) (styles : Object) : String × Component :=
  (name, { name, styleKey, base := "div", styles })

/-- A card that gives its title a color in a pseudo state. -/
def card : String × Component :=
  tagged "Card" "card" [(.name "&:hover $\x7bTitle\x7d", .obj [(.name "color", .text "green")])]

/-- A title and a link that depend on pseudo states of the card around them. -/
def inCard : Arena :=
  [tagged "Title" "title"
      [(.name "color", .text "black"), (.name "$\x7bCard\x7d:hover &", .obj [(.name "margin", .int 1)])],
    tagged "Link" "link" [(.name "$\x7bCard\x7d:focus &", .obj [(.name "margin", .int 2)])]]

/-- The card may come before the title and the link, or after the link and the title. -/
theorem lowerAll_reordered_card :
    ∃ s' t', (lowerAll {}).run { store := card :: inCard } = (.ok ⟨⟩, s') ∧
      (lowerAll {}).run { store := inCard.reverse ++ [card] } = (.ok ⟨⟩, t') ∧
        s'.store.names.Perm t'.store.names ∧ s'.diagnostics.items.Perm t'.diagnostics.items ∧
          ∀ name c, s'.store.get? name = some c → ∃ d, t'.store.get? name = some d ∧
            SameUpTo ((bridgesTo name s'.store).map (·.varName)) c d := by
  obtain ⟨s', hs⟩ := exists_run_of_isSome {} { store := card :: inCard } (by decide +kernel)
  obtain ⟨t', ht⟩ := exists_run_of_isSome {} { store := inCard.reverse ++ [card] } (by decide +kernel)
  have hperm : (card :: inCard).Perm (inCard.reverse ++ [card]) :=
    (inCard.reverse_perm.symm.cons card).trans (List.perm_append_singleton card _).symm
  have hbridges : (bridges ((lowerAll {}).run { store := card :: inCard }).2.store).map (·.varName) =
      ["--title-margin-on-card-hover", "--link-margin-on-card-focus"] := by decide +kernel
  rw [hs] at hbridges
  have hvariables : ((bridges s'.store).map (·.varName)).Nodup := by
    rw [hbridges]
    decide
  refine ⟨s', t', hs, ht, ?_⟩
  exact lowerAll_reordered (s := { store := card :: inCard }) (t := { store := inCard.reverse ++ [card] }) hperm
    (by decide) (all_distinctKeys (by decide)) (by decide) (.refl _) hs ht hvariables

/-- An icon with a selector for another component inside. -/
def icon : String × Component :=
  tagged "Icon" "icon" [(.name "$\x7bOther\x7d", .obj [(.name "color", .text "red")])]

/-- A button that looks for a value of the icon under that very selector. -/
def buttonAndOther : Arena :=
  [tagged "Button" "button"
      [(.name "&:hover $\x7bIcon\x7d", .obj [(.name "$\x7bOther\x7d", .int 1)])],
    tagged "Other" "other" []]

/-- The icon in front of the others. -/
def iconFirst : Arena :=
  icon :: buttonAndOther

/-- The icon behind the others. -/
def iconLast : Arena :=
  buttonAndOther ++ [icon]

/-- Whether the icon inside the button has a value outside of the pseudo state. -/
def hasOutsideValue (extraStyles : Table Object) : Bool :=
  match extraStyles.get? "iconInButton" with
  | some o =>
    match o.get? (.name "$\x7bOther\x7d") with
    | some (.obj conditions) => !((Object.get? conditions Key.default).getD .null).isNull
    | _ => false
  | none => false

/-- A value that is looked up under a selector for a component inside depends on the order of the components. -/
theorem not_lowerAll_reordered_icon :
    ∃ s' t', iconFirst.Perm iconLast ∧ iconFirst.names.Nodup ∧ (iconFirst.values.map (·.styleKey)).Nodup ∧
      iconFirst.All DistinctKeys ∧ (lowerAll {}).run { store := iconFirst } = (.ok ⟨⟩, s') ∧
        (lowerAll {}).run { store := iconLast } = (.ok ⟨⟩, t') ∧ bridges s'.store = [] ∧ bridges t'.store = [] ∧
          (s'.store.get? "Button").map (·.extraStyles) ≠ (t'.store.get? "Button").map (·.extraStyles) := by
  obtain ⟨s', hs⟩ := exists_run_of_isSome {} { store := iconFirst } (by decide +kernel)
  obtain ⟨t', ht⟩ := exists_run_of_isSome {} { store := iconLast } (by decide +kernel)
  have hnone : (bridges ((lowerAll {}).run { store := iconFirst }).2.store).isEmpty = true := by decide +kernel
  have hnone' : (bridges ((lowerAll {}).run { store := iconLast }).2.store).isEmpty = true := by decide +kernel
  have hgone : ((((lowerAll {}).run { store := iconFirst }).2.store.get? "Button").map (·.extraStyles)).map
      hasOutsideValue = some false := by decide +kernel
  have hfound : ((((lowerAll {}).run { store := iconLast }).2.store.get? "Button").map (·.extraStyles)).map
      hasOutsideValue = some true := by decide +kernel
  rw [hs] at hnone hgone
  rw [ht] at hnone' hfound
  refine ⟨s', t', (List.perm_append_singleton icon _).symm, by decide, by decide, all_distinctKeys (by decide),
    hs, ht, List.isEmpty_iff.mp hnone, List.isEmpty_iff.mp hnone', fun hsame => ?_⟩
  rw [hsame, hfound] at hgone
  cases hgone

end Lowering

end Restyle
