import Restyle.Session

/-!
# Running work

What a run of a piece of work gives, step by step, and two ways to speak about runs without following the
state: a piece of work *stops* in a state when its run ends in a fault, and two pieces of work are
*alike* when from related states they give the same result and leave related states behind.  What a
session collects has no influence on a run, so the relations of interest overlook it.
-/

namespace Restyle

/-- Computations that may stop with a fault and keep their state. -/
abbrev Effect (σ : Type) := ExceptT Fault (StateM σ)

namespace Work

variable {τ υ σ ρ α β : Type}

/-! ## Single steps -/

@[simp] theorem run_pure (a : α) (s : σ) : (pure a : Effect σ α).run s = (.ok a, s) := rfl

@[simp] theorem run_throw (f : Fault) (s : σ) : (throw f : Effect σ α).run s = (.error f, s) := rfl

@[simp] theorem run_get (s : σ) : (get : Effect σ σ).run s = (.ok s, s) := rfl

@[simp] theorem run_modify (f : σ → σ) (s : σ) :
    (modify f : Effect σ Unit).run s = (.ok (), f s) := rfl

@[simp] theorem run_report (d : Diagnostic) (s : Session τ) :
    (report d : Work τ Unit).run s =
      (.ok (), { s with diagnostics := s.diagnostics.report d }) := rfl

@[simp] theorem run_trace (f : Trace → Trace) (s : Session τ) :
    (trace f : Work τ Unit).run s = (.ok (), { s with trace := f s.trace }) := rfl

@[simp] theorem run_store (s : Session τ) : (store : Work τ τ).run s = (.ok s.store, s) := rfl

@[simp] theorem run_update (f : τ → τ) (s : Session τ) :
    (update f : Work τ Unit).run s = (.ok (), { s with store := f s.store }) := rfl

@[simp] theorem run_ofExcept (x : Except Fault α) (s : Session τ) :
    (ofExcept x : Work τ α).run s = (x, s) := by
  cases x <;> rfl

/-- A sequence goes on with the result and the session of its first part. -/
theorem run_bind (w : Effect σ α) (k : α → Effect σ β) (s : σ) :
    (w >>= k).run s = match w.run s with
      | (.ok a, s') => (k a).run s'
      | (.error f, s') => (.error f, s') := by
  show StateT.bind w.run (ExceptT.bindCont k) s = _
  unfold StateT.bind
  simp only [Id]
  show (match w.run s with | (a, s') => _) = _
  cases w.run s with
  | mk r s' => cases r <;> rfl

theorem run_bind_ok {w : Effect σ α} {s s' : σ} {a : α} (k : α → Effect σ β)
    (h : w.run s = (.ok a, s')) : (w >>= k).run s = (k a).run s' := by
  rw [run_bind, h]

theorem run_bind_error {w : Effect σ α} {s s' : σ} {f : Fault} (k : α → Effect σ β)
    (h : w.run s = (.error f, s')) : (w >>= k).run s = (.error f, s') := by
  rw [run_bind, h]

/-- A loop that does nothing but report leaves all but the reports as it was. -/
theorem run_forIn_reports {f : α → PUnit → Work τ (ForInStep PUnit)} (xs : List α)
    (h : ∀ x s, ∃ d, (f x ⟨⟩).run s = (.ok (.yield ⟨⟩), { s with diagnostics := d }))
    (s : Session τ) :
    ∃ d, (forIn xs PUnit.unit f).run s = (.ok ⟨⟩, { s with diagnostics := d }) := by
  induction xs generalizing s with
  | nil => exact ⟨s.diagnostics, rfl⟩
  | cons x xs ih =>
      obtain ⟨d, hx⟩ := h x s
      obtain ⟨d', hxs⟩ := ih { s with diagnostics := d }
      refine ⟨d', ?_⟩
      rw [List.forIn_cons, run_bind_ok _ hx]
      exact hxs

theorem run_forM_report (reports : List Diagnostic) (s : Session τ) :
    ∃ d, (reports.forM (report (τ := τ))).run s = (.ok ⟨⟩, { s with diagnostics := d }) := by
  induction reports generalizing s with
  | nil => exact ⟨s.diagnostics, rfl⟩
  | cons x xs ih =>
      obtain ⟨d, h⟩ := ih { s with diagnostics := s.diagnostics.report x }
      exact ⟨d, (run_bind_ok _ (run_report x s)).trans h⟩

/-- A phase gives what the work in it gives. -/
theorem run_phase (name detail : String) (w : Work τ α) (s : Session τ) :
    (phase name detail w).run s =
      match w.run { s with trace := s.trace.startPhase name detail } with
      | (.ok a, s') => (.ok a, { s' with trace := s'.trace.endPhase })
      | (.error f, s') => (.error f, s') := by
  show (trace _ >>= fun _ => w >>= fun a => trace _ >>= fun _ => pure a).run s = _
  rw [run_bind_ok _ (run_trace _ s)]
  cases h : w.run { s with trace := s.trace.startPhase name detail } with
  | mk r s' =>
      cases r with
      | ok a => rw [run_bind_ok _ h, run_bind_ok _ (run_trace _ s'), run_pure]
      | error f => rw [run_bind_error _ h]

/-- Work on a state of its own gives the result with that state; the outer state stays. -/
theorem run_on (state : υ) (w : Work υ α) (s : Session τ) :
    (on state w : Work τ (α × υ)).run s =
      match w.run { diagnostics := s.diagnostics, trace := s.trace, store := state } with
      | (.ok a, s') =>
        (.ok (a, s'.store), { s with diagnostics := s'.diagnostics, trace := s'.trace })
      | (.error f, s') =>
        (.error f, { s with diagnostics := s'.diagnostics, trace := s'.trace }) := by
  unfold on
  rw [run_bind_ok _ (run_get s)]
  cases h : w.run { diagnostics := s.diagnostics, trace := s.trace, store := state } with
  | mk r s' => cases r <;> rfl

/-! ## Work that stops -/

/-- The run of a piece of work from a state ends in a fault. -/
def Stops (w : Effect σ α) (s : σ) : Prop :=
  ∃ f, (w.run s).1 = .error f

@[simp] theorem not_stops_pure (a : α) (s : σ) : ¬ Stops (pure a : Effect σ α) s := by
  rintro ⟨f, h⟩
  cases h

@[simp] theorem stops_throw (f : Fault) (s : σ) : Stops (throw f : Effect σ α) s :=
  ⟨f, rfl⟩

/-- Work that does not stop gives a result. -/
theorem exists_run_of_not_stops {w : Effect σ α} {s : σ} (h : ¬ Stops w s) :
    ∃ a s', w.run s = (.ok a, s') := by
  cases hw : w.run s with
  | mk r s' =>
      cases r with
      | ok a => exact ⟨a, s', rfl⟩
      | error f => exact absurd ⟨f, by rw [hw]⟩ h

/-- A sequence stops in its first part, or in its second after the first gave a result. -/
theorem stops_bind {w : Effect σ α} {k : α → Effect σ β} {s : σ} :
    Stops (w >>= k) s ↔
      Stops w s ∨ ∃ a s', w.run s = (.ok a, s') ∧ Stops (k a) s' := by
  unfold Stops
  rw [run_bind]
  cases h : w.run s with
  | mk r s' =>
      cases r with
      | ok a =>
          constructor
          · exact fun hk => .inr ⟨a, s', rfl, hk⟩
          · rintro (⟨f, hf⟩ | ⟨a', t, heq, hk⟩)
            · cases hf
            · cases heq
              exact hk
      | error f => exact ⟨fun _ => .inl ⟨f, rfl⟩, fun _ => ⟨f, rfl⟩⟩

/-- A sequence whose first part gives a result stops exactly when its second part does. -/
theorem stops_bind_ok {w : Effect σ α} {k : α → Effect σ β} {s s' : σ} {a : α}
    (h : w.run s = (.ok a, s')) : Stops (w >>= k) s ↔ Stops (k a) s' := by
  unfold Stops
  rw [run_bind_ok k h]

/-- A sequence that gives a result does so in both of its parts. -/
theorem run_bind_eq_ok {w : Effect σ α} {k : α → Effect σ β} {s s' : σ} {b : β}
    (h : (w >>= k).run s = (.ok b, s')) :
    ∃ a s₁, w.run s = (.ok a, s₁) ∧ (k a).run s₁ = (.ok b, s') := by
  rw [run_bind] at h
  cases hw : w.run s with
  | mk r s₁ =>
      rw [hw] at h
      cases r with
      | ok a => exact ⟨a, s₁, rfl, h⟩
      | error f => cases h

theorem run_phase_eq_ok {name detail : String} {w : Work τ α} {s s' : Session τ} {a : α}
    (h : (phase name detail w).run s = (.ok a, s')) :
    ∃ s₀ s₁, s₀.store = s.store ∧ w.run s₀ = (.ok a, s₁) := by
  rw [run_phase] at h
  cases hw : w.run { s with trace := s.trace.startPhase name detail } with
  | mk r s₁ =>
      rw [hw] at h
      cases r with
      | ok a' =>
          cases h
          exact ⟨{ s with trace := s.trace.startPhase name detail }, s₁, rfl, hw⟩
      | error f => cases h

theorem run_on_eq_ok {state : υ} {w : Work υ α} {s s' : Session τ} {a : α} {state' : υ}
    (h : (on state w : Work τ (α × υ)).run s = (.ok (a, state'), s')) :
    ∃ s₀ s₁, s₀.store = state ∧ s₁.store = state' ∧ w.run s₀ = (.ok a, s₁) := by
  rw [run_on] at h
  cases hw : w.run { diagnostics := s.diagnostics, trace := s.trace, store := state } with
  | mk r s₁ =>
      rw [hw] at h
      cases r with
      | ok a' =>
          cases h
          exact ⟨{ diagnostics := s.diagnostics, trace := s.trace, store := state }, s₁, rfl, rfl, hw⟩
      | error f => cases h

/-- A phase stops exactly when the work in it does. -/
theorem stops_phase {name detail : String} {w : Work τ α} {s : Session τ} :
    Stops (phase name detail w) s ↔
      Stops w { s with trace := s.trace.startPhase name detail } := by
  unfold Stops
  rw [run_phase]
  cases h : w.run { s with trace := s.trace.startPhase name detail } with
  | mk r s' => cases r <;> simp

/-- Work on a state of its own stops exactly when it stops there. -/
theorem stops_on {state : υ} {w : Work υ α} {s : Session τ} :
    Stops (on state w : Work τ (α × υ)) s ↔
      Stops w { diagnostics := s.diagnostics, trace := s.trace, store := state } := by
  unfold Stops
  rw [run_on]
  cases h : w.run { diagnostics := s.diagnostics, trace := s.trace, store := state } with
  | mk r s' => cases r <;> simp

theorem stops_ofExcept {x : Except Fault α} {s : Session τ} :
    Stops (ofExcept x : Work τ α) s ↔ ∃ f, x = .error f := by
  unfold Stops
  rw [run_ofExcept]

/-- A loop in which stopping depends on the item alone stops exactly when it has a bad item. -/
theorem stops_foldlM_iff {f : β → α → Effect σ β} {xs : List α} {P : α → Prop}
    (h : ∀ x ∈ xs, ∀ b s, Stops (f b x) s ↔ P x) (b : β) (s : σ) :
    Stops (xs.foldlM f b) s ↔ ∃ x ∈ xs, P x := by
  induction xs generalizing b s with
  | nil => simp
  | cons x xs ih =>
      have ih' := ih fun y hy => h y (List.mem_cons_of_mem x hy)
      rw [List.foldlM_cons, stops_bind, h x List.mem_cons_self]
      constructor
      · rintro (hx | ⟨b', s', -, hs⟩)
        · exact ⟨x, List.mem_cons_self, hx⟩
        · obtain ⟨y, hy, hP⟩ := (ih' b' s').mp hs
          exact ⟨y, List.mem_cons_of_mem x hy, hP⟩
      · rintro ⟨y, hy, hP⟩
        by_cases hx : P x
        · exact .inl hx
        · obtain ⟨b', s', hrun⟩ :=
            exists_run_of_not_stops (mt (h x List.mem_cons_self b s).mp hx)
          have hy' : y ∈ xs := by
            rcases List.mem_cons.mp hy with rfl | hy
            · exact absurd hP hx
            · exact hy
          exact .inr ⟨b', s', hrun, (ih' b' s').mpr ⟨y, hy', hP⟩⟩

/-- A loop with an invariant, under which stopping depends on the item alone. -/
theorem stops_forIn_iff {f : α → β → Effect σ (ForInStep β)} {xs : List α} {P : α → Prop}
    {I : σ → Prop} (h : ∀ x ∈ xs, ∀ b s, I s → (Stops (f x b) s ↔ P x))
    (hkeep : ∀ x ∈ xs, ∀ b s r s', I s → (f x b).run s = (.ok r, s') → I s' ∧ ∃ b', r = .yield b')
    (b : β) {s : σ} (hs : I s) : Stops (forIn xs b f) s ↔ ∃ x ∈ xs, P x := by
  induction xs generalizing b s with
  | nil => simp
  | cons x xs ih =>
      have ih' := ih (fun y hy => h y (List.mem_cons_of_mem x hy))
        (fun y hy => hkeep y (List.mem_cons_of_mem x hy))
      rw [List.forIn_cons]
      by_cases hx : P x
      · refine iff_of_true (stops_bind.mpr (.inl ?_)) ⟨x, List.mem_cons_self, hx⟩
        exact (h x List.mem_cons_self b s hs).mpr hx
      · obtain ⟨r, s', hrun⟩ := exists_run_of_not_stops (mt (h x List.mem_cons_self b s hs).mp hx)
        obtain ⟨hs', b', rfl⟩ := hkeep x List.mem_cons_self b s r s' hs hrun
        rw [stops_bind_ok hrun]
        show Stops (forIn xs b' f) s' ↔ _
        rw [ih' b' hs']
        simp [hx]

/-- What every turn of a loop keeps holds of its result. -/
theorem foldlM_keeps {f : β → α → Effect σ β} {xs : List α} {P : β → Prop}
    (hstep : ∀ x ∈ xs, ∀ b s b' s', P b → (f b x).run s = (.ok b', s') → P b') {b b' : β} {s s' : σ}
    (hb : P b) (hrun : (xs.foldlM f b).run s = (.ok b', s')) : P b' := by
  induction xs generalizing b s with
  | nil =>
      cases hrun
      exact hb
  | cons x xs ih =>
      rw [List.foldlM_cons, run_bind] at hrun
      cases hx : (f b x).run s with
      | mk r s₁ =>
          rw [hx] at hrun
          cases r with
          | error e => cases hrun
          | ok b₁ =>
              exact ih (fun y hy => hstep y (List.mem_cons_of_mem x hy))
                (hstep x List.mem_cons_self b s b₁ s₁ hb hx) hrun

/-- Work that gives a result in every state. -/
def NeverStops (w : Effect σ α) : Prop :=
  ∀ s, ¬ Stops w s

theorem neverStops_pure (a : α) : NeverStops (pure a : Effect σ α) :=
  fun s => not_stops_pure a s

theorem neverStops_modify (f : σ → σ) : NeverStops (modify f : Effect σ Unit) := by
  rintro s ⟨f, h⟩
  cases h

theorem neverStops_get : NeverStops (get : Effect σ σ) := by
  rintro s ⟨f, h⟩
  cases h

theorem neverStops_store : NeverStops (store : Work τ τ) := by
  rintro s ⟨f, h⟩
  cases h

theorem neverStops_update (f : τ → τ) : NeverStops (update f : Work τ Unit) :=
  neverStops_modify _

theorem NeverStops.bind {w : Effect σ α} {k : α → Effect σ β} (hw : NeverStops w)
    (hk : ∀ a, NeverStops (k a)) : NeverStops (w >>= k) := by
  intro s h
  rcases stops_bind.mp h with h | ⟨a, s', -, h⟩
  · exact hw s h
  · exact hk a s' h

theorem neverStops_forIn {f : α → β → Effect σ (ForInStep β)} (xs : List α)
    (h : ∀ x b, NeverStops (f x b)) (b : β) : NeverStops (forIn xs b f) := by
  induction xs generalizing b with
  | nil => exact neverStops_pure b
  | cons x xs ih =>
      rw [List.forIn_cons]
      refine (h x b).bind fun step => ?_
      cases step with
      | done b' => exact neverStops_pure b'
      | yield b' => exact ih b'

theorem neverStops_forM {f : α → Effect σ PUnit} (xs : List α) (h : ∀ x, NeverStops (f x)) :
    NeverStops (xs.forM f) := by
  induction xs with
  | nil => exact neverStops_pure _
  | cons x xs ih => exact (h x).bind fun _ => ih

/-- A sequence whose second part never stops stops exactly when its first part does. -/
theorem stops_bind_of_neverStops {w : Effect σ α} {k : α → Effect σ β} {s : σ}
    (hk : ∀ a, NeverStops (k a)) : Stops (w >>= k) s ↔ Stops w s := by
  refine stops_bind.trans (or_iff_left ?_)
  rintro ⟨a, s', -, h⟩
  exact hk a s' h

/-! ## What work keeps -/

/-- Work that keeps a property of the state, whether it stops or not. -/
def Keeps (P : σ → Prop) (w : Effect σ α) : Prop :=
  ∀ s, P s → P (w.run s).2

namespace Keeps

variable {P : σ → Prop}

theorem of_run {w : Effect σ α} (h : Keeps P w) {s s' : σ} {r : Except Fault α} (hrun : w.run s = (r, s'))
    (hs : P s) : P s' := by
  have hkept := h s hs
  rw [hrun] at hkept
  exact hkept

theorem pure (a : α) : Keeps P (Pure.pure a : Effect σ α) :=
  fun _ h => h

theorem bind {w : Effect σ α} {k : α → Effect σ β} (hw : Keeps P w) (hk : ∀ a, Keeps P (k a)) :
    Keeps P (w >>= k) := by
  intro s hs
  have hw' := hw s hs
  rw [run_bind]
  cases h : w.run s with
  | mk r s' =>
      rw [h] at hw'
      cases r with
      | ok a => exact hk a s' hw'
      | error f => exact hw'

theorem forM {f : α → Effect σ PUnit} (xs : List α) (h : ∀ x ∈ xs, Keeps P (f x)) :
    Keeps P (xs.forM f) := by
  induction xs with
  | nil => exact pure _
  | cons x xs ih =>
      exact (h x List.mem_cons_self).bind fun _ => ih fun y hy => h y (List.mem_cons_of_mem x hy)

theorem forIn {f : α → β → Effect σ (ForInStep β)} (xs : List α)
    (h : ∀ x ∈ xs, ∀ b, Keeps P (f x b)) (b : β) : Keeps P (ForIn.forIn xs b f) := by
  induction xs generalizing b with
  | nil => exact pure b
  | cons x xs ih =>
      rw [List.forIn_cons]
      refine (h x List.mem_cons_self b).bind fun step => ?_
      cases step with
      | done b' => exact pure b'
      | yield b' => exact ih (fun y hy => h y (List.mem_cons_of_mem x hy)) b'

section

variable {P : τ → Prop}

theorem report (d : Diagnostic) : Keeps (fun s => P s.store) (Work.report d : Work τ Unit) :=
  fun _ h => h

theorem trace (f : Trace → Trace) : Keeps (fun s => P s.store) (Work.trace f : Work τ Unit) :=
  fun _ h => h

theorem update {f : τ → τ} (h : ∀ a, P a → P (f a)) :
    Keeps (fun s => P s.store) (Work.update f : Work τ Unit) :=
  fun s hs => h s.store hs

/-- Work on a state of its own leaves the outer state as it is. -/
theorem on {υ : Type} (state : υ) (w : Work υ α) :
    Keeps (fun s => P s.store) (Work.on state w : Work τ (α × υ)) := by
  intro s hs
  rw [run_on]
  split <;> exact hs

theorem phase {w : Work τ α} (h : Keeps (fun s => P s.store) w) (name detail : String) :
    Keeps (fun s => P s.store) (Work.phase name detail w) :=
  (trace _).bind fun _ => h.bind fun _ => (trace _).bind fun _ => pure _

/-- Work that looks at its state keeps what it keeps for every state that has the property. -/
theorem store_bind {k : τ → Work τ α}
    (h : ∀ a s, P a → s.store = a → P ((k a).run s).2.store) :
    Keeps (fun s => P s.store) (Work.store >>= k) := by
  intro s hs
  rw [run_bind_ok _ (run_store s)]
  exact h s.store s hs rfl

end

end Keeps

/-! ## Work that runs alike -/

/-- From related states two pieces of work give the same result and leave related states. -/
def Alike (R : σ → ρ → Prop) (w : Effect σ α) (v : Effect ρ α) : Prop :=
  ∀ s t, R s t → (w.run s).1 = (v.run t).1 ∧ R (w.run s).2 (v.run t).2

/-- All states are related. -/
def Whatever (_ : σ) (_ : ρ) : Prop := True

/-- A relation that overlooks what has been collected, and does not mind a further dropped mark. -/
structure Oblivious (R : Session τ → Session υ → Prop) : Prop where
  collected : ∀ {s t}, R s t → ∀ d d' e e',
    R { s with diagnostics := d, trace := e } { t with diagnostics := d', trace := e' }
  marked : ∀ {s t}, R s t → ∀ property,
    R { s with important := s.important ++ [property] }
      { t with important := t.important ++ [property] }

/-- Related stores. -/
def Stores (S : τ → υ → Prop) (s : Session τ) (t : Session υ) : Prop :=
  S s.store t.store

/-- Related stores, and the same dropped marks. -/
def OnStores (S : τ → υ → Prop) (s : Session τ) (t : Session υ) : Prop :=
  S s.store t.store ∧ s.important = t.important

theorem oblivious_stores (S : τ → υ → Prop) : Oblivious (Stores S) where
  collected h _ _ _ _ := h
  marked h _ := h

theorem oblivious_onStores (S : τ → υ → Prop) : Oblivious (OnStores S) where
  collected h _ _ _ _ := h
  marked h _ := ⟨h.1, by rw [h.2]⟩

theorem oblivious_whatever : Oblivious (R := Whatever (σ := Session τ) (ρ := Session υ)) where
  collected _ _ _ _ _ := trivial
  marked _ _ := trivial

namespace Alike

variable {R : σ → ρ → Prop}

/-- Results are alike when they are the same. -/
theorem pure (a : α) : Alike R (Pure.pure a) (Pure.pure a) :=
  fun _ _ h => ⟨rfl, h⟩

theorem throw (f : Fault) : Alike (α := α) R (MonadExcept.throw f) (MonadExcept.throw f) :=
  fun _ _ h => ⟨rfl, h⟩

/-- Sequences are alike when their parts are. -/
theorem bind {w : Effect σ α} {v : Effect ρ α} {k : α → Effect σ β} {l : α → Effect ρ β}
    (hw : Alike R w v) (hk : ∀ a, Alike R (k a) (l a)) : Alike R (w >>= k) (v >>= l) := by
  intro s t h
  obtain ⟨hresult, hrest⟩ := hw s t h
  rw [run_bind, run_bind]
  cases hs : w.run s with
  | mk r s' =>
      cases ht : v.run t with
      | mk q t' =>
          rw [hs, ht] at hresult hrest
          cases hresult
          cases r with
          | ok a => exact hk a s' t' hrest
          | error f => exact ⟨rfl, hrest⟩

/-- Loops are alike when their turns are. -/
theorem foldlM {f : β → α → Effect σ β} {g : β → α → Effect ρ β} (xs : List α)
    (h : ∀ x ∈ xs, ∀ b, Alike R (f b x) (g b x)) (b : β) :
    Alike R (xs.foldlM f b) (xs.foldlM g b) := by
  induction xs generalizing b with
  | nil => exact pure b
  | cons x xs ih =>
      rw [List.foldlM_cons, List.foldlM_cons]
      exact (h x List.mem_cons_self b).bind
        fun b' => ih (fun y hy => h y (List.mem_cons_of_mem x hy)) b'

theorem forIn {f : α → β → Effect σ (ForInStep β)} {g : α → β → Effect ρ (ForInStep β)} (xs : List α)
    (h : ∀ x b, Alike R (f x b) (g x b)) (b : β) :
    Alike R (ForIn.forIn xs b f) (ForIn.forIn xs b g) := by
  induction xs generalizing b with
  | nil => exact pure b
  | cons x xs ih =>
      rw [List.forIn_cons, List.forIn_cons]
      refine (h x b).bind fun step => ?_
      cases step with
      | done b' => exact pure b'
      | yield b' => exact ih b'

theorem forM {f : α → Effect σ PUnit} {g : α → Effect ρ PUnit} (xs : List α)
    (h : ∀ x, Alike R (f x) (g x)) : Alike R (xs.forM f) (xs.forM g) := by
  induction xs with
  | nil => exact pure _
  | cons x xs ih => exact (h x).bind fun _ => ih

/-- Alike work stops in related states or in neither. -/
theorem stops_iff {w : Effect σ α} {v : Effect ρ α} (h : Alike R w v) {s : σ} {t : ρ}
    (hst : R s t) : Stops w s ↔ Stops v t := by
  unfold Stops
  rw [(h s t hst).1]

section

variable {R : Session τ → Session υ → Prop}

theorem ofExcept (x : Except Fault α) : Alike R (Work.ofExcept x) (Work.ofExcept x) := by
  cases x with
  | ok a => exact pure a
  | error f => exact throw f

theorem report (hR : Oblivious R) (d e : Diagnostic) :
    Alike R (Work.report d) (Work.report e) :=
  fun _ _ h => ⟨rfl, hR.collected h _ _ _ _⟩

theorem trace (hR : Oblivious R) (f g : Trace → Trace) :
    Alike R (Work.trace f) (Work.trace g) :=
  fun _ _ h => ⟨rfl, hR.collected h _ _ _ _⟩

/-- A step of the trace on one side changes nothing. -/
theorem trace_left (hR : Oblivious R) {f : Trace → Trace} {w : Work τ α} {v : Work υ α}
    (h : Alike R w v) : Alike R (Work.trace f >>= fun _ => w) v := by
  intro s t hst
  rw [run_bind_ok _ (run_trace f s)]
  exact h _ t (hR.collected hst _ _ _ _)

theorem mark (hR : Oblivious R) (property : String) :
    Alike R (modify fun s => { s with important := s.important ++ [property] })
      (modify fun s => { s with important := s.important ++ [property] }) :=
  fun _ _ h => ⟨rfl, hR.marked h property⟩

/-- Work that looks at its state is alike when it is for all related states. -/
theorem store_bind {S : τ → υ → Prop} {k : τ → Work τ α} {l : υ → Work υ α}
    (h : ∀ a b, S a b → Alike (Stores S) (k a) (l b)) :
    Alike (Stores S) (Work.store >>= k) (Work.store >>= l) := by
  intro s t hst
  rw [run_bind_ok _ (run_store s), run_bind_ok _ (run_store t)]
  exact h _ _ hst s t hst

theorem update {S : τ → υ → Prop} {f : τ → τ} {g : υ → υ} (h : ∀ a b, S a b → S (f a) (g b)) :
    Alike (Stores S) (Work.update f) (Work.update g) :=
  fun _ _ hst => ⟨rfl, h _ _ hst⟩

/-- Work that looks at equal states is alike when it is for each state. -/
theorem store_bind_eq {k l : τ → Work τ α} (h : ∀ a, Alike (Stores Eq) (k a) (l a)) :
    Alike (Stores Eq) (Work.store >>= k) (Work.store >>= l) := by
  refine store_bind fun a b hab => ?_
  cases hab
  exact h a

theorem update_eq (f : τ → τ) : Alike (Stores Eq) (Work.update f) (Work.update f) :=
  update fun _ _ h => congrArg f h

end

end Alike

/-! ## Work without a state -/

/-- Work whose result no state has an influence on. -/
def Constant (w : Effect σ α) : Prop :=
  Alike (Whatever (ρ := σ)) w w

/-- Constant work gives the same result in all states. -/
theorem Constant.run_fst_eq {w : Effect σ α} (h : Constant w) (s t : σ) :
    (w.run s).1 = (w.run t).1 :=
  (h s t trivial).1

/-- What a piece of work gives when nothing has been collected. -/
def result (w : Work Unit α) : Except Fault α :=
  (w.run { store := () }).1

theorem Constant.run_fst {w : Work Unit α} (h : Constant w) (s : Session Unit) :
    (w.run s).1 = result w :=
  h.run_fst_eq s _

theorem Constant.stops_iff {w : Work Unit α} (h : Constant w) (s : Session Unit) :
    Stops w s ↔ ∃ f, result w = .error f := by
  unfold Stops
  rw [h.run_fst]

/-- The result of a sequence whose second part is constant. -/
theorem result_bind {w : Work Unit α} {k : α → Work Unit β} (hk : ∀ a, Constant (k a)) :
    result (w >>= k) = result w >>= fun a => result (k a) := by
  unfold result
  rw [run_bind]
  cases w.run { store := () } with
  | mk r s' =>
      cases r with
      | ok a => exact (hk a).run_fst s'
      | error f => rfl

end Work

variable {ε α β : Type}

theorem exists_of_bind_eq_ok {x : Except ε α} {next : α → Except ε β} {b : β} (h : (x >>= next) = .ok b) :
    ∃ a, x = .ok a ∧ next a = .ok b := by
  cases x with
  | error e => cases h
  | ok a => exact ⟨a, rfl, h⟩

theorem exists_of_any_toOption {x : Except ε α} {check : α → Bool} (h : x.toOption.any check = true) :
    ∃ a, x = .ok a ∧ check a = true := by
  cases x with
  | error e => cases h
  | ok a => exact ⟨a, rfl, h⟩

/-- A loop fails at the first item whose turn fails. -/
theorem foldlM_error_iff {f : β → α → Except ε β} {xs : List α} {b : β} :
    (∃ e, xs.foldlM f b = .error e) ↔
      ∃ before x after b', xs = before ++ x :: after ∧ before.foldlM f b = .ok b' ∧
        ∃ e, f b' x = .error e := by
  induction xs generalizing b with
  | nil =>
      constructor
      · rintro ⟨e, h⟩
        cases h
      · rintro ⟨before, x, after, b', h, -⟩
        simp at h
  | cons x xs ih =>
      rw [List.foldlM_cons]
      cases hx : f b x with
      | error e =>
          constructor
          · exact fun _ => ⟨[], x, xs, b, rfl, rfl, e, hx⟩
          · exact fun _ => ⟨e, rfl⟩
      | ok b₁ =>
          refine ih.trans ⟨?_, ?_⟩
          · rintro ⟨before, y, after, b', rfl, hrun, hstop⟩
            refine ⟨x :: before, y, after, b', rfl, ?_, hstop⟩
            rw [List.foldlM_cons, hx]
            exact hrun
          · rintro ⟨before, y, after, b', heq, hrun, e, hstop⟩
            cases before with
            | nil =>
                cases heq
                cases hrun
                rw [hx] at hstop
                cases hstop
            | cons z before =>
                cases heq
                rw [List.foldlM_cons, hx] at hrun
                exact ⟨before, y, after, b', rfl, hrun, e, hstop⟩

/-- A loop that succeeds passes through every item with success. -/
theorem foldlM_ok_of_mem {f : β → α → Except ε β} {before after : List α} {x : α} {b r : β}
    (h : (before ++ x :: after).foldlM f b = .ok r) :
    ∃ b' b'', before.foldlM f b = .ok b' ∧ f b' x = .ok b'' ∧ after.foldlM f b'' = .ok r := by
  rw [List.foldlM_append] at h
  obtain ⟨b', hbefore, h⟩ := exists_of_bind_eq_ok h
  rw [List.foldlM_cons] at h
  obtain ⟨b'', hx, hafter⟩ := exists_of_bind_eq_ok h
  exact ⟨b', b'', hbefore, hx, hafter⟩

/-- What is made of a result fails exactly when there is no result. -/
theorem bind_pure_error_iff {x : Except ε α} {g : α → β} :
    (∃ e, (x >>= fun a => pure (g a)) = .error e) ↔ ∃ e, x = .error e := by
  cases x <;> simp [bind, Except.bind, pure, Except.pure]

/-- A list is gone through unless an item of it fails. -/
theorem mapM_error_iff {f : α → Except ε β} {xs : List α} :
    (∃ e, xs.mapM f = .error e) ↔ ∃ x ∈ xs, ∃ e, f x = .error e := by
  induction xs with
  | nil => simp [pure, Except.pure]
  | cons x xs ih =>
      simp only [List.mem_cons, exists_eq_or_imp, ← ih, List.mapM_cons]
      cases f x <;> cases xs.mapM f <;> simp [bind, Except.bind, pure, Except.pure]

/-- A list that has been gone through has a result for every item. -/
theorem exists_of_mapM_eq_ok {f : α → Except ε β} {xs : List α} {ys : List β}
    (h : xs.mapM f = .ok ys) {x : α} (hx : x ∈ xs) : ∃ y ∈ ys, f x = .ok y := by
  induction xs generalizing ys with
  | nil => cases hx
  | cons first rest ih =>
      rw [List.mapM_cons] at h
      cases hfirst : f first with
      | error e =>
          rw [hfirst] at h
          cases h
      | ok y =>
          cases hrest : rest.mapM f with
          | error e =>
              rw [hfirst, hrest] at h
              cases h
          | ok ys' =>
              rw [hfirst, hrest] at h
              cases h
              rcases List.mem_cons.mp hx with rfl | hx
              · exact ⟨y, List.mem_cons_self, hfirst⟩
              · obtain ⟨z, hz, hfx⟩ := ih hrest hx
                exact ⟨z, List.mem_cons_of_mem _ hz, hfx⟩

/-- A loop whose turns give fixed results gives the result of the loop over these. -/
theorem run_foldlM_fst {σ : Type} {f : β → α → Effect σ β} {g : β → α → Except Fault β}
    (xs : List α) (h : ∀ x ∈ xs, ∀ b s, ((f b x).run s).1 = g b x) (b : β) (s : σ) :
    ((xs.foldlM f b).run s).1 = xs.foldlM g b := by
  induction xs generalizing b s with
  | nil => rfl
  | cons x xs ih =>
      have ih' := ih fun y hy => h y (List.mem_cons_of_mem x hy)
      have hx := h x List.mem_cons_self b s
      rw [List.foldlM_cons, List.foldlM_cons, Work.run_bind]
      cases hrun : (f b x).run s with
      | mk r s' =>
          rw [hrun] at hx
          rw [← hx]
          cases r with
          | error e => rfl
          | ok b' => exact ih' b' s'

end Restyle
