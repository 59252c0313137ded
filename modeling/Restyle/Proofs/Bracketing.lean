import Restyle.Proofs.Backing
import Restyle.Proofs.Fates

/-!
# Phases of a trace

The trace of a conversion is bracketed: every phase that starts ends exactly once, a phase that starts inside
of another one ends inside of it, and an event belongs to the innermost phase that is open where it stands.
-/

namespace Restyle

namespace Trace

/-! ## Open phases -/

/-- A phase starts at a position. -/
def StartsAt (events : List TraceEvent) (i : Nat) : Prop :=
  ∃ e, events[i]? = some e ∧ e.kind = .phaseStart

/-- The phase that starts at `i` ends at `j`. -/
def EndsAt (events : List TraceEvent) (i j : Nat) : Prop :=
  ∃ e, events[j]? = some e ∧ e.kind = .phaseEnd ∧ e.parent = some i

/-- The phase that starts at `i` has started and has not ended before `k`. -/
structure OpenAt (events : List TraceEvent) (i k : Nat) : Prop where
  before : i < k
  starts : StartsAt events i
  lasts : ∀ j < k, ¬ EndsAt events i j

/-- The phase that starts at `i` is the last one to start of those that are open at `k`. -/
def InnermostAt (events : List TraceEvent) (i k : Nat) : Prop :=
  OpenAt events i k ∧ ∀ other, OpenAt events other k → other ≤ i

/-- Events whose phases are brackets. -/
structure Bracketed (events : List TraceEvent) : Prop where
  /-- The first event starts the phase around all others. -/
  root : ∃ e, events[0]? = some e ∧ e.kind = .phaseStart ∧ e.description = "Transform" ∧ e.parent = none
  /-- A phase ends exactly once, after it has started. -/
  ends : ∀ i, StartsAt events i → ∃ j, i < j ∧ EndsAt events i j ∧ ∀ other, EndsAt events i other → other = j
  /-- A phase that starts inside of another one ends inside of it. -/
  nested : ∀ i i' j j', EndsAt events i j → EndsAt events i' j' → i < i' → i' < j → j' < j
  /-- Every other event, the end of a phase included, belongs to the innermost open phase. -/
  innermost : ∀ k e, k ≠ 0 → events[k]? = some e → ∃ i, e.parent = some i ∧ InnermostAt events i k

variable {events more : List TraceEvent} {e : TraceEvent} {i j k : Nat}

theorem startsAt_append (hi : i < events.length) : StartsAt (events ++ more) i ↔ StartsAt events i := by
  unfold StartsAt
  rw [List.getElem?_append_left hi]

theorem endsAt_append (hj : j < events.length) : EndsAt (events ++ more) i j ↔ EndsAt events i j := by
  unfold EndsAt
  rw [List.getElem?_append_left hj]

/-- Later events do not open a phase and do not end it. -/
theorem openAt_append (hk : k ≤ events.length) : OpenAt (events ++ more) i k ↔ OpenAt events i k := by
  constructor
  · rintro ⟨hbefore, hstarts, hlasts⟩
    refine ⟨hbefore, (startsAt_append (by omega)).mp hstarts, fun j hj hends => hlasts j hj ?_⟩
    exact (endsAt_append (by omega)).mpr hends
  · rintro ⟨hbefore, hstarts, hlasts⟩
    refine ⟨hbefore, (startsAt_append (by omega)).mpr hstarts, fun j hj hends => hlasts j hj ?_⟩
    exact (endsAt_append (by omega)).mp hends

theorem endsAt_concat : EndsAt (events ++ [e]) i events.length ↔ e.kind = .phaseEnd ∧ e.parent = some i := by
  unfold EndsAt
  rw [List.getElem?_concat_length]
  simp

theorem startsAt_concat : StartsAt (events ++ [e]) events.length ↔ e.kind = .phaseStart := by
  unfold StartsAt
  rw [List.getElem?_concat_length]
  simp

/-- The phases behind an event are those before it, without the one that it ends and with the one that it starts. -/
theorem openAt_concat : OpenAt (events ++ [e]) i (events.length + 1) ↔
    (OpenAt events i events.length ∧ ¬ (e.kind = .phaseEnd ∧ e.parent = some i)) ∨
      (i = events.length ∧ e.kind = .phaseStart ∧ ∀ j < events.length, ¬ EndsAt events i j) := by
  constructor
  · rintro ⟨hbefore, hstarts, hlasts⟩
    have hlasts' : ∀ j < events.length, ¬ EndsAt events i j :=
      fun j hj hends => hlasts j (by omega) ((endsAt_append hj).mpr hends)
    rcases Nat.lt_succ_iff_lt_or_eq.mp hbefore with hi | rfl
    · refine .inl ⟨⟨hi, (startsAt_append hi).mp hstarts, hlasts'⟩, fun hends => ?_⟩
      exact hlasts events.length (Nat.lt_succ_self _) (endsAt_concat.mpr hends)
    · exact .inr ⟨rfl, startsAt_concat.mp hstarts, hlasts'⟩
  · rintro (⟨⟨hi, hstarts, hlasts⟩, hnot⟩ | ⟨rfl, hstart, hlasts⟩)
    · refine ⟨by omega, (startsAt_append hi).mpr hstarts, fun j hj hends => ?_⟩
      rcases Nat.lt_succ_iff_lt_or_eq.mp hj with hj | rfl
      · exact hlasts j hj ((endsAt_append hj).mp hends)
      · exact hnot (endsAt_concat.mp hends)
    · refine ⟨Nat.lt_succ_self _, startsAt_concat.mpr hstart, fun j hj hends => ?_⟩
      rcases Nat.lt_succ_iff_lt_or_eq.mp hj with hj | rfl
      · exact hlasts j hj ((endsAt_append hj).mp hends)
      · cases hstart.symm.trans (endsAt_concat.mp hends).1

/-! ## Sound traces -/

/-- The phases that are open at a position, innermost first. -/
structure Stacked (events : List TraceEvent) (k : Nat) (stack : List Nat) : Prop where
  order : stack.Pairwise (· > ·)
  mem_iff : ∀ i, i ∈ stack ↔ OpenAt events i k

theorem Stacked.append {stack : List Nat} (h : Stacked events k stack) (hk : k ≤ events.length) :
    Stacked (events ++ more) k stack :=
  ⟨h.order, fun i => (h.mem_iff i).trans (openAt_append hk).symm⟩

theorem Stacked.innermostAt {stack : List Nat} (h : Stacked events k stack) (hhead : stack.head? = some i) :
    InnermostAt events i k := by
  cases stack with
  | nil => cases hhead
  | cons first rest =>
      cases hhead
      refine ⟨(h.mem_iff i).mp List.mem_cons_self, fun other hother => ?_⟩
      rcases List.mem_cons.mp ((h.mem_iff other).mpr hother) with rfl | hrest
      · exact Nat.le_refl _
      · exact Nat.le_of_lt (List.rel_of_pairwise_cons h.order hrest)

/-- A trace that knows its open phases, and whose events belong to the innermost one. -/
structure Sound (t : Trace) : Prop where
  stacked : Stacked t.events t.events.length t.active
  parents : ∀ k e, t.events[k]? = some e → ∃ stack, Stacked t.events k stack ∧ e.parent = stack.head?

namespace Sound

variable {t : Trace}

theorem innermostAt (h : t.Sound) (he : t.events[k]? = some e) (hparent : e.parent = some i) :
    InnermostAt t.events i k := by
  obtain ⟨stack, hstack, hhead⟩ := h.parents k e he
  exact hstack.innermostAt (hhead.symm.trans hparent)

theorem openAt_of_endsAt (h : t.Sound) (hends : EndsAt t.events i j) : OpenAt t.events i j := by
  obtain ⟨e, he, -, hparent⟩ := hends
  exact (h.innermostAt he hparent).1

/-- One more event of the innermost open phase. -/
theorem concat (h : t.Sound) (hparent : e.parent = t.active.head?) {active : List Nat}
    (hactive : Stacked (t.events ++ [e]) (t.events.length + 1) active) :
    Sound { events := t.events ++ [e], active } := by
  constructor
  · rwa [List.length_append]
  · intro k e' he
    rcases Nat.lt_or_ge k t.events.length with hk | hk
    · rw [List.getElem?_append_left hk] at he
      obtain ⟨stack, hstack, hhead⟩ := h.parents k e' he
      exact ⟨stack, hstack.append (Nat.le_of_lt hk), hhead⟩
    · obtain ⟨hlt, -⟩ := List.getElem?_eq_some_iff.mp he
      rw [List.length_append, List.length_singleton] at hlt
      obtain rfl : k = t.events.length := by omega
      rw [List.getElem?_concat_length] at he
      cases he
      exact ⟨t.active, h.stacked.append (Nat.le_refl _), hparent⟩

theorem log (h : t.Sound) {kind : TraceKind} (hstart : kind ≠ .phaseStart) (hend : kind ≠ .phaseEnd)
    (description : String) (details : List (String × Data)) : (t.log kind description details).Sound := by
  apply h.concat rfl
  refine ⟨h.stacked.order, fun i => (h.stacked.mem_iff i).trans ?_⟩
  rw [openAt_concat]
  constructor
  · exact fun hopen => .inl ⟨hopen, fun hends => hend hends.1⟩
  · rintro (⟨hopen, -⟩ | ⟨-, hkind, -⟩)
    · exact hopen
    · exact absurd hkind hstart

theorem startPhase (h : t.Sound) (name detail : String) : (t.startPhase name detail).Sound := by
  apply h.concat rfl
  constructor
  · exact List.pairwise_cons.mpr ⟨fun i hi => ((h.stacked.mem_iff i).mp hi).before, h.stacked.order⟩
  · intro i
    rw [openAt_concat, ← h.stacked.mem_iff, List.mem_cons]
    constructor
    · rintro (rfl | hopen)
      · -- no event ends a phase that starts later
        refine .inr ⟨rfl, rfl, fun j hj hends => ?_⟩
        exact Nat.lt_asymm hj (h.openAt_of_endsAt hends).before
      · exact .inl ⟨hopen, fun hends => nomatch hends.1⟩
    · rintro (⟨hopen, -⟩ | ⟨rfl, -⟩)
      · exact .inr hopen
      · exact .inl rfl

theorem endPhase (h : t.Sound) : t.endPhase.Sound := by
  unfold Trace.endPhase
  cases hactive : t.active with
  | nil => exact h
  | cons phase outer =>
      have hstacked := h.stacked
      rw [hactive] at hstacked
      obtain ⟨hinner, horder⟩ := List.pairwise_cons.mp hstacked.order
      apply h.concat (by rw [hactive]; rfl)
      refine ⟨horder, fun i => ?_⟩
      rw [openAt_concat, ← hstacked.mem_iff, List.mem_cons]
      constructor
      · intro hi
        refine .inl ⟨.inr hi, fun hends => ?_⟩
        exact Nat.ne_of_lt (hinner i hi) (Option.some.inj hends.2).symm
      · rintro (⟨rfl | hi, hnot⟩ | ⟨-, hkind, -⟩)
        · exact absurd ⟨rfl, rfl⟩ hnot
        · exact hi
        · cases hkind

end Sound

theorem sound_empty : Sound {} :=
  ⟨⟨.nil, fun i => ⟨fun hi => absurd hi List.not_mem_nil, fun hopen => absurd hopen.before (Nat.not_lt_zero i)⟩⟩,
    fun k e he => by cases he⟩

/-- A phase of a sound trace ends once. -/
theorem Sound.endsAt_unique {t : Trace} (h : t.Sound) (hj : EndsAt t.events i j) (hk : EndsAt t.events i k) :
    j = k := by
  apply Nat.le_antisymm
  · exact Nat.not_lt.mp fun hlt => (h.openAt_of_endsAt hj).lasts k hlt hk
  · exact Nat.not_lt.mp fun hlt => (h.openAt_of_endsAt hk).lasts j hlt hj

/-- In a sound trace without open phases every phase has come to an end. -/
theorem Sound.exists_endsAt {t : Trace} (h : t.Sound) (hclosed : t.active = []) {i : Nat}
    (hstarts : StartsAt t.events i) : ∃ j, EndsAt t.events i j := by
  by_contra hnone
  obtain ⟨e, he, -⟩ := id hstarts
  obtain ⟨hi, -⟩ := List.getElem?_eq_some_iff.mp he
  have hnever : OpenAt t.events i t.events.length := ⟨hi, hstarts, fun j _ hj => hnone ⟨j, hj⟩⟩
  rw [← h.stacked.mem_iff, hclosed] at hnever
  cases hnever

/-- A phase that is opened within another one is closed before it. -/
theorem Sound.endsAt_lt {t : Trace} (h : t.Sound) {i i' j j' : Nat} (hj : EndsAt t.events i j)
    (hj' : EndsAt t.events i' j') (hinner : i < i') (hbefore : i' < j) : j' < j := by
  by_contra hlate
  have hlasts : OpenAt t.events i' j := by
    refine ⟨hbefore, (h.openAt_of_endsAt hj').starts, fun k hk hends => ?_⟩
    have hsame := h.endsAt_unique hends hj'
    omega
  obtain ⟨e, he, -, hparent⟩ := hj
  have hle := (h.innermostAt he hparent).2 i' hlasts
  omega

/-- A sound trace is bracketed once its only open phase, the first event, is closed. -/
theorem Sound.bracketed_endPhase {t : Trace} (h : t.Sound) (hactive : t.active = [0]) {first : TraceEvent}
    (hfirst : t.events[0]? = some first) (hname : first.description = "Transform") :
    Bracketed t.endPhase.events := by
  have hend : t.endPhase.events =
      t.events ++ [{ kind := .phaseEnd, description := "End Phase", parent := some 0 }] := by
    rw [Trace.endPhase, hactive]
  have hclosed : t.endPhase.active = [] := by rw [Trace.endPhase, hactive]
  have hsound := h.endPhase
  have hroot : OpenAt t.events 0 t.events.length := by
    rw [← h.stacked.mem_iff, hactive]
    exact List.mem_cons_self
  have hopen : ∀ k < t.endPhase.events.length, k ≠ 0 → OpenAt t.endPhase.events 0 k := by
    intro k hk hne
    rw [hend, List.length_append, List.length_singleton] at hk
    rw [hend, openAt_append (by omega)]
    exact ⟨Nat.pos_of_ne_zero hne, hroot.starts, fun j hj => hroot.lasts j (by omega)⟩
  have hfirst' : t.endPhase.events[0]? = some first := by
    rw [hend, List.getElem?_append_left hroot.before, hfirst]
  constructor
  · obtain ⟨e, he, hkind⟩ := hroot.starts
    cases hfirst.symm.trans he
    obtain ⟨stack, hstack, hhead⟩ := hsound.parents 0 first hfirst'
    refine ⟨first, hfirst', hkind, hname, ?_⟩
    cases stack with
    | nil => exact hhead
    | cons i rest => exact absurd ((hstack.mem_iff i).mp List.mem_cons_self).before (Nat.not_lt_zero i)
  · intro i hstarts
    obtain ⟨j, hj⟩ := hsound.exists_endsAt hclosed hstarts
    exact ⟨j, (hsound.openAt_of_endsAt hj).before, hj, fun other hother => hsound.endsAt_unique hother hj⟩
  · exact fun i i' j j' hj hj' hinner hbefore => hsound.endsAt_lt hj hj' hinner hbefore
  · intro k e hk he
    obtain ⟨stack, hstack, hhead⟩ := hsound.parents k e he
    obtain ⟨hlt, -⟩ := List.getElem?_eq_some_iff.mp he
    have hmem := (hstack.mem_iff 0).mpr (hopen k hlt hk)
    cases stack with
    | nil => cases hmem
    | cons i rest => exact ⟨i, hhead, hstack.innermostAt rfl⟩

/-- Brackets with the end of a phase behind them leave no other phase open. -/
theorem Sound.active_of_bracketed {t : Trace} (h : t.Sound) (hopen : t.active ≠ [])
    (hbrackets : Bracketed t.endPhase.events) : t.active = [0] := by
  obtain ⟨phase, outer, hactive⟩ := List.exists_cons_of_ne_nil hopen
  have hend : t.endPhase.events =
      t.events ++ [{ kind := .phaseEnd, description := "End Phase", parent := some phase }] := by
    rw [Trace.endPhase, hactive]
  have hlast : EndsAt t.endPhase.events phase t.events.length := by
    rw [hend]
    exact endsAt_concat.mpr ⟨rfl, rfl⟩
  have hinside : ∀ {i j}, EndsAt t.endPhase.events i j → j < t.endPhase.events.length := by
    rintro i j ⟨e, he, -⟩
    exact (List.getElem?_eq_some_iff.mp he).1
  cases outer with
  | cons i rest =>
      -- a phase around the one that ends would stay open
      have hmem : i ∈ t.endPhase.active := by
        rw [Trace.endPhase, hactive]
        exact List.mem_cons_self
      have hlasting := (h.endPhase.stacked.mem_iff i).mp hmem
      obtain ⟨j, -, hj, -⟩ := hbrackets.ends i hlasting.starts
      exact absurd hj (hlasting.lasts j (hinside hj))
  | nil =>
      have hphase := h.endPhase.openAt_of_endsAt hlast
      by_cases hzero : phase = 0
      · rw [hactive, hzero]
      -- the phase that it starts in would have to end behind it
      obtain ⟨e, he, hstart⟩ := hphase.starts
      obtain ⟨i, -, hi, -⟩ := hbrackets.innermost phase e hzero he
      obtain ⟨j, -, hj, -⟩ := hbrackets.ends i hi.starts
      have hbehind : phase < j := by
        rcases Nat.lt_trichotomy j phase with hlt | rfl | hgt
        · exact absurd hj (hi.lasts j hlt)
        · obtain ⟨e', he', hkind, -⟩ := hj
          cases he.symm.trans he'
          cases hstart.symm.trans hkind
        · exact hgt
      have hlt := hbrackets.nested i phase j t.events.length hj hlast hi.before hbehind
      have hle := hinside hj
      rw [hend, List.length_append, List.length_singleton] at hle
      omega

/--
The end of one phase makes brackets of a sound trace exactly if the first event is the only phase that is open:
of work that breaks off within an inner phase, the outer ones would never end.
-/
theorem Sound.bracketed_endPhase_iff {t : Trace} (h : t.Sound) {first : TraceEvent}
    (hfirst : t.events[0]? = some first) (hname : first.description = "Transform") (hopen : t.active ≠ []) :
    Bracketed t.endPhase.events ↔ t.active = [0] :=
  ⟨h.active_of_bracketed hopen, fun hactive => h.bracketed_endPhase hactive hfirst hname⟩

/-! ## Growing traces -/

/-- What happens inside of a phase: the trace gets longer, and as many phases are closed as are opened. -/
structure Grows (t t' : Trace) : Prop where
  events : t.events <+: t'.events
  active : t'.active = t.active
  sound : t.Sound → t'.Sound

namespace Grows

variable {t t' t'' : Trace}

theorem refl (t : Trace) : Grows t t :=
  ⟨List.prefix_rfl, rfl, id⟩

theorem trans (h : Grows t t') (h' : Grows t' t'') : Grows t t'' :=
  ⟨h.events.trans h'.events, h'.active.trans h.active, fun hs => h'.sound (h.sound hs)⟩

theorem log {kind : TraceKind} (hstart : kind ≠ .phaseStart) (hend : kind ≠ .phaseEnd) (description : String)
    (details : List (String × Data)) : Grows t (t.log kind description details) :=
  ⟨List.prefix_append _ _, rfl, fun h => h.log hstart hend description details⟩

theorem inspection (t : Trace) (subject outcome detail : String) :
    Grows t (t.inspection subject outcome detail) := by
  apply log <;> decide

theorem decision (t : Trace) (component : String) (index : Int) (tag action : String) :
    Grows t (t.decision component index tag action) := by
  apply log <;> decide

theorem lowering (t : Trace) (pass component selector : String) : Grows t (t.lowering pass component selector) := by
  apply log <;> decide

theorem importAction (t : Trace) (action source : String) (names : List String) :
    Grows t (t.importAction action source names) := by
  apply log <;> decide

/-- A whole phase. -/
theorem phase {name detail : String} (h : Grows (t.startPhase name detail) t') : Grows t t'.endPhase := by
  have hactive : t'.active = t.events.length :: t.active := h.active
  constructor
  · rw [Trace.endPhase, hactive]
    exact ((List.prefix_append _ _).trans h.events).trans (List.prefix_append _ _)
  · rw [Trace.endPhase, hactive]
  · exact fun hs => (h.sound (hs.startPhase name detail)).endPhase

theorem foldl {α : Type} {f : Trace → α → Trace} (xs : List α) (h : ∀ t, ∀ x, Grows t (f t x)) (t : Trace) :
    Grows t (xs.foldl f t) := by
  induction xs generalizing t with
  | nil => exact refl t
  | cons x xs ih => exact (h t x).trans (ih (f t x))

end Grows

end Trace

/-! ## Work inside of a phase -/

namespace Work

open Trace (Grows)

variable {τ υ α β : Type}

/-- Work that closes the phases that it opens, unless it stops. -/
def Brackets (w : Work τ α) : Prop :=
  ∀ s a s', w.run s = (.ok a, s') → Grows s.trace s'.trace

namespace Brackets

theorem pure (a : α) : Brackets (Pure.pure a : Work τ α) := by
  intro s a s' h
  cases h
  exact .refl _

theorem throw (f : Fault) : Brackets (MonadExcept.throw f : Work τ α) := by
  intro s a s' h
  cases h

theorem bind {w : Work τ α} {k : α → Work τ β} (hw : Brackets w) (hk : ∀ a, Brackets (k a)) :
    Brackets (w >>= k) := by
  intro s b s' h
  obtain ⟨a, s₁, hfirst, hrest⟩ := run_bind_eq_ok h
  exact (hw s a s₁ hfirst).trans (hk a s₁ b s' hrest)

theorem ofExcept (x : Except Fault α) : Brackets (Work.ofExcept x : Work τ α) := by
  cases x with
  | ok a => exact pure a
  | error f => exact throw f

/-- Work that leaves the trace alone. -/
theorem modify {f : Session τ → Session τ} (h : ∀ s, (f s).trace = s.trace) : Brackets (modify f : Work τ Unit) := by
  intro s a s' hrun
  cases hrun
  rw [h]
  exact .refl _

theorem get : Brackets (get : Work τ (Session τ)) := by
  intro s a s' h
  cases h
  exact .refl _

theorem store : Brackets (Work.store : Work τ τ) :=
  get.bind fun _ => pure _

theorem update (f : τ → τ) : Brackets (Work.update f) :=
  modify fun _ => rfl

theorem report (d : Diagnostic) : Brackets (Work.report d : Work τ Unit) :=
  modify fun _ => rfl

theorem trace {f : Trace → Trace} (h : ∀ t, Grows t (f t)) : Brackets (Work.trace f : Work τ Unit) := by
  intro s a s' hrun
  cases hrun
  exact h s.trace

theorem forM (xs : List α) {f : α → Work τ PUnit} (h : ∀ x, Brackets (f x)) : Brackets (xs.forM f) := by
  induction xs with
  | nil => exact pure _
  | cons x xs ih => exact (h x).bind fun _ => ih

theorem forM_option (x : Option α) {f : α → Work τ PUnit} (h : ∀ a, Brackets (f a)) : Brackets (x.forM f) := by
  cases x with
  | none => exact pure _
  | some a => exact h a

theorem foldlM (xs : List α) {f : β → α → Work τ β} (h : ∀ x ∈ xs, ∀ b, Brackets (f b x)) (b : β) :
    Brackets (xs.foldlM f b) := by
  induction xs generalizing b with
  | nil => exact pure b
  | cons x xs ih =>
      rw [List.foldlM_cons]
      exact (h x List.mem_cons_self b).bind (ih fun y hy => h y (List.mem_cons_of_mem x hy))

theorem forIn (xs : List α) {f : α → β → Work τ (ForInStep β)} (h : ∀ x b, Brackets (f x b)) (b : β) :
    Brackets (ForIn.forIn xs b f) := by
  induction xs generalizing b with
  | nil => exact pure b
  | cons x xs ih =>
      rw [List.forIn_cons]
      refine (h x b).bind fun step => ?_
      cases step with
      | done b' => exact pure b'
      | yield b' => exact ih b'

theorem on {state : υ} {w : Work υ α} (h : Brackets w) : Brackets (Work.on state w : Work τ (α × υ)) := by
  rintro s ⟨a, state'⟩ s' hrun
  rw [run_on] at hrun
  cases hw : w.run { diagnostics := s.diagnostics, trace := s.trace, store := state } with
  | mk r s₁ =>
      rw [hw] at hrun
      cases r with
      | ok a' =>
          cases hrun
          exact h _ _ _ hw
      | error f => cases hrun

theorem phase {name detail : String} {w : Work τ α} (h : Brackets w) : Brackets (Work.phase name detail w) := by
  intro s a s' hrun
  rw [run_phase] at hrun
  cases hw : w.run { s with trace := s.trace.startPhase name detail } with
  | mk r s₁ =>
      rw [hw] at hrun
      cases r with
      | ok a' =>
          cases hrun
          exact (h _ _ _ hw).phase
      | error f => cases hrun

end Brackets

end Work

open Trace (Grows)
open Work (Brackets)

/-! ## Converting rules -/

namespace Style

variable {τ : Type} {r : Resolver τ}

section

variable (hslot : ∀ request, Brackets (r.slot request))
include hslot

theorem brackets_resolvePieces (base : SlotRequest) (pieces : List Css.Slot.Piece) :
    Brackets (resolvePieces r base pieces) := by
  induction pieces with
  | nil => exact .pure _
  | cons piece pieces ih =>
      cases piece with
      | text cs =>
          rw [resolvePieces]
          exact ih.bind fun _ => .pure _
      | slot index written =>
          rw [resolvePieces]
          refine (hslot _).bind fun answer => ?_
          rcases answer with _ | ⟨value, other, styles⟩
          · exact .pure _
          · exact ih.bind fun _ => .pure _

theorem brackets_splice (text : String) (base : SlotRequest) : Brackets (splice r text base) := by
  refine (brackets_resolvePieces hslot base _).bind fun parts => ?_
  cases parts with
  | none => exact .pure _
  | some parts =>
      dsimp only
      cases joinParts parts <;> exact .pure _

theorem brackets_spliceLonghands (base : SlotRequest) (expansion : Expansion) (obj : Object) :
    Brackets (spliceLonghands r base obj expansion) := by
  rw [spliceLonghands_eq_foldlM]
  refine .foldlM _ (fun part _ obj => ?_) obj
  unfold addLonghand
  split
  · refine (brackets_splice hslot _ _).bind fun value => ?_
    cases value <;> exact .pure _
  · exact .pure _

theorem brackets_setDynamic (scope : Scope) (obj : Object) (property value : String) :
    Brackets (setDynamic r scope obj property value) := by
  unfold setDynamic
  split
  · refine (hslot _).bind fun answer => ?_
    cases answer <;> exact .pure _
  · dsimp only
    split
    · exact brackets_spliceLonghands hslot _ _ _
    · refine (brackets_splice hslot _ _).bind fun v => ?_
      cases v <;> exact .pure _

theorem brackets_convertDeclaration (scope : Scope) (obj : Object) (d : Css.Declaration) :
    Brackets (convertDeclaration r scope obj d) := by
  cases hname : d.property.isEmpty with
  | true =>
      rw [convertDeclaration, hname, if_pos rfl]
      split
      · refine (hslot _).bind fun answer => ?_
        cases answer <;> exact .pure _
      · exact .pure _
  | false =>
      cases hfixed : Css.Slot.present d.property with
      | true =>
          rw [convertDeclaration, hname, hfixed, if_neg Bool.false_ne_true, if_pos rfl]
          exact (Brackets.report _).bind fun _ => .pure _
      | false =>
          rw [convertDeclaration_named hname hfixed]
          refine Brackets.bind ?_ fun _ => ?_
          · split
            · exact .modify fun _ => rfl
            · exact .pure _
          · unfold setValue
            split
            · exact brackets_setDynamic hslot _ _ _ _
            · exact .pure _

end

theorem brackets_mergeBody (obj : Object) (path : List Key) (body : Object) :
    Brackets (mergeBody obj path body : Work τ Object) := by
  unfold mergeBody
  split
  · exact .pure _
  · exact .throw _

section

variable (hselector : ∀ index, Brackets (r.selector index))
include hselector

theorem brackets_fillSelector (selector : String) (indices : List Nat) :
    Brackets (fillSelector r selector indices) := by
  induction indices generalizing selector with
  | nil => exact .pure _
  | cons index indices ih =>
      refine (hselector index).bind fun text => ?_
      cases text with
      | none => exact .pure _
      | some text => exact ih _

theorem brackets_addNested (scope : Scope) (child : Css.Rule) (h : ∀ scope, Brackets (convertRule r scope child))
    (obj : Object) : Brackets (addNested r scope obj child) := by
  refine (brackets_fillSelector hselector _ _).bind fun filled => ?_
  cases filled with
  | none => exact .pure _
  | some selector =>
      rw [addFilled]
      split
      · exact Brackets.bind (.trace fun t => .inspection t _ _ _) fun _ => .pure _
      · unfold convertBlocks
        exact .foldlM _ (fun block _ obj => (h block.1).bind fun body => brackets_mergeBody obj block.2 body) _

end

theorem brackets_convertRule (hslot : ∀ request, Brackets (r.slot request))
    (hselector : ∀ index, Brackets (r.selector index)) (rule : Css.Rule) (scope : Scope) :
    Brackets (convertRule r scope rule) := by
  induction rule using Css.Rule.induction generalizing scope with
  | step rule ih =>
      obtain ⟨selector, declarations, nested, atRules⟩ := rule
      rw [convertRule]
      refine Brackets.bind ?_ fun obj => ?_
      · exact .foldlM _ (fun d _ obj => brackets_convertDeclaration hslot scope obj d) _
      · rw [convertNested_eq_foldlM]
        exact .foldlM _ (fun child hchild obj => brackets_addNested hselector scope child (ih child hchild) obj) _

/-- Converting a style sheet brackets what its resolver brackets. -/
theorem brackets_convert (hslot : ∀ request, Brackets (r.slot request))
    (hselector : ∀ index, Brackets (r.selector index)) (rule : Css.Rule) : Brackets (convert r rule) := by
  refine (brackets_convertRule hslot hselector rule {}).bind fun raw => ?_
  refine Brackets.bind (.forIn _ (fun place _ => ?_) _) fun _ => .pure _
  exact (Brackets.report _).bind fun _ => .pure _

theorem brackets_withImportant {work : Work τ Object} (h : Brackets work) : Brackets (withImportant work) := by
  refine Brackets.get.bind fun outer => Brackets.bind (.modify fun _ => rfl) fun _ => h.bind fun styles => ?_
  exact Brackets.get.bind fun found => Brackets.bind (.modify fun _ => rfl) fun _ => .pure _

end Style

/-! ## Building components -/

namespace Component

open Restyle.Module (HelperDeclaration StyledDeclaration TemplateParts)
open Restyle.Style (SlotRequest)
open Restyle.Tsx (Node)

theorem brackets_component : Brackets Building.component :=
  Brackets.store.bind fun _ => .pure _

theorem brackets_change (f : Component → Component) : Brackets (Building.change f) :=
  .update _

theorem brackets_report (kind : DiagnosticKind) (details : List (String × Data)) :
    Brackets (Building.report kind details) :=
  brackets_component.bind fun _ => .report _

theorem brackets_deciding {α : Type} (work : Interpolation.Deciding α) : Brackets (Building.deciding work) := by
  refine Brackets.store.bind fun workshop => ?_
  cases work.run workshop.traces with
  | mk result traces =>
      refine Brackets.bind (.update _) fun _ => ?_
      cases result with
      | ok a => exact .pure a
      | error f => exact .throw f

theorem brackets_resolveSlot (plant : Plant) (template : Css.Template Node) (request : SlotRequest) :
    Brackets (resolveSlot plant template request) := by
  unfold resolveSlot
  split
  · exact .pure _
  · refine brackets_component.bind fun c => (brackets_deciding _).bind fun decision => ?_
    refine Brackets.bind (.trace fun t => .decision t _ _ _ _) fun _ => (brackets_change _).bind fun _ => ?_
    refine Brackets.bind (.forIn _ (fun kind _ => ?_) _) fun _ => .pure _
    exact (brackets_report _ _).bind fun _ => .pure _

theorem brackets_importedText? (plant : Plant) (exported source : String) :
    Brackets (importedText? plant exported source) := by
  refine (brackets_deciding _).bind fun answer => ?_
  split
  · split <;> exact .pure _
  · exact .pure _

theorem brackets_resolveSelector (plant : Plant) (template : Css.Template Node) (index : Nat) :
    Brackets (resolveSelector plant template index) := by
  unfold resolveSelector
  split
  · exact .pure _
  dsimp only
  split
  · exact .pure _
  split
  · exact .pure _
  split
  · exact (brackets_report _ _).bind fun _ => .pure _
  · refine (brackets_importedText? _ _ _).bind fun text => ?_
    cases text with
    | some text => exact .pure _
    | none => exact (brackets_report _ _).bind fun _ => .pure _

theorem brackets_readTemplate? (parts : TemplateParts) : Brackets (readTemplate? parts) := by
  unfold readTemplate?
  split
  · exact (brackets_report _ _).bind fun _ => .pure _
  · exact .pure _

theorem brackets_convertTemplate? (plant : Plant) (parts : TemplateParts) :
    Brackets (convertTemplate? plant parts) := by
  rw [convertTemplate?_eq]
  refine (brackets_readTemplate? parts).bind fun template? => ?_
  cases template? with
  | none => exact .pure _
  | some template =>
      refine Brackets.bind (.forIn _ (fun index _ => ?_) _) fun _ => brackets_component.bind fun c => ?_
      · exact (brackets_report _ _).bind fun _ => .pure _
      refine (Style.brackets_withImportant (Style.brackets_convert (brackets_resolveSlot plant template)
        (brackets_resolveSelector plant template) template.root)).bind ?_
      rintro ⟨styles, important⟩
      refine (brackets_change _).bind fun _ => Brackets.bind (.forIn _ (fun property _ => ?_) _) fun _ => .pure _
      exact Brackets.bind (.trace fun t => .inspection t _ _ _) fun _ => .pure _

theorem brackets_readAttributes (node : Node) : Brackets (readAttributes node) := by
  unfold readAttributes
  dsimp only
  split
  · exact brackets_report _ _
  · refine Brackets.bind (.forIn _ (fun entry _ => ?_) _) fun _ => .pure _
    obtain ⟨key, value⟩ := entry
    dsimp only
    split
    · exact (brackets_report _ _).bind fun _ => .pure _
    · exact (brackets_change _).bind fun _ => .pure _

theorem brackets_readConfig (node : Node) : Brackets (readConfig node) := by
  unfold readConfig
  split
  · exact .pure _
  · refine (brackets_change _).bind fun _ => ?_
    split
    · exact brackets_report _ _
    · exact brackets_change _

theorem brackets_starting {α : Type} (c : Component) {work : Building α} (h : Brackets work) :
    Brackets (starting c work) :=
  Brackets.bind (.update _) fun _ => h

theorem brackets_build? (plant : Plant) (d : StyledDeclaration) : Brackets (build? plant d) := by
  refine brackets_starting _ ((brackets_convertTemplate? plant d.template).bind fun styles? => ?_)
  cases styles? with
  | none => exact .pure _
  | some styles =>
      refine (brackets_change _).bind fun _ => ?_
      refine Brackets.bind (.forM_option _ brackets_readAttributes) fun _ => ?_
      refine Brackets.bind (.forM_option _ brackets_readConfig) fun _ => ?_
      exact (brackets_change _).bind fun _ => brackets_component.bind fun _ => .pure _

theorem brackets_isPlain : Brackets isPlain := by
  refine brackets_component.bind fun c => ?_
  split
  · exact .pure _
  · exact (brackets_report _ _).bind fun _ => .pure _

theorem brackets_buildFrames? (plant : Plant) (d : HelperDeclaration) : Brackets (buildFrames? plant d) := by
  refine brackets_starting _ ((brackets_readTemplate? d.template).bind fun template? => ?_)
  cases template? with
  | none => exact .pure _
  | some template =>
      refine Brackets.bind (.forIn _ (fun rule frames => ?_) _) fun frames => brackets_isPlain.bind fun plain => ?_
      · refine (Style.brackets_withImportant (Style.brackets_convert (brackets_resolveSlot plant template)
          (fun _ => .pure _) rule)).bind fun _ => .pure _
      · split <;> exact .pure _

theorem brackets_buildMixin? (plant : Plant) (d : HelperDeclaration) : Brackets (buildMixin? plant d) := by
  refine brackets_starting _ ((brackets_convertTemplate? plant d.template).bind fun styles? => ?_)
  cases styles? with
  | none => exact .pure _
  | some styles =>
      refine Brackets.bind (.forIn _ (fun selector _ => ?_) _) fun _ => brackets_isPlain.bind fun plain => ?_
      · exact (brackets_report _ _).bind fun _ => .pure _
      · split <;> exact .pure _

end Component

/-! ## Lowering selectors -/

namespace Lowering

theorem brackets_lowerSelectors (pass : Pass) (settings : Settings) (name : String)
    (selectors : List (String × Style.Object)) : Brackets (lowerSelectors pass settings name selectors) := by
  induction selectors with
  | nil => exact .pure _
  | cons entry rest ih =>
      obtain ⟨selector, body⟩ := entry
      rw [lowerSelectors]
      refine Brackets.store.bind fun arena => ?_
      split
      · exact .pure _
      split
      · exact ih
      · refine Brackets.bind (.forM_option _ fun f => .throw f) fun _ => Brackets.bind (.update _) fun _ => ?_
        refine Brackets.bind (.forM _ .report) fun _ => ?_
        exact Brackets.bind (.trace fun t => .lowering t _ _ _) fun _ => ih.bind fun _ => .pure _

theorem brackets_runOn (pass : Pass) (settings : Settings) (name : String) :
    Brackets (runOn pass settings name) := by
  refine Brackets.store.bind fun arena => ?_
  split
  · exact .pure _
  · exact (brackets_lowerSelectors _ _ _ _).bind fun _ => .update _

theorem brackets_run (pass : Pass) (settings : Settings) : Brackets (pass.run settings) := by
  refine Brackets.store.bind fun arena => Brackets.bind (.forM _ (brackets_runOn pass settings)) fun _ => ?_
  refine Brackets.store.bind fun arena => ?_
  split
  · exact .throw _
  · exact Brackets.bind (.update _) fun _ => .forM _ fun note => .trace fun t => .inspection t _ _ _

theorem brackets_dropLeftovers (settings : Settings) (name : String) : Brackets (dropLeftovers settings name) := by
  refine Brackets.store.bind fun arena => ?_
  split
  · exact .pure _
  · refine Brackets.bind (.forIn _ (fun selector _ => ?_) _) fun _ => .update _
    exact (Brackets.report _).bind fun _ => .pure _

theorem brackets_lowerAll (settings : Settings) : Brackets (lowerAll settings) := by
  refine Brackets.bind (.forIn _ (fun pass _ => ?_) _) fun _ => Brackets.store.bind fun arena => ?_
  · have h : Brackets (Work.phase ("lower:" ++ pass.name) ("Selector lowering pass '" ++ pass.name ++ "'")
        (pass.run settings) >>= fun _ => pure (ForInStep.yield PUnit.unit)) :=
      (Brackets.phase (brackets_run pass settings)).bind fun _ => .pure _
    simpa only [Work.phase, bind_assoc, pure_bind] using h
  · exact .forM _ (brackets_dropLeftovers settings)

end Lowering

/-! ## Converting modules -/

namespace Conversion

open Restyle.Component (Plant)
open Restyle.Module (Declarations Findings HelperDeclaration Imports)

theorem brackets_addMixin (plant : Plant) (helpers : Helpers) (h : HelperDeclaration) :
    Brackets (addMixin plant helpers h) := by
  refine (Component.brackets_buildMixin? _ h).bind fun styles? => ?_
  cases styles? with
  | none => exact .pure _
  | some styles =>
      dsimp only
      split
      · exact .throw _
      · exact .pure _

theorem brackets_addAnimation (plant : Plant) (helpers : Helpers) (h : HelperDeclaration) :
    Brackets (addAnimation plant helpers h) := by
  refine (Component.brackets_buildFrames? plant h).bind fun frames? => ?_
  cases frames? <;> exact .pure _

theorem brackets_buildHelpers (plant : Plant) (d : Declarations) : Brackets (buildHelpers plant d) := by
  refine Brackets.bind ?_ fun helpers => ?_
  · exact .foldlM _ (fun h _ helpers => brackets_addAnimation plant helpers h) _
  · exact .foldlM _ (fun h _ helpers => brackets_addMixin plant helpers h) _

theorem brackets_buildComponents (plant : Plant) (d : Declarations) (excluded : List String) :
    Brackets (buildComponents plant d excluded) := by
  refine .foldlM _ (fun s _ built => ?_) _
  obtain ⟨arena, skipped⟩ := built
  dsimp only
  split
  · exact .pure _
  · refine (Component.brackets_build? plant s).bind fun c? => ?_
    cases c? <;> exact .pure _

theorem brackets_buildParts (plant : Plant) (d : Declarations) (excluded : List String) :
    Brackets (buildParts plant d excluded) := by
  refine (Brackets.phase (Brackets.on (brackets_buildHelpers plant d))).bind ?_
  rintro ⟨helpers, workshop⟩
  refine (Brackets.phase (Brackets.on (brackets_buildComponents _ d excluded))).bind ?_
  rintro ⟨⟨arena, skipped⟩, workshop⟩
  exact .pure _

theorem brackets_tell (level : Level) (text : String) : Brackets (Converting.tell level text) :=
  .update _

theorem brackets_abandon (path reason : String) : Brackets (abandon path reason) :=
  (brackets_tell _ _).bind fun _ => (Brackets.report _).bind fun _ => .pure _

theorem brackets_carryOut (p : Project) (d : Draft) (done : ComponentEdits) (name : String)
    (plan : ComponentPlan) : Brackets (d.carryOut p done name plan) := by
  unfold Draft.carryOut
  split
  · exact .throw _
  split
  · exact .pure _
  dsimp only
  split
  · exact .pure _
  · exact (brackets_tell _ _).bind fun _ => (Brackets.report _).bind fun _ => .pure _

theorem brackets_emit (p : Project) (d : Draft) : Brackets (d.emit p) := by
  have hplans : ∀ t, Grows t (Plan.notePlans (d.plans p) t) :=
    .foldl _ fun t plan => .inspection t _ _ _
  have hcarry : Brackets (d.carryOutAll p (d.plans p)) :=
    .foldlM _ (fun plan _ done => brackets_carryOut p d done _ _) _
  refine (Brackets.trace hplans).bind fun _ => (Brackets.phase hcarry).bind fun components => ?_
  refine (Brackets.ofExcept _).bind fun helpers => (Brackets.phase (.pure _)).bind fun callEdits => ?_
  refine (Brackets.ofExcept _).bind fun text => Brackets.bind (.trace ?_) fun _ => .pure _
  exact .foldl _ fun t note => .importAction t _ _ _

theorem brackets_convertDeclarations (p : Project) (m : Module) (imports : Imports) (d : Declarations)
    (findings : Findings) : Brackets (convertDeclarations p m imports d findings) := by
  refine (brackets_buildParts _ d _).bind fun parts => ?_
  refine (Brackets.on (Lowering.brackets_lowerAll _)).bind ?_
  rintro ⟨-, arena⟩
  refine (Brackets.phase (.ofExcept _)).bind fun registry => (brackets_emit p _).bind fun emitted => ?_
  cases emitted with
  | error conflict => exact brackets_abandon _ _
  | ok emitted => exact .pure _

theorem brackets_convertModule (p : Project) (m : Module) : Brackets (convertModule p m) := by
  unfold convertModule
  split
  · exact (Brackets.report _).bind fun _ => .pure _
  dsimp only
  split
  · exact .pure _
  refine Brackets.get.bind fun s => Brackets.bind (.modify fun _ => rfl) fun _ => ?_
  split
  · exact .pure _
  split
  · exact (brackets_tell _ _).bind fun _ => .pure _
  · exact brackets_convertDeclarations _ _ _ _ _

/-- Whenever a module is converted, the trace of the conversion is bracketed. -/
theorem bracketed_run {p : Project} {code path : String} {outcome : Outcome} (h : run p code path = .ok outcome) :
    Trace.Bracketed outcome.trace.events := by
  unfold run at h
  dsimp only at h
  split at h
  · cases h
  next verdict s hrun =>
  cases h
  obtain ⟨_, s₀, hstart, hrest⟩ := Work.run_bind_eq_ok hrun
  obtain ⟨verdict', s₁, hconvert, hend⟩ := Work.run_bind_eq_ok hrest
  cases hstart
  cases hend
  have hgrows : Grows (Trace.startPhase {} "Transform" path) s₁.trace :=
    brackets_convertModule p _ _ _ _ hconvert
  have hsound := hgrows.sound (Trace.sound_empty.startPhase "Transform" path)
  obtain ⟨more, hmore⟩ := hgrows.events
  have hfirst : s₁.trace.events[0]? =
      some { kind := .phaseStart, description := "Transform", details := [("detail", .str path)] } := by
    rw [← hmore]
    rfl
  have hactive : s₁.trace.active = [0] := hgrows.active
  exact (hsound.bracketed_endPhase_iff hfirst rfl (by simp [hactive])).mpr hactive

theorem bracketed_numeralModule : ∃ outcome, run {} numeralModule "f.tsx" = .ok outcome ∧
    Trace.Bracketed outcome.trace.events := by
  obtain ⟨d, helpers, text, h, -⟩ := emitted_numeralModule
  obtain ⟨skipped, outcome, hrun, -⟩ := h.run_eq
  exact ⟨outcome, hrun, bracketed_run hrun⟩

end Conversion

end Restyle
