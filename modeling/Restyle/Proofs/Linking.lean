import Mathlib.Logic.Relation
import Restyle.Plan.Planner
import Restyle.Proofs.Table

/-!
# Chains of bases as a graph

A component supports `as` if one that is linked to it does: the one that it is based on, one that is based on
it, and so on along the chains.  The linked components are found by a search that looks at one pending name
after the other.  Every step keeps what is found within reach of the start, and what has been looked at has all
its neighbours found; so a search that has nothing left to look at has found all that is within reach, in
whatever order it went.  It comes to that, because every step looks at a name for the only time.
-/

namespace Restyle.Plan

/-! ## Links -/

/-- A component of the module has another one of the module as its base. -/
def Derives (arena : Arena) (name base : String) : Prop :=
  ∃ c, arena.get? name = some c ∧ c.baseIsIntrinsic = false ∧ c.base = base ∧ arena.has base = true

/-- One of two components is based on the other. -/
def Linked (arena : Arena) (a b : String) : Prop :=
  Derives arena a b ∨ Derives arena b a

/-- A component is linked by a chain to one of the given names that are in the module. -/
def Connected (arena : Arena) (seeds : List String) (name : String) : Prop :=
  ∃ seed ∈ seeds, arena.has seed = true ∧ Relation.ReflTransGen (Linked arena) seed name

section Links

variable {arena : Arena} {a b : String}

theorem baseName?_eq_some_iff : baseName? arena a = some b ↔ Derives arena a b := by
  unfold baseName?
  rw [Option.bind_eq_some_iff]
  constructor
  · rintro ⟨c, hc, h⟩
    split at h
    · next hcond =>
        obtain ⟨hbase, hhas⟩ := Bool.and_eq_true_iff.mp hcond
        cases h
        exact ⟨c, hc, by simpa using hbase, rfl, hhas⟩
    · cases h
  · rintro ⟨c, hc, hbase, rfl, hhas⟩
    exact ⟨c, hc, by simp [hbase, hhas]⟩

theorem Derives.mem_names (h : Derives arena a b) : a ∈ arena.names ∧ b ∈ arena.names := by
  obtain ⟨c, hc, -, -, hhas⟩ := h
  obtain ⟨d, hd⟩ := Option.isSome_iff_exists.mp hhas
  exact ⟨Table.mem_names_of_get? hc, Table.mem_names_of_get? hd⟩

theorem mem_neighbours_iff : b ∈ neighbours arena a ↔ Linked arena a b := by
  unfold neighbours Linked
  rw [List.mem_append, List.mem_filter, beq_iff_eq, Option.mem_toList, baseName?_eq_some_iff,
    baseName?_eq_some_iff, or_comm]
  exact or_congr_right (and_iff_right_of_imp fun h => h.mem_names.1)

theorem mem_names_of_mem_neighbours (h : b ∈ neighbours arena a) : b ∈ arena.names := by
  rcases mem_neighbours_iff.mp h with h | h
  · exact h.mem_names.2
  · exact h.mem_names.1

end Links

/-! ## Searches -/

namespace Search

variable {arena : Arena} {seeds : List String}

/-- A search goes on with any pending name, and comes across the neighbours of the name in any order. -/
inductive Step (arena : Arena) : Search → Search → Prop where
  | look {s : Search} {name : String} {others order : List String} (hpending : s.pending.Perm (name :: others))
      (horder : order.Perm (neighbours arena name)) :
      Step arena s (order.foldl meet { s with pending := others })

theorem step_look {s : Search} {name : String} {others : List String} (h : s.pending = name :: others) :
    Step arena s (s.look arena name others) :=
  .look (h ▸ .refl _) (.refl _)

/-- A search that cannot go on has nothing left to look at. -/
theorem not_step_iff {s : Search} : (∀ next, ¬ Step arena s next) ↔ s.pending = [] := by
  constructor
  · intro h
    cases hpending : s.pending with
    | nil => rfl
    | cons name others => exact absurd (step_look hpending) (h _)
  · intro h next hstep
    cases hstep with
    | look hpending _ =>
        rw [h] at hpending
        exact absurd hpending.length_eq (by simp)

/-! ## What is found -/

theorem mem_found_meet {s : Search} {name other : String} :
    other ∈ (s.meet name).found ↔ other ∈ s.found ∨ other = name := by
  unfold meet
  split
  · next hmem =>
      replace hmem : name ∈ s.found := by simpa using hmem
      exact (or_iff_left_of_imp fun h => h ▸ hmem).symm
  · rw [List.mem_cons, or_comm]

theorem mem_found_foldl_meet {s : Search} {names : List String} {other : String} :
    other ∈ (names.foldl meet s).found ↔ other ∈ s.found ∨ other ∈ names := by
  induction names generalizing s with
  | nil => simp
  | cons name names ih => rw [List.foldl_cons, ih, mem_found_meet, List.mem_cons, or_assoc]

/-- What is come across for the first time is pending. -/
theorem mem_pending_meet {s : Search} {name other : String} :
    other ∈ (s.meet name).pending ↔ other ∈ s.pending ∨ other = name ∧ other ∉ s.found := by
  unfold meet
  split
  · next hmem =>
      replace hmem : name ∈ s.found := by simpa using hmem
      refine (or_iff_left ?_).symm
      rintro ⟨rfl, hnot⟩
      exact hnot hmem
  · next hmem =>
      replace hmem : name ∉ s.found := by simpa using hmem
      rw [List.mem_cons, or_comm]
      exact or_congr_right (and_iff_left_of_imp fun h => h ▸ hmem).symm

theorem mem_pending_foldl_meet {s : Search} {names : List String} {other : String} :
    other ∈ (names.foldl meet s).pending ↔ other ∈ s.pending ∨ other ∈ names ∧ other ∉ s.found := by
  induction names generalizing s with
  | nil => simp
  | cons name names ih =>
      rw [List.foldl_cons, ih, mem_pending_meet, mem_found_meet, List.mem_cons, or_assoc, or_and_right]
      -- A name that comes up twice is pending once.
      refine or_congr_right ⟨?_, ?_⟩
      · rintro (h | ⟨h, hnot⟩)
        · exact .inl h
        · exact .inr ⟨h, fun hmem => hnot (.inl hmem)⟩
      · rintro (h | ⟨h, hnot⟩)
        · exact .inl h
        · by_cases heq : other = name
          · exact .inl ⟨heq, hnot⟩
          · exact .inr ⟨h, fun hmem => hmem.elim hnot heq⟩

/-- What every search from given names keeps. -/
structure Sound (arena : Arena) (seeds : List String) (s : Search) : Prop where
  /-- Nothing out of reach is found. -/
  reached : ∀ name ∈ s.found, Connected arena seeds name
  started : ∀ seed ∈ seeds, arena.has seed = true → seed ∈ s.found
  /-- What is no longer pending has all its neighbours found. -/
  looked : ∀ name ∈ s.found, name ∉ s.pending → ∀ other, Linked arena name other → other ∈ s.found
  listed : ∀ name ∈ s.pending, name ∈ s.found

theorem sound_start (arena : Arena) (seeds : List String) : Sound arena seeds (start arena seeds) := by
  have hfound : ∀ name, name ∈ (start arena seeds).found ↔ name ∈ seeds ∧ arena.has name = true := by
    intro name
    unfold start
    rw [mem_found_foldl_meet, List.mem_filter, or_iff_right List.not_mem_nil]
  have hpending : ∀ name, name ∈ (start arena seeds).pending ↔ name ∈ seeds ∧ arena.has name = true := by
    intro name
    unfold start
    rw [mem_pending_foldl_meet, List.mem_filter, or_iff_right List.not_mem_nil,
      and_iff_left List.not_mem_nil]
  refine ⟨fun name h => ?_, fun seed hseed hhas => (hfound seed).mpr ⟨hseed, hhas⟩, fun name h hnot => ?_,
    fun name h => (hfound name).mpr ((hpending name).mp h)⟩
  · obtain ⟨hseed, hhas⟩ := (hfound name).mp h
    exact ⟨name, hseed, hhas, .refl⟩
  · exact absurd ((hpending name).mpr ((hfound name).mp h)) hnot

theorem Step.sound {s next : Search} (h : Step arena s next) (hs : Sound arena seeds s) :
    Sound arena seeds next := by
  cases h with
  | @look name others order hpending horder =>
      have hnamePending : name ∈ s.pending := hpending.mem_iff.mpr List.mem_cons_self
      have hname : name ∈ s.found := hs.listed name hnamePending
      have horders : ∀ other, other ∈ order ↔ Linked arena name other := fun other =>
        horder.mem_iff.trans mem_neighbours_iff
      refine ⟨fun other h => ?_, fun seed hseed hhas => ?_, fun other h hnot next hlinked => ?_, fun other h => ?_⟩
      · rcases mem_found_foldl_meet.mp h with h | h
        · exact hs.reached other h
        · obtain ⟨seed, hseed, hhas, hreach⟩ := hs.reached name hname
          exact ⟨seed, hseed, hhas, hreach.tail ((horders other).mp h)⟩
      · exact mem_found_foldl_meet.mpr (.inl (hs.started seed hseed hhas))
      · rw [mem_pending_foldl_meet, not_or, not_and, Decidable.not_not] at hnot
        apply mem_found_foldl_meet.mpr
        have hother : other ∈ s.found := by
          rcases mem_found_foldl_meet.mp h with h | h
          · exact h
          · exact hnot.2 h
        by_cases heq : other = name
        · exact .inr ((horders next).mpr (heq ▸ hlinked))
        · refine .inl (hs.looked other hother (fun hmem => ?_) next hlinked)
          rcases List.mem_cons.mp (hpending.mem_iff.mp hmem) with h | h
          · exact heq h
          · exact hnot.1 h
      · rcases mem_pending_foldl_meet.mp h with h | ⟨h, -⟩
        · exact mem_found_foldl_meet.mpr (.inl (hs.listed other (hpending.mem_iff.mpr (List.mem_cons_of_mem _ h))))
        · exact mem_found_foldl_meet.mpr (.inr h)

theorem sound_of_steps {s : Search} (h : Relation.ReflTransGen (Step arena) (start arena seeds) s) :
    Sound arena seeds s := by
  induction h with
  | refl => exact sound_start arena seeds
  | tail _ hstep ih => exact hstep.sound ih

/-- A search with nothing left to look at has found all that is within reach. -/
theorem Sound.mem_found_iff {s : Search} (h : Sound arena seeds s) (hpending : s.pending = []) {name : String} :
    name ∈ s.found ↔ Connected arena seeds name := by
  refine ⟨h.reached name, ?_⟩
  rintro ⟨seed, hseed, hhas, hreach⟩
  induction hreach with
  | refl => exact h.started seed hseed hhas
  | tail _ hlinked ih => exact h.looked _ ih (by simp [hpending]) _ hlinked

/-! ## The end of a search -/

/-- How many names are still to be looked at: those that are pending and those that have not been found. -/
def remaining (arena : Arena) (s : Search) : Nat :=
  (arena.names.filter fun name => !s.found.contains name).length + s.pending.length

theorem remaining_meet_le {s : Search} {name : String} (h : name ∈ arena.names) :
    (s.meet name).remaining arena ≤ s.remaining arena := by
  unfold meet
  split
  · exact Nat.le_refl _
  · next hnew =>
      have hless : (arena.names.filter fun other => !(name :: s.found).contains other).length <
          (arena.names.filter fun other => !s.found.contains other).length := by
        have hsplit : (arena.names.filter fun other => !(name :: s.found).contains other) =
            (arena.names.filter fun other => !s.found.contains other).filter fun other => !(other == name) := by
          rw [List.filter_filter]
          exact List.filter_congr fun other _ => by rw [List.contains_cons, Bool.not_or]
        rw [hsplit]
        refine List.length_filter_lt_length_iff_exists.mpr ⟨name, List.mem_filter.mpr ⟨h, ?_⟩, by simp⟩
        simpa using hnew
      unfold remaining
      rw [List.length_cons]
      dsimp only
      omega

theorem remaining_foldl_meet_le {s : Search} {names : List String} (h : ∀ name ∈ names, name ∈ arena.names) :
    (names.foldl meet s).remaining arena ≤ s.remaining arena := by
  induction names generalizing s with
  | nil => exact Nat.le_refl _
  | cons name names ih =>
      rw [List.foldl_cons]
      exact Nat.le_trans (ih fun other hother => h other (List.mem_cons_of_mem _ hother))
        (remaining_meet_le (h name List.mem_cons_self))

/-- Every step leaves less to be looked at. -/
theorem Step.remaining_lt {s next : Search} (h : Step arena s next) :
    next.remaining arena < s.remaining arena := by
  cases h with
  | @look name others order hpending horder =>
      have hle : (order.foldl meet { s with pending := others }).remaining arena ≤
          remaining arena { s with pending := others } :=
        remaining_foldl_meet_le fun other hother =>
          mem_names_of_mem_neighbours (horder.mem_iff.mp hother)
      have hlength := hpending.length_eq
      rw [List.length_cons] at hlength
      unfold remaining at hle ⊢
      dsimp only at hle
      omega

/-- No search goes on forever. -/
theorem wellFounded_step (arena : Arena) : WellFounded fun next s => Step arena s next :=
  Subrelation.wf (fun h => h.remaining_lt) (measure (remaining arena)).wf

/-- Looking at as many names as remain leads to the end of a search. -/
theorem run_spec {n : Nat} {s : Search} (h : s.remaining arena ≤ n) :
    Relation.ReflTransGen (Step arena) s (s.run arena n) ∧ (s.run arena n).pending = [] := by
  induction n generalizing s with
  | zero =>
      unfold remaining at h
      exact ⟨.refl, List.length_eq_zero_iff.mp (by rw [run]; omega)⟩
  | succ n ih =>
      rw [run]
      cases hpending : s.pending with
      | nil => exact ⟨.refl, hpending⟩
      | cons name others =>
          have hstep : Step arena s (s.look arena name others) := step_look hpending
          obtain ⟨hrun, hend⟩ := ih (Nat.le_of_lt_succ (Nat.lt_of_lt_of_le hstep.remaining_lt h))
          exact ⟨.head hstep hrun, hend⟩

theorem remaining_start_le (arena : Arena) (seeds : List String) :
    (start arena seeds).remaining arena ≤ arena.length := by
  have hle : (start arena seeds).remaining arena ≤ remaining arena { found := [], pending := [] } := by
    refine remaining_foldl_meet_le fun name hname => ?_
    obtain ⟨c, hc⟩ := Option.isSome_iff_exists.mp (List.mem_filter.mp hname).2
    exact Table.mem_names_of_get? hc
  refine Nat.le_trans hle (Nat.le_of_eq ?_)
  rw [remaining, Table.names, List.filter_eq_self.mpr (by simp), List.length_map, List.length_nil, Nat.add_zero]

end Search

/-! ## The components that support `as` -/

theorem mem_spread_iff {arena : Arena} {seeds : List String} {name : String} :
    name ∈ spread arena seeds ↔ Connected arena seeds name := by
  obtain ⟨hsteps, hend⟩ := Search.run_spec (Search.remaining_start_le arena seeds)
  exact (Search.sound_of_steps hsteps).mem_found_iff hend

theorem connected_congr {arena arena' : Arena} {seeds seeds' : List String}
    (harena : ∀ name, arena.get? name = arena'.get? name) (hseeds : ∀ name, name ∈ seeds ↔ name ∈ seeds')
    (name : String) : Connected arena seeds name ↔ Connected arena' seeds' name := by
  have hhas : ∀ name, arena.has name = arena'.has name := fun name => by
    rw [Table.has, Table.has, harena]
  have hlinked : Linked arena = Linked arena' := by
    funext a b
    simp only [Linked, Derives, harena, hhas]
  unfold Connected
  simp only [hseeds, hhas, hlinked]

/--
Spreading comes to an end and gives exactly the components of the module that a chain of bases, followed in
either direction, links to one of the given ones.  A search in any other order comes to an end too and finds the
same, and neither the order of the components nor that of the given names has an influence.
-/
theorem spread_closes (arena : Arena) (seeds : List String) :
    (∀ name, name ∈ spread arena seeds ↔ Connected arena seeds name) ∧
      WellFounded (fun next s => Search.Step arena s next) ∧
      (∀ s, Relation.ReflTransGen (Search.Step arena) (Search.start arena seeds) s →
        (∀ next, ¬ Search.Step arena s next) → ∀ name, name ∈ s.found ↔ name ∈ spread arena seeds) ∧
      ∀ arena' seeds', arena.names.Nodup → arena.Perm arena' → (∀ name, name ∈ seeds ↔ name ∈ seeds') →
        ∀ name, name ∈ spread arena' seeds' ↔ name ∈ spread arena seeds := by
  refine ⟨fun name => mem_spread_iff, Search.wellFounded_step arena, fun s hsteps hend name => ?_,
    fun arena' seeds' hnames harena hseeds name => ?_⟩
  · rw [(Search.sound_of_steps hsteps).mem_found_iff (Search.not_step_iff.mp hend), mem_spread_iff]
  · rw [mem_spread_iff, mem_spread_iff]
    exact (connected_congr (Table.get?_of_perm harena hnames) hseeds name).symm

/-- Two components that are based on each other, one that is based on itself, and one over an element. -/
def loopingArena : Arena :=
  [("A", { name := "A", styleKey := "a", base := "B", baseIsIntrinsic := false }),
    ("B", { name := "B", styleKey := "b", base := "A", baseIsIntrinsic := false }),
    ("C", { name := "C", styleKey := "c", base := "C", baseIsIntrinsic := false }),
    ("D", { name := "D", styleKey := "d", base := "div" })]

/-- The search looks at `C` first, but finds the same when it begins with `A`. -/
theorem spread_closes_loopingArena :
    (∀ name, Connected loopingArena ["A", "C", "X"] name ↔ name ∈ ["A", "B", "C"]) ∧
      (∃ s, Relation.ReflTransGen (Search.Step loopingArena) (Search.start loopingArena ["A", "C", "X"]) s ∧
        ∀ name, name ∈ s.found ↔ name ∈ spread loopingArena ["A", "C", "X"]) ∧
      ∀ name, name ∈ spread loopingArena.reverse ["X", "C", "A"] ↔ name ∈ spread loopingArena ["A", "C", "X"] := by
  obtain ⟨hexact, -, hany, hshuffled⟩ := spread_closes loopingArena ["A", "C", "X"]
  have hfirst : Search.Step loopingArena { found := ["C", "A"], pending := ["C", "A"] }
      { found := ["B", "C", "A"], pending := ["B", "C"] } :=
    @Search.Step.look _ _ "A" ["C"] _ (List.Perm.swap "A" "C" []) (.refl _)
  have hsecond : Search.Step loopingArena { found := ["B", "C", "A"], pending := ["B", "C"] }
      { found := ["B", "C", "A"], pending := ["C"] } := @Search.step_look _ _ "B" ["C"] rfl
  have hlast : Search.Step loopingArena { found := ["B", "C", "A"], pending := ["C"] }
      { found := ["B", "C", "A"], pending := [] } := @Search.step_look _ _ "C" [] rfl
  have hsteps : Relation.ReflTransGen (Search.Step loopingArena) (Search.start loopingArena ["A", "C", "X"])
      { found := ["B", "C", "A"], pending := [] } := .head hfirst (.head hsecond (.single hlast))
  refine ⟨fun name => ?_, ⟨_, hsteps, hany _ hsteps (Search.not_step_iff.mpr rfl)⟩,
    hshuffled _ _ (by decide) (List.reverse_perm _).symm fun name => ?_⟩
  · rw [← hexact, show spread loopingArena ["A", "C", "X"] = ["B", "C", "A"] by decide]
    simp only [List.mem_cons, or_left_comm]
  · simp only [List.mem_cons, or_left_comm]
end Restyle.Plan
