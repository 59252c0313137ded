import Restyle.Proofs.Edits

/-!
# Edits one at a time

Edits are spliced into a module in one go, with offsets that count the bytes before any of them.  The
outcome is that of replacing one range after the other, the last one first, so that no offset shifts; what
lies outside of all ranges is kept, and the order in which the edits are given makes no difference.
-/

namespace Restyle.Module.Edit

/-! ## Overlaps -/

/-- A byte is in the range of an edit. -/
def Covers (e : Edit) (i : Nat) : Prop := e.start ≤ i ∧ i < e.stop

instance (e : Edit) (i : Nat) : Decidable (e.Covers i) :=
  inferInstanceAs (Decidable (e.start ≤ i ∧ i < e.stop))

/-- An edit inserts a text strictly inside of the range of another one. -/
def InsertsInside (a b : Edit) : Prop := a.start = a.stop ∧ b.start < a.start ∧ a.start < b.stop

/-- The ranges of two edits share a byte, or one of the edits inserts a text inside of the other. -/
def Overlaps (a b : Edit) : Prop :=
  (∃ i, a.Covers i ∧ b.Covers i) ∨ a.InsertsInside b ∨ b.InsertsInside a

/-- Two of a list of edits overlap. -/
def Overlapping (edits : List Edit) : Prop := ∃ a b, [a, b].Sublist edits ∧ a.Overlaps b

theorem apart_iff {a b : Edit} (ha : a.Proper) (hb : b.Proper) : a.Apart b ↔ ¬ a.Overlaps b := by
  constructor
  · rintro hapart (⟨i, hai, hbi⟩ | hinside | hinside)
    · unfold Apart Covers at *
      omega
    · unfold Apart InsertsInside at *
      omega
    · unfold Apart InsertsInside at *
      omega
  · intro hnone
    by_contra hapart
    obtain ⟨hba, hab⟩ : b.start < a.stop ∧ a.start < b.stop := by
      unfold Apart at hapart
      omega
    apply hnone
    -- The later start is a byte of both ranges, unless one of them is empty.
    rcases Nat.eq_or_lt_of_le ha with hempty | hpos
    · exact .inr (.inl ⟨hempty, by omega, by omega⟩)
    rcases Nat.eq_or_lt_of_le hb with hempty' | hpos'
    · exact .inr (.inr ⟨hempty', by omega, by omega⟩)
    · exact .inl ⟨max a.start b.start, ⟨by omega, by omega⟩, ⟨by omega, by omega⟩⟩

theorem pairwise_apart_iff {edits : List Edit} (hproper : ∀ e ∈ edits, e.Proper) :
    edits.Pairwise Apart ↔ ¬ Overlapping edits := by
  rw [List.pairwise_iff_forall_sublist, Overlapping]
  constructor
  · rintro hapart ⟨a, b, hsub, hoverlaps⟩
    have ha := hproper a (hsub.subset List.mem_cons_self)
    have hb := hproper b (hsub.subset (List.mem_cons_of_mem a List.mem_cons_self))
    exact (apart_iff ha hb).mp (hapart hsub) hoverlaps
  · intro hnone a b hsub
    have ha := hproper a (hsub.subset List.mem_cons_self)
    have hb := hproper b (hsub.subset (List.mem_cons_of_mem a List.mem_cons_self))
    exact (apart_iff ha hb).mpr fun hoverlaps => hnone ⟨a, b, hsub, hoverlaps⟩

/-! ## One edit at a time -/

/-- One edit alone. -/
def replaceIn (bytes : List UInt8) (e : Edit) : List UInt8 :=
  bytes.take e.start ++ (Text.encode e.text ++ bytes.drop e.stop)

/-- One edit after the other, the last one first. -/
def replaceFromLast (source : List UInt8) (edits : List Edit) : List UInt8 :=
  edits.foldr (fun e bytes => replaceIn bytes e) source

/-- The range of an edit is one of the bytes of a module. -/
def Within (source : List UInt8) (e : Edit) : Prop := e.start ≤ e.stop ∧ e.stop ≤ source.length

variable {source : List UInt8}

theorem take_append_sliceBytes {cursor stop : Nat} (h : cursor ≤ stop) :
    source.take cursor ++ Text.sliceBytes source cursor stop = source.take stop := by
  have hsplit := List.take_append_drop cursor (source.take stop)
  rwa [List.take_take, Nat.min_eq_left h] at hsplit

theorem splice_cons_eq_ok {cursor : Nat} {e : Edit} {edits : List Edit} {bytes : List UInt8}
    (h : splice source cursor (e :: edits) = .ok bytes) :
    cursor ≤ e.start ∧ ∃ rest, splice source e.stop edits = .ok rest ∧
      bytes = Text.sliceBytes source cursor e.start ++ (Text.encode e.text ++ rest) := by
  rw [splice] at h
  split at h
  · cases h
  · next hle =>
      cases hrest : splice source e.stop edits with
      | error fault =>
          rw [hrest] at h
          cases h
      | ok rest =>
          rw [hrest] at h
          cases h
          exact ⟨Nat.not_lt.mp hle, rest, rfl, by rw [List.append_assoc]⟩

/-- What is spliced from a place on follows what the edits leave alone before that place. -/
theorem replaceFromLast_eq {cursor : Nat} {edits : List Edit} {bytes : List UInt8}
    (hwithin : ∀ e ∈ edits, e.Within source) (h : splice source cursor edits = .ok bytes) :
    replaceFromLast source edits = source.take cursor ++ bytes := by
  induction edits generalizing cursor bytes with
  | nil =>
      cases h
      exact (List.take_append_drop cursor source).symm
  | cons e edits ih =>
      obtain ⟨hle, rest, hrest, rfl⟩ := splice_cons_eq_ok h
      obtain ⟨hproper, hstop⟩ := hwithin e List.mem_cons_self
      have hlater := ih (fun a ha => hwithin a (List.mem_cons_of_mem e ha)) hrest
      have hlength : (source.take e.stop).length = e.stop := List.length_take_of_le hstop
      calc replaceFromLast source (e :: edits)
          = replaceIn (source.take e.stop ++ rest) e := congrArg (replaceIn · e) hlater
        _ = source.take e.start ++ (Text.encode e.text ++ rest) := by
            rw [replaceIn, List.take_append_of_le_length (by omega), List.take_take, Nat.min_eq_left hproper,
              List.drop_left' hlength]
        _ = source.take cursor ++
              (Text.sliceBytes source cursor e.start ++ (Text.encode e.text ++ rest)) := by
            rw [← take_append_sliceBytes hle, List.append_assoc]

/-! ## What is kept -/

/-- The items of a list at certain positions, which are counted from `first` on. -/
def keptFrom {α : Type} (keeps : Nat → Bool) (first : Nat) (xs : List α) : List α :=
  ((xs.zipIdx first).filter fun entry => keeps entry.2).map (·.1)

/-- The bytes of a module that are in the range of no edit. -/
def untouched (source : List UInt8) (edits : List Edit) : List UInt8 :=
  keptFrom (fun i => edits.all fun e => !decide (e.Covers i)) 0 source

theorem keptFrom_append {α : Type} (keeps : Nat → Bool) (first : Nat) (xs ys : List α) :
    keptFrom keeps first (xs ++ ys) = keptFrom keeps first xs ++ keptFrom keeps (first + xs.length) ys := by
  rw [keptFrom, List.zipIdx_append, List.filter_append, List.map_append]
  rfl

theorem keptFrom_sublist {α : Type} (keeps : Nat → Bool) (first : Nat) (xs : List α) :
    (keptFrom keeps first xs).Sublist xs := by
  have h := (List.filter_sublist (p := fun entry => keeps entry.2) (l := xs.zipIdx first)).map (·.1)
  rwa [List.zipIdx_map_fst] at h

theorem keptFrom_eq_nil {α : Type} {keeps : Nat → Bool} {first : Nat} {xs : List α}
    (h : ∀ i, first ≤ i → i < first + xs.length → keeps i = false) : keptFrom keeps first xs = [] := by
  rw [keptFrom, List.map_eq_nil_iff, List.filter_eq_nil_iff]
  rintro ⟨x, i⟩ hmem
  obtain ⟨hle, hlt, -⟩ := List.mem_zipIdx hmem
  rw [h i hle (by omega)]
  exact Bool.false_ne_true

/-- The bytes outside of all ranges are in what is spliced, in their order. -/
theorem keptFrom_sublist_splice {keeps : Nat → Bool} {cursor : Nat} {edits : List Edit} {bytes : List UInt8}
    (hwithin : ∀ e ∈ edits, e.Within source) (hkeeps : ∀ e ∈ edits, ∀ i, e.Covers i → keeps i = false)
    (hcursor : cursor ≤ source.length) (h : splice source cursor edits = .ok bytes) :
    (keptFrom keeps cursor (source.drop cursor)).Sublist bytes := by
  induction edits generalizing cursor bytes with
  | nil =>
      cases h
      exact keptFrom_sublist keeps cursor _
  | cons e edits ih =>
      obtain ⟨hle, rest, hrest, rfl⟩ := splice_cons_eq_ok h
      obtain ⟨hproper, hstop⟩ := hwithin e List.mem_cons_self
      have hlater := ih (fun a ha => hwithin a (List.mem_cons_of_mem e ha))
        (fun a ha => hkeeps a (List.mem_cons_of_mem e ha)) hstop hrest
      -- before the range, the range, behind the range
      have hsplit : source.drop cursor = Text.sliceBytes source cursor e.start ++
          (Text.sliceBytes source e.start e.stop ++ source.drop e.stop) := by
        apply (List.append_right_inj (source.take cursor)).mp
        rw [List.take_append_drop, ← List.append_assoc, take_append_sliceBytes hle, ← List.append_assoc,
          take_append_sliceBytes hproper, List.take_append_drop]
      have hbefore : (Text.sliceBytes source cursor e.start).length = e.start - cursor := by
        rw [Text.sliceBytes, List.length_drop, List.length_take_of_le (Nat.le_trans hproper hstop)]
      have hrange : (Text.sliceBytes source e.start e.stop).length = e.stop - e.start := by
        rw [Text.sliceBytes, List.length_drop, List.length_take_of_le hstop]
      have hgone : keptFrom keeps e.start (Text.sliceBytes source e.start e.stop) = [] := by
        apply keptFrom_eq_nil
        intro i hi hlt
        exact hkeeps e List.mem_cons_self i ⟨hi, by omega⟩
      rw [hsplit, keptFrom_append, keptFrom_append, hbefore, hrange, Nat.add_sub_cancel' hle,
        Nat.add_sub_cancel' hproper, hgone, List.nil_append]
      apply List.Sublist.append (keptFrom_sublist keeps cursor _)
      exact hlater.trans (List.sublist_append_right _ _)

/-! ## The order in which edits are given -/

/-- What decides on the order of edits. -/
def rank (e : Edit) : Nat × Nat × Int := (e.start, e.stop, e.priority)

theorem rank_eq_of_before {a b : Edit} (hab : a.before b = true) (hba : b.before a = true) :
    a.rank = b.rank := by
  unfold before at *
  unfold rank
  grind

/-- Edits of different ranks are sorted in one way only. -/
theorem mergeSort_eq_of_perm {edits edits' : List Edit} (hperm : edits'.Perm edits)
    (hranks : edits.Pairwise fun a b => a.rank ≠ b.rank) :
    edits'.mergeSort before = edits.mergeSort before := by
  have hsorted : (edits.mergeSort before).Perm edits := List.mergeSort_perm edits before
  apply mergeSort_eq (hperm.trans hsorted.symm)
  have hordered := List.pairwise_mergeSort before_trans before_total edits
  have hdistinct := (hsorted.pairwise_iff fun h => Ne.symm h).mpr hranks
  refine (hordered.and hdistinct).imp fun {a b} h => ?_
  rw [← Bool.not_eq_true]
  exact fun hba => h.2 (rank_eq_of_before h.1 hba)

/-! ## Applying edits -/

/-- The text of what edits make of a module. -/
def decoded (bytes : List UInt8) : Except EditFault String :=
  match Text.decode? bytes with
  | some text => .ok text
  | none => .error .notText

theorem applyAll_of_splice {edits : List Edit} {bytes : List UInt8}
    (h : splice source 0 (edits.mergeSort before) = .ok bytes) : applyAll source edits = decoded bytes := by
  rw [applyAll, h]
  rfl

/--
Edits within a module are refused exactly if two of them overlap.  Otherwise they make of it what they make
of it one at a time, the last one first, and the bytes outside of their ranges are kept in their order.  If no
two edits have the same rank, they may be given in any order.
-/
theorem applyAll_exact (source : List UInt8) {edits : List Edit} (hwithin : ∀ e ∈ edits, e.Within source) :
    ((∃ start cursor, applyAll source edits = .error (.overlap start cursor)) ↔ Overlapping edits) ∧
      (¬ Overlapping edits → ∃ bytes,
        splice source 0 (edits.mergeSort before) = .ok bytes ∧ applyAll source edits = decoded bytes ∧
          bytes = replaceFromLast source (edits.mergeSort before) ∧ (untouched source edits).Sublist bytes) ∧
      ((edits.Pairwise fun a b => a.rank ≠ b.rank) →
        ∀ edits', edits'.Perm edits → applyAll source edits' = applyAll source edits) := by
  have hproper : ∀ e ∈ edits, e.Proper := fun e he => (hwithin e he).1
  have hoverlap := applyAll_overlap_iff source hproper
  rw [pairwise_apart_iff hproper, not_not] at hoverlap
  refine ⟨hoverlap, fun hnone => ?_, fun hranks edits' hperm => ?_⟩
  · have hsorted : (edits.mergeSort before).Perm edits := List.mergeSort_perm edits before
    have hwithin' : ∀ e ∈ edits.mergeSort before, e.Within source :=
      fun e he => hwithin e (hsorted.mem_iff.mp he)
    cases hsplice : splice source 0 (edits.mergeSort before) with
    | error fault =>
        obtain ⟨start, cursor, rfl⟩ := eq_overlap_of_splice hsplice
        refine absurd (hoverlap.mp ⟨start, cursor, ?_⟩) hnone
        rw [applyAll, hsplice]
        rfl
    | ok bytes =>
        refine ⟨bytes, rfl, applyAll_of_splice hsplice, (replaceFromLast_eq hwithin' hsplice).symm, ?_⟩
        refine keptFrom_sublist_splice hwithin' (fun e he i hi => ?_) (Nat.zero_le _) hsplice
        rw [← Bool.not_eq_true, List.all_eq_true]
        intro hall
        have hnot := hall e (hsorted.mem_iff.mp he)
        rw [decide_eq_true hi] at hnot
        cases hnot
  · rw [applyAll, applyAll, mergeSort_eq_of_perm hperm hranks]

/-- The bytes of `ab = 1`. -/
def sampleBytes : List UInt8 :=
  [0x61, 0x62, 0x20, 0x3D, 0x20, 0x31]

/-- A deletion, an insertion and a replacement that ends where the insertion is. -/
def sampleEdits : List Edit :=
  [deletion 4 5, insertion 2 "x" 0, { start := 0, stop := 2, text := "cd" }]

theorem applyAll_exact_sampleEdits :
    (∀ e ∈ sampleEdits, e.Within sampleBytes) ∧ ¬ Overlapping sampleEdits ∧
      (sampleEdits.Pairwise fun a b => a.rank ≠ b.rank) ∧
      applyAll sampleBytes sampleEdits.reverse = .ok "cdx =1" := by
  have hwithin : ∀ e ∈ sampleEdits, e.Within sampleBytes := by
    intro e he
    simp only [sampleEdits, List.mem_cons, List.not_mem_nil, or_false] at he
    rcases he with rfl | rfl | rfl <;> constructor <;> decide
  have hranks : sampleEdits.Pairwise fun a b => a.rank ≠ b.rank := by decide
  obtain ⟨-, hspliced, hperm⟩ := applyAll_exact sampleBytes hwithin
  have hnone : ¬ Overlapping sampleEdits := by
    rw [← pairwise_apart_iff fun e he => (hwithin e he).1]
    decide
  refine ⟨hwithin, hnone, hranks, ?_⟩
  rw [hperm hranks _ (List.reverse_perm _)]
  obtain ⟨bytes, -, happly, rfl, -⟩ := hspliced hnone
  rw [happly, mergeSort_eq (List.reverse_perm sampleEdits).symm (by decide)]
  decide +kernel

end Restyle.Module.Edit
