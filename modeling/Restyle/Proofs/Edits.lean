import Mathlib.Data.List.TakeWhile
import Restyle.Proofs.Outline

/-!
# Edits that are apart

Edits can be applied exactly if any two of them are apart.  A statement that is removed together with its
lines keeps apart from everything that is solid and stands beside the statement.
-/

namespace Restyle.Module

open Restyle.Text (isBlankByte lineBreak)

/-! ## Applying edits -/

namespace Edit

/-- The range of an edit does not end before it starts. -/
def Proper (e : Edit) : Prop := e.start ≤ e.stop

/-- One of two edits ends before the other one starts. -/
def Apart (a b : Edit) : Prop := a.stop ≤ b.start ∨ b.stop ≤ a.start

instance (a b : Edit) : Decidable (a.Apart b) :=
  inferInstanceAs (Decidable (a.stop ≤ b.start ∨ b.stop ≤ a.start))

theorem Apart.symm {a b : Edit} (h : a.Apart b) : b.Apart a := Or.symm h

/-- An edit in the inside of another one is not apart from it. -/
theorem not_apart_of_inside {a b : Edit} (hb : b.Proper) (hstart : a.start < b.start)
    (hstop : b.stop < a.stop) : ¬ a.Apart b := by
  unfold Apart Proper at *
  omega

theorem before_trans (a b c : Edit) (hab : a.before b = true) (hbc : b.before c = true) :
    a.before c = true := by
  unfold before at *
  grind

theorem before_total (a b : Edit) : (a.before b || b.before a) = true := by
  unfold before
  grind

/-- Edits whose order is settled are sorted in one way only. -/
theorem mergeSort_eq {edits sorted : List Edit} (hperm : edits.Perm sorted)
    (hsorted : sorted.Pairwise fun a b => b.before a = false) : edits.mergeSort before = sorted := by
  have hordered : sorted.Pairwise fun a b => a.before b = true := by
    refine hsorted.imp fun {a b} h => ?_
    have htotal := before_total a b
    rwa [h, Bool.or_false] at htotal
  have hsame := (List.mergeSort_perm edits before).trans hperm
  refine hsame.eq_of_pairwise (fun a b ha hb hab hba => ?_)
    (List.pairwise_mergeSort before_trans before_total edits) hordered
  obtain ⟨i, hi, rfl⟩ := List.getElem_of_mem (hsame.mem_iff.mp ha)
  obtain ⟨j, hj, rfl⟩ := List.getElem_of_mem hb
  rw [List.pairwise_iff_getElem] at hsorted
  rcases Nat.lt_trichotomy i j with hlt | rfl | hlt
  · rw [hsorted i j hi hj hlt] at hba
    cases hba
  · rfl
  · rw [hsorted j i hj hi hlt] at hab
    cases hab

/-- Edits are applied one after the other in their order. -/
theorem applyAll_eq {source : List UInt8} {edits sorted : List Edit} {out : String} (hperm : edits.Perm sorted)
    (hsorted : sorted.Pairwise fun a b => b.before a = false)
    (hspliced : (splice source 0 sorted).map Text.decode? = .ok (some out)) : applyAll source edits = .ok out := by
  unfold applyAll
  rw [mergeSort_eq hperm hsorted]
  cases hsplice : splice source 0 sorted with
  | error fault =>
      rw [hsplice] at hspliced
      cases hspliced
  | ok bytes =>
      rw [hsplice] at hspliced
      have hdecoded := Except.ok.inj hspliced
      simp only [bind, Except.bind, hdecoded]

/-- Of two edits that are in order and apart, the first ends before the second starts. -/
theorem stop_le_iff_apart {a b : Edit} (hb : b.Proper) (h : a.before b = true) :
    a.stop ≤ b.start ↔ a.Apart b := by
  refine ⟨.inl, fun hapart => ?_⟩
  unfold before Proper Apart at *
  grind

variable {source : List UInt8}

/-- Nothing but an overlap keeps edits from being spliced. -/
theorem eq_overlap_of_splice {cursor : Nat} {edits : List Edit} {fault : EditFault}
    (h : splice source cursor edits = .error fault) : ∃ start cursor, fault = .overlap start cursor := by
  induction edits generalizing cursor with
  | nil => cases h
  | cons e edits ih =>
      rw [splice] at h
      split at h
      · cases h
        exact ⟨_, _, rfl⟩
      · cases hrest : splice source e.stop edits with
        | error fault' =>
            rw [hrest] at h
            cases h
            exact ih hrest
        | ok rest =>
            rw [hrest] at h
            cases h

theorem isOk_splice_cons (cursor : Nat) (e : Edit) (edits : List Edit) :
    (splice source cursor (e :: edits)).isOk = true ↔
      cursor ≤ e.start ∧ (splice source e.stop edits).isOk = true := by
  rw [splice, ← Nat.not_lt]
  split
  · next hlt => exact iff_of_false Bool.false_ne_true fun h => h.1 hlt
  · next hle =>
      rw [and_iff_right hle]
      cases splice source e.stop edits <;> exact Iff.rfl

/-- Edits are spliced exactly if each starts behind the end of all before it. -/
theorem isOk_splice_iff {cursor : Nat} {edits : List Edit} (hproper : ∀ e ∈ edits, e.Proper) :
    (splice source cursor edits).isOk = true ↔
      (∀ e ∈ edits, cursor ≤ e.start) ∧ edits.Pairwise fun a b => a.stop ≤ b.start := by
  induction edits generalizing cursor with
  | nil => exact iff_of_true rfl ⟨fun _ he => absurd he List.not_mem_nil, .nil⟩
  | cons e edits ih =>
      have hself := hproper e List.mem_cons_self
      rw [isOk_splice_cons, ih fun a ha => hproper a (List.mem_cons_of_mem _ ha), List.forall_mem_cons,
        List.pairwise_cons, and_assoc]
      refine and_congr_right fun hle => ⟨fun h => ⟨fun a ha => ?_, h⟩, fun h => h.2⟩
      exact Nat.le_trans hle (Nat.le_trans hself (h.1 a ha))

/-- Edits are in conflict when they are applied exactly if two of them are not apart. -/
theorem applyAll_overlap_iff (source : List UInt8) {edits : List Edit} (hproper : ∀ e ∈ edits, e.Proper) :
    (∃ start cursor, applyAll source edits = .error (.overlap start cursor)) ↔
      ¬ edits.Pairwise Apart := by
  have hperm : (edits.mergeSort before).Perm edits := List.mergeSort_perm edits before
  have hsorted : (edits.mergeSort before).Pairwise fun a b => a.before b = true :=
    List.pairwise_mergeSort before_trans before_total edits
  have hproper' : ∀ e ∈ edits.mergeSort before, e.Proper := fun e he => hproper e (hperm.mem_iff.mp he)
  have hapart : (edits.mergeSort before).Pairwise (fun a b => a.stop ≤ b.start) ↔ edits.Pairwise Apart := by
    rw [← hperm.pairwise_iff fun h => h.symm]
    refine ⟨fun h => h.imp .inl, fun h => ?_⟩
    exact (hsorted.and h).imp_of_mem fun _ hb hab => (stop_le_iff_apart (hproper' _ hb) hab.1).mpr hab.2
  have hok : (splice source 0 (edits.mergeSort before)).isOk = true ↔ edits.Pairwise Apart := by
    rw [isOk_splice_iff hproper', and_iff_right fun _ _ => Nat.zero_le _, hapart]
  rw [← hok, applyAll]
  cases hsplice : splice source 0 (edits.mergeSort before) with
  | error fault =>
      obtain ⟨start, cursor, rfl⟩ := eq_overlap_of_splice hsplice
      exact iff_of_true ⟨start, cursor, rfl⟩ Bool.false_ne_true
  | ok bytes =>
      refine iff_of_false ?_ (not_not_intro rfl)
      rintro ⟨start, cursor, h⟩
      simp only [bind, Except.bind] at h
      split at h <;> cases h

end Edit

/-! ## Statements with their lines -/

/-- A stretch with blanks around it: none before it is a line break, and the last one is one. -/
structure Widened (bytes : List UInt8) (start stop first last : Nat) : Prop where
  first_le : first ≤ start
  le_last : stop ≤ last
  within : last ≤ bytes.length
  /-- What comes first is the start of a line. -/
  line : first = start ∨ first = 0 ∨ bytes[first - 1]? = some lineBreak
  before : ∀ i, first ≤ i → i < start → ∃ b, bytes[i]? = some b ∧ isBlankByte b = true ∧ b ≠ lineBreak
  after : ∀ i, stop ≤ i → i < last → ∃ b, bytes[i]? = some b ∧ isBlankByte b = true
  ends : last = stop ∨ bytes[last - 1]? = some lineBreak

namespace Widened

variable {bytes : List UInt8}

theorem refl {start stop : Nat} (h : stop ≤ bytes.length) : Widened bytes start stop start stop where
  first_le := Nat.le_refl _
  le_last := Nat.le_refl _
  within := h
  line := .inl rfl
  before := fun _ hle hlt => absurd hlt (Nat.not_lt.mpr hle)
  after := fun _ hle hlt => absurd hlt (Nat.not_lt.mpr hle)
  ends := .inl rfl

/-- What is solid and stands before a stretch stands before the blanks around it. -/
theorem le_first {start stop first last a b : Nat} (h : Widened bytes start stop first last)
    (hsolid : SolidBytes bytes a b) (hle : b ≤ start) : b ≤ first := by
  obtain ⟨i, c, hai, hib, hc, hblank, hline⟩ := hsolid.last
  have hif : i < first := by
    refine Nat.not_le.mp fun hfi => ?_
    obtain ⟨d, hd, hdblank, -⟩ := h.before i hfi (Nat.lt_of_lt_of_le hib hle)
    rw [hc] at hd
    cases hd
    rw [hblank] at hdblank
    cases hdblank
  rcases h.line with heq | hzero | hbreak
  · exact heq ▸ hle
  · exact absurd hif (by rw [hzero]; exact Nat.not_lt_zero i)
  · refine Nat.not_lt.mp fun hfb => ?_
    have hne : i ≠ first - 1 := by
      rintro rfl
      rw [hc] at hbreak
      cases hbreak
      cases hblank
    exact hline (first - 1) (by omega) (by omega) hbreak

/-- What is solid and stands behind a stretch stands behind the blanks around it. -/
theorem last_le {start stop first last a b : Nat} (h : Widened bytes start stop first last)
    (hsolid : SolidBytes bytes a b) (hle : stop ≤ a) : last ≤ a := by
  refine Nat.not_lt.mp fun hlt => ?_
  obtain ⟨c, hc, hblank⟩ := hsolid.first
  obtain ⟨d, hd, hdblank⟩ := h.after a hle hlt
  rw [hc] at hd
  cases hd
  rw [hblank] at hdblank
  cases hdblank

/-- Two solid stretches one behind the other do not share blanks around them. -/
theorem last_le_first {start stop first last start' stop' first' last' : Nat}
    (h : Widened bytes start stop first last) (h' : Widened bytes start' stop' first' last')
    (hsolid : SolidBytes bytes start stop) (hsolid' : SolidBytes bytes start' stop')
    (hle : stop ≤ start') : last ≤ first' := by
  have hfirst := h'.le_first hsolid hle
  have hlast := h.last_le hsolid' hle
  rcases h.ends with rfl | hbreak
  · exact hfirst
  · refine Nat.not_lt.mp fun hlt => ?_
    obtain ⟨d, hd, -, hd'⟩ := h'.before (last - 1) (by omega) (by omega)
    rw [hbreak] at hd
    cases hd
    exact hd' rfl

end Widened

/-- What stands before an offset is cut where its line starts. -/
theorem exists_split_lineStart (source : List UInt8) (offset : Nat) :
    ∃ front line, source.take offset = front ++ line ∧ lineBreak ∉ line ∧
      (front = [] ∨ front.getLast? = some lineBreak) ∧ lineStart source offset = front.length := by
  have hsplit := List.takeWhile_append_dropWhile (p := (· != lineBreak)) (l := (source.take offset).reverse)
  refine ⟨((source.take offset).reverse.dropWhile (· != lineBreak)).reverse,
    ((source.take offset).reverse.takeWhile (· != lineBreak)).reverse, ?_, fun hmem => ?_, ?_, ?_⟩
  · rw [← List.reverse_append, hsplit, List.reverse_reverse]
  · have hne := List.mem_takeWhile_imp (List.mem_reverse.mp hmem)
    exact absurd hne (by decide)
  · have hhead := List.head?_dropWhile_not (· != lineBreak) (source.take offset).reverse
    rw [List.getLast?_reverse]
    cases hdrop : (source.take offset).reverse.dropWhile (· != lineBreak) with
    | nil => exact .inl rfl
    | cons b bs =>
        rw [hdrop] at hhead
        exact .inr (by simpa using hhead)
  · have hlength := congrArg List.length hsplit
    rw [List.length_append, List.length_reverse] at hlength
    rw [lineStart, List.length_reverse]
    omega

/-- The line of an offset starts with the text or behind a line break, and has no line break up to there. -/
theorem lineStart_spec (source : List UInt8) {offset : Nat} (hoffset : offset ≤ source.length) :
    lineStart source offset ≤ offset ∧
      (lineStart source offset = 0 ∨ source[lineStart source offset - 1]? = some lineBreak) ∧
      ∀ i, lineStart source offset ≤ i → i < offset → source[i]? ≠ some lineBreak := by
  obtain ⟨front, line, hsplit, hline, hfront, hstart⟩ := exists_split_lineStart source offset
  have hget : ∀ i, i < offset → source[i]? = (front ++ line)[i]? := by
    intro i hi
    rw [← hsplit, List.getElem?_take_of_lt hi]
  have hsize : front.length + line.length = offset := by
    rw [← List.length_append, ← hsplit, List.length_take_of_le hoffset]
  rw [hstart]
  refine ⟨by omega, ?_, fun i hle hlt hbreak => ?_⟩
  · rcases hfront with rfl | hlast
    · exact .inl rfl
    · by_cases hzero : front.length = 0
      · exact .inl hzero
      · right
        rw [hget _ (by omega), List.getElem?_append_left (by omega), ← List.getLast?_eq_getElem?, hlast]
  · rw [hget i hlt, List.getElem?_append_right hle] at hbreak
    exact hline (List.mem_of_getElem? hbreak)

theorem getElem?_of_lt_takeWhile {source : List UInt8} {p : UInt8 → Bool} {start i : Nat} (hle : start ≤ i)
    (hlt : i < start + ((source.drop start).takeWhile p).length) : ∃ b, source[i]? = some b ∧ p b = true := by
  obtain ⟨k, rfl⟩ := Nat.exists_eq_add_of_le hle
  have hk : k < ((source.drop start).takeWhile p).length := by omega
  have hprefix : (source.drop start).takeWhile p <+: source.drop start := List.takeWhile_prefix p
  refine ⟨_, ?_, List.mem_takeWhile_imp (List.getElem_mem hk)⟩
  rw [← List.getElem?_drop, hprefix.getElem hk]
  exact List.getElem?_eq_getElem _

theorem mem_sliceBytes {source : List UInt8} {start stop i : Nat} {b : UInt8} (hle : start ≤ i)
    (hlt : i < stop) (h : source[i]? = some b) : b ∈ Text.sliceBytes source start stop := by
  obtain ⟨k, rfl⟩ := Nat.exists_eq_add_of_le hle
  unfold Text.sliceBytes
  refine List.mem_of_getElem? (i := k) ?_
  rwa [List.getElem?_drop, List.getElem?_take_of_lt hlt]

/-- The range that is removed with a statement has nothing but blanks besides the statement. -/
theorem widened_statementRange {source : List UInt8} {start stop : Nat} (hle : start ≤ stop)
    (hstop : stop ≤ source.length) : Widened source start stop (statementRange source start stop).1
      (statementRange source start stop).2 := by
  obtain ⟨hfirst, hline, hnone⟩ := lineStart_spec source (Nat.le_trans hle hstop)
  unfold statementRange
  dsimp only
  split
  · exact .refl hstop
  next hblank =>
  have hbefore : ∀ i, lineStart source start ≤ i → i < start →
      ∃ b, source[i]? = some b ∧ isBlankByte b = true ∧ b ≠ lineBreak := by
    intro i hi hlt
    have hlength : i < source.length := by omega
    have hget : source[i]? = some source[i] := List.getElem?_eq_getElem hlength
    refine ⟨_, hget, ?_, fun hbreak => hnone i hi hlt (hbreak ▸ hget)⟩
    rw [Bool.not_eq_true, List.any_eq_false] at hblank
    simpa using hblank _ (mem_sliceBytes hi hlt hget)
  split
  · exact .refl hstop
  next b rest hdrop =>
  split
  · exact .refl hstop
  next hbreak =>
  obtain rfl : b = lineBreak := by simpa using hbreak
  -- The line ends behind blanks; what is taken along ends with its line break or the next one.
  generalize hlast : stop + ((source.drop stop).takeWhile fun b => b == 0x20 || b == 0x09).length = last
    at hdrop ⊢
  have hgap : ∀ i, stop ≤ i → i < last → ∃ b, source[i]? = some b ∧ isBlankByte b = true := by
    intro i hi hlt
    obtain ⟨b, hb, hgap⟩ := getElem?_of_lt_takeWhile hi (hlast.symm ▸ hlt)
    refine ⟨b, hb, ?_⟩
    rcases Bool.or_eq_true_iff.mp hgap with h | h <;> rw [beq_iff_eq.mp h] <;> rfl
  have hget : ∀ k, source[last + k]? = (lineBreak :: rest)[k]? := by
    intro k
    rw [← hdrop, List.getElem?_drop]
  have widened : ∀ k, (∀ j ≤ k, source[last + j]? = some lineBreak) →
      Widened source start stop (lineStart source start) (last + k + 1) := by
    intro k hbreaks
    refine ⟨hfirst, by omega, ?_, .inr hline, hbefore, fun i hi hlt => ?_, .inr (hbreaks k (Nat.le_refl k))⟩
    · exact (List.getElem?_eq_some_iff.mp (hbreaks k (Nat.le_refl k))).1
    · by_cases hgapped : i < last
      · exact hgap i hi hgapped
      · obtain ⟨j, rfl⟩ := Nat.exists_eq_add_of_le (Nat.not_lt.mp hgapped)
        exact ⟨lineBreak, hbreaks j (by omega), rfl⟩
  split
  · next hempty =>
      refine widened 1 fun j hj => ?_
      rw [Bool.and_eq_true, beq_iff_eq, List.head?_eq_getElem?] at hempty
      rcases Nat.le_one_iff_eq_zero_or_eq_one.mp hj with rfl | rfl
      · exact hget 0
      · exact (hget 1).trans hempty.1
  · refine widened 0 fun j hj => ?_
    obtain rfl := Nat.le_zero.mp hj
    exact hget 0

end Restyle.Module
