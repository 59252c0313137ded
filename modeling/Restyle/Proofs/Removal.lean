import Restyle.Proofs.Edits

/-!
# Statements that are removed with their lines

A statement that has its lines for itself is removed together with them, and with an empty line behind it if
one stands before it as well; every other statement is removed alone.  What is taken along is blank, and the
ranges that are removed with two statements are apart if the statements are.
-/

namespace Restyle.Module

open Restyle.Text (isBlankByte lineBreak)

/-- A range of bytes that neither starts nor ends with a blank. -/
structure Trimmed (bytes : List UInt8) (start stop : Nat) : Prop where
  lt : start < stop
  first : ∃ b, bytes[start]? = some b ∧ isBlankByte b = false
  last : ∃ b, bytes[stop - 1]? = some b ∧ isBlankByte b = false

/-- Nothing but blanks stands before a range on its line, and nothing but spaces and tabs behind it. -/
structure OwnsLines (bytes : List UInt8) (start stop : Nat) : Prop where
  before : ∀ i, lineStart bytes start ≤ i → i < start → ∃ b, bytes[i]? = some b ∧ isBlankByte b = true
  after : ∃ last, stop ≤ last ∧ bytes[last]? = some lineBreak ∧
    ∀ i, stop ≤ i → i < last → bytes[i]? = some 0x20 ∨ bytes[i]? = some 0x09

variable {source : List UInt8} {start stop : Nat}

theorem Trimmed.le_length (h : Trimmed source start stop) : stop ≤ source.length := by
  obtain ⟨b, hb, -⟩ := h.last
  have hlast := (List.getElem?_eq_some_iff.mp hb).1
  have hlt := h.lt
  omega

theorem Trimmed.solid (h : Trimmed source start stop) : SolidBytes source start stop where
  within := h.le_length
  first := h.first
  last := by
    obtain ⟨b, hb, hblank⟩ := h.last
    have hlt := h.lt
    exact ⟨stop - 1, b, by omega, by omega, hb, hblank, fun j hj hj' => by omega⟩

theorem Trimmed.widened (h : Trimmed source start stop) : Widened source start stop
    (statementRange source start stop).1 (statementRange source start stop).2 :=
  widened_statementRange (Nat.le_of_lt h.lt) h.le_length

/-! ## Lines of their own -/

theorem exists_of_mem_sliceBytes {b : UInt8} (h : b ∈ Text.sliceBytes source start stop) :
    ∃ i, start ≤ i ∧ i < stop ∧ source[i]? = some b := by
  obtain ⟨k, hk⟩ := List.getElem?_of_mem h
  rw [Text.sliceBytes, List.getElem?_drop, List.getElem?_take] at hk
  split at hk
  · next hlt => exact ⟨start + k, Nat.le_add_right start k, hlt, hk⟩
  · cases hk

/-- The spaces and tabs behind an offset end at the first other byte. -/
theorem length_gap {last : Nat} (hle : stop ≤ last) (hlast : source[last]? = some lineBreak)
    (hgap : ∀ i, stop ≤ i → i < last → source[i]? = some 0x20 ∨ source[i]? = some 0x09) :
    stop + ((source.drop stop).takeWhile fun b => b == 0x20 || b == 0x09).length = last := by
  obtain ⟨n, rfl⟩ := Nat.exists_eq_add_of_le hle
  induction n generalizing stop with
  | zero =>
      rw [Nat.add_zero] at hlast
      obtain ⟨hlt, hget⟩ := List.getElem?_eq_some_iff.mp hlast
      rw [List.drop_eq_getElem_cons hlt, hget, List.takeWhile_cons_of_neg (by decide)]
      rfl
  | succ n ih =>
      obtain ⟨b, hb, hblank⟩ : ∃ b, source[stop]? = some b ∧ (b == 0x20 || b == 0x09) = true := by
        rcases hgap stop (Nat.le_refl stop) (by omega) with h | h <;> exact ⟨_, h, rfl⟩
      obtain ⟨hlt, hget⟩ := List.getElem?_eq_some_iff.mp hb
      have hrest : stop + 1 + ((source.drop (stop + 1)).takeWhile fun b => b == 0x20 || b == 0x09).length =
          stop + 1 + n :=
        ih (by omega) (by rwa [Nat.add_right_comm]) fun i hi hi' => hgap i (by omega) (by omega)
      rw [List.drop_eq_getElem_cons hlt, hget,
        List.takeWhile_cons_of_pos (p := fun b => b == 0x20 || b == 0x09) hblank, List.length_cons]
      omega

/-- A range with lines of its own is widened to them. -/
theorem statementRange_of_ownsLines (h : OwnsLines source start stop) :
    (statementRange source start stop).1 = lineStart source start ∧ stop < (statementRange source start stop).2 := by
  obtain ⟨last, hle, hlast, hgap⟩ := h.after
  have hblank : (Text.sliceBytes source (lineStart source start) start).any (fun b => !isBlankByte b) = false := by
    rw [List.any_eq_false]
    intro b hb
    obtain ⟨i, hi, hi', hget⟩ := exists_of_mem_sliceBytes hb
    obtain ⟨c, hc, hcblank⟩ := h.before i hi hi'
    cases hget.symm.trans hc
    rw [hcblank]
    exact Bool.false_ne_true
  obtain ⟨hlt, hbreak⟩ := List.getElem?_eq_some_iff.mp hlast
  unfold statementRange
  dsimp only
  rw [hblank, if_neg Bool.false_ne_true, length_gap hle hlast hgap, List.drop_eq_getElem_cons hlt, hbreak]
  dsimp only
  rw [if_neg (by decide)]
  split
  · exact ⟨rfl, by dsimp only; omega⟩
  · exact ⟨rfl, by dsimp only; omega⟩

/-- A range is widened only if it has lines of its own. -/
theorem ownsLines_of_statementRange (hle : start ≤ stop) (hstop : stop ≤ source.length)
    (h : statementRange source start stop ≠ (start, stop)) : OwnsLines source start stop := by
  unfold statementRange at h
  dsimp only at h
  split at h
  · exact absurd rfl h
  next hblank =>
  split at h
  · exact absurd rfl h
  next b rest hdrop =>
  split at h
  · exact absurd rfl h
  next hbreak =>
  obtain rfl : b = lineBreak := by simpa using hbreak
  refine ⟨fun i hi hi' => ?_, stop + ((source.drop stop).takeWhile fun b => b == 0x20 || b == 0x09).length,
    Nat.le_add_right _ _, ?_, fun i hi hi' => ?_⟩
  · have hget : source[i]? = some source[i] := List.getElem?_eq_getElem (by omega)
    refine ⟨_, hget, ?_⟩
    rw [Bool.not_eq_true, List.any_eq_false] at hblank
    simpa using hblank _ (mem_sliceBytes hi hi' hget)
  · rw [← Nat.add_zero (stop + _), ← List.getElem?_drop, hdrop]
    rfl
  · obtain ⟨b, hb, hgap⟩ := getElem?_of_lt_takeWhile hi hi'
    rw [hb]
    exact (Bool.or_eq_true_iff.mp hgap).imp (fun h => congrArg some (beq_iff_eq.mp h))
      fun h => congrArg some (beq_iff_eq.mp h)

/-! ## Ranges that are removed -/

/--
The range that is removed with a statement has the statement in it, and blanks besides: its lines with the break
at their end if the statement has lines of its own, and nothing else if it has none.  It is apart from the range
of every statement that stands behind.
-/
theorem statementRange_keepsApart (h : Trimmed source start stop) :
    (statementRange source start stop).1 ≤ start ∧ stop ≤ (statementRange source start stop).2 ∧
      (statementRange source start stop).2 ≤ source.length ∧
      (∀ i, (statementRange source start stop).1 ≤ i → i < (statementRange source start stop).2 →
        i < start ∨ stop ≤ i → ∃ b, source[i]? = some b ∧ isBlankByte b = true) ∧
      (OwnsLines source start stop → (statementRange source start stop).1 = lineStart source start ∧
        stop < (statementRange source start stop).2 ∧
        source[(statementRange source start stop).2 - 1]? = some lineBreak) ∧
      (¬ OwnsLines source start stop → statementRange source start stop = (start, stop)) ∧
      ∀ start' stop', Trimmed source start' stop' → stop ≤ start' →
        (statementRange source start stop).2 ≤ (statementRange source start' stop').1 := by
  have hwidened := h.widened
  refine ⟨hwidened.first_le, hwidened.le_last, hwidened.within, fun i hi hi' hout => ?_, fun howns => ?_,
    fun hnone => ?_, fun start' stop' h' hle => ?_⟩
  · rcases hout with hout | hout
    · obtain ⟨b, hb, hblank, -⟩ := hwidened.before i hi hout
      exact ⟨b, hb, hblank⟩
    · exact hwidened.after i hout hi'
  · obtain ⟨hfirst, hlast⟩ := statementRange_of_ownsLines howns
    exact ⟨hfirst, hlast, hwidened.ends.resolve_left (Nat.ne_of_gt hlast)⟩
  · exact Classical.not_not.mp fun hne =>
      hnone (ownsLines_of_statementRange (Nat.le_of_lt h.lt) h.le_length hne)
  · exact hwidened.last_le_first h'.widened h.solid h'.solid hle

/-- Two statements between empty lines; the second one ends its line with a comment of its own. -/
def sampleLines : List UInt8 := Text.encode "\n  a;\t\n\nb; c\n"

/-- The first statement takes its line and the empty one behind it along, and the second one nothing. -/
theorem statementRange_sampleLines : Trimmed sampleLines 3 5 ∧ Trimmed sampleLines 8 10 ∧
    statementRange sampleLines 3 5 = (1, 7) ∧ statementRange sampleLines 8 10 = (8, 10) ∧
    (statementRange sampleLines 3 5).2 ≤ (statementRange sampleLines 8 10).1 := by
  have hfirst : Trimmed sampleLines 3 5 := by
    refine ⟨by decide, ⟨0x61, by decide +kernel, by decide⟩, ⟨0x3B, by decide +kernel, by decide⟩⟩
  have hsecond : Trimmed sampleLines 8 10 := by
    refine ⟨by decide, ⟨0x62, by decide +kernel, by decide⟩, ⟨0x3B, by decide +kernel, by decide⟩⟩
  obtain ⟨-, -, -, -, -, -, hbehind⟩ := statementRange_keepsApart hfirst
  exact ⟨hfirst, hsecond, by decide +kernel, by decide +kernel, hbehind 8 10 hsecond (by decide)⟩

end Restyle.Module
