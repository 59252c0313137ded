import Restyle.Proofs.Marks
import Restyle.Style.Property

/-!
# Filled slots

Filling the only slot of a text keeps what stands around it, and normalizing a value keeps its characters,
blanks aside.  So two texts for a slot that differ in a letter give different values.
-/

namespace Restyle.Css.Slot

/-! ## Filling the only slot of a text -/

theorem piecesFrom_eq_drop (skip : Nat) (pending cs : List Char) :
    piecesFrom skip pending cs = piecesFrom 0 pending (cs.drop skip) := by
  induction cs generalizing skip with
  | nil => cases skip <;> rfl
  | cons c cs ih =>
      cases skip with
      | zero => rfl
      | succ skip => exact ih skip

theorem replaceFrom_eq_drop (old new : List Char) (skip : Nat) (cs : List Char) :
    Text.replaceFrom old new skip cs = Text.replaceFrom old new 0 (cs.drop skip) := by
  induction cs generalizing skip with
  | nil => cases skip <;> rfl
  | cons c cs ih =>
      cases skip with
      | zero => rfl
      | succ skip => exact ih skip

/-- A text does not start with a mark where none can be read. -/
theorem startsWith_mark_eq_false {cs : List Char} (h : read? cs = none) (index : Nat) :
    Text.startsWith (mark index) cs = false := by
  rw [Text.startsWith, Option.isSome_eq_false_iff, Option.isNone_iff_eq_none]
  cases hafter : Text.after? (mark index) cs with
  | none => rfl
  | some rest =>
      rw [Text.after?_eq_some hafter, read?_mark] at h
      cases h

theorem replaceFrom_of_text {pending cs front : List Char} (h : piecesFrom 0 pending cs = [.text front])
    (index : Nat) (new : List Char) :
    front = pending.reverse ++ cs ∧ Text.replaceFrom (mark index) new 0 cs = cs := by
  induction cs generalizing pending with
  | nil =>
      cases h
      exact ⟨(List.append_nil _).symm, rfl⟩
  | cons c cs ih =>
      rw [piecesFrom] at h
      cases hread : read? (c :: cs) with
      | some found =>
          rw [hread] at h
          cases h
      | none =>
          rw [hread] at h
          obtain ⟨hfront, hreplace⟩ := ih h
          refine ⟨by simp [hfront], ?_⟩
          rw [Text.replaceFrom, startsWith_mark_eq_false hread, hreplace]
          rfl

theorem replaceFrom_of_slot {pending cs before after : List Char} {index : Nat}
    (h : piecesFrom 0 pending cs = [.text before, .slot index (mark index), .text after])
    (new : List Char) :
    ∃ front, before = pending.reverse ++ front ∧
      Text.replaceFrom (mark index) new 0 cs = front ++ new ++ after := by
  induction cs generalizing pending with
  | nil => cases h
  | cons c cs ih =>
      rw [piecesFrom] at h
      cases hread : read? (c :: cs) with
      | some found =>
          obtain ⟨i, written, rest⟩ := found
          rw [hread] at h
          simp only [List.cons.injEq, Piece.text.injEq, Piece.slot.injEq] at h
          obtain ⟨rfl, ⟨rfl, rfl⟩, hafter⟩ := h
          rw [piecesFrom_eq_drop] at hafter
          obtain ⟨hrest, hreplace⟩ := replaceFrom_of_text hafter i new
          obtain ⟨-, -, -, -, -, hcs⟩ := read?_eq_some_iff.mp hread
          have hstarts : Text.startsWith (mark i) (c :: cs) = true := by
            rw [hcs, Text.startsWith, Text.after?_append]
            rfl
          refine ⟨[], (List.append_nil _).symm, ?_⟩
          rw [Text.replaceFrom, if_pos hstarts, replaceFrom_eq_drop, hreplace, hrest]
          rfl
      | none =>
          rw [hread] at h
          obtain ⟨front, hbefore, hreplace⟩ := ih h
          refine ⟨c :: front, by simp [hbefore], ?_⟩
          rw [Text.replaceFrom, startsWith_mark_eq_false hread, hreplace]
          rfl

/-- Filling the only slot of a text keeps what stands before and after it. -/
theorem toList_fill {text : String} {before after : List Char} {index : Nat}
    (h : pieces text.toList = [.text before, .slot index (mark index), .text after])
    (replacement : String) :
    (fill text index replacement).toList = before ++ replacement.toList ++ after := by
  obtain ⟨front, rfl, hreplace⟩ := replaceFrom_of_slot h replacement.toList
  have hopening : opening ≠ [] := by decide
  have hmark : (mark index).isEmpty = false := by simp [mark, hopening]
  rw [fill, Text.replace, Text.replaceAll, markText, String.toList_ofList, String.toList_ofList, hmark]
  exact hreplace

end Restyle.Css.Slot

namespace Restyle.Text

/-! ## Characters that normalizing keeps -/

theorem count_intercalate {c : Char} (h : c ≠ ' ') (texts : List (List Char)) :
    ([' '].intercalate texts).count c = texts.flatten.count c := by
  induction texts with
  | nil => rfl
  | cons text texts ih =>
      cases texts with
      | nil => simp [List.intercalate]
      | cons next texts =>
          have hcons : [' '].intercalate (text :: next :: texts) =
              text ++ ' ' :: [' '].intercalate (next :: texts) := by
            simp [List.intercalate, List.intersperse]
          rw [hcons, List.count_append, List.count_cons_of_ne h.symm, ih, ← List.count_append,
            ← List.flatten_cons]

theorem count_runsFrom {c : Char} {sep : Char → Bool} (h : sep c = false) (current cs : List Char) :
    (runsFrom sep current cs).flatten.count c = (current.reverse ++ cs).count c := by
  induction cs generalizing current with
  | nil =>
      rw [runsFrom]
      split
      · next hempty =>
          rw [List.isEmpty_iff.mp hempty]
          rfl
      · simp
  | cons d cs ih =>
      rw [runsFrom]
      split
      · next hsep =>
          have hne : d ≠ c := by
            rintro rfl
            cases h.symm.trans hsep
          split
          · next hempty => simp [ih, List.isEmpty_iff.mp hempty, List.count_cons_of_ne hne]
          · simp [ih, List.count_cons_of_ne hne]
      · simp [ih]

/-- Squeezing a text keeps its characters, blanks aside. -/
theorem count_squeeze {c : Char} (h : isBlank c = false) (s : String) :
    (squeeze s).toList.count c = s.toList.count c := by
  have hne : c ≠ ' ' := by
    rintro rfl
    cases h
  rw [toList_squeeze, count_intercalate hne]
  exact count_runsFrom h [] s.toList

/-- Trimming a text keeps its characters, blanks aside. -/
theorem count_trim {c : Char} (h : isBlank c = false) (cs : List Char) : (trim cs).count c = cs.count c := by
  have hzero : ∀ blanks : List Char, (∀ d ∈ blanks, isBlank d = true) → blanks.count c = 0 := by
    intro blanks hblanks
    refine List.count_eq_zero.mpr fun hmem => ?_
    cases h.symm.trans (hblanks c hmem)
  obtain ⟨lead, hlead, hstart⟩ := exists_trimStart cs
  obtain ⟨tail, htail, hend⟩ := exists_trimEnd (trimStart cs)
  calc (trim cs).count c
      = (trimEnd (trimStart cs) ++ tail).count c := by simp [trim, hzero tail htail]
    _ = (lead ++ trimStart cs).count c := by rw [← hend, List.count_append, hzero lead hlead, Nat.zero_add]
    _ = cs.count c := by rw [← hstart]

end Restyle.Text

namespace Restyle.Style

theorem isNumeralChar_of_mem {cs : List Char} (h : isUnsignedNumeral cs = true) {c : Char} (hc : c ∈ cs) :
    Text.isDecimal c = true ∨ c = '.' := by
  unfold isUnsignedNumeral at h
  dsimp only at h
  rw [← List.takeWhile_append_dropWhile (p := Text.isDecimal) (l := cs)] at hc
  rcases List.mem_append.mp hc with hc | hc
  · exact .inl (List.all_eq_true.mp List.all_takeWhile c hc)
  · split at h
    · next hnil =>
        rw [hnil] at hc
        cases hc
    · next fraction hdot =>
        rw [hdot] at hc
        simp only [Bool.and_eq_true, List.all_eq_true] at h
        rcases List.mem_cons.mp hc with rfl | hc
        · exact .inr rfl
        · exact .inl (h.1 c hc)
    · cases h

/-- A character that stands in no number. -/
structure NotNumeral (c : Char) : Prop where
  blank : Text.isBlank c = false
  decimal : Text.isDecimal c = false
  point : c ≠ '.'
  minus : c ≠ '-'

theorem notNumeral_u : NotNumeral 'u' :=
  ⟨by decide, by decide, by decide, by decide⟩

/-- A text with a character of no number is no number. -/
theorem isNumber_eq_false_of_mem {text : String} {c : Char} (hc : NotNumeral c) (h : c ∈ text.toList) :
    isNumber text = false := by
  have hmem : c ∈ Text.trim text.toList := by
    rw [← List.count_pos_iff, Text.count_trim hc.blank]
    exact List.count_pos_iff.mpr h
  have hnumeral : ∀ cs : List Char, c ∈ cs → isUnsignedNumeral cs = false := by
    intro cs hcs
    refine Bool.eq_false_iff.mpr fun hnumeral => ?_
    rcases isNumeralChar_of_mem hnumeral hcs with hdecimal | hdot
    · cases hc.decimal.symm.trans hdecimal
    · exact hc.point hdot
  unfold isNumber
  split
  · next cs heq =>
      rw [heq] at hmem
      exact hnumeral cs (List.mem_of_ne_of_mem hc.minus hmem)
  · exact hnumeral _ hmem

theorem isNumber_squeeze_of_mem {raw : String} {c : Char} (hc : NotNumeral c) (h : c ∈ raw.toList) :
    isNumber (Text.squeeze raw) = false := by
  refine isNumber_eq_false_of_mem hc ?_
  rw [← List.count_pos_iff, Text.count_squeeze hc.blank]
  exact List.count_pos_iff.mpr h

/-- The quotes of a `content` value are all that is added to it. -/
theorem count_quoteContent {c : Char} (hblank : Text.isBlank c = false) (hquote : c ≠ '"') (value : String) :
    (quoteContent value).toList.count c = value.toList.count c := by
  have hstrip : (Text.strip value).toList.count c = value.toList.count c := by
    rw [Text.strip, String.toList_ofList, Text.count_trim hblank]
  have hnone : "\"".toList.count c = 0 := List.count_eq_zero.mpr (by simpa using hquote)
  rw [← hstrip]
  unfold quoteContent
  dsimp only
  split
  · next hnil =>
      rw [hnil]
      exact List.count_eq_zero.mpr (by simpa using hquote)
  · split
    · rfl
    · split
      · rfl
      · rw [String.toList_append, String.toList_append, List.count_append, List.count_append, hnone]
        simp

/-- A value with the letter `u` stays a text, and keeps its characters. -/
theorem exists_normalizeValue {raw : String} (h : 'u' ∈ raw.toList) (property : String) :
    ∃ s, normalizeValue property raw = .text s ∧ s.toList.count 'T' = raw.toList.count 'T' := by
  have hsqueeze : (Text.squeeze raw).toList.count 'T' = raw.toList.count 'T' :=
    Text.count_squeeze (by decide) raw
  unfold normalizeValue
  dsimp only
  split
  · exact ⟨_, rfl, (count_quoteContent (by decide) (by decide) _).trans hsqueeze⟩
  · rw [isNumber_squeeze_of_mem notNumeral_u h]
    exact ⟨_, rfl, hsqueeze⟩

/-- The two spellings of a truth value give different values, whatever stands around them. -/
theorem normalizeValue_spelled_true_ne (property : String) (before after : List Char) :
    normalizeValue property (String.ofList (before ++ "True".toList ++ after)) ≠
      normalizeValue property (String.ofList (before ++ "true".toList ++ after)) := by
  have hu : ∀ word : String, 'u' ∈ word.toList →
      'u' ∈ (String.ofList (before ++ word.toList ++ after)).toList := by
    intro word hword
    rw [String.toList_ofList]
    simp [hword]
  obtain ⟨s, hs, hcount⟩ := exists_normalizeValue (hu "True" (by decide)) property
  obtain ⟨s', hs', hcount'⟩ := exists_normalizeValue (hu "true" (by decide)) property
  rw [hs, hs']
  rintro ⟨⟩
  have hone : "True".toList.count 'T' = 1 := by decide
  have hzero : "true".toList.count 'T' = 0 := by decide
  have hcounts := hcount.symm.trans hcount'
  simp only [String.toList_ofList, List.count_append, hone, hzero] at hcounts
  omega

end Restyle.Style
