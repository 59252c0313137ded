import Restyle.Css.Slot
import Mathlib.Data.List.Infix

/-!
# Slot marks in texts

Reading a text from left to right, a slot mark is recognized by its own characters alone.  So the slots of
a text are those of its parts wherever it is cut at a sign, a character that no mark contains; and a text
that is joined from segments has its slots in order if no segment holds the opening of a mark.
-/

namespace Restyle.Text

theorem after?_append_cons {lead cs : List Char} {c : Char} (h : c ∉ lead) (rest : List Char) :
    after? lead (cs ++ c :: rest) = (after? lead cs).map (· ++ c :: rest) := by
  induction lead generalizing cs with
  | nil => rfl
  | cons l lead ih =>
      have hl : c ≠ l := fun heq => h (heq ▸ List.mem_cons_self)
      have hlead : c ∉ lead := fun hmem => h (List.mem_cons_of_mem l hmem)
      cases cs with
      | nil => simp [after?, Ne.symm hl]
      | cons d cs =>
          rw [List.cons_append, after?, after?]
          split
          · exact ih hlead
          · rfl

theorem occurs_of_isInfix {needle cs : List Char} (hne : needle ≠ []) (h : needle <:+: cs) :
    occurs needle cs = true := by
  rw [occurs]
  induction cs with
  | nil => exact absurd (List.infix_nil.mp h) hne
  | cons c cs ih =>
      rw [cut?]
      split
      · rfl
      · next hnone =>
          rcases List.infix_cons_iff.mp h with ⟨rest, hrest⟩ | htail
          · rw [← hrest, after?_append] at hnone
            cases hnone
          · rw [Option.isSome_map]
            exact ih htail

theorem exists_trimStart (cs : List Char) :
    ∃ blanks, (∀ c ∈ blanks, isBlank c = true) ∧ cs = blanks ++ trimStart cs :=
  ⟨cs.takeWhile isBlank, List.all_eq_true.mp List.all_takeWhile, List.takeWhile_append_dropWhile.symm⟩

theorem exists_trimEnd (cs : List Char) :
    ∃ blanks, (∀ c ∈ blanks, isBlank c = true) ∧ cs = trimEnd cs ++ blanks := by
  obtain ⟨blanks, hblanks, hcs⟩ := exists_trimStart cs.reverse
  refine ⟨blanks.reverse, fun c hc => hblanks c (List.mem_reverse.mp hc), ?_⟩
  rw [trimEnd, ← List.reverse_append, ← hcs, List.reverse_reverse]

theorem trimStart_suffix (cs : List Char) : trimStart cs <:+ cs :=
  List.dropWhile_suffix isBlank

theorem isPrefix_trimEnd (cs : List Char) : trimEnd cs <+: cs := by
  rw [trimEnd, ← List.reverse_suffix, List.reverse_reverse]
  exact trimStart_suffix cs.reverse

theorem trim_infix (cs : List Char) : trim cs <:+: cs :=
  (isPrefix_trimEnd _).isInfix.trans (trimStart_suffix cs).isInfix

theorem toList_intercalate_ofList (texts : List (List Char)) :
    (" ".intercalate (texts.map String.ofList)).toList = [' '].intercalate texts := by
  rw [String.toList_intercalate, List.map_map]
  simp [Function.comp_def, String.toList_ofList]

theorem toList_squeeze (s : String) : (squeeze s).toList = [' '].intercalate (words s.toList) :=
  toList_intercalate_ofList (words s.toList)

/-! ## Case forms of characters -/

theorem ofNat_ne {n : Nat} {d : Char} (h : d.toNat < n) (hzero : d ≠ Char.ofNat 0) : Char.ofNat n ≠ d := by
  rintro rfl
  by_cases hvalid : n.isValidChar
  · have hvalue : (Char.ofNat n).toNat = n := by
      rw [Char.ofNat, dif_pos hvalid]
      rfl
    omega
  · exact hzero (by rw [Char.ofNat, dif_neg hvalid]; rfl)

theorem lt_shiftBy {table : Array (Nat × Nat × Nat × Int)} {bound : Nat}
    (htable : ∀ row ∈ table, (bound : Int) < row.1 + row.2.2.2) {n : Nat} (hn : bound < n) :
    bound < shiftBy table n := by
  unfold shiftBy
  split
  · next lo hi step distance hfind =>
      have hrow := htable _ (Array.mem_of_find?_eq_some hfind)
      have hle := Array.find?_some hfind
      simp only [Bool.and_eq_true, decide_eq_true_eq] at hle hrow
      omega
  · exact hn

/-- A shifted range lies above a bound, decided on natural numbers. -/
theorem lt_of_all_shifts {table : Array (Nat × Nat × Nat × Int)} {bound : Nat}
    (h : table.toList.all (fun row => Nat.blt bound (row.1 + row.2.2.2).toNat) = true) :
    ∀ row ∈ table, (bound : Int) < row.1 + row.2.2.2 := by
  intro row hrow
  have habove := List.all_eq_true.mp h row (Array.mem_toList_iff.mpr hrow)
  rw [Nat.blt_eq] at habove
  exact Int.lt_toNat.mp habove

theorem lt_lowerShifts : ∀ row ∈ lowerShifts, ((90 : Nat) : Int) < row.1 + row.2.2.2 :=
  lt_of_all_shifts (by decide)

theorem not_isAsciiUpper_ofNat {n : Nat} (h : 90 < n) : isAsciiUpper (Char.ofNat n) = false := by
  by_cases hupper : isAsciiUpper (Char.ofNat n) = true
  · have hZ : (Char.ofNat n).toNat ≤ 'Z'.toNat := (Bool.and_eq_true_iff.mp hupper).2 |> of_decide_eq_true
    have hA : 'A'.toNat ≤ (Char.ofNat n).toNat := (Bool.and_eq_true_iff.mp hupper).1 |> of_decide_eq_true
    have hZvalue : 'Z'.toNat = 90 := by decide
    have hne : Char.ofNat n ≠ Char.ofNat n :=
      ofNat_ne (by omega) (fun hzero => absurd (hzero ▸ hA) (by decide))
    exact absurd rfl hne
  · exact Bool.eq_false_iff.mpr hupper

theorem not_isAsciiUpper_of_mem_lowerChar {c d : Char} (h : d ∈ lowerChar c) : isAsciiUpper d = false := by
  unfold lowerChar at h
  split at h
  · rw [List.mem_singleton.mp h]
    split
    · next hupper =>
        have hA : 'A'.toNat ≤ c.toNat := (Bool.and_eq_true_iff.mp hupper).1 |> of_decide_eq_true
        have hvalue : 'A'.toNat = 65 := by decide
        exact not_isAsciiUpper_ofNat (by omega)
    · next hupper => exact Bool.eq_false_iff.mpr hupper
  · split at h
    · have hall : [Char.ofNat 0x69, Char.ofNat 0x307].all (fun e => !isAsciiUpper e) = true := by decide
      simpa using List.all_eq_true.mp hall d h
    · rw [List.mem_singleton.mp h]
      exact not_isAsciiUpper_ofNat (lt_shiftBy lt_lowerShifts (by omega))

/-- Lowercase texts have no ASCII capitals. -/
theorem not_isAsciiUpper_of_mem_lower {s : String} {d : Char} (h : d ∈ (lower s).toList) :
    isAsciiUpper d = false := by
  rw [lower, String.toList_ofList] at h
  generalize [] = before at h
  generalize s.toList = cs at h
  induction cs generalizing before with
  | nil => cases h
  | cons c cs ih =>
      rcases List.mem_append.mp h with h | h
      · split at h
        · rw [List.mem_singleton.mp h]
          decide
        · exact not_isAsciiUpper_of_mem_lowerChar h
      · exact ih _ h

end Restyle.Text

namespace Restyle.Css.Slot

/-! ## Reading one mark -/

/-- The characters that a mark may be made of. -/
def isMarkChar (c : Char) : Bool :=
  opening.contains c || Text.isDecimal c

theorem not_isDecimal_underscore : Text.isDecimal '_' = false := by decide

theorem mem_opening_of_mem_closing {c : Char} (h : c ∈ closing) : c ∈ opening := by
  have hall : closing.all (fun d => opening.contains d) = true := by decide
  simpa using List.all_eq_true.mp hall c h

theorem not_mem_of_not_isMarkChar {c : Char} (h : isMarkChar c = false) :
    c ∉ opening ∧ c ∉ closing ∧ Text.isDecimal c = false := by
  obtain ⟨hopening, hdecimal⟩ := Bool.or_eq_false_iff.mp h
  have hnot : c ∉ opening := by simpa using hopening
  exact ⟨hnot, fun hc => hnot (mem_opening_of_mem_closing hc), hdecimal⟩

/-- What a successful reading has read. -/
theorem read?_eq_some_iff {cs : List Char} {index : Nat} {written rest : List Char} :
    read? cs = some (index, written, rest) ↔
      ∃ digits, digits ≠ [] ∧ (∀ c ∈ digits, Text.isDecimal c = true) ∧
        index = Text.decimalNat digits ∧ written = opening ++ digits ++ closing ∧ cs = written ++ rest := by
  constructor
  · intro h
    simp only [read?, Option.bind_eq_bind, Option.bind_eq_some_iff] at h
    obtain ⟨tail, htail, h⟩ := h
    split at h
    · cases h
    · next hdigits =>
        obtain ⟨more, hmore, h⟩ := Option.bind_eq_some_iff.mp h
        cases h
        refine ⟨tail.takeWhile Text.isDecimal, ?_, fun c hc => ?_, rfl, rfl, ?_⟩
        · simpa using hdigits
        · exact List.all_eq_true.mp List.all_takeWhile c hc
        · rw [Text.after?_eq_some htail, List.append_assoc, List.append_assoc,
            ← Text.after?_eq_some hmore, List.takeWhile_append_dropWhile]
  · rintro ⟨digits, hne, hdigits, rfl, rfl, rfl⟩
    have htake : (digits ++ (closing ++ rest)).takeWhile Text.isDecimal = digits := by
      rw [List.takeWhile_append_of_pos hdigits]
      simp [closing, not_isDecimal_underscore]
    have hdrop : (digits ++ (closing ++ rest)).dropWhile Text.isDecimal = closing ++ rest := by
      rw [List.dropWhile_append_of_pos hdigits]
      simp [closing, not_isDecimal_underscore]
    have hdigitsNe : digits.isEmpty = false := List.isEmpty_eq_false_iff.mpr hne
    simp only [read?, List.append_assoc, Text.after?_append, Option.bind_eq_bind, Option.bind_some, htake,
      hdrop, hdigitsNe, Bool.false_eq_true, if_false]
    rfl

theorem read?_append {cs : List Char} {index : Nat} {written rest : List Char}
    (h : read? cs = some (index, written, rest)) (more : List Char) :
    read? (cs ++ more) = some (index, written, rest ++ more) := by
  rw [read?_eq_some_iff] at h ⊢
  obtain ⟨digits, hne, hdigits, hindex, hwritten, rfl⟩ := h
  exact ⟨digits, hne, hdigits, hindex, hwritten, List.append_assoc ..⟩

theorem read?_rest_length {cs : List Char} {index : Nat} {written rest : List Char}
    (h : read? cs = some (index, written, rest)) : rest.length < cs.length := by
  obtain ⟨digits, -, -, -, rfl, rfl⟩ := read?_eq_some_iff.mp h
  rw [List.append_assoc, List.append_assoc, List.length_append, List.length_append, List.length_append]
  have hopening : 0 < opening.length := by decide
  omega

/-- A reading does not look beyond a sign. -/
theorem read?_append_sign {c : Char} (h : isMarkChar c = false) (cs rest : List Char) :
    read? (cs ++ c :: rest) =
      (read? cs).map fun (index, written, more) => (index, written, more ++ c :: rest) := by
  obtain ⟨hopening, hclosing, hdecimal⟩ := not_mem_of_not_isMarkChar h
  have htake : ∀ tail : List Char, (tail ++ c :: rest).takeWhile Text.isDecimal =
      tail.takeWhile Text.isDecimal := by
    intro tail
    rw [List.takeWhile_append]
    split
    · next hall => simp [hdecimal, (List.takeWhile_prefix _).eq_of_length hall]
    · rfl
  have hdrop : ∀ tail : List Char, (tail ++ c :: rest).dropWhile Text.isDecimal =
      tail.dropWhile Text.isDecimal ++ c :: rest := by
    intro tail
    rw [List.dropWhile_append]
    split
    · next hnil => simp [hdecimal, List.isEmpty_iff.mp hnil]
    · rfl
  simp only [read?, Text.after?_append_cons hopening, Option.bind_eq_bind]
  cases Text.after? opening cs with
  | none => rfl
  | some tail =>
      simp only [Option.map_some, Option.bind_some, htake, hdrop, Text.after?_append_cons hclosing]
      split
      · rfl
      · cases Text.after? closing (tail.dropWhile Text.isDecimal) <;> rfl

/-! ## The slots of a text -/

/-- The slots of a text; `skip` counts the characters of a mark that has been read. -/
def slotsFrom : Nat → List Char → List Nat
  | _, [] => []
  | skip + 1, _ :: cs => slotsFrom skip cs
  | 0, c :: cs =>
    match read? (c :: cs) with
    | some (index, written, _) => index :: slotsFrom (written.length - 1) cs
    | none => slotsFrom 0 cs

/-- The slots of a text in order. -/
def slotsIn (cs : List Char) : List Nat :=
  slotsFrom 0 cs

theorem filterMap_piecesFrom (skip : Nat) (pending cs : List Char) :
    (piecesFrom skip pending cs).filterMap Piece.index? = slotsFrom skip cs := by
  induction cs generalizing skip pending with
  | nil => rfl
  | cons c cs ih =>
      cases skip with
      | succ skip => exact ih skip pending
      | zero =>
          rw [piecesFrom, slotsFrom]
          cases read? (c :: cs) with
          | none => exact ih 0 (c :: pending)
          | some found => exact congrArg (found.1 :: ·) (ih _ [])

theorem indices_eq (s : String) : indices s = slotsIn s.toList :=
  filterMap_piecesFrom 0 [] s.toList

theorem slotsFrom_eq_drop (skip : Nat) (cs : List Char) : slotsFrom skip cs = slotsIn (cs.drop skip) := by
  induction cs generalizing skip with
  | nil => cases skip <;> rfl
  | cons c cs ih =>
      cases skip with
      | zero => rfl
      | succ skip => exact ih skip

@[simp] theorem slotsIn_nil : slotsIn [] = [] := rfl

theorem slotsIn_of_read? {cs : List Char} {index : Nat} {written rest : List Char}
    (h : read? cs = some (index, written, rest)) : slotsIn cs = index :: slotsIn rest := by
  cases cs with
  | nil => cases h
  | cons c cs =>
      obtain ⟨digits, -, -, -, hwritten, happend⟩ := read?_eq_some_iff.mp h
      have hdrop : cs.drop (written.length - 1) = rest := by
        cases hw : written with
        | nil =>
            rw [hw] at hwritten
            cases hwritten
        | cons w ws =>
            rw [hw, List.cons_append] at happend
            rw [(List.cons.inj happend).2]
            simp
      rw [slotsIn, slotsFrom, h]
      dsimp only
      rw [slotsFrom_eq_drop, hdrop]

theorem slotsIn_cons_of_read?_eq_none {c : Char} {cs : List Char} (h : read? (c :: cs) = none) :
    slotsIn (c :: cs) = slotsIn cs := by
  rw [slotsIn, slotsFrom, h]
  rfl

/-- A sign cuts the slots of a text. -/
theorem slotsIn_append_sign {c : Char} (h : isMarkChar c = false) (cs rest : List Char) :
    slotsIn (cs ++ c :: rest) = slotsIn cs ++ slotsIn rest := by
  -- by induction on the length: after a mark the reading goes on behind it
  induction hn : cs.length using Nat.strong_induction_on generalizing cs with
  | _ n ih =>
      subst hn
      have hread := read?_append_sign h cs rest
      cases cs with
      | nil => exact slotsIn_cons_of_read?_eq_none hread
      | cons d cs =>
          cases hcs : read? (d :: cs) with
          | none =>
              rw [hcs, List.cons_append] at hread
              rw [List.cons_append, slotsIn_cons_of_read?_eq_none hread, slotsIn_cons_of_read?_eq_none hcs]
              exact ih cs.length (Nat.lt_succ_self _) cs rfl
          | some found =>
              obtain ⟨index, written, more⟩ := found
              rw [hcs] at hread
              rw [slotsIn_of_read? hread, slotsIn_of_read? hcs, List.cons_append]
              exact congrArg (index :: ·) (ih more.length (read?_rest_length hcs) more rfl)

theorem slotsIn_cons_sign {c : Char} (h : isMarkChar c = false) (cs : List Char) :
    slotsIn (c :: cs) = slotsIn cs :=
  slotsIn_append_sign h [] cs

/-- A text has no slots exactly if no mark can be read anywhere in it. -/
theorem slotsIn_eq_nil_iff (cs : List Char) :
    slotsIn cs = [] ↔ ∀ tail, tail <:+ cs → read? tail = none := by
  induction cs with
  | nil =>
      refine iff_of_true rfl fun tail htail => ?_
      rw [List.suffix_nil.mp htail]
      rfl
  | cons c cs ih =>
      cases hread : read? (c :: cs) with
      | some found =>
          rw [slotsIn_of_read? hread]
          refine iff_of_false (List.cons_ne_nil _ _) fun hall => ?_
          cases (hall (c :: cs) List.suffix_rfl).symm.trans hread
      | none =>
          rw [slotsIn_cons_of_read?_eq_none hread, ih]
          constructor
          · intro hall tail htail
            rcases List.suffix_cons_iff.mp htail with rfl | htail
            · exact hread
            · exact hall tail htail
          · exact fun hall tail htail => hall tail (htail.trans (List.suffix_cons c cs))

/-- The parts of a text without slots have none. -/
theorem slotsIn_eq_nil_of_isInfix {part cs : List Char} (hpart : part <:+: cs) (h : slotsIn cs = []) :
    slotsIn part = [] := by
  rw [slotsIn_eq_nil_iff] at h ⊢
  intro tail htail
  obtain ⟨before, after, rfl⟩ := hpart
  obtain ⟨front, rfl⟩ := htail
  cases hread : read? tail with
  | none => rfl
  | some found =>
      have hnone := h (tail ++ after) ⟨before ++ front, by simp⟩
      cases hnone.symm.trans (read?_append hread after)

theorem present_eq_false_iff (s : String) : present s = false ↔ slotsIn s.toList = [] := by
  rw [present, indices_eq, Bool.not_eq_false', List.isEmpty_iff]

/-- A text without slots is no slot. -/
theorem isWhole_eq_false_of_not_present {s : String} (h : present s = false) : isWhole s = false := by
  rw [present_eq_false_iff] at h
  have htrim := (slotsIn_eq_nil_iff _).mp (slotsIn_eq_nil_of_isInfix (Text.trim_infix _) h) _ List.suffix_rfl
  rw [isWhole, htrim]

/-! ## Signs -/

/-- The signs that the reader of style sheets looks at. -/
def sheetSigns : List Char :=
  [' ', '\n', '\t', '{', '}', ';', ':', ',', '/', '>', '+', '~']

theorem not_isMarkChar_of_mem_sheetSigns {c : Char} (h : c ∈ sheetSigns) : isMarkChar c = false := by
  have hall : sheetSigns.all (fun c => !isMarkChar c) = true := by decide
  simpa using List.all_eq_true.mp hall c h

/-- Blanks are signs. -/
theorem not_isMarkChar_of_isBlank {c : Char} (h : Text.isBlank c = true) : isMarkChar c = false := by
  have hmem : c.toNat ∈ List.range' 0x09 5 ++ List.range' 0x1C 5 ++ List.range' 0x2000 11 ++
      [0x85, 0xA0, 0x1680, 0x2028, 0x2029, 0x202F, 0x205F, 0x3000] := by
    simp only [Text.isBlank, Bool.or_eq_true, Bool.and_eq_true, beq_iff_eq, decide_eq_true_eq] at h
    simp only [List.mem_append, List.mem_range'_1, List.mem_cons, List.not_mem_nil, or_false]
    omega
  have hall : ∀ n ∈ List.range' 0x09 5 ++ List.range' 0x1C 5 ++ List.range' 0x2000 11 ++
      [0x85, 0xA0, 0x1680, 0x2028, 0x2029, 0x202F, 0x205F, 0x3000],
      isMarkChar (Char.ofNat n) = false := by decide +kernel
  have hc := hall c.toNat hmem
  rwa [Char.ofNat_toNat] at hc

/-! ## Cutting and joining texts -/

/-- A text may be cut where a sign stands on one side, or nothing. -/
def Cut (before after : List Char) : Prop :=
  before = [] ∨ after = [] ∨ (∃ front c, before = front ++ [c] ∧ isMarkChar c = false) ∨
    ∃ c rest, after = c :: rest ∧ isMarkChar c = false

/-- The slots of a text that is cut are those of its parts. -/
theorem Cut.slotsIn_append {before after : List Char} (h : Cut before after) :
    slotsIn (before ++ after) = slotsIn before ++ slotsIn after := by
  rcases h with rfl | rfl | ⟨front, c, rfl, hc⟩ | ⟨c, rest, rfl, hc⟩
  · rfl
  · rw [List.append_nil, slotsIn_nil, List.append_nil]
  · rw [List.append_assoc, List.singleton_append, slotsIn_append_sign hc, slotsIn_append_sign hc,
      slotsIn_nil, List.append_nil]
  · rw [slotsIn_append_sign hc, slotsIn_cons_sign hc]

theorem Cut.append_left {before after : List Char} (h : Cut before after) (hne : before ≠ [])
    (front : List Char) : Cut (front ++ before) after := by
  rcases h with h | h | ⟨middle, c, rfl, hc⟩ | h
  · exact absurd h hne
  · exact .inr (.inl h)
  · exact .inr (.inr (.inl ⟨front ++ middle, c, by rw [List.append_assoc], hc⟩))
  · exact .inr (.inr (.inr h))

theorem slotsIn_of_signs {cs : List Char} (h : ∀ c ∈ cs, isMarkChar c = false) : slotsIn cs = [] := by
  induction cs with
  | nil => rfl
  | cons c cs ih =>
      obtain ⟨hc, hcs⟩ := List.forall_mem_cons.mp h
      rw [slotsIn_cons_sign hc, ih hcs]

theorem slotsIn_signs_append {signs : List Char} (h : ∀ c ∈ signs, isMarkChar c = false)
    (cs : List Char) : slotsIn (signs ++ cs) = slotsIn cs := by
  induction signs with
  | nil => rfl
  | cons c signs ih =>
      obtain ⟨hc, hsigns⟩ := List.forall_mem_cons.mp h
      rw [List.cons_append, slotsIn_cons_sign hc, ih hsigns]

theorem slotsIn_append_signs {signs : List Char} (h : ∀ c ∈ signs, isMarkChar c = false)
    (cs : List Char) : slotsIn (cs ++ signs) = slotsIn cs := by
  cases signs with
  | nil => rw [List.append_nil]
  | cons c signs =>
      obtain ⟨hc, hsigns⟩ := List.forall_mem_cons.mp h
      rw [slotsIn_append_sign hc, slotsIn_of_signs hsigns, List.append_nil]

theorem slotsIn_dropWhile {p : Char → Bool} (h : ∀ c, p c = true → isMarkChar c = false) (cs : List Char) :
    slotsIn (cs.dropWhile p) = slotsIn cs := by
  have hfront : ∀ c ∈ cs.takeWhile p, isMarkChar c = false :=
    fun c hc => h c (List.all_eq_true.mp List.all_takeWhile c hc)
  conv_rhs => rw [← List.takeWhile_append_dropWhile (p := p) (l := cs)]
  rw [slotsIn_signs_append hfront]

@[simp] theorem slotsIn_trimStart (cs : List Char) : slotsIn (Text.trimStart cs) = slotsIn cs :=
  slotsIn_dropWhile (fun _ => not_isMarkChar_of_isBlank) cs

@[simp] theorem slotsIn_trimEnd (cs : List Char) : slotsIn (Text.trimEnd cs) = slotsIn cs := by
  obtain ⟨blanks, hblanks, hcs⟩ := Text.exists_trimEnd cs
  conv_rhs => rw [hcs]
  rw [slotsIn_append_signs fun c hc => not_isMarkChar_of_isBlank (hblanks c hc)]

@[simp] theorem slotsIn_trim (cs : List Char) : slotsIn (Text.trim cs) = slotsIn cs := by
  rw [Text.trim, slotsIn_trimEnd, slotsIn_trimStart]

/-- The runs between signs have the slots of the text. -/
theorem flatMap_runsFrom {sep : Char → Bool} (h : ∀ c, sep c = true → isMarkChar c = false)
    (current cs : List Char) :
    (Text.runsFrom sep current cs).flatMap slotsIn = slotsIn (current.reverse ++ cs) := by
  induction cs generalizing current with
  | nil =>
      rw [Text.runsFrom, List.append_nil]
      split
      · next hempty =>
          rw [List.isEmpty_iff.mp hempty]
          rfl
      · rw [List.flatMap_singleton]
  | cons c cs ih =>
      rw [Text.runsFrom]
      split
      · next hsep =>
          rw [slotsIn_append_sign (h c hsep)]
          split
          · next hempty =>
              rw [ih, List.isEmpty_iff.mp hempty]
              rfl
          · rw [List.flatMap_cons, ih]
            rfl
      · rw [ih, List.reverse_cons, List.append_assoc, List.singleton_append]

/-- Texts that are joined by blanks have the slots of all of them. -/
theorem slotsIn_intercalate (texts : List (List Char)) :
    slotsIn ([' '].intercalate texts) = texts.flatMap slotsIn := by
  have hblank : isMarkChar ' ' = false := not_isMarkChar_of_mem_sheetSigns (by decide)
  induction texts with
  | nil => rfl
  | cons text texts ih =>
      cases texts with
      | nil => simp [List.intercalate]
      | cons next texts =>
          have hcons : [' '].intercalate (text :: next :: texts) =
              text ++ ' ' :: [' '].intercalate (next :: texts) := by
            simp [List.intercalate, List.intersperse]
          rw [hcons, slotsIn_append_sign hblank, ih, List.flatMap_cons (x := text)]

/-! ## The text of a template -/

theorem isDecimal_of_isDigit {c : Char} (h : c.isDigit = true) : Text.isDecimal c = true := by
  have hbounds : 48 ≤ c.toNat ∧ c.toNat ≤ 57 := by
    simp only [Char.isDigit, Bool.and_eq_true, decide_eq_true_eq] at h
    exact ⟨h.1, h.2⟩
  have hall : ∀ n ∈ List.range 58, 48 ≤ n → Text.isDecimal (Char.ofNat n) = true := by decide
  have hc := hall c.toNat (List.mem_range.mpr (by omega)) hbounds.1
  rwa [Char.ofNat_toNat] at hc

theorem decimalNat_append_digit (cs : List Char) (c : Char) :
    Text.decimalNat (cs ++ [c]) = Text.decimalNat cs * 10 + Text.decimalValue c := by
  rw [Text.decimalNat, List.foldl_append]
  rfl

/-- The digits of a number denote it. -/
theorem decimalNat_toDigits (n : Nat) : Text.decimalNat (Nat.toDigits 10 n) = n := by
  have hdigit : ∀ d, d < 10 → Text.decimalValue (Nat.digitChar d) = d := by decide
  induction n using Nat.strong_induction_on with
  | _ n ih =>
      rw [Nat.toDigits_eq_if (by decide)]
      split
      · next hlt => exact (decimalNat_append_digit [] _).trans (by simp [Text.decimalNat, hdigit n hlt])
      · rw [decimalNat_append_digit, ih (n / 10) (by omega), hdigit _ (Nat.mod_lt n (by decide))]
        omega

theorem read?_mark (index : Nat) (rest : List Char) :
    read? (mark index ++ rest) = some (index, mark index, rest) := by
  refine read?_eq_some_iff.mpr ⟨Nat.toDigits 10 index, ?_, fun c hc => ?_, ?_, rfl, rfl⟩
  · exact Nat.toDigits_ne_nil
  · exact isDecimal_of_isDigit (Nat.isDigit_of_mem_toDigits (by decide) (by decide) hc)
  · exact (decimalNat_toDigits index).symm

theorem isMarkChar_of_mem_mark {index : Nat} {c : Char} (h : c ∈ mark index) : isMarkChar c = true := by
  rw [isMarkChar, Bool.or_eq_true, List.contains_iff_mem]
  rw [mark, List.mem_append, List.mem_append] at h
  rcases h with (h | h) | h
  · exact .inl h
  · exact .inr (isDecimal_of_isDigit (Nat.isDigit_of_mem_toDigits (by decide) (by decide) h))
  · exact .inl (mem_opening_of_mem_closing h)

/-- A segment of a template: the opening of a mark does not stand in it. -/
def Plain (cs : List Char) : Prop :=
  ¬ opening <:+: cs

instance (cs : List Char) : Decidable (Plain cs) :=
  inferInstanceAs (Decidable (¬ opening <:+: cs))

theorem Plain.tail {c : Char} {cs : List Char} (h : Plain (c :: cs)) : Plain cs :=
  fun hcs => h (hcs.trans (List.suffix_cons c cs).isInfix)

theorem opening_prefix_of_read? {cs : List Char} {found : Nat × List Char × List Char}
    (h : read? cs = some found) : opening <+: cs := by
  obtain ⟨index, written, rest⟩ := found
  obtain ⟨digits, -, -, -, rfl, rfl⟩ := read?_eq_some_iff.mp h
  exact ⟨digits ++ closing ++ rest, by simp only [List.append_assoc]⟩

theorem Plain.slotsIn_eq_nil {cs : List Char} (h : Plain cs) : slotsIn cs = [] := by
  rw [slotsIn_eq_nil_iff]
  intro tail htail
  cases hread : read? tail with
  | none => rfl
  | some found => exact absurd ((opening_prefix_of_read? hread).isInfix.trans htail.isInfix) h

/-- The opening of a mark overlaps with itself in one character only. -/
theorem opening_border {front t : List Char} (h : opening = front ++ t) (hfront : front ≠ [])
    (ht : t <+: opening) : t = [] ∨ t = ['_'] := by
  have hlength : front.length + t.length = 16 := by
    have hlen := congrArg List.length h
    rw [List.length_append] at hlen
    exact hlen.symm
  have hpos : 0 < front.length := List.length_pos_iff.mpr hfront
  have hdrop : t = opening.drop front.length := by rw [h, List.drop_left]
  have htake : t = opening.take t.length := List.prefix_iff_eq_take.mp ht
  have hborder : ∀ j ∈ List.range 16, 0 < j → opening.take (16 - j) = opening.drop j →
      opening.drop j = ['_'] := by decide
  by_cases hnil : t = []
  · exact .inl hnil
  · have htpos : 0 < t.length := List.length_pos_iff.mpr hnil
    refine .inr (hdrop.trans (hborder front.length (List.mem_range.mpr (by omega)) hpos ?_))
    rw [show 16 - front.length = t.length by omega, ← htake, ← hdrop]

/-- No mark starts in a segment before the mark that follows it. -/
theorem Plain.read?_append_mark {cs : List Char} (h : Plain cs) (hne : cs ≠ []) (index : Nat)
    (rest : List Char) : read? (cs ++ (mark index ++ rest)) = none := by
  refine Option.eq_none_iff_forall_ne_some.mpr fun found hread => ?_
  obtain ⟨other, written, more⟩ := found
  obtain ⟨digits, hdigits, hall, -, rfl, happend⟩ := read?_eq_some_iff.mp hread
  rw [List.append_assoc, List.append_assoc] at happend
  rcases List.append_eq_append_iff.mp happend with ⟨t, hopening, hmark⟩ | ⟨t, hcs, -⟩
  · have hopens : opening <+: mark index ++ rest :=
      ⟨Nat.toDigits 10 index ++ closing ++ rest, by simp only [mark, List.append_assoc]⟩
    have hprefix : t <+: opening := by
      refine List.prefix_of_prefix_length_le ⟨_, hmark.symm⟩ hopens ?_
      rw [hopening, List.length_append]
      omega
    rcases opening_border hopening hne hprefix with rfl | rfl
    · exact h ⟨[], [], by rw [List.nil_append, List.append_nil, hopening, List.append_nil]⟩
    · -- after the overlap comes an underscore and no digit
      obtain ⟨tail, htail⟩ := hopens
      have hopen : opening = '_' :: '_' :: opening.drop 2 := by decide
      cases digits with
      | nil => exact hdigits rfl
      | cons d digits =>
          rw [← htail, hopen] at hmark
          have hd : '_' = d := (List.cons.inj (List.cons.inj hmark).2).1
          have hdecimal := hall d List.mem_cons_self
          rw [← hd, not_isDecimal_underscore] at hdecimal
          cases hdecimal
  · exact h ⟨[], t, by rw [List.nil_append, hcs]⟩

/-- After a segment comes the slot whose mark follows it. -/
theorem Plain.slotsIn_append_mark {cs : List Char} (h : Plain cs) (index : Nat) (rest : List Char) :
    slotsIn (cs ++ (mark index ++ rest)) = index :: slotsIn rest := by
  induction cs with
  | nil => exact slotsIn_of_read? (read?_mark index rest)
  | cons c cs ih =>
      have hnone := h.read?_append_mark nofun index rest
      rw [List.cons_append] at hnone
      rw [List.cons_append, slotsIn_cons_of_read?_eq_none hnone, ih h.tail]

theorem toList_joinFrom_cons (k : Nat) (segment next : String) (segments : List String) :
    (joinFrom k (segment :: next :: segments)).toList =
      segment.toList ++ (mark k ++ (joinFrom (k + 1) (next :: segments)).toList) := by
  show (segment ++ markText k ++ joinFrom (k + 1) (next :: segments)).toList = _
  rw [String.toList_append, String.toList_append, markText, String.toList_ofList, List.append_assoc]

/-- The text of a template up to a slot has the slots before it. -/
theorem slotsIn_joinFrom_append {segments : List String} (h : ∀ s ∈ segments, Plain s.toList)
    (hne : segments ≠ []) (k index : Nat) (rest : List Char) :
    slotsIn ((joinFrom k segments).toList ++ (mark index ++ rest)) =
      List.range' k (segments.length - 1) ++ index :: slotsIn rest := by
  induction segments generalizing k with
  | nil => exact absurd rfl hne
  | cons segment segments ih =>
      obtain ⟨hsegment, hsegments⟩ := List.forall_mem_cons.mp h
      cases segments with
      | nil => exact hsegment.slotsIn_append_mark index rest
      | cons next segments =>
          rw [toList_joinFrom_cons, List.append_assoc, List.append_assoc, hsegment.slotsIn_append_mark,
            ih hsegments nofun (k + 1)]
          rfl

/-- The text of a template has its slots in order. -/
theorem slotsIn_joinFrom {segments : List String} (h : ∀ s ∈ segments, Plain s.toList) (k : Nat) :
    slotsIn (joinFrom k segments).toList = List.range' k (segments.length - 1) := by
  induction segments generalizing k with
  | nil => rfl
  | cons segment segments ih =>
      obtain ⟨hsegment, hsegments⟩ := List.forall_mem_cons.mp h
      cases segments with
      | nil => exact hsegment.slotsIn_eq_nil
      | cons next segments =>
          rw [toList_joinFrom_cons, hsegment.slotsIn_append_mark, ih hsegments (k + 1)]
          rfl

theorem toList_joinFrom_append {front back : List String} (hfront : front ≠ []) (hback : back ≠ [])
    (k : Nat) : (joinFrom k (front ++ back)).toList =
      (joinFrom k front).toList ++
        (mark (k + (front.length - 1)) ++ (joinFrom (k + front.length) back).toList) := by
  induction front generalizing k with
  | nil => exact absurd rfl hfront
  | cons segment front ih =>
      cases front with
      | nil =>
          cases back with
          | nil => exact absurd rfl hback
          | cons next back => exact toList_joinFrom_cons k segment next back
      | cons next front =>
          rw [List.cons_append, List.cons_append, toList_joinFrom_cons, ← List.cons_append,
            ih nofun (k + 1), toList_joinFrom_cons]
          simp only [List.length_cons, Nat.add_sub_cancel, List.append_assoc]
          rw [show k + 1 + front.length = k + (front.length + 1) by omega,
            show k + 1 + (front.length + 1) = k + (front.length + 1 + 1) by omega]

end Restyle.Css.Slot
