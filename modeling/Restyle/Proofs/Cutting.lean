import Restyle.Proofs.Printing
import Restyle.Proofs.Quotations

/-!
# Cutting at the top level

A separator counts only outside of all quotes and parentheses, so what stands behind a cut is read like a text of
its own.  Hence the pieces with the separators between them are the text, no piece is cut again, and trimming a
piece does not change that, whether or not the text closes all its quotes and parentheses.

The reader of style sheets follows quotes on its own.  In a string a backslash takes the next character with it for
the reader, and means nothing to the splitters.  So both agree on what is in quotes until a string has the quote that
it stands in behind a backslash: there the splitters leave the string, and what is left of it is text with separators
to them.  A separator in a string is always behind such a quote.
-/

namespace Restyle.Css

open Text (isBlank trim trimEnd trimStart)

/-! ## Where separators are -/

/-- Where a splitter that stands at `n` stands behind a text. -/
def Nesting.after (n : Nesting) (cs : List Char) : Nesting :=
  cs.foldl Nesting.next n

/-- Whether a splitter that stands at `n` takes a character as a separator. -/
def Nesting.separates (n : Nesting) (sep : Char → Bool) (c : Char) : Bool :=
  n.isTop && !isBracket c && sep c

/-- The character at an index of a text is a separator outside of all quotes and parentheses. -/
def SeparatesAt (sep : Char → Bool) (cs : List Char) (i : Nat) : Prop :=
  ∃ c, cs[i]? = some c ∧ (Nesting.after {} (cs.take i)).separates sep c = true

/-- A text that is read from `n` on, without its separators outside of all quotes and parentheses. -/
def dropSeparators (sep : Char → Bool) (n : Nesting) : List Char → List Char
  | [] => []
  | c :: cs =>
    if n.separates sep c then dropSeparators sep (n.next c) cs else c :: dropSeparators sep (n.next c) cs

/-- The offsets of the characters between pieces, where the first piece starts at `offset`. -/
def cutsFrom (offset : Nat) : List (List Char) → List Nat
  | [] => []
  | [_] => []
  | piece :: next :: rest => (offset + piece.length) :: cutsFrom (offset + piece.length + 1) (next :: rest)

/-- A text that is read from `n` on and has no separator outside of all quotes and parentheses. -/
def Whole (sep : Char → Bool) (n : Nesting) : List Char → Prop
  | [] => True
  | c :: cs => n.separates sep c = false ∧ Whole sep (n.next c) cs

namespace Nesting

variable {n : Nesting} {sep : Char → Bool} {c : Char}

@[simp] theorem after_nil (n : Nesting) : n.after [] = n := rfl

@[simp] theorem after_cons (n : Nesting) (c : Char) (cs : List Char) : n.after (c :: cs) = (n.next c).after cs := rfl

@[simp] theorem after_append (n : Nesting) (cs ds : List Char) : n.after (cs ++ ds) = (n.after cs).after ds :=
  List.foldl_append

theorem isTop_iff : n.isTop = true ↔ n = {} := by
  obtain ⟨quote, depth⟩ := n
  simp [isTop]

theorem separates_iff : n.separates sep c = true ↔ n = {} ∧ isBracket c = false ∧ sep c = true := by
  rw [separates, Bool.and_eq_true, Bool.and_eq_true, isTop_iff, Bool.not_eq_true', and_assoc]

/-- Outside of quotes only quotes and parentheses move a splitter. -/
theorem next_of_not_isBracket (hquote : n.quote = none) (hc : isBracket c = false) : n.next c = n := by
  simp only [isBracket, Bool.or_eq_false_iff] at hc
  obtain ⟨⟨⟨hdouble, hsingle⟩, hopen⟩, hclose⟩ := hc
  simp [next, hquote, hdouble, hsingle, hopen, hclose]

/-- A separator leaves a splitter where it is. -/
theorem next_of_separates (h : n.separates sep c = true) : n.next c = {} := by
  obtain ⟨rfl, hc, -⟩ := separates_iff.mp h
  exact next_of_not_isBracket rfl hc

/-- A quoted text is one that a quote has opened. -/
theorem isBracket_quote_next (hquote : ∀ q ∈ n.quote, isBracket q = true) :
    ∀ q ∈ (n.next c).quote, isBracket q = true := by
  intro q hq
  unfold next at hq
  split at hq
  · split at hq
    · cases hq
    · exact hquote q hq
  · next hnone =>
      split at hq
      · next hc =>
          cases hq
          rw [isBracket, hc]
          rfl
      · split_ifs at hq
        · exact hquote q hq
        · exact hquote q hq
        · exact hquote q hq

theorem isBracket_quote_after (cs : List Char) (hquote : ∀ q ∈ n.quote, isBracket q = true) :
    ∀ q ∈ (n.after cs).quote, isBracket q = true := by
  induction cs generalizing n with
  | nil => exact hquote
  | cons c cs ih => exact ih (isBracket_quote_next hquote)

theorem isBracket_of_isBlank (h : isBlank c = true) : isBracket c = false := by
  by_contra hbracket
  simp only [Bool.not_eq_false, isBracket, Bool.or_eq_true, beq_iff_eq] at hbracket
  rcases hbracket with ((rfl | rfl) | rfl) | rfl <;> exact absurd h (by decide)

/-- A blank leaves a splitter where it is. -/
theorem next_of_isBlank (hquote : ∀ q ∈ n.quote, isBracket q = true) (hc : isBlank c = true) : n.next c = n := by
  have hbracket := isBracket_of_isBlank hc
  cases hn : n.quote with
  | none => exact next_of_not_isBracket hn hbracket
  | some q =>
      have hne : (c == q) = false := by
        refine beq_eq_false_iff_ne.mpr fun heq => ?_
        rw [heq, hquote q hn] at hbracket
        cases hbracket
      simp [next, hn, hne]

theorem after_blanks {blanks : List Char} (h : ∀ c ∈ blanks, isBlank c = true) :
    Nesting.after {} blanks = {} := by
  induction blanks with
  | nil => rfl
  | cons c blanks ih =>
      obtain ⟨hc, hblanks⟩ := List.forall_mem_cons.mp h
      rw [after_cons, next_of_isBlank (by rintro q ⟨⟩) hc]
      exact ih hblanks

end Nesting

/-! ## Pieces -/

section

variable {sep : Char → Bool} {n : Nesting} {c : Char} {cs piece rest : List Char}

theorem whole_append_iff {ds : List Char} : Whole sep n (cs ++ ds) ↔ Whole sep n cs ∧ Whole sep (n.after cs) ds := by
  induction cs generalizing n with
  | nil => exact (and_iff_right trivial).symm
  | cons c cs ih => rw [List.cons_append, Whole, Whole, ih, and_assoc]; rfl

theorem cutFrom_cons (sep : Char → Bool) (n : Nesting) (current : List Char) (c : Char) (cs : List Char) :
    cutFrom sep n current (c :: cs) =
      if n.separates sep c then current.reverse :: cutFrom sep {} [] cs
      else cutFrom sep (n.next c) (c :: current) cs :=
  rfl

/-- A text without separators is one piece. -/
theorem cutFrom_of_whole (h : Whole sep n cs) (current : List Char) :
    cutFrom sep n current cs = [current.reverse ++ cs] := by
  induction cs generalizing n current with
  | nil => rw [cutFrom, List.append_nil]
  | cons c cs ih =>
      rw [cutFrom_cons, if_neg (Bool.eq_false_iff.mp h.1), ih h.2, List.reverse_cons, List.append_assoc]
      rfl

/-- A text is cut at its first separator, and behind it like a text of its own. -/
theorem cutFrom_append (h : Whole sep n piece) (hc : (n.after piece).separates sep c = true)
    (current rest : List Char) :
    cutFrom sep n current (piece ++ c :: rest) = (current.reverse ++ piece) :: cutFrom sep {} [] rest := by
  induction piece generalizing n current with
  | nil =>
      rw [Nesting.after_nil] at hc
      rw [List.nil_append, cutFrom_cons, if_pos hc, List.append_nil]
  | cons d piece ih =>
      rw [List.cons_append, cutFrom_cons, if_neg (Bool.eq_false_iff.mp h.1), ih h.2 hc, List.reverse_cons,
        List.append_assoc]
      rfl

theorem whole_or_cut (sep : Char → Bool) (n : Nesting) (cs : List Char) :
    Whole sep n cs ∨ ∃ piece c rest,
      cs = piece ++ c :: rest ∧ Whole sep n piece ∧ (n.after piece).separates sep c = true := by
  induction cs generalizing n with
  | nil => exact .inl trivial
  | cons c cs ih =>
      cases hc : n.separates sep c with
      | true => exact .inr ⟨[], c, cs, rfl, trivial, hc⟩
      | false =>
          rcases ih (n.next c) with hwhole | ⟨piece, d, rest, rfl, hwhole, hd⟩
          · exact .inl ⟨hc, hwhole⟩
          · exact .inr ⟨c :: piece, d, rest, rfl, ⟨hc, hwhole⟩, hd⟩

/-- A text is one piece, or a piece, a separator and a text that is cut in turn. -/
theorem cutInduction (sep : Char → Bool) {motive : List Char → Prop} (whole : ∀ cs, Whole sep {} cs → motive cs)
    (cut : ∀ piece c rest, Whole sep {} piece → (Nesting.after {} piece).separates sep c = true →
      motive rest → motive (piece ++ c :: rest))
    (cs : List Char) : motive cs := by
  induction hn : cs.length using Nat.strong_induction_on generalizing cs with
  | _ n ih =>
      subst hn
      rcases whole_or_cut sep {} cs with hwhole | ⟨piece, c, rest, rfl, hwhole, hc⟩
      · exact whole cs hwhole
      · refine cut piece c rest hwhole hc (ih rest.length ?_ rest rfl)
        rw [List.length_append, List.length_cons]
        omega

theorem cutFrom_ne_nil (sep : Char → Bool) (n : Nesting) (current cs : List Char) :
    cutFrom sep n current cs ≠ [] := by
  induction cs generalizing n current with
  | nil => exact List.cons_ne_nil _ _
  | cons c cs ih =>
      rw [cutFrom_cons]
      split
      · exact List.cons_ne_nil _ _
      · exact ih _ _

theorem whole_of_mem_cutFrom (h : piece ∈ cutFrom sep {} [] cs) : Whole sep {} piece := by
  induction cs using cutInduction sep with
  | whole cs hwhole =>
      rw [cutFrom_of_whole hwhole] at h
      rwa [List.mem_singleton.mp h]
  | cut first c rest hwhole hc ih =>
      rw [cutFrom_append hwhole hc] at h
      rcases List.mem_cons.mp h with rfl | h
      · exact hwhole
      · exact ih h

/-! ### The text from its pieces -/

theorem dropSeparators_of_whole (h : Whole sep n cs) : dropSeparators sep n cs = cs := by
  induction cs generalizing n with
  | nil => rfl
  | cons c cs ih => rw [dropSeparators, if_neg (Bool.eq_false_iff.mp h.1), ih h.2]

theorem dropSeparators_append (h : Whole sep n piece) (hc : (n.after piece).separates sep c = true)
    (rest : List Char) : dropSeparators sep n (piece ++ c :: rest) = piece ++ dropSeparators sep {} rest := by
  induction piece generalizing n with
  | nil =>
      rw [Nesting.after_nil] at hc
      rw [List.nil_append, dropSeparators, if_pos hc, Nesting.next_of_separates hc]
      rfl
  | cons d piece ih =>
      rw [List.cons_append, dropSeparators, if_neg (Bool.eq_false_iff.mp h.1), ih h.2 hc]
      rfl

/-- The pieces of a text are the text without its separators. -/
theorem flatten_cutFrom (sep : Char → Bool) (cs : List Char) :
    (cutFrom sep {} [] cs).flatten = dropSeparators sep {} cs := by
  induction cs using cutInduction sep with
  | whole cs hwhole =>
      rw [cutFrom_of_whole hwhole, dropSeparators_of_whole hwhole]
      exact List.append_nil _
  | cut piece c rest hwhole hc ih =>
      rw [cutFrom_append hwhole hc, dropSeparators_append hwhole hc, List.flatten_cons, ih]
      rfl

/-- The pieces of a text with the separator between them are the text. -/
theorem intercalate_cutFrom (separator : Char) (cs : List Char) :
    [separator].intercalate (cutFrom (fun c => separator == c) {} [] cs) = cs := by
  induction cs using cutInduction (fun c => separator == c) with
  | whole cs hwhole =>
      rw [cutFrom_of_whole hwhole, List.intercalate_singleton]
      rfl
  | cut piece c rest hwhole hc ih =>
      obtain ⟨-, -, hsep⟩ := Nesting.separates_iff.mp hc
      obtain ⟨next, more, hmore⟩ := List.exists_cons_of_ne_nil
        (cutFrom_ne_nil (fun c => separator == c) {} [] rest)
      rw [hmore] at ih
      rw [cutFrom_append hwhole hc, hmore, List.intercalate_cons_cons, ih, ← eq_of_beq hsep, List.append_assoc]
      rfl

/-! ### The cuts -/

theorem not_separatesAt_of_whole (h : Whole sep {} cs) (i : Nat) : ¬ SeparatesAt sep cs i := by
  rintro ⟨c, hc, hseparates⟩
  obtain ⟨hi, rfl⟩ := List.getElem?_eq_some_iff.mp hc
  rw [← List.take_append_drop i cs, whole_append_iff, List.drop_eq_getElem_cons hi] at h
  exact Bool.eq_false_iff.mp h.2.1 hseparates

/-- What is a separator behind a cut is one in the text that is left. -/
theorem separatesAt_append_iff (hwhole : Whole sep {} piece)
    (hc : (Nesting.after {} piece).separates sep c = true) (rest : List Char) (i : Nat) :
    SeparatesAt sep (piece ++ c :: rest) i ↔
      i = piece.length ∨ ∃ j, i = piece.length + 1 + j ∧ SeparatesAt sep rest j := by
  -- before the cut nothing separates, and behind it the splitter stands as at the start of a text
  rcases Nat.lt_trichotomy i piece.length with hlt | rfl | hgt
  · have hnot := not_separatesAt_of_whole hwhole i
    rw [SeparatesAt, List.getElem?_append_left hlt, List.take_append_of_le_length (Nat.le_of_lt hlt)]
    refine iff_of_false hnot ?_
    rintro (rfl | ⟨j, rfl, -⟩) <;> omega
  · refine iff_of_true ⟨c, ?_, ?_⟩ (.inl rfl)
    · rw [List.getElem?_append_right (Nat.le_refl _), Nat.sub_self]
      rfl
    · rwa [List.take_left]
  · obtain ⟨j, rfl⟩ := Nat.exists_eq_add_of_le hgt
    have hsplit : piece ++ c :: rest = (piece ++ [c]) ++ rest := by rw [List.append_assoc]; rfl
    have hlength : (piece ++ [c]).length = piece.length + 1 := List.length_append
    have hget : (piece ++ c :: rest)[piece.length + 1 + j]? = rest[j]? := by
      rw [hsplit, ← hlength, List.getElem?_append_right (Nat.le_add_right _ _), Nat.add_sub_cancel_left]
    have htake : (piece ++ c :: rest).take (piece.length + 1 + j) = (piece ++ [c]) ++ rest.take j := by
      rw [hsplit, ← hlength, List.take_length_add_append]
    have hafter : Nesting.after {} (piece ++ [c]) = {} := by
      rw [Nesting.after_append, Nesting.after_cons, Nesting.next_of_separates hc]
      rfl
    rw [SeparatesAt, hget, htake, Nesting.after_append, hafter]
    constructor
    · exact fun h => .inr ⟨j, rfl, h⟩
    · rintro (heq | ⟨k, heq, hk⟩)
      · omega
      · rwa [show j = k by omega]

/-- The characters between the pieces are the separators of the text. -/
theorem mem_cutsFrom_iff {offset i : Nat} :
    i ∈ cutsFrom offset (cutFrom sep {} [] cs) ↔ ∃ j, i = offset + j ∧ SeparatesAt sep cs j := by
  induction cs using cutInduction sep generalizing offset with
  | whole cs hwhole =>
      rw [cutFrom_of_whole hwhole, cutsFrom]
      refine iff_of_false List.not_mem_nil ?_
      rintro ⟨j, -, hj⟩
      exact not_separatesAt_of_whole hwhole j hj
  | cut piece c rest hwhole hc ih =>
      obtain ⟨next, more, hmore⟩ := List.exists_cons_of_ne_nil (cutFrom_ne_nil sep {} [] rest)
      rw [hmore] at ih
      rw [cutFrom_append hwhole hc, hmore, List.reverse_nil, List.nil_append, cutsFrom, List.mem_cons, ih]
      simp only [separatesAt_append_iff hwhole hc]
      constructor
      · rintro (rfl | ⟨j, rfl, hj⟩)
        · exact ⟨_, rfl, .inl rfl⟩
        · exact ⟨piece.length + 1 + j, by omega, .inr ⟨j, rfl, hj⟩⟩
      · rintro ⟨_, rfl, rfl | ⟨j, rfl, hj⟩⟩
        · exact .inl rfl
        · exact .inr ⟨j, by omega, hj⟩

/-! ## Trimmed pieces -/

/-- Trimming a text brings no separator to the top level. -/
theorem whole_trim (h : Whole sep {} cs) : Whole sep {} (trim cs) := by
  obtain ⟨before, hbefore, hstart⟩ := Text.exists_trimStart cs
  obtain ⟨after, -, hend⟩ := Text.exists_trimEnd (trimStart cs)
  rw [hstart, whole_append_iff, Nesting.after_blanks hbefore] at h
  have hrest := h.2
  rw [hend, whole_append_iff] at hrest
  exact hrest.1

theorem mem_splitTop_iff {part : List Char} :
    part ∈ splitTop sep cs ↔ part ≠ [] ∧ ∃ piece ∈ cutFrom sep {} [] cs, trim piece = part := by
  rw [splitTop, List.mem_filter, List.mem_map, Bool.not_eq_true', List.isEmpty_eq_false_iff, and_comm]

/-- A part is not split again. -/
theorem splitTop_of_mem {part : List Char} (h : part ∈ splitTop sep cs) : splitTop sep part = [part] := by
  obtain ⟨hne, piece, hpiece, rfl⟩ := mem_splitTop_iff.mp h
  have hwhole := whole_trim (whole_of_mem_cutFrom hpiece)
  rw [splitTop, cutFrom_of_whole hwhole, List.reverse_nil, List.nil_append, List.map_singleton, Text.trim_trim,
    List.filter_singleton, List.isEmpty_eq_false_iff.mpr hne]
  rfl

/-- A piece between blanks does not start with one. -/
theorem head?_of_whole (h : Whole isBlank {} cs) : ∀ c ∈ cs.head?, isBlank c = false := by
  intro c hc
  cases cs with
  | nil => cases hc
  | cons d cs =>
      cases hc
      by_contra hblank
      rw [Bool.not_eq_false] at hblank
      exact Bool.eq_false_iff.mp h.1 (Nesting.separates_iff.mpr ⟨rfl, Nesting.isBracket_of_isBlank hblank, hblank⟩)

/-- A piece between blanks that is closed does not end with one. -/
theorem getLast?_of_whole (h : Whole isBlank {} cs) (hclosed : Nesting.after {} cs = {}) :
    ∀ c ∈ cs.getLast?, isBlank c = false := by
  intro c hc
  obtain ⟨front, rfl⟩ := List.getLast?_eq_some_iff.mp hc
  by_contra hblank
  rw [Bool.not_eq_false] at hblank
  -- the blank does not move the splitter, so it would stand at the top level
  have hquote := Nesting.isBracket_quote_after (n := {}) front (by rintro q ⟨⟩)
  rw [Nesting.after_append, Nesting.after_cons, Nesting.after_nil, Nesting.next_of_isBlank hquote hblank] at hclosed
  rw [whole_append_iff, hclosed] at h
  exact Bool.eq_false_iff.mp h.2.1 (Nesting.separates_iff.mpr ⟨rfl, Nesting.isBracket_of_isBlank hblank, hblank⟩)

/-- The pieces between the blanks of a text that does not end with one are trimmed. -/
theorem trim_of_mem_cutFrom (hlast : ∀ c ∈ cs.getLast?, isBlank c = false)
    (h : piece ∈ cutFrom isBlank {} [] cs) : trim piece = piece := by
  induction cs using cutInduction isBlank with
  | whole cs hwhole =>
      rw [cutFrom_of_whole hwhole] at h
      rw [List.mem_singleton.mp h]
      exact Text.trim_eq_self (head?_of_whole hwhole) hlast
  | cut first c rest hwhole hc ih =>
      rw [cutFrom_append hwhole hc] at h
      rcases List.mem_cons.mp h with rfl | h
      · exact Text.trim_eq_self (head?_of_whole hwhole)
          (getLast?_of_whole hwhole (Nesting.separates_iff.mp hc).1)
      · refine ih (fun d hd => hlast d ?_) h
        rw [List.getLast?_append, List.getLast?_cons, hd]
        rfl

theorem mem_splitBlanks_iff {part : List Char} :
    part ∈ splitBlanks cs ↔ part ≠ [] ∧ part ∈ cutFrom isBlank {} [] (trim cs) := by
  rw [splitBlanks, List.mem_filter, Bool.not_eq_true', List.isEmpty_eq_false_iff, and_comm]

/-- A part between blanks is not split again. -/
theorem splitBlanks_of_mem {part : List Char} (h : part ∈ splitBlanks cs) : splitBlanks part = [part] := by
  obtain ⟨hne, hpart⟩ := mem_splitBlanks_iff.mp h
  rw [splitBlanks, trim_of_mem_cutFrom (Text.getLast?_trim cs) hpart,
    cutFrom_of_whole (whole_of_mem_cutFrom hpart), List.reverse_nil, List.nil_append, List.filter_singleton,
    List.isEmpty_eq_false_iff.mpr hne]
  rfl

end

/-! ## Strings -/

theorem splitTopLevel_singleton (text : String) (separator : Char) :
    splitTopLevel text (String.singleton separator) =
      (splitTop (fun c => separator == c) text.toList).map String.ofList := by
  have hsep : (fun c => (String.singleton separator).toList == [c]) = fun c => separator == c := by
    funext c
    rw [String.toList_singleton]
    simp
  rw [splitTopLevel, hsep]

/--
The tokens of a value are its text, trimmed and without the blanks outside of quotes and parentheses.  The parts of a
text are the pieces between the separators outside of them, where the pieces and the separators are the text; the
pieces are trimmed, and empty ones are left out.  No token and no part is empty, and none is split again.
-/
theorem splitters_lossless_stable :
    (∀ value : String,
      (valueTokens value).flatMap String.toList = dropSeparators isBlank {} (trim value.toList) ∧
        ∀ token ∈ valueTokens value, token ≠ "" ∧ valueTokens token = [token]) ∧
    ∀ (text : String) (separator : Char),
      (∃ pieces, [separator].intercalate pieces = text.toList ∧
        (∀ i, i ∈ cutsFrom 0 pieces ↔ SeparatesAt (fun c => separator == c) text.toList i) ∧
        splitTopLevel text (String.singleton separator) =
          ((pieces.map trim).filter fun piece => !piece.isEmpty).map String.ofList) ∧
      ∀ part ∈ splitTopLevel text (String.singleton separator),
        part ≠ "" ∧ splitTopLevel part (String.singleton separator) = [part] := by
  refine ⟨fun value => ⟨?_, fun token htoken => ?_⟩, fun text separator => ⟨?_, fun part hpart => ?_⟩⟩
  · rw [valueTokens, List.flatMap_map, splitBlanks]
    simp only [String.toList_ofList]
    rw [List.flatMap_id', List.flatten_filter_not_isEmpty, flatten_cutFrom]
  · obtain ⟨cs, hcs, rfl⟩ := List.mem_map.mp htoken
    refine ⟨mt String.ofList_eq_empty_iff.mp (mem_splitBlanks_iff.mp hcs).1, ?_⟩
    rw [valueTokens, String.toList_ofList, splitBlanks_of_mem hcs, List.map_singleton]
  · refine ⟨cutFrom (fun c => separator == c) {} [] text.toList, intercalate_cutFrom separator _, fun i => ?_,
      splitTopLevel_singleton text separator⟩
    simp [mem_cutsFrom_iff]
  · rw [splitTopLevel_singleton] at hpart
    obtain ⟨cs, hcs, rfl⟩ := List.mem_map.mp hpart
    refine ⟨mt String.ofList_eq_empty_iff.mp (mem_splitTop_iff.mp hcs).1, ?_⟩
    rw [splitTopLevel_singleton, String.toList_ofList, splitTop_of_mem hcs, List.map_singleton]

/-! ## Runs and their strings -/

/-- A text that is read as one run up to its end.  Its start counts as standing behind a blank. -/
def IsRun (cs : List Char) : Prop :=
  runLength .plain 0 ' ' cs = .ok cs.length

/-- The character at an index is in a string: if the text ended before it, a string would be left open. -/
def InString (cs : List Char) (i : Nat) : Prop :=
  i < cs.length ∧ runLength .plain 0 ' ' (cs.take i) = .error .openString

/-- The character at an index is in a string and is its quote, behind a backslash. -/
def EscapesQuote (cs : List Char) (i : Nat) : Prop :=
  ∃ c ∈ cs[i]?, (standing (cs.take i)).1 = .escaped c

/-- The character at an index is in quotes for the splitters. -/
def InQuotes (cs : List Char) (i : Nat) : Prop :=
  i < cs.length ∧ (Nesting.after {} (cs.take i)).quote ≠ none

instance (cs : List Char) (i : Nat) : Decidable (EscapesQuote cs i) :=
  decidable_of_iff ((cs[i]?.any fun c => decide ((standing (cs.take i)).1 = .escaped c)) = true) <| by
    unfold EscapesQuote
    cases cs[i]? <;> simp

/-! ## Separators -/

/-- The character at an index separates tokens of a value. -/
def CutsTokens (cs : List Char) (i : Nat) : Prop :=
  i ∈ cutsFrom (cs.length - (trimStart cs).length) (cutFrom isBlank {} [] (trim cs))

/-- The character at an index separates parts of a text. -/
def CutsParts (separator : String) (cs : List Char) (i : Nat) : Prop :=
  i ∈ cutsFrom 0 (cutFrom (fun c => separator.toList == [c]) {} [] cs)

/-- The character at an index is taken as the colon of a declaration. -/
def CutsDeclaration (cs : List Char) (i : Nat) : Prop :=
  ∃ name value, splitColon? cs = some (name, value) ∧ name.length = i

/-- The character at an index is taken as a separator by one of the splitters. -/
def IsSeparator (cs : List Char) (i : Nat) : Prop :=
  CutsTokens cs i ∨ (∃ separator, CutsParts separator cs i) ∨ CutsDeclaration cs i

/-! ## What the reader of runs sees -/

theorem endsRun_of_isPrefix {last c : Char} {cs ds : List Char} (hlead : cs <+: ds)
    (h : endsRun last (c :: cs) = true) : endsRun last (c :: ds) = true := by
  have hstarts : ∀ lead, Text.startsWith lead (c :: cs) = true → Text.startsWith lead (c :: ds) = true :=
    fun lead hstart => Text.startsWith_iff.mpr
      ((Text.startsWith_iff.mp hstart).trans (List.cons_prefix_cons.mpr ⟨rfl, hlead⟩))
  simp only [endsRun, Bool.or_eq_true, Bool.and_eq_true] at h ⊢
  rcases h with (h | h) | ⟨h, hblank⟩
  · exact .inl (.inl h)
  · exact .inl (.inr (hstarts _ h))
  · exact .inr ⟨hstarts _ h, hblank⟩

/-- A run that goes on behind its first character is one character longer than the run from there. -/
theorem exists_of_runLength_cons {state : RunState} {depth : Nat} {last c : Char} {cs : List Char} {n : Nat}
    (h : runLength state depth last (c :: cs) = .ok n)
    (hgoes : ¬ (state = .plain ∧ depth = 0 ∧ endsRun last (c :: cs) = true)) :
    ∃ m, runLength (nextRun depth c state).1 (nextRun depth c state).2 c cs = .ok m ∧ n = m + 1 := by
  rw [runLength_cons, if_neg hgoes] at h
  cases hrun : runLength (nextRun depth c state).1 (nextRun depth c state).2 c cs with
  | error fault =>
      rw [hrun] at h
      cases h
  | ok m =>
      rw [hrun] at h
      cases h
      exact ⟨m, rfl, rfl⟩

/-- A run up to the end of a text does not end in front of a start of the rest. -/
theorem length_of_runLength_take {state : RunState} {depth : Nat} {last : Char} {cs : List Char} {i n : Nat}
    (h : runLength state depth last cs = .ok cs.length)
    (htake : runLength state depth last (cs.take i) = .ok n) : n = (cs.take i).length := by
  induction cs generalizing state depth last i n with
  | nil =>
      rw [List.take_nil] at htake ⊢
      rw [h] at htake
      cases htake
      rfl
  | cons c cs ih =>
      cases i with
      | zero => exact Nat.le_zero.mp (runLength_ends htake).1
      | succ i =>
          -- what ends a run in front of the start would end it in front of the whole text too
          have hgoes : ¬ (state = .plain ∧ depth = 0 ∧ endsRun last (c :: cs) = true) := by
            intro hends
            rw [runLength_cons, if_pos hends] at h
            cases h
          obtain ⟨m, hm, hlength⟩ := exists_of_runLength_cons h hgoes
          cases Nat.succ.inj hlength
          obtain ⟨k, hk, rfl⟩ := exists_of_runLength_cons htake fun hends =>
            hgoes ⟨hends.1, hends.2.1, endsRun_of_isPrefix (List.take_prefix i cs) hends.2.2⟩
          rw [ih hm hk]
          rfl

/-- A character of a run is in a string if the reader stands in one before it. -/
theorem inString_iff {cs : List Char} (h : IsRun cs) (i : Nat) :
    InString cs i ↔ i < cs.length ∧ (standing (cs.take i)).1 ≠ .plain := by
  refine and_congr_right fun _ => ⟨fun hopen => ?_, fun hstands => ?_⟩
  · rcases runLength_error hopen with ⟨-, hstands⟩ | ⟨hfault, -⟩
    · exact hstands
    · cases hfault
  · cases hrun : runLength .plain 0 ' ' (cs.take i) with
    | ok n =>
        have hn := length_of_runLength_take h hrun
        have hplain := (runLength_spec hrun).1
        rw [hn, List.take_length] at hplain
        exact absurd (congrArg Prod.fst hplain) hstands
    | error fault =>
        rcases runLength_error hrun with ⟨hfault, -⟩ | ⟨-, hplain, -⟩
        · rw [hfault]
        · exact absurd hplain hstands

/-! ## Open quotes -/

/-- The open quote behind one more character, for a reader without backslashes. -/
def nextQuote (c : Char) : Option Char → Option Char
  | some q => if c == q then none else some q
  | none => if c == '"' || c == '\'' then some c else none

theorem Nesting.quote_next (n : Nesting) (c : Char) : (n.next c).quote = nextQuote c n.quote := by
  obtain ⟨quote, depth⟩ := n
  cases quote with
  | none =>
      rw [next, nextQuote]
      dsimp only
      split_ifs <;> rfl
  | some q =>
      rw [next, nextQuote]
      dsimp only
      split_ifs <;> rfl

theorem fst_nextColon (depth : Int) (c : Char) (quote : Option Char) :
    (nextColon depth c quote).1 = nextQuote c quote := by
  cases quote with
  | none =>
      rw [nextColon, nextQuote]
      split_ifs <;> rfl
  | some q => rfl

theorem Nesting.quote_after (n : Nesting) (cs : List Char) :
    (n.after cs).quote = cs.foldl (fun quote c => nextQuote c quote) n.quote := by
  induction cs generalizing n with
  | nil => rfl
  | cons c cs ih => rw [after_cons, ih, quote_next, List.foldl_cons]

/-- Before the colon of a declaration no quote is open. -/
theorem foldl_nextQuote_of_colonFrom {quote : Option Char} {depth : Int} {cs name value : List Char}
    (h : colonFrom quote depth cs = some (name, value)) :
    name.foldl (fun quote c => nextQuote c quote) quote = none := by
  induction cs generalizing quote depth name with
  | nil => cases h
  | cons c cs ih =>
      rw [colonFrom_cons] at h
      split at h
      · next hcolon =>
          cases h
          exact hcolon.1
      · obtain ⟨found, hfound, heq⟩ := Option.map_eq_some_iff.mp h
        cases heq
        rw [List.foldl_cons, ← fst_nextColon depth]
        exact ih hfound

theorem quote?_next {state : RunState} (hstate : state.Quoting) {c : Char} (hc : state ≠ .escaped c) :
    (state.next c).quote? = nextQuote c state.quote? := by
  cases state with
  | plain =>
      rw [next_plain, RunState.quote?, nextQuote]
      simp only [Bool.or_eq_true, beq_iff_eq]
      split_ifs <;> rfl
  | quoted q =>
      have hslash : q ≠ '\\' := by
        rintro rfl
        rcases hstate with h | h <;> exact absurd h (by decide)
      rw [next_quoted, RunState.quote?, nextQuote]
      by_cases hescape : c = '\\'
      · rw [if_pos hescape, hescape, if_neg (by simpa using Ne.symm hslash)]
        rfl
      · rw [if_neg hescape]
        simp only [beq_iff_eq]
        split_ifs <;> rfl
  | escaped q =>
      have hne : (c == q) = false := beq_eq_false_iff_ne.mpr fun heq => hc (heq ▸ rfl)
      rw [RunState.quote?, nextQuote, hne]
      rfl

theorem standing_concat (cs : List Char) (c : Char) : (standing (cs ++ [c])).1 = (standing cs).1.next c := by
  rw [standing, standing, standingFrom_fst, standingFrom_fst, List.foldl_append]
  rfl

theorem quoting_standing (cs : List Char) : (standing cs).1.Quoting := by
  rw [standing, standingFrom_fst]
  exact quoting_plain.foldl_next cs

theorem take_succ_of_getElem? {cs : List Char} {i : Nat} {c : Char} (h : cs[i]? = some c) :
    cs.take (i + 1) = cs.take i ++ [c] := by
  rw [List.take_add_one, h]
  rfl

/-- The splitters are in the quotes that the reader is in as long as no string has its quote behind a backslash. -/
theorem quote_after_take {cs : List Char} {i : Nat} (h : ∀ j < i, ¬ EscapesQuote cs j) :
    (Nesting.after {} (cs.take i)).quote = (standing (cs.take i)).1.quote? := by
  induction i with
  | zero => rfl
  | succ i ih =>
      have hstart := ih fun j hj => h j (Nat.lt_succ_of_lt hj)
      cases hc : cs[i]? with
      | none =>
          rw [List.take_add_one, hc]
          rwa [Option.toList_none, List.append_nil]
      | some c =>
          have hescape : (standing (cs.take i)).1 ≠ .escaped c := fun heq => h i (Nat.lt_succ_self i) ⟨c, hc, heq⟩
          rw [take_succ_of_getElem? hc, Nesting.after_append, Nesting.after_cons, Nesting.after_nil,
            Nesting.quote_next, hstart, standing_concat, quote?_next (quoting_standing _) hescape]

theorem quote?_eq_none_iff {state : RunState} : state.quote? = none ↔ state = .plain := by
  cases state <;> simp [RunState.quote?]

/-! ## Separators are outside of the quotes of the splitters -/

theorem quote_of_separatesAt {sep : Char → Bool} {cs : List Char} {i : Nat} (h : SeparatesAt sep cs i) :
    (Nesting.after {} (cs.take i)).quote = none := by
  obtain ⟨c, -, hseparates⟩ := h
  rw [(Nesting.separates_iff.mp hseparates).1]

/-- Trimming a text moves its separators by the blanks in front. -/
theorem quote_of_cutsTokens {cs : List Char} {i : Nat} (h : CutsTokens cs i) :
    (Nesting.after {} (cs.take i)).quote = none := by
  obtain ⟨j, rfl, hj⟩ := mem_cutsFrom_iff.mp h
  obtain ⟨before, hbefore, hstart⟩ := Text.exists_trimStart cs
  obtain ⟨behind, -, hend⟩ := Text.exists_trimEnd (trimStart cs)
  have hlength : cs.length - (trimStart cs).length = before.length := by
    have := congrArg List.length hstart
    rw [List.length_append] at this
    omega
  have hle : j ≤ (trim cs).length := by
    obtain ⟨c, hc, -⟩ := hj
    exact Nat.le_of_lt (List.getElem?_eq_some_iff.mp hc).1
  have htake : cs.take (before.length + j) = before ++ (trim cs).take j := by
    conv_lhs => rw [hstart, hend]
    rw [List.take_length_add_append, ← trim, List.take_append_of_le_length hle]
  rw [hlength, htake, Nesting.after_append, Nesting.after_blanks hbefore]
  exact quote_of_separatesAt hj

theorem IsSeparator.quote {cs : List Char} {i : Nat} (h : IsSeparator cs i) :
    (Nesting.after {} (cs.take i)).quote = none := by
  rcases h with htokens | ⟨separator, hparts⟩ | ⟨name, value, hcolon, rfl⟩
  · exact quote_of_cutsTokens htokens
  · obtain ⟨j, rfl, hj⟩ := mem_cutsFrom_iff.mp hparts
    rw [Nat.zero_add]
    exact quote_of_separatesAt hj
  · rw [colonFrom_eq_some hcolon, List.take_left, Nesting.quote_after]
    exact foldl_nextQuote_of_colonFrom hcolon

/-! ## Strings and quotes -/

/-- A quote behind a backslash ends the quotes of the splitters, and not the string. -/
theorem inString_of_escapesQuote {cs : List Char} (h : IsRun cs) {i : Nat} (hescape : EscapesQuote cs i)
    (hfirst : ∀ j < i, ¬ EscapesQuote cs j) : InString cs (i + 1) ∧ ¬ InQuotes cs (i + 1) := by
  obtain ⟨c, hc, hstate⟩ := hescape
  have hquote := quote_after_take hfirst
  have hstands : (standing (cs.take (i + 1))).1 = .quoted c := by
    rw [take_succ_of_getElem? hc, standing_concat, hstate]
    rfl
  have hlt : i + 1 < cs.length := by
    refine Nat.lt_of_le_of_ne (List.getElem?_eq_some_iff.mp hc).1 fun heq => ?_
    have hclosed := (runLength_spec h).1
    rw [List.take_length] at hclosed
    rw [heq, List.take_length, standing, hclosed] at hstands
    cases hstands
  refine ⟨(inString_iff h _).mpr ⟨hlt, ?_⟩, fun hquotes => hquotes.2 ?_⟩
  · rw [hstands]
    intro hplain
    cases hplain
  · rw [take_succ_of_getElem? hc, Nesting.after_append, Nesting.after_cons, Nesting.after_nil, Nesting.quote_next,
      hquote, hstate, RunState.quote?, nextQuote, if_pos (beq_self_eq_true c)]

/--
In a text that is read as one run, a character in a string is taken as a separator only behind a quote that its string
has behind a backslash.  What is in strings is what the splitters take to be in quotes exactly if no string has its
quote behind a backslash; then no character in a string is taken as a separator.
-/
theorem separators_shielded {cs : List Char} (h : IsRun cs) :
    (∀ i, InString cs i → IsSeparator cs i → ∃ j < i, EscapesQuote cs j) ∧
      ((∀ i, InString cs i ↔ InQuotes cs i) ↔ ∀ j, ¬ EscapesQuote cs j) := by
  constructor
  · intro i hstring hseparator
    by_contra hnone
    have hquote : (Nesting.after {} (cs.take i)).quote = (standing (cs.take i)).1.quote? :=
      quote_after_take fun j hj hescape => hnone ⟨j, hj, hescape⟩
    rw [hseparator.quote] at hquote
    exact ((inString_iff h i).mp hstring).2 (quote?_eq_none_iff.mp hquote.symm)
  · constructor
    · -- behind the first such quote both disagree
      intro hsame j
      induction j using Nat.strong_induction_on with
      | _ j ih =>
          intro hescape
          obtain ⟨hstring, hquotes⟩ := inString_of_escapesQuote h hescape ih
          exact hquotes ((hsame (j + 1)).mp hstring)
    · intro hnone i
      rw [inString_iff h, InQuotes, quote_after_take fun j _ => hnone j, ne_eq, ne_eq, quote?_eq_none_iff]

/-- A run whose strings have blanks and a colon, and other characters behind backslashes than their quotes. -/
def shieldedRun : List Char :=
  "a \"it\\'s: b\\\\\" c".toList

theorem separators_shielded_run :
    IsRun shieldedRun ∧ InString shieldedRun 8 ∧ InString shieldedRun 9 ∧
      ∀ i, InString shieldedRun i → ¬ IsSeparator shieldedRun i := by
  have hrun : IsRun shieldedRun := rfl
  have hnone : ∀ j < shieldedRun.length, ¬ EscapesQuote shieldedRun j := by decide
  refine ⟨hrun, ⟨by decide, rfl⟩, ⟨by decide, rfl⟩, fun i hstring hseparator => ?_⟩
  obtain ⟨j, hj, hescape⟩ := (separators_shielded hrun).1 i hstring hseparator
  exact hnone j (Nat.lt_trans hj hstring.1) hescape

/-- A run that is one string, with its quote behind a backslash. -/
def quotedColon : List Char :=
  "\"\\\": b\"".toList

/-- The colon and the blank of the string are taken as separators. -/
theorem not_shielded_quotedColon :
    IsRun quotedColon ∧ (InString quotedColon 3 ∧ InString quotedColon 4) ∧
      CutsTokens quotedColon 4 ∧ CutsParts ":" quotedColon 3 ∧ CutsDeclaration quotedColon 3 ∧
      valueTokens (String.ofList quotedColon) = ["\"\\\":", "b\""] ∧
      splitTopLevel (String.ofList quotedColon) ":" = ["\"\\\"", "b\""] ∧
      splitColon? quotedColon = some ("\"\\\"".toList, " b\"".toList) := by
  refine ⟨rfl, ⟨⟨by decide, rfl⟩, by decide, rfl⟩, ?_, ?_, ⟨_, _, rfl, rfl⟩, rfl, rfl, rfl⟩
  · rw [CutsTokens]
    decide
  · rw [CutsParts]
    decide

end Restyle.Css
