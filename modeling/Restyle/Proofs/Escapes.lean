import Restyle.Proofs.Literals
import Restyle.Tsx.Shape

/-!
# Escaped texts

What is written between quotes is read back character by character: an escape takes what follows its backslash
along, and every other character stands for itself.  A text in single quotes is first written anew for double
quotes.  That takes the backslash off each single quote and puts one before each double quote, so it ends as the
text that is written between double quotes in the first place.
-/

namespace Restyle.Text

/-! ## Hexadecimal digits -/

theorem hexValue?_hexDigit : ∀ n < 16, hexValue? (hexDigit n) = some n := by decide

/-- The hexadecimal digits of a number below 65536 denote it. -/
theorem readUnit?_hexDigits {n : Nat} (h : n < 65536) (rest : List Char) :
    readUnit? (hexDigit (n / 4096 % 16) :: hexDigit (n / 256 % 16) :: hexDigit (n / 16 % 16) ::
      hexDigit (n % 16) :: rest) = some (n, rest) := by
  have hmod : ∀ m, hexValue? (hexDigit (m % 16)) = some (m % 16) := fun m =>
    hexValue?_hexDigit _ (Nat.mod_lt _ (by decide))
  have hvalue : ((n / 4096 % 16 * 16 + n / 256 % 16) * 16 + n / 16 % 16) * 16 + n % 16 = n := by omega
  simp only [readUnit?, hmod, Option.bind_eq_bind, Option.bind_some, hvalue, Option.pure_def]

/-- The digits of a long escape are neither backslashes nor quotes. -/
theorem exists_unitEscape (n : Nat) :
    ∃ digits, unitEscape n = '\\' :: 'u' :: digits ∧ '\\' ∉ digits ∧ '"' ∉ digits := by
  have hall : ∀ m < 16, hexDigit m ≠ '\\' ∧ hexDigit m ≠ '"' := by decide
  have hmod : ∀ m, hexDigit (m % 16) ≠ '\\' ∧ hexDigit (m % 16) ≠ '"' := fun m => hall _ (Nat.mod_lt _ (by decide))
  refine ⟨_, rfl, ?_, ?_⟩
  · simp only [List.mem_cons, List.not_mem_nil, or_false, not_or]
    exact ⟨(hmod _).1.symm, (hmod _).1.symm, (hmod _).1.symm, (hmod _).1.symm⟩
  · simp only [List.mem_cons, List.not_mem_nil, or_false, not_or]
    exact ⟨(hmod _).2.symm, (hmod _).2.symm, (hmod _).2.symm, (hmod _).2.symm⟩

/-! ## Reading what is written -/

/-- The three ways in which a character is written between double quotes. -/
theorem escapeChar_cases (c : Char) :
    (∃ e, shortEscape? c = some e ∧ escapeChar c = ['\\', e]) ∨
      (c.toNat < 32 ∧ escapeChar c = unitEscape c.toNat) ∨
        (¬ c.toNat < 32 ∧ c ≠ '"' ∧ c ≠ '\\' ∧ escapeChar c = [c]) := by
  unfold escapeChar
  cases he : shortEscape? c with
  | some e => exact .inl ⟨e, rfl, rfl⟩
  | none =>
      by_cases hcontrol : c.toNat < 32
      · exact .inr (.inl ⟨hcontrol, if_pos hcontrol⟩)
      · refine .inr (.inr ⟨hcontrol, ?_, ?_, if_neg hcontrol⟩)
        · rintro rfl
          cases he
        · rintro rfl
          cases he

/-- The short escape of a character denotes it. -/
theorem readEscape?_short {c e : Char} (h : shortEscape? c = some e) (rest : List Char) :
    readEscape? (e :: rest) = some (c, 1) := by
  unfold shortEscape? at h
  split at h <;> cases h <;> rfl

/-- The long escape of a control denotes it. -/
theorem readEscape?_unit {c : Char} (h : c.toNat < 32) (rest : List Char) :
    readEscape? ((unitEscape c.toNat).tail ++ rest) = some (c, 5) := by
  have hunit := readUnit?_hexDigits (show c.toNat < 65536 by omega) rest
  have hhigh : ¬ (0xD800 ≤ c.toNat && c.toNat ≤ 0xDBFF) = true := by simp; omega
  have hlow : ¬ (0xDC00 ≤ c.toNat && c.toNat ≤ 0xDFFF) = true := by simp; omega
  simp only [unitEscape, List.tail_cons, List.cons_append, List.nil_append, readEscape?,
    readUnitEscape?, hunit, Option.bind_eq_bind, Option.bind_some, if_neg hhigh, if_neg hlow, Char.ofNat_toNat,
    Option.map_some, Option.getD_some]

theorem readQuotedFrom_length (part rest : List Char) :
    readQuotedFrom part.length (part ++ rest) = readQuotedFrom 0 rest := by
  induction part with
  | nil => rfl
  | cons c part ih => exact ih

/-- An escape is read as one character. -/
theorem readQuotedFrom_escape (part : List Char) {c : Char} {rest : List Char}
    (h : readEscape? (part ++ rest) = some (c, part.length)) :
    readQuotedFrom 0 ('\\' :: (part ++ rest)) =
      (readQuotedFrom 0 rest).map fun (body, after) => (c :: body, after) := by
  rw [readQuotedFrom, if_neg (by decide), if_pos (by decide), h]
  dsimp only
  rw [readQuotedFrom_length]

/-- What is written for a character is read as that character. -/
theorem readQuotedFrom_escapeChar (c : Char) (rest : List Char) :
    readQuotedFrom 0 (escapeChar c ++ rest) = (readQuotedFrom 0 rest).map fun (body, after) => (c :: body, after) := by
  rcases escapeChar_cases c with ⟨e, he, heq⟩ | ⟨hcontrol, heq⟩ | ⟨hcontrol, hquote, hback, heq⟩
  · rw [heq]
    exact readQuotedFrom_escape [e] (readEscape?_short he rest)
  · rw [heq]
    exact readQuotedFrom_escape (unitEscape c.toNat).tail (readEscape?_unit hcontrol rest)
  · rw [heq, List.singleton_append, readQuotedFrom, if_neg (by simpa using hquote), if_neg (by simpa using hback),
      if_neg hcontrol]

/-- A text that is written between quotes is read back, up to the closing quote. -/
theorem readQuotedFrom_written (cs rest : List Char) :
    readQuotedFrom 0 (cs.flatMap escapeChar ++ '"' :: rest) = some (cs, rest) := by
  induction cs with
  | nil => rfl
  | cons c cs ih => rw [List.flatMap_cons, List.append_assoc, readQuotedFrom_escapeChar, ih, Option.map_some]

theorem unquote?_written (cs : List Char) : unquote? ('"' :: cs.flatMap escapeChar ++ ['"']) = some cs := by
  rw [List.cons_append, unquote?, readQuotedFrom_written]

/-! ## Single quotes -/

/-- A character as it stands inside single quotes; double quotes are left alone. -/
def escapeSingle (c : Char) : List Char :=
  if c = '\'' then ['\\', '\''] else if c = '"' then ['"'] else escapeChar c

/-- A string in single quotes. -/
def quoteSingle (s : String) : String :=
  String.ofList ('\'' :: s.toList.flatMap escapeSingle ++ ['\''])

/-- A character as it stands inside quotes that it is not. -/
def escapeUnquoted (c : Char) : List Char :=
  if c = '\'' ∨ c = '"' then [c] else escapeChar c

/-- Backslashes before single quotes are dropped. -/
def dropQuoteEscapes (cs : List Char) : List Char :=
  replaceFrom ['\\', '\''] ['\''] 0 cs

/-- A backslash before anything but a single quote stays. -/
theorem dropQuoteEscapes_backslash {cs : List Char} (h : cs.head? ≠ some '\'') :
    dropQuoteEscapes ('\\' :: cs) = '\\' :: dropQuoteEscapes cs := by
  have hstart : startsWith ['\\', '\''] ('\\' :: cs) = false := by
    cases cs with
    | nil => rfl
    | cons d cs =>
        have hd : ('\'' == d) = false := beq_eq_false_iff_ne.mpr fun heq => h (by rw [heq]; rfl)
        simp [startsWith, after?, hd]
  rw [dropQuoteEscapes, replaceFrom, hstart, if_neg Bool.false_ne_true]
  rfl

theorem dropQuoteEscapes_append (part : List Char) (h : '\\' ∉ part) (cs : List Char) :
    dropQuoteEscapes (part ++ cs) = part ++ dropQuoteEscapes cs := by
  induction part with
  | nil => rfl
  | cons c part ih =>
      rw [List.mem_cons, not_or] at h
      have hstart : startsWith ['\\', '\''] (c :: (part ++ cs)) = false := by simp [startsWith, after?, h.1]
      rw [List.cons_append, dropQuoteEscapes, replaceFrom, hstart, if_neg Bool.false_ne_true, List.cons_append]
      exact congrArg (c :: ·) (ih h.2)

theorem escapeSingle_of_ne {c : Char} (hsingle : c ≠ '\'') (hdouble : c ≠ '"') : escapeSingle c = escapeChar c := by
  rw [escapeSingle, if_neg hsingle, if_neg hdouble]

theorem escapeUnquoted_of_ne {c : Char} (hsingle : c ≠ '\'') (hdouble : c ≠ '"') :
    escapeUnquoted c = escapeChar c := by
  rw [escapeUnquoted, if_neg (not_or.mpr ⟨hsingle, hdouble⟩)]

/-- What is written for a character between single quotes does not start with one. -/
theorem exists_escapeSingle (c : Char) : ∃ d ds, escapeSingle c = d :: ds ∧ d ≠ '\'' := by
  by_cases hsingle : c = '\''
  · exact ⟨'\\', ['\''], if_pos hsingle, by decide⟩
  by_cases hdouble : c = '"'
  · exact ⟨'"', [], (if_neg hsingle).trans (if_pos hdouble), by decide⟩
  rw [escapeSingle_of_ne hsingle hdouble]
  rcases escapeChar_cases c with ⟨e, -, heq⟩ | ⟨-, heq⟩ | ⟨-, -, -, heq⟩
  · exact ⟨'\\', [e], heq, by decide⟩
  · exact ⟨'\\', _, heq, by decide⟩
  · exact ⟨c, [], heq, hsingle⟩

/-- No text that is written between single quotes starts with one. -/
theorem head?_flatMap_escapeSingle (cs : List Char) : (cs.flatMap escapeSingle).head? ≠ some '\'' := by
  cases cs with
  | nil => decide
  | cons c cs =>
      obtain ⟨d, ds, heq, hd⟩ := exists_escapeSingle c
      rw [List.flatMap_cons, heq]
      exact fun h => hd (Option.some.inj h)

/-- The escape of one character loses its backslash if that stands before a single quote. -/
theorem dropQuoteEscapes_escapeSingle (c : Char) {cs : List Char} (h : cs.head? ≠ some '\'') :
    dropQuoteEscapes (escapeSingle c ++ cs) = escapeUnquoted c ++ dropQuoteEscapes cs := by
  by_cases hsingle : c = '\''
  · rw [hsingle]
    rfl
  by_cases hdouble : c = '"'
  · rw [hdouble]
    exact dropQuoteEscapes_append ['"'] (by decide) cs
  rw [escapeSingle_of_ne hsingle hdouble, escapeUnquoted_of_ne hsingle hdouble]
  rcases escapeChar_cases c with ⟨e, he, heq⟩ | ⟨-, heq⟩ | ⟨-, -, hback, heq⟩
  · have hquote : e ≠ '\'' := by
      unfold shortEscape? at he
      split at he <;> cases he <;> decide
    have hnext : (e :: cs).head? ≠ some '\'' := fun h => hquote (Option.some.inj h)
    rw [heq, List.cons_append, List.singleton_append, dropQuoteEscapes_backslash hnext]
    by_cases hback : e = '\\'
    · rw [hback, dropQuoteEscapes_backslash h]
      rfl
    · exact congrArg ('\\' :: ·) (dropQuoteEscapes_append [e] (by simpa using Ne.symm hback) cs)
  · obtain ⟨digits, hdigits, hplain, -⟩ := exists_unitEscape c.toNat
    have hnext : ('u' :: (digits ++ cs)).head? ≠ some '\'' := fun h => absurd (Option.some.inj h) (by decide)
    have hu : '\\' ∉ 'u' :: digits := by simpa using hplain
    rw [heq, hdigits, List.cons_append, List.cons_append, dropQuoteEscapes_backslash hnext]
    exact congrArg ('\\' :: ·) (dropQuoteEscapes_append ('u' :: digits) hu cs)
  · rw [heq]
    exact dropQuoteEscapes_append [c] (by simpa using Ne.symm hback) cs

/-- Single quotes lose their backslashes, and nothing else changes. -/
theorem dropQuoteEscapes_flatMap (cs : List Char) :
    dropQuoteEscapes (cs.flatMap escapeSingle) = cs.flatMap escapeUnquoted := by
  induction cs with
  | nil => rfl
  | cons c cs ih =>
      rw [List.flatMap_cons, dropQuoteEscapes_escapeSingle c (head?_flatMap_escapeSingle cs), ih, List.flatMap_cons]

/-- Double quotes get their backslashes. -/
theorem flatMap_escapeUnquoted (c : Char) :
    ((escapeUnquoted c).flatMap fun d => if d = '"' then ['\\', '"'] else [d]) = escapeChar c := by
  by_cases hquote : c = '\'' ∨ c = '"'
  · rcases hquote with rfl | rfl <;> rfl
  obtain ⟨hsingle, hdouble⟩ := not_or.mp hquote
  have hplain : '"' ∉ escapeChar c := by
    rcases escapeChar_cases c with ⟨e, he, heq⟩ | ⟨-, heq⟩ | ⟨-, -, -, heq⟩
    · have he' : e ≠ '"' := by
        unfold shortEscape? at he
        split at he <;> cases he <;> first | exact absurd rfl hdouble | decide
      rw [heq]
      simpa using Ne.symm he'
    · obtain ⟨digits, hdigits, -, hmem⟩ := exists_unitEscape c.toNat
      rw [heq, hdigits]
      simpa using hmem
    · rw [heq]
      simpa using Ne.symm hdouble
  rw [escapeUnquoted_of_ne hsingle hdouble]
  calc (escapeChar c).flatMap (fun d => if d = '"' then ['\\', '"'] else [d])
      = (escapeChar c).flatMap fun d => [d] :=
        List.flatMap_congr fun d hd => if_neg fun (h : d = '"') => hplain (h ▸ hd)
    _ = escapeChar c := List.flatMap_singleton' _

/-- A text between single quotes becomes the text that is written between double quotes. -/
theorem requoted (cs : List Char) :
    replaceAll ['"'] ['\\', '"'] (replaceAll ['\\', '\''] ['\''] (cs.flatMap escapeSingle)) =
      cs.flatMap escapeChar := by
  have hdrop : replaceAll ['\\', '\''] ['\''] (cs.flatMap escapeSingle) = cs.flatMap escapeUnquoted :=
    dropQuoteEscapes_flatMap cs
  rw [hdrop, replaceAll_single, List.flatMap_assoc]
  exact List.flatMap_congr fun c _ => flatMap_escapeUnquoted c

/-! ## Texts without escapes -/

/-- Where every escape has a backslash, a text without backslashes has been written as it is. -/
theorem flatMap_eq_of_plain {escape : Char → List Char} (hescape : ∀ c, escape c = [c] ∨ '\\' ∈ escape c)
    {cs : List Char} (h : '\\' ∉ cs.flatMap escape) : cs.flatMap escape = cs := by
  induction cs with
  | nil => rfl
  | cons c cs ih =>
      rw [List.flatMap_cons, List.mem_append, not_or] at h
      rw [List.flatMap_cons, (hescape c).resolve_right h.1, ih h.2, List.singleton_append]

theorem escapeChar_marked (c : Char) : escapeChar c = [c] ∨ '\\' ∈ escapeChar c := by
  rcases escapeChar_cases c with ⟨e, -, heq⟩ | ⟨-, heq⟩ | ⟨-, -, -, heq⟩
  · exact .inr (heq ▸ List.mem_cons_self)
  · exact .inr (heq ▸ List.mem_cons_self)
  · exact .inl heq

theorem escapeSingle_marked (c : Char) : escapeSingle c = [c] ∨ '\\' ∈ escapeSingle c := by
  by_cases hsingle : c = '\''
  · exact .inr (by rw [escapeSingle, if_pos hsingle]; exact List.mem_cons_self)
  by_cases hdouble : c = '"'
  · exact .inl (by rw [hdouble]; rfl)
  rw [escapeSingle_of_ne hsingle hdouble]
  exact escapeChar_marked c

end Restyle.Text

namespace Restyle.Tsx

open Restyle.Text

/-- The text of a string that is written in a certain way, from its body after it has been written anew. -/
theorem stringValue_quoted {q : Char} (hq : (q == '\'' || q == '"') = true) {body anew cs : List Char}
    (hplain : '\\' ∉ body → body = cs)
    (hanew : (if q == '\'' then replaceAll ['"'] ['\\', '"'] (replaceAll ['\\', '\''] ['\''] body) else body) = anew)
    (hread : unquote? ('"' :: anew ++ ['"']) = some cs) :
    stringValue (String.ofList (q :: body ++ [q])) = String.ofList cs := by
  have hguard : ((q == '\'' || q == '"') && !(body ++ [q]).isEmpty && (body ++ [q]).getLast? == some q) = true := by
    simp [hq]
  rw [stringValue, String.toList_ofList, List.cons_append]
  dsimp only
  rw [if_pos hguard, List.dropLast_concat]
  by_cases hback : '\\' ∈ body
  · rw [if_neg (by simpa using hback), hanew, hread]
  · rw [if_pos (by simpa using hback), hplain hback]

/--
Every text is what its string denotes, in double quotes as well as in single ones, whatever backslashes and
quotes of either kind stand in it.
-/
theorem stringValue_reads_back (s : String) : stringValue (quote s) = s ∧ stringValue (quoteSingle s) = s := by
  have hdouble : stringValue (quote s) = String.ofList s.toList :=
    stringValue_quoted (by decide) (flatMap_eq_of_plain escapeChar_marked) (if_neg (by decide)) (unquote?_written _)
  have hsingle : stringValue (quoteSingle s) = String.ofList s.toList :=
    stringValue_quoted (by decide) (flatMap_eq_of_plain escapeSingle_marked) ((if_pos (by decide)).trans (requoted _))
      (unquote?_written _)
  exact ⟨hdouble.trans String.ofList_toList, hsingle.trans String.ofList_toList⟩

end Restyle.Tsx
