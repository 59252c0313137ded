import Restyle.Proofs.Filling
import Restyle.Style.Join

/-!
# Template literals

A template literal is read in two steps: its text is split into portions and expressions, and the portions are
cooked.  What joins static text and expressions is read back as these expressions with the texts between them.
-/

namespace Restyle.Text

/-- Replacing one character works on every character by itself. -/
theorem replaceAll_single (old : Char) (new cs : List Char) :
    replaceAll [old] new cs = cs.flatMap fun c => if c = old then new else [c] := by
  rw [replaceAll, if_neg (by simp)]
  induction cs with
  | nil => rfl
  | cons c cs ih =>
      rw [replaceFrom, List.flatMap_cons]
      by_cases hc : c = old
      · rw [if_pos hc, if_pos (by simp [startsWith, after?, hc]), Css.Slot.replaceFrom_eq_drop, List.length_singleton,
          List.drop_zero, ih]
      · have hstart : startsWith [old] (c :: cs) = false := by simp [startsWith, after?, Ne.symm hc]
        rw [if_neg hc, hstart, if_neg Bool.false_ne_true, ih, List.singleton_append]

end Restyle.Text

namespace Restyle.TemplateLiteral

/-! ## Reading a template literal -/

/-- How many characters the expression at the start of a text takes, if one stands there. -/
abbrev ExpressionReader := List Char → Option Nat

/-- What is read in a template literal: a portion of text, and the expressions with the portions after them. -/
structure Reading where
  head : List Char := []
  rest : List (String × List Char) := []
  deriving DecidableEq, Repr

/-- The portions of text, as they are written. -/
def Reading.portions (l : Reading) : List (List Char) :=
  l.head :: l.rest.map (·.2)

/-- The expressions. -/
def Reading.codes (l : Reading) : List String :=
  l.rest.map (·.1)

/-- Puts characters in front. -/
def Reading.prepend (cs : List Char) (l : Reading) : Reading :=
  { l with head := cs ++ l.head }

/-- Puts an expression in front. -/
def Reading.embed (code : String) (l : Reading) : Reading :=
  { rest := (code, l.head) :: l.rest }

/--
Reads a template literal after its first backtick.  A backslash takes the next character with it.  `skip` counts
the characters that belong to an expression already read.
-/
def bodyFrom? (reader : ExpressionReader) : Nat → List Char → Option Reading
  | _, [] => none
  | skip + 1, _ :: cs => bodyFrom? reader skip cs
  | 0, '\\' :: c :: cs => (bodyFrom? reader 0 cs).map (Reading.prepend ['\\', c])
  | 0, '$' :: '{' :: cs =>
    match reader cs with
    | some length =>
      if (cs.drop length).head? = some '}' then
        (bodyFrom? reader (length + 1) cs).map (Reading.embed (String.ofList (cs.take length)))
      else none
    | none => none
  | 0, c :: cs =>
    if c = '\x60' then (if cs.isEmpty then some {} else none)
    else (bodyFrom? reader 0 cs).map (Reading.prepend [c])

/-- Reads a text that is a template literal and nothing else. -/
def read? (reader : ExpressionReader) : List Char → Option Reading
  | '\x60' :: cs => bodyFrom? reader 0 cs
  | _ => none

/-! ## Cooking a portion -/

/-- Line ends are single line feeds. -/
def unifyLines : List Char → List Char
  | [] => []
  | '\r' :: '\n' :: cs => '\n' :: unifyLines cs
  | c :: cs => (if c = '\r' then '\n' else c) :: unifyLines cs

/--
What a character stands for after a backslash; nothing for a line end.  Those that start a longer escape have
no reading.
-/
def escaped? (c : Char) : Option (List Char) :=
  match c with
  | '\n' | '\u2028' | '\u2029' => some []
  | 'b' => some ['\x08']
  | 'f' => some ['\x0c']
  | 'n' => some ['\n']
  | 'r' => some ['\r']
  | 't' => some ['\t']
  | 'v' => some ['\x0b']
  | 'u' | 'x' => none
  | c => if c.isDigit then none else some [c]

/-- Carries out the escapes. -/
def unescape? : List Char → Option (List Char)
  | [] => some []
  | '\\' :: c :: cs => do
    let meant ← escaped? c
    let more ← unescape? cs
    return meant ++ more
  | c :: cs => if c = '\\' then none else (unescape? cs).map (c :: ·)

/-- The characters that a portion stands for. -/
def cook? (portion : List Char) : Option (List Char) :=
  unescape? (unifyLines portion)

/-- The value of what stands after the first portion, for values of the expressions and their places. -/
def restValue? (value : Nat → String → String) : Nat → List (String × List Char) → Option (List Char)
  | _, [] => some []
  | place, (code, portion) :: rest => do
    let cooked ← cook? portion
    let more ← restValue? value (place + 1) rest
    return (value place code).toList ++ cooked ++ more

/-- The value of a reading whose expressions have their places from `place` on. -/
def Reading.valueFrom? (l : Reading) (value : Nat → String → String) (place : Nat) : Option (List Char) := do
  let cooked ← cook? l.head
  let more ← restValue? value place l.rest
  return cooked ++ more

/-- The value of a reading, for values of its expressions and their places. -/
def Reading.value? (l : Reading) (value : Nat → String → String) : Option (List Char) :=
  l.valueFrom? value 0

/-! ## Portions -/

/-- No backtick and no start of an expression stand in a portion, except after a backslash. -/
def isClosed : List Char → Bool
  | [] => true
  | '\\' :: _ :: cs => isClosed cs
  | '$' :: '{' :: _ => false
  | c :: cs => c != '\\' && c != '\x60' && isClosed cs

theorem isClosed_cons {c : Char} {cs : List Char} (hslot : c = '$' → cs.head? ≠ some '{') (hescape : c ≠ '\\') :
    isClosed (c :: cs) = (c != '\x60' && isClosed cs) := by
  rw [isClosed]
  · rw [bne_iff_ne.mpr hescape, Bool.true_and]
  · exact fun _ _ heq _ => hescape heq
  · rintro ds rfl rfl
    exact hslot rfl rfl

theorem bodyFrom?_cons (reader : ExpressionReader) {c : Char} {cs : List Char} (hescape : c ≠ '\\')
    (hquote : c ≠ '\x60') (hslot : c = '$' → cs.head? ≠ some '{') :
    bodyFrom? reader 0 (c :: cs) = (bodyFrom? reader 0 cs).map (Reading.prepend [c]) := by
  rw [bodyFrom?]
  · rw [if_neg hquote]
  · exact fun _ _ heq _ => hescape heq
  · rintro ds rfl rfl
    exact hslot rfl rfl

/-- A closed portion is read as it is. -/
theorem bodyFrom?_append {portion : List Char} (h : isClosed portion = true) (reader : ExpressionReader)
    {tail : List Char} (htail : tail.head? ≠ some '{') :
    bodyFrom? reader 0 (portion ++ tail) = (bodyFrom? reader 0 tail).map (Reading.prepend portion) := by
  induction portion using isClosed.induct with
  | case1 => exact Option.map_id'.symm
  | case2 c cs ih =>
      rw [List.cons_append, List.cons_append, bodyFrom?, ih (by simpa [isClosed] using h), Option.map_map]
      rfl
  | case3 => cases h
  | case4 c cs hescaped hslot ih =>
      rw [isClosed] at h
      · obtain ⟨hsigns, hcs⟩ := Bool.and_eq_true_iff.mp h
        have hsigns : c ≠ '\\' ∧ c ≠ '\x60' := by simpa using hsigns
        -- A dollar sign at the end of the portion must not meet a brace in what follows.
        have hnext : c = '$' → (cs ++ tail).head? ≠ some '{' := by
          rintro rfl hhead
          cases cs with
          | nil => exact htail hhead
          | cons d cs => exact hslot cs rfl (by rw [Option.some.inj hhead])
        rw [List.cons_append, bodyFrom?_cons reader hsigns.1 hsigns.2 hnext, ih hcs, Option.map_map]
        rfl
      · exact hescaped
      · exact hslot

/-! ## Escaped text -/

/-- A character as it is escaped before anything else is. -/
def escape (c : Char) : List Char :=
  if c = '\\' ∨ c = '\x60' then ['\\', c] else [c]

/-- A text as it is written in a portion. -/
def written : List Char → List Char
  | [] => []
  | '$' :: '{' :: cs => '\\' :: '$' :: '{' :: written cs
  | c :: cs => escape c ++ written cs

theorem written_cons {c : Char} {cs : List Char} (h : c = '$' → cs.head? ≠ some '{') :
    written (c :: cs) = escape c ++ written cs := by
  rw [written]
  rintro ds rfl rfl
  exact h rfl rfl

/-- How the text goes on: with the start of an expression, or with a character that is none. -/
theorem written_induction {motive : List Char → Prop} (nil : motive [])
    (slot : ∀ cs, motive cs → motive ('$' :: '{' :: cs))
    (cons : ∀ c cs, (c = '$' → cs.head? ≠ some '{') → motive cs → motive (c :: cs)) : ∀ cs, motive cs := by
  intro cs
  induction cs using written.induct with
  | case1 => exact nil
  | case2 cs ih => exact slot cs ih
  | case3 c cs hslot ih =>
      refine cons c cs ?_ ih
      rintro rfl hhead
      cases cs with
      | nil => cases hhead
      | cons d cs => exact hslot cs rfl (by rw [Option.some.inj hhead])

theorem head?_written_iff {d : Char} (hslot : d ≠ '$') (hescape : d ≠ '\\') (hquote : d ≠ '\x60')
    (cs : List Char) : (written cs).head? = some d ↔ cs.head? = some d := by
  induction cs using written_induction with
  | nil => rfl
  | slot cs =>
      rw [written, List.head?_cons, List.head?_cons, Option.some.injEq, Option.some.injEq]
      exact iff_of_false hescape.symm hslot.symm
  | cons c cs hnext =>
      rw [written_cons hnext, escape, List.head?_cons, Option.some.injEq]
      split
      · next hsign =>
          rw [List.cons_append, List.head?_cons, Option.some.injEq]
          refine iff_of_false hescape.symm ?_
          rintro rfl
          rcases hsign with hsign | hsign
          · exact hescape hsign
          · exact hquote hsign
      · rw [List.cons_append, List.head?_cons, Option.some.injEq]

/-- An escaped text is a portion. -/
theorem isClosed_written (cs : List Char) : isClosed (written cs) = true := by
  induction cs using written_induction with
  | nil => rfl
  | slot cs ih =>
      refine (isClosed_cons (c := '{') ?_ (by decide)).trans ?_
      · exact fun h => absurd h (by decide)
      · exact ih
  | cons c cs hslot ih =>
      rw [written_cons hslot, escape]
      split
      · exact ih
      · next hplain =>
          obtain ⟨hescape, hquote⟩ := not_or.mp hplain
          have hnext : c = '$' → (written cs).head? ≠ some '{' := fun hc =>
            mt (head?_written_iff (by decide) (by decide) (by decide) cs).mp (hslot hc)
          rw [List.singleton_append, isClosed_cons hnext hescape, ih, bne_iff_ne.mpr hquote]
          rfl

theorem toList_escapeBackticks (s : String) : (Style.escapeBackticks s).toList = s.toList.flatMap escape := by
  have hbackslash : (Text.replace "\\" "\\\\" s).toList =
      s.toList.flatMap fun c => if c = '\\' then ['\\', '\\'] else [c] := by
    rw [Text.replace, String.toList_ofList]
    exact Text.replaceAll_single '\\' _ _
  have hquote (t : String) : (Text.replace "\x60" "\\\x60" t).toList =
      t.toList.flatMap fun c => if c = '\x60' then ['\\', '\x60'] else [c] := by
    rw [Text.replace, String.toList_ofList]
    exact Text.replaceAll_single '\x60' _ _
  rw [Style.escapeBackticks, hquote, hbackslash, List.flatMap_assoc]
  refine congrArg (List.flatMap · s.toList) (funext fun c => ?_)
  by_cases hescape : c = '\\'
  · rw [hescape]
    rfl
  · by_cases hquote : c = '\x60'
    · rw [hquote]
      rfl
    · simp [escape, hescape, hquote]

theorem head?_flatMap_escape {cs : List Char} (h : (cs.flatMap escape).head? = some '{') : cs.head? = some '{' := by
  cases cs with
  | nil => exact h
  | cons c cs =>
      rw [List.flatMap_cons, escape] at h
      split at h
      · exact absurd (Option.some.inj h) (by decide)
      · exact h

theorem startsWith_slot_eq_false {c : Char} {cs : List Char} (h : c = '$' → cs.head? ≠ some '{') :
    Text.startsWith ['$', '{'] (c :: cs) = false := by
  rw [Bool.eq_false_iff, Ne, Text.startsWith_iff]
  rintro ⟨rest, heq⟩
  obtain ⟨hc, hcs⟩ := List.cons.inj heq
  exact h hc.symm (by rw [← hcs]; rfl)

/-- Escaping the starts of expressions too gives the text as it is written. -/
theorem replaceFrom_slot_flatMap (cs : List Char) :
    Text.replaceFrom ['$', '{'] ['\\', '$', '{'] 0 (cs.flatMap escape) = written cs := by
  have hstep {c : Char} {ds : List Char} (h : c = '$' → ds.head? ≠ some '{') :
      Text.replaceFrom ['$', '{'] ['\\', '$', '{'] 0 (c :: ds) =
        c :: Text.replaceFrom ['$', '{'] ['\\', '$', '{'] 0 ds := by
    rw [Text.replaceFrom, startsWith_slot_eq_false h, if_neg Bool.false_ne_true]
  induction cs using written_induction with
  | nil => rfl
  | slot cs ih =>
      have hstart : Text.startsWith ['$', '{'] ('$' :: '{' :: cs.flatMap escape) = true := rfl
      have hwhole : ('$' :: '{' :: cs).flatMap escape = '$' :: '{' :: cs.flatMap escape := rfl
      rw [hwhole, Text.replaceFrom, if_pos hstart, Css.Slot.replaceFrom_eq_drop, written, ← ih]
      rfl
  | cons c cs hslot ih =>
      have hnext : c = '$' → (cs.flatMap escape).head? ≠ some '{' := fun hc => mt head?_flatMap_escape (hslot hc)
      rw [List.flatMap_cons, written_cons hslot, escape]
      have hescape : '\\' = '$' → (c :: cs.flatMap escape).head? ≠ some '{' := fun h => absurd h (by decide)
      split
      · rw [List.cons_append, List.singleton_append, hstep hescape, hstep hnext, ih]
        rfl
      · rw [List.singleton_append, hstep hnext, ih]
        rfl

theorem toList_templateText (s : String) : (Style.templateText s).toList = written s.toList := by
  rw [Style.templateText, Text.replace, String.toList_ofList, toList_escapeBackticks]
  exact replaceFrom_slot_flatMap s.toList

/-! ## Cooking escaped text -/

theorem unifyLines_cons {c : Char} (h : c ≠ '\r') (cs : List Char) :
    unifyLines (c :: cs) = c :: unifyLines cs := by
  rw [unifyLines]
  · rw [if_neg h]
  · exact fun _ heq _ => h heq

theorem unifyLines_of_not_mem {cs : List Char} (h : '\r' ∉ cs) : unifyLines cs = cs := by
  induction cs with
  | nil => rfl
  | cons c cs ih =>
      obtain ⟨hc, hcs⟩ := not_or.mp (mt List.mem_cons.mpr h)
      rw [unifyLines_cons (Ne.symm hc), ih hcs]

theorem unescape?_cons {c : Char} (h : c ≠ '\\') (cs : List Char) :
    unescape? (c :: cs) = (unescape? cs).map (c :: ·) := by
  rw [unescape?]
  · rw [if_neg h]
  · exact fun _ _ heq _ => h heq

theorem unescape?_sign {c : Char} (h : escaped? c = some [c]) (cs : List Char) :
    unescape? ('\\' :: c :: cs) = (unescape? cs).map (c :: ·) := by
  rw [unescape?, h]
  cases unescape? cs <;> rfl

theorem unescape?_written (cs : List Char) : unescape? (written cs) = some cs := by
  induction cs using written_induction with
  | nil => rfl
  | slot cs ih =>
      rw [written, unescape?_sign rfl, unescape?_cons (by decide), ih]
      rfl
  | cons c cs hslot ih =>
      rw [written_cons hslot, escape]
      split
      · next hsign =>
          have hmeant : escaped? c = some [c] := by rcases hsign with rfl | rfl <;> rfl
          rw [List.cons_append, List.singleton_append, unescape?_sign hmeant, ih]
          rfl
      · next hplain =>
          rw [List.singleton_append, unescape?_cons (not_or.mp hplain).1, ih]
          rfl

theorem unifyLines_return (cs : List Char) :
    unifyLines ('\r' :: cs) = if cs.head? = some '\n' then unifyLines cs else '\n' :: unifyLines cs := by
  split
  · next hhead =>
      obtain ⟨ds, rfl⟩ := List.head?_eq_some_iff.mp hhead
      rfl
  · next hhead =>
      rw [unifyLines]
      · rfl
      · rintro ds - rfl
        exact hhead rfl

theorem head?_unifyLines {cs : List Char} (h : (unifyLines cs).head? = some '{') : cs.head? = some '{' := by
  cases cs with
  | nil => exact h
  | cons c cs =>
      by_cases hreturn : c = '\r'
      · subst hreturn
        rw [unifyLines_return] at h
        split at h
        · next hhead =>
            obtain ⟨ds, rfl⟩ := List.head?_eq_some_iff.mp hhead
            exact absurd (Option.some.inj h) (by decide)
        · exact absurd (Option.some.inj h) (by decide)
      · rw [unifyLines_cons hreturn] at h
        exact h

theorem unifyLines_written (cs : List Char) : unifyLines (written cs) = written (unifyLines cs) := by
  have hbreak (ds : List Char) : written ('\n' :: ds) = '\n' :: written ds := written_cons nofun
  induction cs using written_induction with
  | nil => rfl
  | slot cs ih =>
      rw [written, unifyLines_cons (by decide), unifyLines_cons (by decide), unifyLines_cons (by decide), ih,
        unifyLines_cons (by decide), unifyLines_cons (by decide)]
      rfl
  | cons c cs hslot ih =>
      by_cases hreturn : c = '\r'
      · -- A carriage return goes with the line feed after it, so what counts is whether escaping keeps that one.
        subst hreturn
        have hplain : written ('\r' :: cs) = '\r' :: written cs := written_cons nofun
        rw [hplain, unifyLines_return, unifyLines_return, ih]
        simp only [head?_written_iff (by decide : '\n' ≠ '$') (by decide) (by decide)]
        split
        · rfl
        · exact (hbreak _).symm
      · have hnext : c = '$' → (unifyLines cs).head? ≠ some '{' := fun hc => mt head?_unifyLines (hslot hc)
        rw [written_cons hslot, unifyLines_cons hreturn, written_cons hnext, ← ih, escape]
        split
        · rw [List.cons_append, List.singleton_append, unifyLines_cons (by decide), unifyLines_cons hreturn]
          rfl
        · rw [List.singleton_append, unifyLines_cons hreturn]
          rfl

/-- An escaped text stands for the text itself, with line ends unified. -/
theorem cook?_written (cs : List Char) : cook? (written cs) = some (unifyLines cs) := by
  rw [cook?, unifyLines_written, unescape?_written]

/-! ## Joined parts -/

/-- An expression is read up to the brace after it, whatever follows the brace. -/
def Takes (reader : ExpressionReader) (code : String) : Prop :=
  ∀ rest, reader (code.toList ++ '}' :: rest) = some code.toList.length

theorem bodyFrom?_eq_drop (reader : ExpressionReader) (skip : Nat) (cs : List Char) :
    bodyFrom? reader skip cs = bodyFrom? reader 0 (cs.drop skip) := by
  induction cs generalizing skip with
  | nil => cases skip <;> rfl
  | cons c cs ih =>
      cases skip with
      | zero => rfl
      | succ skip => exact ih skip

theorem bodyFrom?_slot {reader : ExpressionReader} {code : String} (h : Takes reader code) (tail : List Char) :
    bodyFrom? reader 0 ('$' :: '{' :: (code.toList ++ '}' :: tail)) =
      (bodyFrom? reader 0 tail).map (Reading.embed code) := by
  have hdrop : (code.toList ++ '}' :: tail).drop (code.toList.length + 1) = tail := by simp
  rw [bodyFrom?, h tail]
  dsimp only
  rw [List.drop_left, if_pos (by rfl), bodyFrom?_eq_drop, hdrop, List.take_left, String.ofList_toList]

/-- Texts and expressions, and no two texts side by side. -/
inductive Alternates (reader : ExpressionReader) : List Style.Value → Prop
  | nil : Alternates reader []
  | text {s : String} {parts : List Style.Value} (hnext : ∀ part ∈ parts.head?, Style.isExpression part = true)
      (hparts : Alternates reader parts) : Alternates reader (.text s :: parts)
  | code {code : String} {parts : List Style.Value} (htakes : Takes reader code)
      (hparts : Alternates reader parts) : Alternates reader (.js code :: parts)

/-- The expressions among parts. -/
def codesOf (parts : List Style.Value) : List String :=
  parts.filterMap fun
    | .js code => some code
    | _ => none

/-- What parts amount to, for values of the expressions and their places. -/
def concatenation (value : Nat → String → String) : Nat → List Style.Value → List Char
  | _, [] => []
  | place, .js code :: parts => (value place code).toList ++ concatenation value (place + 1) parts
  | place, part :: parts => (Style.spelled part).toList ++ concatenation value place parts

/-- A part with unified line ends. -/
def unified : Style.Value → Style.Value
  | .text s => .text (String.ofList (unifyLines s.toList))
  | part => part

/-- The reading of the template literal that parts are joined to. -/
def readingOf : List Style.Value → Reading
  | [] => {}
  | .js code :: parts => (readingOf parts).embed code
  | part :: parts => (readingOf parts).prepend (written (Style.spelled part).toList)

/-- The text of that template literal between its backticks. -/
def insideOf (parts : List Style.Value) : List Char :=
  parts.flatMap fun part => (Style.templatePiece part).toList

theorem head_readingOf {parts : List Style.Value} (h : ∀ part ∈ parts.head?, Style.isExpression part = true) :
    (readingOf parts).head = [] := by
  cases parts with
  | nil => rfl
  | cons part parts =>
      have hpart := h part rfl
      cases part with
      | js code => rfl
      | _ => cases hpart

theorem toList_templateSlot (code : String) :
    (Style.templateSlot code).toList = '$' :: '{' :: (code.toList ++ ['}']) := by
  have hopen : "$\x7b".toList = ['$', '{'] := rfl
  have hclose : "\x7d".toList = ['}'] := rfl
  rw [Style.templateSlot, String.toList_append, String.toList_append, hopen, hclose, List.append_assoc,
    List.cons_append, List.singleton_append]

theorem insideOf_code (code : String) (parts : List Style.Value) :
    insideOf (.js code :: parts) = '$' :: '{' :: (code.toList ++ '}' :: insideOf parts) := by
  have hpiece : (Style.templatePiece (.js code)).toList = '$' :: '{' :: (code.toList ++ ['}']) :=
    toList_templateSlot code
  simp only [insideOf, List.flatMap_cons, hpiece, List.cons_append, List.append_assoc, List.nil_append]

theorem insideOf_text (s : String) (parts : List Style.Value) :
    insideOf (.text s :: parts) = written s.toList ++ insideOf parts := by
  rw [← toList_templateText]
  rfl

/-- What follows a text does not turn its last character into the start of an expression. -/
theorem head?_insideOf {parts : List Style.Value} (h : ∀ part ∈ parts.head?, Style.isExpression part = true) :
    (insideOf parts ++ ['\x60']).head? ≠ some '{' := by
  cases parts with
  | nil => decide
  | cons part parts =>
      have hpart := h part rfl
      cases part with
      | js code =>
          rw [insideOf_code]
          exact fun hhead => absurd (Option.some.inj hhead) (by decide)
      | _ => cases hpart

/-- The inside of the joined parts is read in that way. -/
theorem bodyFrom?_insideOf {reader : ExpressionReader} {parts : List Style.Value} (h : Alternates reader parts) :
    bodyFrom? reader 0 (insideOf parts ++ ['\x60']) = some (readingOf parts) := by
  induction h with
  | nil => rfl
  | @text s parts hnext hparts ih =>
      rw [insideOf_text, List.append_assoc, bodyFrom?_append (isClosed_written _) reader (head?_insideOf hnext), ih]
      rfl
  | @code code parts htakes hparts ih =>
      have hinside : insideOf (.js code :: parts) ++ ['\x60'] =
          '$' :: '{' :: (code.toList ++ '}' :: (insideOf parts ++ ['\x60'])) := by
        rw [insideOf_code, List.cons_append, List.cons_append, List.append_assoc, List.cons_append]
      rw [hinside, bodyFrom?_slot htakes, ih]
      rfl

theorem isClosed_of_mem_portions {reader : ExpressionReader} {parts : List Style.Value}
    (h : Alternates reader parts) : ∀ portion ∈ (readingOf parts).portions, isClosed portion = true := by
  induction h with
  | nil => exact fun portion hportion => by rw [List.mem_singleton.mp hportion]; rfl
  | @text s parts hnext hparts ih =>
      intro portion hportion
      rcases List.mem_cons.mp hportion with rfl | hportion
      · have hhead : (readingOf (.text s :: parts)).head = written s.toList ++ (readingOf parts).head := rfl
        rw [hhead, head_readingOf hnext, List.append_nil]
        exact isClosed_written _
      · exact ih portion (List.mem_cons_of_mem _ hportion)
  | @code code parts htakes hparts ih =>
      intro portion hportion
      rcases List.mem_cons.mp hportion with rfl | hportion
      · rfl
      · exact ih portion hportion

theorem codes_readingOf {reader : ExpressionReader} {parts : List Style.Value} (h : Alternates reader parts) :
    (readingOf parts).codes = codesOf parts := by
  induction h with
  | nil => rfl
  | text hnext hparts ih => exact ih
  | code htakes hparts ih => exact congrArg _ ih

theorem valueFrom?_embed (l : Reading) (code : String) (value : Nat → String → String) (place : Nat) :
    (l.embed code).valueFrom? value place =
      (l.valueFrom? value (place + 1)).map ((value place code).toList ++ ·) := by
  have hnone : cook? [] = some [] := rfl
  simp only [Reading.valueFrom?, Reading.embed, restValue?, hnone]
  cases cook? l.head with
  | none => rfl
  | some cooked =>
      cases restValue? value (place + 1) l.rest with
      | none => rfl
      | some more => exact congrArg some (List.append_assoc _ _ _)

theorem valueFrom?_prepend {l : Reading} (h : l.head = []) {portion cooked : List Char}
    (hcook : cook? portion = some cooked) (value : Nat → String → String) (place : Nat) :
    (l.prepend portion).valueFrom? value place = (l.valueFrom? value place).map (cooked ++ ·) := by
  have hnone : cook? [] = some [] := rfl
  simp only [Reading.valueFrom?, Reading.prepend, h, List.append_nil, hcook, hnone]
  cases restValue? value place l.rest <;> rfl

/-- The value of the reading, with places of expressions from any number on. -/
theorem valueFrom?_readingOf {reader : ExpressionReader} {parts : List Style.Value} (h : Alternates reader parts)
    (value : Nat → String → String) (place : Nat) :
    (readingOf parts).valueFrom? value place = some (concatenation value place (parts.map unified)) := by
  induction h generalizing place with
  | nil => rfl
  | @text s parts hnext hparts ih =>
      refine (valueFrom?_prepend (head_readingOf hnext) (cook?_written s.toList) value place).trans ?_
      have hspelled : (Style.spelled (unified (.text s))).toList = unifyLines s.toList := String.toList_ofList
      rw [ih, ← hspelled]
      rfl
  | @code code parts htakes hparts ih =>
      exact (valueFrom?_embed _ code value place).trans (by rw [ih]; rfl)

theorem map_unified {parts : List Style.Value} (h : ∀ s, Style.Value.text s ∈ parts → '\r' ∉ s.toList) :
    parts.map unified = parts := by
  refine List.map_congr_left (fun part hpart => ?_) |>.trans (List.map_id parts)
  cases part with
  | text s => rw [unified, unifyLines_of_not_mem (h s hpart), String.ofList_toList, id]
  | _ => rfl

theorem insideOf_filter (parts : List Style.Value) :
    insideOf (parts.filter fun part => !Style.isEmptyText part) = insideOf parts := by
  induction parts with
  | nil => rfl
  | cons part parts ih =>
      by_cases hempty : Style.isEmptyText part = true
      · have hnone : (Style.templatePiece part).toList = [] := by
          cases part with
          | text s =>
              rw [String.isEmpty_iff.mp hempty]
              rfl
          | _ => cases hempty
        rw [List.filter_cons_of_neg (by simpa using hempty), ih, insideOf, insideOf, List.flatMap_cons, hnone,
          List.nil_append]
      · rw [List.filter_cons_of_pos (by simpa using hempty), insideOf, List.flatMap_cons, ← insideOf, ih]
        rfl

/-- Parts with an expression among them, two of them not empty, are joined to a template literal. -/
theorem joinParts_eq {parts : List Style.Value} (hcode : ∃ code, Style.Value.js code ∈ parts)
    (htwo : 2 ≤ (parts.filter fun part => !Style.isEmptyText part).length) :
    ∃ code, Style.joinParts parts = .js code ∧ code.toList = '\x60' :: (insideOf parts ++ ['\x60']) := by
  have hkept : ∃ code, Style.Value.js code ∈ parts.filter fun part => !Style.isEmptyText part := by
    obtain ⟨code, hmem⟩ := hcode
    exact ⟨code, List.mem_filter.mpr ⟨hmem, rfl⟩⟩
  have hinside := insideOf_filter parts
  unfold Style.joinParts
  generalize parts.filter (fun part => !Style.isEmptyText part) = kept at *
  match kept with
  | [] => exact absurd htwo (by decide)
  | [_] => exact absurd htwo (by simp)
  | first :: second :: more =>
      have hmixed : ¬ ((first :: second :: more).all fun part => !Style.isExpression part) = true := by
        intro hall
        obtain ⟨code, hmem⟩ := hkept
        exact Bool.false_ne_true (List.all_eq_true.mp hall _ hmem)
      dsimp only
      rw [if_neg hmixed]
      refine ⟨_, rfl, ?_⟩
      rw [← hinside, String.toList_append, String.toList_append, String.toList_join, List.flatMap_map]
      rfl

/--
Texts and expressions are joined to a template literal.  It is read as these expressions, no backtick and no start
of an expression stands unescaped between them, and its value is what the parts amount to.
-/
theorem joinParts_reads_back {reader : ExpressionReader} {parts : List Style.Value}
    (hparts : Alternates reader parts) (hlines : ∀ s, Style.Value.text s ∈ parts → '\r' ∉ s.toList)
    (hcode : ∃ code, Style.Value.js code ∈ parts)
    (htwo : 2 ≤ (parts.filter fun part => !Style.isEmptyText part).length) :
    ∃ code reading, Style.joinParts parts = .js code ∧ read? reader code.toList = some reading ∧
      (∀ portion ∈ reading.portions, isClosed portion = true) ∧ reading.codes = codesOf parts ∧
      ∀ value, reading.value? value = some (concatenation value 0 parts) := by
  obtain ⟨code, hjoin, hwritten⟩ := joinParts_eq hcode htwo
  refine ⟨code, readingOf parts, hjoin, ?_, isClosed_of_mem_portions hparts, codes_readingOf hparts,
    fun value => ?_⟩
  · rw [hwritten]
    exact bodyFrom?_insideOf hparts
  · rw [Reading.value?, valueFrom?_readingOf hparts, map_unified hlines]

/-- Reads an expression without strings: up to the brace that closes none of its own. -/
def balanced : Nat → ExpressionReader
  | _, [] => none
  | depth, c :: cs =>
    if c = '}' ∧ depth = 0 then some 0
    else (balanced (if c = '{' then depth + 1 else if c = '}' then depth - 1 else depth) cs).map (· + 1)

theorem joinParts_reads_back_braces :
    ∃ code reading,
      Style.joinParts [.text "1\\9 \x60$", .js "f(\x7b a \x7d)", .text "$\x7bb\x7d $", .js "x"] = .js code ∧
      read? (balanced 0) code.toList = some reading ∧ (∀ portion ∈ reading.portions, isClosed portion = true) ∧
      reading.codes = ["f(\x7b a \x7d)", "x"] ∧
      ∀ value, reading.value? value = some
        ("1\\9 \x60$".toList ++ ((value 0 "f(\x7b a \x7d)").toList ++
          ("$\x7bb\x7d $".toList ++ ((value 1 "x").toList ++ [])))) := by
  refine joinParts_reads_back ?_ ?_ ⟨"x", by simp⟩ (by decide)
  · refine .text (by simp [Style.isExpression]) (.code (fun _ => rfl) (.text ?_ (.code (fun _ => rfl) .nil)))
    simp [Style.isExpression]
  · intro s hs
    simp only [List.mem_cons, Style.Value.text.injEq, reduceCtorEq, List.not_mem_nil, or_false, false_or] at hs
    rcases hs with rfl | rfl <;> decide

end Restyle.TemplateLiteral
