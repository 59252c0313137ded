/-!
# Blank characters

Style text, selectors and expressions are trimmed and split at blank characters.  A character is
blank when Unicode calls it white space or when it is one of the four information separators.
Every function here works on the list of characters; the string versions only wrap them.
-/

namespace Restyle.Text

/-- Space, the line and page controls, the information separators and the Unicode spaces. -/
def isBlank (c : Char) : Bool :=
  let n := c.toNat
  n == 0x20 || (0x09 ≤ n && n ≤ 0x0D) || (0x1C ≤ n && n ≤ 0x1F) || n == 0x85 || n == 0xA0 ||
    n == 0x1680 || (0x2000 ≤ n && n ≤ 0x200A) || n == 0x2028 || n == 0x2029 || n == 0x202F ||
    n == 0x205F || n == 0x3000

/-- The text without its leading blanks. -/
def trimStart (cs : List Char) : List Char :=
  cs.dropWhile isBlank

/-- The text without its trailing blanks. -/
def trimEnd (cs : List Char) : List Char :=
  (trimStart cs.reverse).reverse

/-- The text without leading and trailing blanks. -/
def trim (cs : List Char) : List Char :=
  trimEnd (trimStart cs)

/-- Collects the maximal runs of characters that fail `sep`; `current` is the open run, reversed. -/
def runsFrom (sep : Char → Bool) : List Char → List Char → List (List Char)
  | current, [] => if current.isEmpty then [] else [current.reverse]
  | current, c :: cs =>
    if sep c then
      if current.isEmpty then runsFrom sep [] cs else current.reverse :: runsFrom sep [] cs
    else
      runsFrom sep (c :: current) cs

/-- The maximal nonblank runs of a text, in order. -/
def words (cs : List Char) : List (List Char) :=
  runsFrom isBlank [] cs

/-- A string without leading and trailing blanks. -/
def strip (s : String) : String :=
  String.ofList (trim s.toList)

/-- The blank-separated words of a string. -/
def wordsOf (s : String) : List String :=
  (words s.toList).map String.ofList

/-- The words of a text joined by single spaces. -/
def squeeze (s : String) : String :=
  " ".intercalate (wordsOf s)

/-- A text that starts with a nonblank character keeps it. -/
theorem trimStart_cons_of_not_blank {c : Char} (cs : List Char) (h : isBlank c = false) :
    trimStart (c :: cs) = c :: cs := by
  simp [trimStart, List.dropWhile, h]

/-- Trimming the front never lengthens a text. -/
theorem length_trimStart_le (cs : List Char) : (trimStart cs).length ≤ cs.length := by
  induction cs with
  | nil => simp [trimStart]
  | cons c cs ih =>
      simp only [trimStart, List.dropWhile]
      split
      · exact Nat.le_succ_of_le ih
      · exact Nat.le_refl _

end Restyle.Text
