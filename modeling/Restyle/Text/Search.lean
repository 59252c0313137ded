/-!
# Searching and replacing

Substring search on lists of characters.  All searches run from left to right, and replacements do
not overlap.
-/

namespace Restyle.Text

/-- What follows `lead` when the text starts with it. -/
def after? : List Char → List Char → Option (List Char)
  | [], cs => some cs
  | _ :: _, [] => none
  | l :: ls, c :: cs => if l == c then after? ls cs else none

/-- Whether the text starts with `lead`. -/
def startsWith (lead cs : List Char) : Bool :=
  (after? lead cs).isSome

/-- Whether the text ends with `tail`. -/
def endsWith (tail cs : List Char) : Bool :=
  startsWith tail.reverse cs.reverse

/-- Splits a text around the first occurrence of `needle`. -/
def cut? (needle : List Char) : List Char → Option (List Char × List Char)
  | [] => if needle.isEmpty then some ([], []) else none
  | c :: cs =>
    match after? needle (c :: cs) with
    | some rest => some ([], rest)
    | none => (cut? needle cs).map fun (before, rest) => (c :: before, rest)

/-- Whether `needle` occurs in the text. -/
def occurs (needle cs : List Char) : Bool :=
  (cut? needle cs).isSome

/--
Replaces every occurrence of `old`, from left to right.  `skip` counts the characters that belong to
an occurrence already replaced.
-/
def replaceFrom (old new : List Char) : Nat → List Char → List Char
  | _, [] => []
  | skip + 1, _ :: cs => replaceFrom old new skip cs
  | 0, c :: cs =>
    if startsWith old (c :: cs) then new ++ replaceFrom old new (old.length - 1) cs
    else c :: replaceFrom old new 0 cs

/-- Replaces every occurrence of a nonempty `old` by `new`; an empty `old` replaces nothing. -/
def replaceAll (old new cs : List Char) : List Char :=
  if old.isEmpty then cs else replaceFrom old new 0 cs

/-- Splits a text at every occurrence of one character; the parts may be empty. -/
def splitAt (sep : Char) : List Char → List (List Char)
  | [] => [[]]
  | c :: cs =>
    match splitAt sep cs with
    | [] => [[c]]
    | part :: parts => if c == sep then [] :: part :: parts else (c :: part) :: parts

/-- `after?` on strings. -/
def dropLead? (lead s : String) : Option String :=
  (after? lead.toList s.toList).map String.ofList

/-- Whether the string starts with `lead`. -/
def hasLead (lead s : String) : Bool :=
  startsWith lead.toList s.toList

/-- Whether the string ends with `tail`. -/
def hasTail (tail s : String) : Bool :=
  endsWith tail.toList s.toList

/-- Whether `needle` occurs in the string. -/
def mentions (needle s : String) : Bool :=
  occurs needle.toList s.toList

/-- Replaces every occurrence of `old` in a string. -/
def replace (old new s : String) : String :=
  String.ofList (replaceAll old.toList new.toList s.toList)

/-- The first character of a string as a string, empty for the empty string. -/
def firstOf (s : String) : String :=
  String.ofList (s.toList.take 1)

/-- A string without its first `n` characters. -/
def dropFirst (n : Nat) (s : String) : String :=
  String.ofList (s.toList.drop n)

/-- A string without its first and last character. -/
def inner (s : String) : String :=
  String.ofList ((s.toList.drop 1).dropLast)

/-- A string without leading occurrences of `c`. -/
def dropLeading (c : Char) (s : String) : String :=
  String.ofList (s.toList.dropWhile (· == c))

/-- Keeps the first occurrence of every element. -/
def firstOccurrences {α : Type} [BEq α] (xs : List α) : List α :=
  (xs.foldl (fun seen x => if seen.contains x then seen else x :: seen) []).reverse

/-- Splitting off a lead gives the text back when the lead is put in front again. -/
theorem after?_eq_some {lead cs rest : List Char} (h : after? lead cs = some rest) :
    cs = lead ++ rest := by
  induction lead generalizing cs with
  | nil => simp_all [after?]
  | cons l ls ih =>
      cases cs with
      | nil => simp [after?] at h
      | cons c cs =>
          simp only [after?] at h
          split at h
          · rename_i heq
            simp [ih h, beq_iff_eq.mp heq]
          · simp at h

/-- A text starts with its own front part. -/
theorem after?_append (lead rest : List Char) : after? lead (lead ++ rest) = some rest := by
  induction lead with
  | nil => rfl
  | cons l ls ih => simp [after?, ih]

theorem startsWith_iff {lead cs : List Char} : startsWith lead cs = true ↔ lead <+: cs := by
  rw [startsWith, Option.isSome_iff_exists]
  constructor
  · rintro ⟨rest, hrest⟩
    exact ⟨rest, (after?_eq_some hrest).symm⟩
  · rintro ⟨rest, rfl⟩
    exact ⟨rest, after?_append lead rest⟩

theorem hasLead_iff {lead s : String} : hasLead lead s = true ↔ lead.toList <+: s.toList :=
  startsWith_iff

end Restyle.Text
