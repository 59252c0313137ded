import Restyle.Proofs.Additions
import Restyle.Proofs.Escapes
import Restyle.Proofs.Lexemes
import Restyle.Proofs.Marks
import Restyle.Proofs.Ways
import Restyle.Style.Render

/-!
# The notation of style values

Style values are written as literals: names without quotes where they are identifiers, texts in double quotes,
and a comma after every entry of an object.  A reader of such literals, which does not look at indentation, gives
back every value that is made of them, with its keys in order.  So no two of them are written alike.
-/

namespace Restyle.Style

/-! ## Reading literals -/

/-- A text without the blanks at its start. -/
def skipBlanks (cs : List Char) : List Char :=
  cs.dropWhile Tsx.isSpace

/-- An identifier or a text in double quotes at the start of a text. -/
def readKey? : List Char → Option (String × List Char)
  | [] => none
  | c :: cs =>
    if c == '"' then (Text.readQuotedFrom 0 cs).map fun (body, rest) => (String.ofList body, rest)
    else if isIdentifierStart c then
      some (String.ofList (c :: cs.takeWhile isIdentifierChar), cs.dropWhile isIdentifierChar)
    else none

/-- The digits of an integer at the start of a text. -/
def readDigits? (cs : List Char) : Option (Nat × List Char) :=
  let digits := cs.takeWhile Text.isAsciiDigit
  if digits.isEmpty then none else some (Text.decimalNat digits, cs.dropWhile Text.isAsciiDigit)

/-- A word that is a value. -/
def wordValue? : String → Option Value
  | "null" => some .null
  | "true" => some (.bool true)
  | "false" => some (.bool false)
  | _ => none

/-- A value without parts at the start of a text: a text, a word, or an integer. -/
def readLeaf? : List Char → Option (Value × List Char)
  | [] => none
  | c :: cs =>
    if c == '"' then (Text.readQuotedFrom 0 cs).map fun (body, rest) => (.text (String.ofList body), rest)
    else if c == '-' then (readDigits? cs).map fun (n, rest) => (.int (-n), rest)
    else if isIdentifierStart c then
      (wordValue? (String.ofList (c :: cs.takeWhile isIdentifierChar))).map fun v =>
        (v, cs.dropWhile isIdentifierChar)
    else (readDigits? (c :: cs)).map fun (n, rest) => (.int n, rest)

mutual

/-- Reads a value.  The fuel bounds the number of characters. -/
def readValue? : Nat → List Char → Option (Value × List Char)
  | 0, _ => none
  | fuel + 1, cs =>
    match skipBlanks cs with
    | '[' :: rest => (readItems? fuel rest).map fun (items, rest) => (.list items, rest)
    | '{' :: rest => (readEntries? fuel [] rest).map fun (entries, rest) => (.obj entries, rest)
    | rest => readLeaf? rest

/-- Reads the items of a list and its closing bracket; a comma may stand behind the last item. -/
def readItems? : Nat → List Char → Option (List Value × List Char)
  | 0, _ => none
  | fuel + 1, cs =>
    match skipBlanks cs with
    | ']' :: rest => some ([], rest)
    | rest =>
      match readValue? fuel rest with
      | none => none
      | some (item, rest) =>
        match skipBlanks rest with
        | ',' :: rest => (readItems? fuel rest).map fun (items, rest) => (item :: items, rest)
        | ']' :: rest => some ([item], rest)
        | _ => none

/--
Reads the entries of an object and its closing brace; a comma may stand behind the last entry.  A repeated key
keeps its place and takes the last value.
-/
def readEntries? : Nat → Object → List Char → Option (Object × List Char)
  | 0, _, _ => none
  | fuel + 1, o, cs =>
    match skipBlanks cs with
    | '}' :: rest => some (o, rest)
    | rest =>
      match readKey? rest with
      | none => none
      | some (key, rest) =>
        match skipBlanks rest with
        | ':' :: rest =>
          match readValue? fuel rest with
          | none => none
          | some (value, rest) =>
            match skipBlanks rest with
            | ',' :: rest => readEntries? fuel (Object.set o (.name key) value) rest
            | '}' :: rest => some (Object.set o (.name key) value, rest)
            | _ => none
        | _ => none

end

/-- The value of a whole text that is a literal. -/
def readLiteral? (text : String) : Option Value :=
  match readValue? (text.toList.length + 1) text.toList with
  | some (v, rest) => if (skipBlanks rest).isEmpty then some v else none
  | none => none

/--
Values that have a literal of their own: none of their parts is a fraction, an expression or a static block, and
their objects have distinct names without line breaks for keys.
-/
inductive Value.IsLiteral : Value → Prop where
  | null : IsLiteral .null
  | bool (b : Bool) : IsLiteral (.bool b)
  | int (n : Int) : IsLiteral (.int n)
  | text (s : String) : IsLiteral (.text s)
  | list {items : List Value} (h : ∀ item ∈ items, IsLiteral item) : IsLiteral (.list items)
  | obj {entries : Object} (hdistinct : entries.keys.Nodup)
      (hkeys : ∀ entry ∈ entries, ∃ s, entry.1 = .name s ∧ '\n' ∉ s.toList)
      (h : ∀ entry ∈ entries, IsLiteral entry.2) : IsLiteral (.obj entries)

/-! ## Where words end -/

/-- No character of an identifier follows. -/
def EndsWord (rest : List Char) : Prop := ∀ c ∈ rest.head?, isIdentifierChar c = false

theorem endsWord_cons {c : Char} (h : isIdentifierChar c = false) (rest : List Char) : EndsWord (c :: rest) := by
  intro d hd
  cases hd
  exact h

theorem span_of_ends {p : Char → Bool} {cs rest : List Char} (hcs : ∀ c ∈ cs, p c = true)
    (hrest : ∀ c ∈ rest.head?, p c = false) : (cs ++ rest).takeWhile p = cs ∧ (cs ++ rest).dropWhile p = rest := by
  rw [List.takeWhile_append_of_pos hcs, List.dropWhile_append_of_pos hcs]
  cases rest with
  | nil => simp
  | cons c rest => simp [hrest c rfl]

theorem solid_of_isIdentifierStart {c : Char} (h : isIdentifierStart c = true) : Tsx.isSpace c = false := by
  rw [isIdentifierStart, Bool.or_eq_true, Bool.or_eq_true] at h
  rcases h with (h | h) | h
  · exact Tsx.solid_of_letter h
  · rw [beq_iff_eq.mp h]
    decide
  · rw [beq_iff_eq.mp h]
    decide

theorem ne_of_isIdentifierStart {c d : Char} (h : isIdentifierStart c = true) (hd : isIdentifierStart d = false) :
    c ≠ d := by
  rintro rfl
  cases h.symm.trans hd

theorem skipBlanks_append {blanks cs : List Char} (h : ∀ c ∈ blanks, Tsx.isSpace c = true) :
    skipBlanks (blanks ++ cs) = skipBlanks cs :=
  List.dropWhile_append_of_pos h

theorem skipBlanks_solid {c : Char} (h : Tsx.isSpace c = false) (cs : List Char) : skipBlanks (c :: cs) = c :: cs :=
  List.dropWhile_cons_of_neg (by simp [h])

/-! ## Keys -/

theorem isIdentifierChars_cons {cs : List Char} (h : isIdentifierChars cs = true) :
    ∃ c more, cs = c :: more ∧ isIdentifierStart c = true ∧ ∀ d ∈ more, isIdentifierChar d = true := by
  cases cs with
  | nil => cases h
  | cons c more =>
      obtain ⟨hc, hmore⟩ := Bool.and_eq_true_iff.mp h
      exact ⟨c, more, rfl, hc, List.all_eq_true.mp hmore⟩

/-- A name without line breaks is written as it is exactly if it is an identifier. -/
theorem isIdentifier_eq {s : String} (h : '\n' ∉ s.toList) : isIdentifier s = isIdentifierChars s.toList := by
  have hlast : (s.toList.getLast? == some '\n') = false :=
    beq_eq_false_iff_ne.mpr fun heq => h (List.mem_of_getLast? heq)
  unfold isIdentifier
  dsimp only
  rw [hlast, Bool.false_and, Bool.or_false]

/-- What is written for a name starts with a character that is neither blank nor a brace. -/
structure LeadsKey (cs : List Char) : Prop where
  exists_cons : ∃ c more, cs = c :: more ∧ Tsx.isSpace c = false ∧ c ≠ '\x7d'

theorem leadsKey_renderKey {s : String} (h : '\n' ∉ s.toList) : LeadsKey (renderKey (.name s)).toList := by
  rw [renderKey, isIdentifier_eq h]
  by_cases hidentifier : isIdentifierChars s.toList = true
  · obtain ⟨c, more, heq, hc, -⟩ := isIdentifierChars_cons hidentifier
    rw [if_pos hidentifier]
    exact ⟨c, more, heq, solid_of_isIdentifierStart hc, ne_of_isIdentifierStart hc (by decide)⟩
  · rw [if_neg hidentifier, Text.quote, String.toList_ofList]
    exact ⟨'"', _, rfl, by decide, by decide⟩

/-- A name is read back from what is written for it. -/
theorem readKey?_renderKey {s : String} (h : '\n' ∉ s.toList) {rest : List Char} (hrest : EndsWord rest) :
    readKey? ((renderKey (.name s)).toList ++ rest) = some (s, rest) := by
  rw [renderKey, isIdentifier_eq h]
  by_cases hidentifier : isIdentifierChars s.toList = true
  · obtain ⟨c, more, heq, hc, hmore⟩ := isIdentifierChars_cons hidentifier
    obtain ⟨htake, hdrop⟩ := span_of_ends hmore hrest
    have hquote : ¬ (c == '"') = true := by simpa using ne_of_isIdentifierStart hc (by decide)
    rw [if_pos hidentifier, heq, List.cons_append, readKey?, if_neg hquote, if_pos hc, htake, hdrop, ← heq,
      String.ofList_toList]
  · rw [if_neg hidentifier, Text.quote, String.toList_ofList, List.cons_append, List.cons_append, List.append_assoc,
      readKey?, if_pos (by decide), List.singleton_append, Text.readQuotedFrom_written, Option.map_some]
    exact congrArg (fun t => some (t, rest)) String.ofList_toList

/-! ## Values without parts -/

theorem isAsciiDigit_of_mem_toDigits {n : Nat} {c : Char} (h : c ∈ Nat.toDigits 10 n) :
    Text.isAsciiDigit c = true := by
  have hdigit := Nat.isDigit_of_mem_toDigits (by decide) (by decide) h
  simp only [Char.isDigit, Bool.and_eq_true, decide_eq_true_eq] at hdigit
  simp only [Text.isAsciiDigit, Bool.and_eq_true, decide_eq_true_eq]
  exact hdigit

theorem not_isAsciiDigit_of_ends {rest : List Char} (h : EndsWord rest) :
    ∀ c ∈ rest.head?, Text.isAsciiDigit c = false := fun c hc =>
  (Bool.or_eq_false_iff.mp (h c hc)).2

/-- The digits of a number are read back. -/
theorem readDigits?_toDigits (n : Nat) {rest : List Char} (h : EndsWord rest) :
    readDigits? (Nat.toDigits 10 n ++ rest) = some (n, rest) := by
  obtain ⟨htake, hdrop⟩ := span_of_ends (fun c => isAsciiDigit_of_mem_toDigits (n := n) (c := c))
    (not_isAsciiDigit_of_ends h)
  have hne : (Nat.toDigits 10 n).isEmpty = false := by simp
  rw [readDigits?, htake, hdrop, hne, if_neg Bool.false_ne_true, Css.Slot.decimalNat_toDigits]

/-- What is written for a value is read back, whatever follows that does not go on with a word. -/
structure Written (cs : List Char) (v : Value) : Prop where
  exists_cons : ∃ c more, cs = c :: more ∧ Tsx.isSpace c = false ∧ c ≠ ']'
  reads : ∀ fuel rest, cs.length < fuel → EndsWord rest → readValue? fuel (cs ++ rest) = some (v, rest)

/-- A value without parts is read back by the reader of such values. -/
theorem Written.of_leaf {c : Char} {more : List Char} {v : Value} (hspace : Tsx.isSpace c = false) (hlist : c ≠ '[')
    (hend : c ≠ ']') (hobject : c ≠ '\x7b')
    (h : ∀ rest, EndsWord rest → readLeaf? (c :: (more ++ rest)) = some (v, rest)) : Written (c :: more) v where
  exists_cons := ⟨c, more, rfl, hspace, hend⟩
  reads := by
    intro fuel rest hfuel hrest
    obtain ⟨fuel, rfl⟩ : ∃ n, fuel = n + 1 := ⟨fuel - 1, by omega⟩
    rw [List.cons_append, readValue?, skipBlanks_solid hspace]
    split
    · next heq => exact absurd (List.cons.inj heq).1 hlist
    · next heq => exact absurd (List.cons.inj heq).1 hobject
    · exact h rest hrest

theorem written_word {c : Char} {more : List Char} {v : Value} (hc : isIdentifierStart c = true)
    (hmore : more.all isIdentifierChar = true) (h : wordValue? (String.ofList (c :: more)) = some v) :
    Written (c :: more) v := by
  refine .of_leaf (solid_of_isIdentifierStart hc) (ne_of_isIdentifierStart hc (by decide))
    (ne_of_isIdentifierStart hc (by decide)) (ne_of_isIdentifierStart hc (by decide)) fun rest hrest => ?_
  obtain ⟨htake, hdrop⟩ := span_of_ends (List.all_eq_true.mp hmore) hrest
  have hquote : ¬ (c == '"') = true := by simpa using ne_of_isIdentifierStart hc (by decide)
  have hminus : ¬ (c == '-') = true := by simpa using ne_of_isIdentifierStart hc (by decide)
  rw [readLeaf?, if_neg hquote, if_neg hminus, if_pos hc, htake, hdrop, h, Option.map_some]

theorem written_text (s : String) : Written (Text.quote s).toList (.text s) := by
  rw [Text.quote, String.toList_ofList, List.cons_append]
  refine .of_leaf (by decide) (by decide) (by decide) (by decide) fun rest _ => ?_
  rw [readLeaf?, if_pos (by decide), List.append_assoc, List.singleton_append, Text.readQuotedFrom_written,
    Option.map_some]
  exact congrArg (fun t => some (Value.text t, rest)) String.ofList_toList

theorem toList_toString_int (n : Int) :
    (toString n).toList = if n < 0 then '-' :: Nat.toDigits 10 n.natAbs else Nat.toDigits 10 n.natAbs := by
  cases n with
  | ofNat n => simp [toString, Int.repr, Nat.repr]
  | negSucc n => simp [toString, Int.repr, Nat.repr]

theorem not_isIdentifierStart_of_digit {c : Char} (h : Text.isAsciiDigit c = true) : ¬ isIdentifierStart c = true := by
  have hall : ∀ n < 58, Text.isAsciiDigit (Char.ofNat n) = true → isIdentifierStart (Char.ofNat n) = false := by
    decide
  have hlt : c.toNat < 58 := by
    simp only [Text.isAsciiDigit, Bool.and_eq_true, decide_eq_true_eq] at h
    exact Nat.lt_succ_of_le h.2
  have hc := hall c.toNat hlt
  rw [Char.ofNat_toNat] at hc
  simp [hc h]

theorem written_int (n : Int) : Written (toString n).toList (.int n) := by
  rw [toList_toString_int]
  split
  · next hnegative =>
      have habs : -(n.natAbs : Int) = n := by omega
      refine .of_leaf (by decide) (by decide) (by decide) (by decide) fun rest hrest => ?_
      rw [readLeaf?, if_neg (by decide), if_pos (by decide), readDigits?_toDigits _ hrest, Option.map_some]
      exact congrArg (fun m => some (Value.int m, rest)) habs
  · next hnegative =>
      have habs : (n.natAbs : Int) = n := by omega
      obtain ⟨c, more, heq⟩ := List.exists_cons_of_ne_nil (Nat.toDigits_ne_nil (b := 10) (n := n.natAbs))
      have hc : Text.isAsciiDigit c = true := isAsciiDigit_of_mem_toDigits (heq ▸ List.mem_cons_self)
      have hne : ∀ d, Text.isAsciiDigit d = false → c ≠ d := by
        rintro d hd rfl
        cases hc.symm.trans hd
      rw [heq]
      refine .of_leaf (Tsx.solid_of_digit hc) (hne _ (by decide)) (hne _ (by decide)) (hne _ (by decide))
        fun rest hrest => ?_
      rw [readLeaf?, if_neg (by simpa using hne '"' (by decide)), if_neg (by simpa using hne '-' (by decide)),
        if_neg (not_isIdentifierStart_of_digit hc), ← List.cons_append, ← heq, readDigits?_toDigits _ hrest,
        Option.map_some]
      exact congrArg (fun m => some (Value.int m, rest)) habs

/-! ## Lists -/

theorem readValue?_blanks {blanks : List Char} (h : ∀ c ∈ blanks, Tsx.isSpace c = true) (fuel : Nat)
    (cs : List Char) : readValue? fuel (blanks ++ cs) = readValue? fuel cs := by
  cases fuel with
  | zero => rfl
  | succ fuel => rw [readValue?, readValue?, skipBlanks_append h]

theorem skipBlanks_written {text : List Char} {v : Value} (h : Written text v) {blanks : List Char}
    (hblanks : ∀ c ∈ blanks, Tsx.isSpace c = true) (rest : List Char) :
    ∃ c more, skipBlanks (blanks ++ (text ++ rest)) = c :: more ∧ c :: more = text ++ rest ∧ c ≠ ']' := by
  obtain ⟨c, more, rfl, hspace, hend⟩ := h.exists_cons
  exact ⟨c, more ++ rest, (skipBlanks_append hblanks).trans (skipBlanks_solid hspace _), rfl, hend⟩

theorem endsWord_sign {c : Char} (h : c ∈ [',', ']', ':']) (rest : List Char) : EndsWord (c :: rest) := by
  have hall : [',', ']', ':'].all (fun d => !isIdentifierChar d) = true := by decide
  exact endsWord_cons (by simpa using List.all_eq_true.mp hall c h) rest

/-- One item of a list is read back, with what follows it. -/
theorem readItems?_step {text : List Char} {item : Value} (h : Written text item) {blanks : List Char}
    (hblanks : ∀ c ∈ blanks, Tsx.isSpace c = true) {fuel : Nat} (hfuel : text.length < fuel) (rest : List Char) :
    readItems? (fuel + 1) (blanks ++ (text ++ ',' :: rest)) =
        (readItems? fuel rest).map (fun (items, rest) => (item :: items, rest)) ∧
      readItems? (fuel + 1) (blanks ++ (text ++ ']' :: rest)) = some ([item], rest) := by
  have hread : ∀ sign ∈ [',', ']', ':'], readValue? fuel (text ++ sign :: rest) = some (item, sign :: rest) :=
    fun sign hsign => h.reads fuel _ hfuel (endsWord_sign hsign rest)
  constructor
  · obtain ⟨c, more, hskip, heq, hend⟩ := skipBlanks_written h hblanks (',' :: rest)
    rw [readItems?, hskip]
    split
    · next hcons => exact absurd (List.cons.inj hcons).1 hend
    · rw [heq, hread ',' (by decide)]
      rfl
  · obtain ⟨c, more, hskip, heq, hend⟩ := skipBlanks_written h hblanks (']' :: rest)
    rw [readItems?, hskip]
    split
    · next hcons => exact absurd (List.cons.inj hcons).1 hend
    · rw [heq, hread ']' (by decide)]
      rfl

/-- What is written for the items of a list behind the first one. -/
def behindComma (texts : List (List Char)) : List Char :=
  texts.flatMap fun text => ',' :: ' ' :: text

/-- The items of a list are read back, from the first one on. -/
theorem readItems?_written {texts : List (List Char)} {items : List Value} (h : List.Forall₂ Written texts items)
    {text : List Char} {item : Value} (hitem : Written text item) {blanks : List Char}
    (hblanks : ∀ c ∈ blanks, Tsx.isSpace c = true) {fuel : Nat}
    (hfuel : (text ++ behindComma texts).length + 1 < fuel) (rest : List Char) :
    readItems? fuel (blanks ++ (text ++ (behindComma texts ++ ']' :: rest))) = some (item :: items, rest) := by
  obtain ⟨fuel, rfl⟩ : ∃ n, fuel = n + 1 := ⟨fuel - 1, by omega⟩
  rw [List.length_append] at hfuel
  induction h generalizing text item blanks fuel with
  | nil => exact (readItems?_step hitem hblanks (by omega) rest).2
  | @cons next v texts items hnext _ ih =>
      have hlength : (behindComma (next :: texts)).length = next.length + (behindComma texts).length + 2 := by
        simp only [behindComma, List.flatMap_cons, List.length_append, List.length_cons]
        omega
      obtain ⟨fuel, rfl⟩ : ∃ n, fuel = n + 1 := ⟨fuel - 1, by omega⟩
      have hspaces : ∀ c ∈ [' '], Tsx.isSpace c = true := List.all_eq_true.mp (by decide)
      have hroom : next.length + (behindComma texts).length + 1 < fuel + 1 := by omega
      have hrest := ih hnext hspaces fuel hroom
      have hcons : behindComma (next :: texts) ++ ']' :: rest =
          ',' :: ([' '] ++ (next ++ (behindComma texts ++ ']' :: rest))) := by
        simp [behindComma]
      rw [hcons, (readItems?_step hitem hblanks (by omega) _).1, hrest, Option.map_some]

/-- A list of values is read back. -/
theorem written_list {texts : List (List Char)} {items : List Value} (h : List.Forall₂ Written texts items) :
    Written ('[' :: [',', ' '].intercalate texts ++ [']']) (.list items) where
  exists_cons := ⟨'[', _, rfl, by decide, by decide⟩
  reads := by
    intro fuel rest hfuel _
    obtain ⟨fuel, rfl⟩ : ∃ n, fuel = n + 1 := ⟨fuel - 1, by omega⟩
    rw [List.cons_append, List.cons_append, readValue?, skipBlanks_solid (by decide)]
    change (readItems? fuel _).map _ = _
    cases h with
    | nil =>
        obtain ⟨fuel, rfl⟩ : ∃ n, fuel = n + 1 := ⟨fuel - 1, by simp at hfuel; omega⟩
        rfl
    | @cons text item texts items hitem hitems =>
        have hcons : [',', ' '].intercalate (text :: texts) = text ++ behindComma texts := Text.intercalate_cons_eq _ _ _
        rw [hcons] at hfuel ⊢
        rw [List.append_assoc, List.append_assoc, List.singleton_append]
        have hroom : (text ++ behindComma texts).length + 1 < fuel := by
          simp only [List.length_append, List.length_cons] at hfuel ⊢
          omega
        have hread := readItems?_written hitems hitem (List.forall_mem_nil _) hroom rest
        rw [List.nil_append] at hread
        rw [hread, Option.map_some]

/-! ## Objects -/

/-- What is written for one entry of an object, with the line break before it. -/
def entryLine (level : Nat) (key : String) (text : List Char) : List Char :=
  '\n' :: List.replicate (2 * level) ' ' ++ ((renderKey (.name key)).toList ++ (':' :: ' ' :: text ++ [',']))

theorem isSpace_of_mem_margin (level : Nat) {c : Char} (h : c ∈ '\n' :: List.replicate (2 * level) ' ') :
    Tsx.isSpace c = true := by
  rcases List.mem_cons.mp h with rfl | h
  · decide
  · rw [List.eq_of_mem_replicate h]
    decide

/-- One entry of an object is read back, with what follows it. -/
theorem readEntries?_step {text : List Char} {value : Value} (h : Written text value) {key : String}
    (hkey : '\n' ∉ key.toList) (level : Nat) {fuel : Nat} (hfuel : text.length + 1 < fuel) (o : Object)
    (rest : List Char) :
    readEntries? (fuel + 1) o (entryLine level key text ++ rest) =
      readEntries? fuel (Object.set o (.name key) value) rest := by
  obtain ⟨c, more, heq, hspace, hend⟩ := (leadsKey_renderKey hkey).exists_cons
  have hskip : skipBlanks (entryLine level key text ++ rest) =
      c :: (more ++ (':' :: ' ' :: text ++ ',' :: rest)) := by
    rw [entryLine, List.append_assoc, skipBlanks_append (fun _ => isSpace_of_mem_margin level), heq,
      List.cons_append, List.cons_append, skipBlanks_solid hspace]
    simp
  have hreadKey : readKey? (c :: (more ++ (':' :: ' ' :: text ++ ',' :: rest))) =
      some (key, ':' :: ' ' :: text ++ ',' :: rest) := by
    rw [← List.cons_append, ← heq]
    exact readKey?_renderKey hkey (endsWord_sign (by decide) _)
  have hreadValue : readValue? fuel (' ' :: text ++ ',' :: rest) = some (value, ',' :: rest) := by
    have hblank : ∀ d ∈ [' '], Tsx.isSpace d = true := List.all_eq_true.mp (by decide)
    exact (readValue?_blanks hblank fuel (text ++ ',' :: rest)).trans
      (h.reads fuel _ (by omega) (endsWord_sign (by decide) rest))
  rw [readEntries?, hskip]
  split
  · next hcons => exact absurd (List.cons.inj hcons).1 hend
  · rw [hreadKey]
    change (match skipBlanks (':' :: (' ' :: text ++ ',' :: rest)) with
      | ':' :: rest => _
      | _ => none) = _
    rw [skipBlanks_solid (by decide)]
    change (match readValue? fuel (' ' :: text ++ ',' :: rest) with
      | none => none
      | some (value, rest) => _) = _
    rw [hreadValue]
    rfl

/-- What is written for entries, and the values that they have. -/
structure EntryWritten (level : Nat) (line : List Char) (entry : Key × Value) : Prop where
  exists_line : ∃ key text, entry.1 = .name key ∧ '\n' ∉ key.toList ∧ Written text entry.2 ∧
    line = entryLine level key text

/-- The entries of an object are read back, up to the brace that closes it. -/
theorem readEntries?_written {level : Nat} {lines : List (List Char)} {entries : Object}
    (h : List.Forall₂ (EntryWritten level) lines entries) {o : Object} {fuel : Nat}
    (hfuel : lines.flatten.length < fuel) {closing rest : List Char}
    (hclosing : skipBlanks closing = '\x7d' :: rest) :
    readEntries? fuel o (lines.flatten ++ closing) =
      some (entries.foldl (fun o entry => o.set entry.1 entry.2) o, rest) := by
  induction h generalizing o fuel with
  | nil =>
      obtain ⟨fuel, rfl⟩ : ∃ n, fuel = n + 1 := ⟨fuel - 1, by omega⟩
      rw [List.flatten_nil, List.nil_append, readEntries?, hclosing]
      rfl
  | @cons line entry lines entries hline _ ih =>
      obtain ⟨key, text, hentry, hkey, htext, rfl⟩ := hline.exists_line
      have hlength : text.length + 2 < (entryLine level key text).length := by
        simp only [entryLine, List.length_append, List.length_cons]
        omega
      rw [List.flatten_cons, List.length_append] at hfuel
      obtain ⟨fuel, rfl⟩ : ∃ n, fuel = n + 1 := ⟨fuel - 1, by omega⟩
      rw [List.flatten_cons, List.append_assoc, readEntries?_step htext hkey level (by omega), ih (by omega),
        List.foldl_cons, hentry]

/-- An object is read back. -/
theorem written_object {level : Nat} {lines : List (List Char)} {entries : Object} (hdistinct : entries.keys.Nodup)
    (h : List.Forall₂ (EntryWritten (level + 1)) lines entries) :
    Written ('\x7b' :: (lines.flatten ++ '\n' :: List.replicate (2 * level) ' ' ++ ['\x7d'])) (.obj entries) where
  exists_cons := ⟨'\x7b', _, rfl, by decide, by decide⟩
  reads := by
    intro fuel rest hfuel _
    obtain ⟨fuel, rfl⟩ : ∃ n, fuel = n + 1 := ⟨fuel - 1, by omega⟩
    have hclosing : skipBlanks ('\n' :: List.replicate (2 * level) ' ' ++ '\x7d' :: rest) = '\x7d' :: rest :=
      (skipBlanks_append (fun _ => isSpace_of_mem_margin level)).trans (skipBlanks_solid (by decide) rest)
    have hroom : lines.flatten.length < fuel := by
      simp only [List.length_append, List.length_cons] at hfuel ⊢
      omega
    have hread := readEntries?_written h (o := []) hroom hclosing
    rw [Object.foldl_set_eq_append hdistinct (by simp [Object.keys]), List.nil_append] at hread
    rw [List.cons_append, readValue?, skipBlanks_solid (by decide)]
    change (readEntries? fuel [] _).map _ = _
    rw [List.append_assoc, List.append_assoc, List.singleton_append, hread, Option.map_some]

theorem written_nil : Written ['\x7b', '\x7d'] (.obj []) where
  exists_cons := ⟨'\x7b', _, rfl, by decide, by decide⟩
  reads := by
    intro fuel rest hfuel _
    obtain ⟨fuel, rfl⟩ : ∃ n, fuel = n + 2 := ⟨fuel - 2, by simp at hfuel; omega⟩
    rfl

/-! ## Rendered values -/

theorem toList_listText (texts : List String) : ("[" ++ ", ".intercalate texts ++ "]").toList =
    '[' :: [',', ' '].intercalate (texts.map String.toList) ++ [']'] := by
  simp [String.toList_append, String.toList_intercalate]

theorem toList_objectText (level : Nat) (lines : List String) :
    ("\n".intercalate (["\x7b"] ++ lines ++ [indentation level ++ "\x7d"])).toList =
      '\x7b' :: ((lines.map fun line => '\n' :: line.toList).flatten ++ '\n' :: List.replicate (2 * level) ' ' ++
        ['\x7d']) := by
  rw [String.toList_intercalate, List.append_assoc, List.singleton_append, List.map_cons, Text.intercalate_cons_eq]
  simp [indentation, List.flatMap_def, Function.comp_def]

theorem toList_entryText (level : Nat) (key text : String) :
    '\n' :: (indentation level ++ renderKey (.name key) ++ ": " ++ text ++ ",").toList =
      entryLine level key text.toList := by
  simp [entryLine, indentation, String.toList_append]

mutual

/-- A value that is a literal can be rendered, and is read back from what is written for it. -/
theorem exists_written (level : Nat) : ∀ {v : Value}, v.IsLiteral →
    ∃ text, renderValue level v = .ok text ∧ Written text.toList v
  | .null, _ => ⟨"null", by rw [renderValue], written_word (by decide) (by decide) rfl⟩
  | .bool true, _ => ⟨"true", by rw [renderValue], written_word (by decide) (by decide) rfl⟩
  | .bool false, _ => ⟨"false", by rw [renderValue], written_word (by decide) (by decide) rfl⟩
  | .int n, _ => ⟨toString n, by rw [renderValue], written_int n⟩
  | .text s, _ => ⟨Text.quote s, by rw [renderValue], written_text s⟩
  | .list items, h => by
      cases h with
      | list hitems =>
          obtain ⟨texts, hrender, hwritten⟩ := exists_written_items level items hitems
          refine ⟨"[" ++ ", ".intercalate texts ++ "]", ?_, ?_⟩
          · rw [renderValue, hrender]
            rfl
          · rw [toList_listText]
            exact written_list hwritten
  | .obj [], _ => ⟨"\x7b\x7d", by rw [renderValue], written_nil⟩
  | .obj (entry :: entries), h => by
      cases h with
      | obj hdistinct hkeys hvalues =>
          obtain ⟨lines, hrender, hwritten⟩ := exists_written_entries (level + 1) (entry :: entries) hkeys hvalues
          refine ⟨"\n".intercalate (["\x7b"] ++ lines ++ [indentation level ++ "\x7d"]), ?_, ?_⟩
          · rw [renderValue, hrender]
            rfl
          · rw [toList_objectText]
            exact written_object hdistinct hwritten

theorem exists_written_items (level : Nat) : ∀ items : List Value, (∀ item ∈ items, item.IsLiteral) →
    ∃ texts, renderItems level items = .ok texts ∧ List.Forall₂ Written (texts.map String.toList) items
  | [], _ => ⟨[], by rw [renderItems], .nil⟩
  | item :: items, h => by
      obtain ⟨hitem, hitems⟩ := List.forall_mem_cons.mp h
      obtain ⟨text, hrender, hwritten⟩ := exists_written level hitem
      obtain ⟨texts, hrenders, hwrittens⟩ := exists_written_items level items hitems
      refine ⟨text :: texts, ?_, .cons hwritten hwrittens⟩
      rw [renderItems, hrender, hrenders]
      rfl

theorem exists_written_entries (level : Nat) : ∀ entries : Object,
    (∀ entry ∈ entries, ∃ s, entry.1 = .name s ∧ '\n' ∉ s.toList) → (∀ entry ∈ entries, entry.2.IsLiteral) →
      ∃ lines, renderEntries level entries = .ok lines ∧
        List.Forall₂ (EntryWritten level) (lines.map fun line => '\n' :: line.toList) entries
  | [], _, _ => ⟨[], by rw [renderEntries], .nil⟩
  | (key, value) :: entries, hkeys, hvalues => by
      obtain ⟨⟨s, hkey, hline⟩, hkeys⟩ := List.forall_mem_cons.mp hkeys
      obtain ⟨hvalue, hvalues⟩ := List.forall_mem_cons.mp hvalues
      obtain ⟨text, hrender, hwritten⟩ := exists_written level hvalue
      obtain ⟨lines, hrenders, hwrittens⟩ := exists_written_entries level entries hkeys hvalues
      cases hkey
      refine ⟨(indentation level ++ renderKey (.name s) ++ ": " ++ text ++ ",") :: lines, ?_, ?_⟩
      · rw [renderEntries, hrender, hrenders]
        rfl
      · exact .cons ⟨s, text.toList, rfl, hline, hwritten, toList_entryText level s text⟩ hwrittens

end

theorem readLiteral?_of_written {text : String} {v : Value} (h : Written text.toList v) :
    readLiteral? text = some v := by
  have hread := h.reads (text.toList.length + 1) [] (Nat.lt_succ_self _) (fun c hc => nomatch hc)
  rw [List.append_nil] at hread
  rw [readLiteral?, hread]
  rfl

/--
Every value that is a literal can be rendered at every level of indentation, and the text is read back as that
value, with its keys in order.  So no other value has the same text, at that level or at another one.
-/
theorem renderValue_reads_back {v : Value} (h : v.IsLiteral) (level : Nat) :
    ∃ text, renderValue level v = .ok text ∧ readLiteral? text = some v ∧
      ∀ (other : Nat) (w : Value), w.IsLiteral → renderValue other w = .ok text → w = v := by
  obtain ⟨text, hrender, hwritten⟩ := exists_written level h
  have hread := readLiteral?_of_written hwritten
  refine ⟨text, hrender, hread, fun other w hw hsame => ?_⟩
  obtain ⟨text', hrender', hwritten'⟩ := exists_written other hw
  cases hrender'.symm.trans hsame
  exact Option.some.inj ((readLiteral?_of_written hwritten').symm.trans hread)

/-- Keys with quotes and without, objects and lists in each other, and a text with all that is escaped. -/
def nestedLiteral : Value :=
  .obj [
    (.name "color", .obj [(Key.default, .text "\"\\\n'\x1f"), (.name ":hover", .null)]),
    (.name "--x y", .list [.int (-10), .bool true, .list [], .obj [(.name "", .text "")]]),
    (.name "null", .obj [])]

theorem isLiteral_nestedLiteral : nestedLiteral.IsLiteral := by
  refine .obj (by decide) (by simp) fun entry hentry => ?_
  simp only [List.mem_cons, List.not_mem_nil, or_false] at hentry
  rcases hentry with rfl | rfl | rfl
  · refine .obj (by decide) (by simp [Key.default]) fun entry hentry => ?_
    simp only [List.mem_cons, List.not_mem_nil, or_false] at hentry
    rcases hentry with rfl | rfl
    · exact .text _
    · exact .null
  · refine .list fun item hitem => ?_
    simp only [List.mem_cons, List.not_mem_nil, or_false] at hitem
    rcases hitem with rfl | rfl | rfl | rfl
    · exact .int _
    · exact .bool _
    · exact .list (List.forall_mem_nil _)
    · refine .obj (by decide) (by simp) fun entry hentry => ?_
      cases List.mem_singleton.mp hentry
      exact .text _
  · exact .obj .nil (List.forall_mem_nil _) (List.forall_mem_nil _)

theorem nestedLiteral_reads_back : nestedLiteral.IsLiteral ∧
    ∃ text, renderValue 1 nestedLiteral = .ok text ∧ readLiteral? text = some nestedLiteral ∧
      ∀ (other : Nat) (w : Value), w.IsLiteral → renderValue other w = .ok text → w = nestedLiteral :=
  ⟨isLiteral_nestedLiteral, renderValue_reads_back isLiteral_nestedLiteral 1⟩

end Restyle.Style
