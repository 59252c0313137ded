import Restyle.Proofs.Additions
import Restyle.Proofs.Printing
import Restyle.Proofs.Ways
import Restyle.Style.Property

/-!
# Property names and their tokens

A token writes the hyphens of a property name as capitals.  Reading every capital as a hyphen and a small letter
gives the name back: a token that starts with a capital, or with `ms` and a capital, is that of a vendor's
property, whose name starts with a hyphen, and all other tokens start as their names do.  So different properties
have different tokens, and each of them has an entry of its own in a style object.
-/

namespace Restyle.Text

/-! ## Small letters and their capitals -/

/-- The small ASCII letters. -/
def smallLetters : List Char :=
  "abcdefghijklmnopqrstuvwxyz".toList

/-- The capital of a small ASCII letter. -/
def capital (c : Char) : Char :=
  Char.ofNat (c.toNat - 32)

theorem mem_smallLetters {c : Char} (h : isAsciiLower c = true) : c ∈ smallLetters := by
  have hall : ∀ n < 123, 97 ≤ n → Char.ofNat n ∈ smallLetters := by decide
  simp only [isAsciiLower, Bool.and_eq_true, decide_eq_true_eq] at h
  rw [← Char.ofNat_toNat c]
  exact hall c.toNat (Nat.lt_succ_of_le h.2) h.1

/-- What a small letter is for the functions on names. -/
structure Small (c : Char) : Prop where
  title : titleChar c = [capital c]
  lower : lowerChar c = [c]
  ascii : c.toNat < 128
  not_blank : isBlank c = false
  not_upper : isUpper c = false
  not_capital : isAsciiUpper c = false

/-- What its capital is for them. -/
structure Capital (c : Char) : Prop where
  lower : lowerChar (capital c) = [c]
  upper : isUpper (capital c) = true
  isCapital : isAsciiUpper (capital c) = true

theorem small_of_mem : ∀ c ∈ smallLetters, Small c := by
  have hall : smallLetters.all (fun c => decide (titleChar c = [capital c] ∧ lowerChar c = [c] ∧ c.toNat < 128 ∧
      isBlank c = false ∧ isUpper c = false ∧ isAsciiUpper c = false)) = true := by decide
  intro c hc
  obtain ⟨title, lower, ascii, not_blank, not_upper, not_capital⟩ :=
    of_decide_eq_true (List.all_eq_true.mp hall c hc)
  exact { title, lower, ascii, not_blank, not_upper, not_capital }

theorem capital_of_mem : ∀ c ∈ smallLetters, Capital c := by
  have hall : smallLetters.all (fun c => decide (lowerChar (capital c) = [c] ∧ isUpper (capital c) = true ∧
      isAsciiUpper (capital c) = true)) = true := by decide
  intro c hc
  obtain ⟨lower, upper, isCapital⟩ := of_decide_eq_true (List.all_eq_true.mp hall c hc)
  exact { lower, upper, isCapital }

/-- A nonempty word of small ASCII letters. -/
structure IsWord (cs : List Char) : Prop where
  nonempty : cs ≠ []
  small : ∀ c ∈ cs, isAsciiLower c = true

instance (cs : List Char) : Decidable (IsWord cs) :=
  decidable_of_iff (cs ≠ [] ∧ cs.all isAsciiLower = true)
    ⟨fun h => ⟨h.1, List.all_eq_true.mp h.2⟩, fun h => ⟨h.nonempty, List.all_eq_true.mpr h.small⟩⟩

/-- A word with its first letter as a capital. -/
def raised : List Char → List Char
  | [] => []
  | c :: cs => capital c :: cs

theorem lowerFrom_eq_self (before : List Char) {cs : List Char} (h : ∀ c ∈ cs, lowerChar c = [c] ∧ c.toNat < 128) :
    lowerFrom before cs = cs := by
  induction cs generalizing before with
  | nil => rfl
  | cons c cs ih =>
      obtain ⟨⟨hlower, hascii⟩, hrest⟩ := List.forall_mem_cons.mp h
      have hsigma : (c.toNat == 0x3A3) = false := beq_eq_false_iff_ne.mpr (by omega)
      rw [lowerFrom, ih _ hrest, hsigma, hlower]
      rfl

theorem IsWord.capitalize {cs : List Char} (h : IsWord cs) :
    capitalize (String.ofList cs) = String.ofList (raised cs) := by
  obtain ⟨c, cs, rfl⟩ := List.exists_cons_of_ne_nil h.nonempty
  have hsmall : ∀ d ∈ c :: cs, Small d := fun d hd => small_of_mem d (mem_smallLetters (h.small d hd))
  obtain ⟨hc, hcs⟩ := List.forall_mem_cons.mp hsmall
  rw [Text.capitalize, String.toList_ofList]
  dsimp only
  rw [hc.title, lowerFrom_eq_self [c] fun d hd => ⟨(hcs d hd).lower, (hcs d hd).ascii⟩]
  rfl

end Restyle.Text

namespace Restyle.Style

open Text (IsWord raised capital)

/-! ## Names -/

/-- Words joined by hyphens. -/
def hyphenate (words : List (List Char)) : List Char :=
  ['-'].intercalate words

/--
The name of a property: words joined by hyphens, where `ms` does not stand before others; the same behind a
hyphen, where it does not stand alone; or a trimmed name that starts with two hyphens.
-/
inductive IsPropertyName : String → Prop where
  | plain {word : List Char} {words : List (List Char)} :
      (∀ w ∈ word :: words, IsWord w) → (word = ['m', 's'] → words = []) →
      IsPropertyName (String.ofList (hyphenate (word :: words)))
  | vendor {word : List Char} {words : List (List Char)} :
      (∀ w ∈ word :: words, IsWord w) → (word = ['m', 's'] → words ≠ []) →
      IsPropertyName (String.ofList ('-' :: hyphenate (word :: words)))
  | custom {name : String} : Text.strip name = name → Text.hasLead "--" name = true → IsPropertyName name

/-- The characters of a token: a word, and further words with capitals. -/
def tokenChars (word : List Char) (words : List (List Char)) : List Char :=
  word ++ words.flatMap raised

section

variable {word : List Char} {words : List (List Char)}

theorem hyphenate_cons (word : List Char) (words : List (List Char)) :
    hyphenate (word :: words) = word ++ words.flatMap ('-' :: ·) :=
  Text.intercalate_cons_eq ['-'] word words

theorem mem_hyphenate {c : Char} (h : ∀ w ∈ word :: words, IsWord w) (hc : c ∈ hyphenate (word :: words)) :
    c ∈ Text.smallLetters ∨ c = '-' := by
  rw [hyphenate_cons] at hc
  rcases List.mem_append.mp hc with hc | hc
  · exact .inl (Text.mem_smallLetters ((h word List.mem_cons_self).small c hc))
  · obtain ⟨w, hw, hc⟩ := List.mem_flatMap.mp hc
    rcases List.mem_cons.mp hc with rfl | hc
    · exact .inr rfl
    · exact .inl (Text.mem_smallLetters ((h w (List.mem_cons_of_mem _ hw)).small c hc))

theorem hyphen_not_mem {w : List Char} (h : IsWord w) : '-' ∉ w :=
  fun hmem => absurd (h.small '-' hmem) (by decide)

/-- Names of small letters and hyphens have no blanks and no capitals. -/
theorem unchanged_of_letters {cs : List Char} (h : ∀ c ∈ cs, c ∈ Text.smallLetters ∨ c = '-') :
    Text.trim cs = cs ∧ Text.lower (String.ofList cs) = String.ofList cs := by
  have hchar : ∀ c ∈ cs, Text.isBlank c = false ∧ Text.lowerChar c = [c] ∧ c.toNat < 128 := by
    intro c hc
    rcases h c hc with hc | rfl
    · have hsmall := Text.small_of_mem c hc
      exact ⟨hsmall.not_blank, hsmall.lower, hsmall.ascii⟩
    · decide
  constructor
  · exact Text.trim_eq_self (fun c hc => (hchar c (List.mem_of_mem_head? hc)).1)
      fun c hc => (hchar c (List.mem_of_getLast? hc)).1
  · rw [Text.lower, String.toList_ofList, Text.lowerFrom_eq_self [] fun c hc => (hchar c hc).2]

theorem filter_splitAt_hyphenate (h : ∀ w ∈ word :: words, IsWord w) :
    (Text.splitAt '-' (hyphenate (word :: words))).filter (fun part => !part.isEmpty) = word :: words := by
  rw [hyphenate, Text.splitAt_intercalate (List.cons_ne_nil _ _) fun w hw => hyphen_not_mem (h w hw),
    List.filter_eq_self]
  intro w hw
  rw [List.isEmpty_eq_false_iff.mpr (h w hw).nonempty]
  rfl

theorem join_map_capitalize (h : ∀ w ∈ words, IsWord w) :
    String.join ((words.map String.ofList).map Text.capitalize) = String.ofList (words.flatMap raised) := by
  have hmap : (words.map String.ofList).map Text.capitalize = words.map fun w => String.ofList (raised w) := by
    rw [List.map_map]
    exact List.map_congr_left fun w hw => (h w hw).capitalize
  rw [hmap]
  apply String.toList_injective
  rw [String.toList_join, String.toList_ofList, List.flatMap_map]
  simp only [String.toList_ofList]

/-- The token of a name that is kept by trimming and writing small, and does not start with two hyphens. -/
theorem camelCase_of_parts {cs : List Char} (htrim : Text.trim cs = cs)
    (hlower : Text.lower (String.ofList cs) = String.ofList cs) (hlead : Text.hasLead "--" (String.ofList cs) = false)
    (hparts : (Text.splitAt '-' cs).filter (fun part => !part.isEmpty) = word :: words)
    (h : ∀ w ∈ word :: words, IsWord w) :
    camelCase (String.ofList cs) =
      String.ofList (tokenChars
        (if Text.hasLead "-" (String.ofList cs) = true ∧ word ≠ ['m', 's'] then raised word else word) words) := by
  obtain ⟨hword, hwords⟩ := List.forall_mem_cons.mp h
  have hstrip : Text.strip (String.ofList cs) = String.ofList cs := by
    rw [Text.strip, String.toList_ofList, htrim]
  have hms : (String.ofList word != "ms") = decide (word ≠ ['m', 's']) := by
    rw [Bool.eq_iff_iff, bne_iff_ne, decide_eq_true_iff, not_iff_not]
    constructor
    · intro heq
      rw [← String.toList_ofList (l := word), heq]
      rfl
    · rintro rfl
      rfl
  unfold camelCase
  dsimp only
  rw [hstrip, hlead, if_neg Bool.false_ne_true, hlower, String.toList_ofList, hparts, List.map_cons]
  dsimp only
  rw [join_map_capitalize hwords, hms, tokenChars, String.ofList_append, hword.capitalize]
  by_cases hvendor : Text.hasLead "-" (String.ofList cs) = true ∧ word ≠ ['m', 's']
  · rw [if_pos hvendor, if_pos (by simpa using hvendor)]
  · rw [if_neg hvendor, if_neg (by simpa using hvendor)]

theorem hyphenate_eq_cons (h : IsWord word) (words : List (List Char)) :
    ∃ c cs, c ∈ Text.smallLetters ∧ hyphenate (word :: words) = c :: cs := by
  obtain ⟨c, cs, rfl⟩ := List.exists_cons_of_ne_nil h.nonempty
  refine ⟨c, cs ++ words.flatMap ('-' :: ·), Text.mem_smallLetters (h.small c List.mem_cons_self), ?_⟩
  rw [hyphenate_cons]
  rfl

theorem hasLead_ofList_iff {lead : String} {ls cs : List Char} (hl : lead.toList = ls) :
    Text.hasLead lead (String.ofList cs) = true ↔ ls <+: cs := by
  rw [Text.hasLead_iff, hl, String.toList_ofList]

theorem hasLead_cons_false {lead : String} {l c : Char} {ls cs : List Char} (hl : lead.toList = l :: ls)
    (hc : l ≠ c) : Text.hasLead lead (String.ofList (c :: cs)) = false := by
  rw [Text.hasLead, hl, String.toList_ofList, Text.startsWith, Text.after?, if_neg (by simpa using hc)]
  rfl

theorem ne_hyphen_of_mem {c : Char} (h : c ∈ Text.smallLetters) : '-' ≠ c := by
  rintro rfl
  exact absurd h (by decide)

/-- Words joined by hyphens: the first word stays as it is. -/
theorem camelCase_plain (h : ∀ w ∈ word :: words, IsWord w) :
    camelCase (String.ofList (hyphenate (word :: words))) = String.ofList (tokenChars word words) := by
  obtain ⟨htrim, hlower⟩ := unchanged_of_letters fun c hc => mem_hyphenate h hc
  obtain ⟨c, cs, hc, hcs⟩ := hyphenate_eq_cons (h word List.mem_cons_self) words
  have hlead : Text.hasLead "--" (String.ofList (hyphenate (word :: words))) = false := by
    rw [hcs]
    exact hasLead_cons_false rfl (ne_hyphen_of_mem hc)
  have hvendor : Text.hasLead "-" (String.ofList (hyphenate (word :: words))) = false := by
    rw [hcs]
    exact hasLead_cons_false rfl (ne_hyphen_of_mem hc)
  rw [camelCase_of_parts htrim hlower hlead (filter_splitAt_hyphenate h) h, hvendor,
    if_neg fun hboth => Bool.false_ne_true hboth.1]

/-- Behind a hyphen the first word has a capital too, unless it is `ms`. -/
theorem camelCase_vendor (h : ∀ w ∈ word :: words, IsWord w) :
    camelCase (String.ofList ('-' :: hyphenate (word :: words))) =
      String.ofList (tokenChars (if word ≠ ['m', 's'] then raised word else word) words) := by
  have hletters : ∀ c ∈ '-' :: hyphenate (word :: words), c ∈ Text.smallLetters ∨ c = '-' :=
    fun c hc => (List.mem_cons.mp hc).elim .inr fun hc => mem_hyphenate h hc
  obtain ⟨htrim, hlower⟩ := unchanged_of_letters hletters
  obtain ⟨c, cs, hc, hcs⟩ := hyphenate_eq_cons (h word List.mem_cons_self) words
  have hlead : Text.hasLead "--" (String.ofList ('-' :: hyphenate (word :: words))) = false := by
    have hne : ('-' == c) = false := beq_eq_false_iff_ne.mpr (ne_hyphen_of_mem hc)
    rw [hcs, Text.hasLead, String.toList_ofList]
    simp [Text.startsWith, Text.after?, hne]
  have hvendor : Text.hasLead "-" (String.ofList ('-' :: hyphenate (word :: words))) = true :=
    (hasLead_ofList_iff rfl).mpr (List.prefix_append ['-'] _)
  have hparts : (Text.splitAt '-' ('-' :: hyphenate (word :: words))).filter (fun part => !part.isEmpty) =
      word :: words := by
    rw [Text.splitAt_sep, List.filter_cons_of_neg (by decide), filter_splitAt_hyphenate h]
  rw [camelCase_of_parts htrim hlower hlead hparts h, hvendor]
  simp only [true_and]

/-! ## Tokens -/

/-- A raised word starts with a capital. -/
theorem raised_eq_cons {w : List Char} (h : IsWord w) : ∃ c cs, raised w = c :: cs ∧ Text.isUpper c = true := by
  obtain ⟨c, cs, rfl⟩ := List.exists_cons_of_ne_nil h.nonempty
  exact ⟨capital c, cs, rfl, (Text.capital_of_mem c (Text.mem_smallLetters (h.small c List.mem_cons_self))).upper⟩

theorem flatMap_kebabChar_word {w : List Char} (h : ∀ c ∈ w, Text.isAsciiLower c = true) :
    w.flatMap kebabChar = w := by
  have hchar : ∀ c ∈ w, kebabChar c = [c] := by
    intro c hc
    rw [kebabChar, (Text.small_of_mem c (Text.mem_smallLetters (h c hc))).not_capital, if_neg Bool.false_ne_true]
  rw [List.flatMap_congr hchar]
  exact List.flatMap_singleton' w

theorem flatMap_kebabChar_raised {w : List Char} (h : IsWord w) : (raised w).flatMap kebabChar = '-' :: w := by
  obtain ⟨c, cs, rfl⟩ := List.exists_cons_of_ne_nil h.nonempty
  obtain ⟨hc, hcs⟩ := List.forall_mem_cons.mp h.small
  have hcapital := Text.capital_of_mem c (Text.mem_smallLetters hc)
  rw [raised, List.flatMap_cons, flatMap_kebabChar_word hcs, kebabChar, hcapital.isCapital, if_pos rfl, hcapital.lower]
  rfl

/-- Every capital of the further words stands for a hyphen. -/
theorem flatMap_kebabChar_tokenChars (first : List Char) (h : ∀ w ∈ words, IsWord w) :
    (tokenChars first words).flatMap kebabChar = first.flatMap kebabChar ++ words.flatMap ('-' :: ·) := by
  rw [tokenChars, List.flatMap_append, List.flatMap_assoc]
  exact congrArg _ (List.flatMap_congr fun w hw => flatMap_kebabChar_raised (h w hw))

theorem startsUpper_ofList (c : Char) (cs : List Char) :
    Text.startsUpper (String.ofList (c :: cs)) = Text.isUpper c := by
  rw [Text.startsUpper, String.toList_ofList]

/-- The first word of a token ends where its first capital stands. -/
theorem takeWhile_tokenChars (h : ∀ w ∈ word :: words, IsWord w) :
    (tokenChars word words).takeWhile (fun c => !Text.isUpper c) = word := by
  obtain ⟨hword, hwords⟩ := List.forall_mem_cons.mp h
  have hsmall : ∀ c ∈ word, (!Text.isUpper c) = true := by
    intro c hc
    rw [(Text.small_of_mem c (Text.mem_smallLetters (hword.small c hc))).not_upper]
    rfl
  have hcapital : (words.flatMap raised).takeWhile (fun c => !Text.isUpper c) = [] := by
    cases words with
    | nil => rfl
    | cons w words =>
        obtain ⟨c, cs, hcs, hc⟩ := raised_eq_cons (hwords w List.mem_cons_self)
        rw [List.flatMap_cons, hcs, List.cons_append, List.takeWhile_cons_of_neg (by simp [hc])]
  rw [tokenChars, List.takeWhile_append_of_pos hsmall, hcapital, List.append_nil]

/-- The second prefix is for tokens of `ms` and further words, and for no others. -/
theorem hasLead_ms_iff (h : ∀ w ∈ word :: words, IsWord w) :
    (Text.hasLead "ms" (String.ofList (tokenChars word words)) &&
      Text.startsUpper (Text.dropFirst 2 (String.ofList (tokenChars word words)))) = true ↔
      word = ['m', 's'] ∧ words ≠ [] := by
  rw [Bool.and_eq_true, hasLead_ofList_iff (show "ms".toList = ['m', 's'] from rfl), Text.dropFirst,
    String.toList_ofList (l := tokenChars word words)]
  constructor
  · rintro ⟨⟨rest, hrest⟩, hupper⟩
    rw [← hrest, show (['m', 's'] ++ rest).drop 2 = rest from rfl] at hupper
    obtain _ | ⟨c, rest⟩ := rest
    · cases hupper
    rw [startsUpper_ofList] at hupper
    have hword : word = ['m', 's'] := by
      have hm : Text.isUpper 'm' = false := by decide
      have hs : Text.isUpper 's' = false := by decide
      rw [← takeWhile_tokenChars h, ← hrest]
      simp [hm, hs, hupper]
    refine ⟨hword, ?_⟩
    rintro rfl
    rw [hword] at hrest
    cases hrest
  · rintro ⟨rfl, hne⟩
    obtain ⟨w, more, rfl⟩ := List.exists_cons_of_ne_nil hne
    obtain ⟨c, cs, hcs, hc⟩ := raised_eq_cons (h w (by simp))
    have hthird : (tokenChars ['m', 's'] (w :: more)).drop 2 = c :: (cs ++ more.flatMap raised) := by
      rw [tokenChars, List.flatMap_cons, hcs]
      rfl
    refine ⟨List.prefix_append ['m', 's'] _, ?_⟩
    rw [hthird, startsUpper_ofList, hc]

/-- A token that starts with a small letter is read back without a hyphen in front, unless it starts with `ms`. -/
theorem kebabCase_word (h : ∀ w ∈ word :: words, IsWord w) :
    kebabCase (String.ofList (tokenChars word words)) =
      String.ofList ((if word = ['m', 's'] ∧ words ≠ [] then ['-'] else []) ++ hyphenate (word :: words)) := by
  obtain ⟨hword, hwords⟩ := List.forall_mem_cons.mp h
  obtain ⟨c, cs, hcs⟩ := List.exists_cons_of_ne_nil hword.nonempty
  have hc : c ∈ Text.smallLetters := Text.mem_smallLetters (hword.small c (hcs ▸ List.mem_cons_self))
  have htoken : tokenChars word words = c :: (cs ++ words.flatMap raised) := by rw [tokenChars, hcs]; rfl
  have hcustom : Text.hasLead "--" (String.ofList (tokenChars word words)) = false := by
    rw [htoken]
    exact hasLead_cons_false rfl (ne_hyphen_of_mem hc)
  have hstart : Text.startsUpper (String.ofList (tokenChars word words)) = false := by
    rw [htoken, startsUpper_ofList, (Text.small_of_mem c hc).not_upper]
  have hout : (tokenChars word words).flatMap kebabChar = hyphenate (word :: words) := by
    rw [flatMap_kebabChar_tokenChars word hwords, flatMap_kebabChar_word hword.small, hyphenate_cons]
  have hms := hasLead_ms_iff h
  unfold kebabCase
  dsimp only
  rw [hcustom, if_neg Bool.false_ne_true, hstart, if_neg Bool.false_ne_true, String.toList_ofList, hout]
  by_cases hboth : word = ['m', 's'] ∧ words ≠ []
  · rw [if_pos hboth, if_pos (hms.mpr hboth), String.ofList_append]
  · rw [if_neg hboth, if_neg (mt hms.mp hboth), List.nil_append]

/-- A token that starts with a capital is read back with a hyphen in front. -/
theorem kebabCase_raised (h : ∀ w ∈ word :: words, IsWord w) :
    kebabCase (String.ofList (tokenChars (raised word) words)) = String.ofList ('-' :: hyphenate (word :: words)) := by
  obtain ⟨hword, hwords⟩ := List.forall_mem_cons.mp h
  obtain ⟨c, cs, hcs, hupper⟩ := raised_eq_cons hword
  have htoken : tokenChars (raised word) words = c :: (cs ++ words.flatMap raised) := by
    rw [tokenChars, hcs]
    rfl
  have hne : ∀ d, Text.isUpper d = false → d ≠ c := by
    rintro d hd rfl
    rw [hupper] at hd
    cases hd
  have hcustom : Text.hasLead "--" (String.ofList (tokenChars (raised word) words)) = false := by
    rw [htoken]
    exact hasLead_cons_false rfl (hne '-' (by decide))
  have hms : Text.hasLead "ms" (String.ofList (tokenChars (raised word) words)) = false := by
    rw [htoken]
    exact hasLead_cons_false rfl (hne 'm' (by decide))
  have hstart : Text.startsUpper (String.ofList (tokenChars (raised word) words)) = true := by
    rw [htoken, startsUpper_ofList, hupper]
  have hout : (tokenChars (raised word) words).flatMap kebabChar = '-' :: hyphenate (word :: words) := by
    rw [flatMap_kebabChar_tokenChars _ hwords, flatMap_kebabChar_raised hword, hyphenate_cons]
    rfl
  have hdrop : Text.dropLeading '-' (String.ofList ('-' :: hyphenate (word :: words))) =
      String.ofList (hyphenate (word :: words)) := by
    obtain ⟨d, ds, hd, hds⟩ := hyphenate_eq_cons hword words
    rw [hds, Text.dropLeading, String.toList_ofList, List.dropWhile_cons_of_pos (by decide),
      List.dropWhile_cons_of_neg (by simpa using Ne.symm (ne_hyphen_of_mem hd))]
  unfold kebabCase
  dsimp only
  rw [hcustom, if_neg Bool.false_ne_true, hstart, if_pos rfl, String.toList_ofList, hout, hdrop, hms,
    Bool.false_and, if_neg Bool.false_ne_true]
  exact (@String.ofList_append ['-'] _).symm

end

/-- The name of a property is read back from its token. -/
theorem IsPropertyName.kebabCase_camelCase {name : String} (h : IsPropertyName name) :
    kebabCase (camelCase name) = name := by
  cases h with
  | @plain word words hwords hms =>
      rw [camelCase_plain hwords, kebabCase_word hwords, if_neg fun hboth => hboth.2 (hms hboth.1), List.nil_append]
  | @vendor word words hwords hms =>
      rw [camelCase_vendor hwords]
      by_cases hword : word = ['m', 's']
      · rw [if_neg (not_not_intro hword), kebabCase_word hwords, if_pos ⟨hword, hms hword⟩]
        rfl
      · rw [if_pos hword, kebabCase_raised hwords]
  | custom hstrip hlead =>
      have htoken : camelCase name = name := by
        unfold camelCase
        dsimp only
        rw [hstrip, if_pos hlead]
      rw [htoken, kebabCase, if_pos hlead]

theorem IsPropertyName.eq_of_camelCase {a b : String} (ha : IsPropertyName a) (hb : IsPropertyName b)
    (h : camelCase a = camelCase b) : a = b := by
  rw [← ha.kebabCase_camelCase, h, hb.kebabCase_camelCase]

/--
The name of a property is read back from its token.  So different properties have different tokens, and entries that
are set under the tokens of different properties are all in the object, in their order and with their values.
-/
theorem propertyNames_survive :
    (∀ name, IsPropertyName name → kebabCase (camelCase name) = name) ∧
    (∀ a b, IsPropertyName a → IsPropertyName b → a ≠ b → camelCase a ≠ camelCase b) ∧
    ∀ entries : List (String × Value), (∀ entry ∈ entries, IsPropertyName entry.1) → (entries.map Prod.fst).Nodup →
      entries.foldl (fun o entry => Object.set o (.name (camelCase entry.1)) entry.2) [] =
        entries.map fun entry => (.name (camelCase entry.1), entry.2) := by
  refine ⟨fun name h => h.kebabCase_camelCase, fun a b ha hb hne heq => hne (ha.eq_of_camelCase hb heq),
    fun entries hnames hnodup => ?_⟩
  have hkeys : (Object.keys (entries.map fun entry => (Key.name (camelCase entry.1), entry.2))).Nodup := by
    have hmap : Object.keys (entries.map fun entry => (Key.name (camelCase entry.1), entry.2)) =
        (entries.map Prod.fst).map fun name => Key.name (camelCase name) := by
      rw [Object.keys, List.map_map, List.map_map]
      rfl
    rw [hmap]
    refine List.Nodup.map_on (fun a ha b hb heq => ?_) hnodup
    obtain ⟨x, hx, rfl⟩ := List.mem_map.mp ha
    obtain ⟨y, hy, rfl⟩ := List.mem_map.mp hb
    exact (hnames x hx).eq_of_camelCase (hnames y hy) (Key.name.inj heq)
  have hset := Object.foldl_set_eq_append (o := []) hkeys fun _ _ => List.not_mem_nil
  rwa [List.foldl_map, List.nil_append] at hset

/-- A vendor's property, the same behind another prefix and without any, and a custom property. -/
def vendorEntries : List (String × Value) :=
  [("-ms-flex", .int 1), ("flex", .int 2), ("-webkit-flex", .int 3), ("--Flex box", .int 4)]

theorem propertyNames_survive_vendorEntries :
    (∀ entry ∈ vendorEntries, IsPropertyName entry.1) ∧ kebabCase (camelCase "-ms-flex") = "-ms-flex" ∧
      camelCase "-ms-flex" ≠ camelCase "-webkit-flex" ∧
      vendorEntries.foldl (fun o entry => Object.set o (.name (camelCase entry.1)) entry.2) [] =
        [(.name "msFlex", .int 1), (.name "flex", .int 2), (.name "WebkitFlex", .int 3),
          (.name "--Flex box", .int 4)] := by
  have hms : IsPropertyName "-ms-flex" :=
    @IsPropertyName.vendor "ms".toList ["flex".toList] (by decide) (by decide)
  have hplain : IsPropertyName "flex" := @IsPropertyName.plain "flex".toList [] (by decide) (by decide)
  have hwebkit : IsPropertyName "-webkit-flex" :=
    @IsPropertyName.vendor "webkit".toList ["flex".toList] (by decide) (by decide)
  have hcustom : IsPropertyName "--Flex box" := .custom (by decide) (by decide)
  have hnames : ∀ entry ∈ vendorEntries, IsPropertyName entry.1 := by
    simp [vendorEntries, hms, hplain, hwebkit, hcustom]
  obtain ⟨hback, hdistinct, hentries⟩ := propertyNames_survive
  exact ⟨hnames, hback _ hms, hdistinct _ _ hms hwebkit (by decide), hentries vendorEntries hnames (by decide)⟩

end Restyle.Style
