import Restyle.Tsx.Lexeme

/-!
# Where lexical parts end

Names, numbers, texts, regular expressions and comments are not empty, and their last line is not blank.
-/

namespace Restyle.Tsx

/-- A character that is no white space. -/
def IsSolid (c : Char) : Prop := isSpace c = false

instance (c : Char) : Decidable (IsSolid c) := inferInstanceAs (Decidable (isSpace c = false))

/-- A text whose last line has a character that is no white space. -/
def EndsSolid (cs : List Char) : Prop :=
  ∃ before c after, cs = before ++ c :: after ∧ IsSolid c ∧ '\n' ∉ after

theorem solid_of_printable {c : Char} (hlow : 0x21 ≤ c.toNat) (hhigh : c.toNat ≤ 0x7E) : IsSolid c := by
  simp only [IsSolid, isSpace, Bool.or_eq_false_iff, beq_eq_false_iff_ne, Bool.and_eq_false_iff,
    decide_eq_false_iff_not]
  omega

theorem solid_of_isNameChar {c : Char} (h : isNameChar c = true) : IsSolid c := by
  simp only [isNameChar, Bool.not_eq_true', Bool.or_eq_false_iff] at h
  exact h.1.2

/-- Characters from one printable character to another. -/
theorem solid_of_between {a b c : Char} (h : (a ≤ c ∧ c ≤ b)) (ha : 0x21 ≤ a.toNat)
    (hb : b.toNat ≤ 0x7E) : IsSolid c :=
  solid_of_printable (Nat.le_trans ha h.1) (Nat.le_trans h.2 hb)

theorem solid_of_digit {c : Char} (h : Text.isAsciiDigit c = true) : IsSolid c := by
  simp only [Text.isAsciiDigit, Bool.and_eq_true, decide_eq_true_eq] at h
  exact solid_of_between h (by decide) (by decide)

theorem solid_of_lower {c : Char} (h : Text.isAsciiLower c = true) : IsSolid c := by
  simp only [Text.isAsciiLower, Bool.and_eq_true, decide_eq_true_eq] at h
  exact solid_of_between h (by decide) (by decide)

theorem solid_of_letter {c : Char} (h : Text.isAsciiLetter c = true) : IsSolid c := by
  simp only [Text.isAsciiLetter, Bool.or_eq_true] at h
  rcases h with h | h
  · simp only [Text.isAsciiUpper, Bool.and_eq_true, decide_eq_true_eq] at h
    exact solid_of_between h (by decide) (by decide)
  · exact solid_of_lower h

theorem solid_of_hex {c : Char} (h : (Text.hexValue? c).isSome = true) : IsSolid c := by
  unfold Text.hexValue? at h
  split at h
  · next hdigit =>
      exact solid_of_between (by simpa using hdigit) (by decide) (by decide)
  split at h
  · next hlower =>
      exact solid_of_between (by simpa using hlower) (by decide) (by decide)
  split at h
  · next hupper =>
      exact solid_of_between (by simpa using hupper) (by decide) (by decide)
  · cases h

/-! ## Texts without white space -/

/-- A text without white space. -/
def AllSolid (cs : List Char) : Prop := ∀ c ∈ cs, IsSolid c

namespace AllSolid

theorem nil : AllSolid [] := fun _ h => absurd h List.not_mem_nil

theorem cons {c : Char} {cs : List Char} (hc : IsSolid c) (hcs : AllSolid cs) : AllSolid (c :: cs) :=
  fun _ hd => (List.mem_cons.mp hd).elim (fun h => h ▸ hc) (hcs _)

theorem append {cs ds : List Char} (hcs : AllSolid cs) (hds : AllSolid ds) : AllSolid (cs ++ ds) :=
  fun _ hd => (List.mem_append.mp hd).elim (hcs _) (hds _)

theorem takeWhile {p : Char → Bool} (h : ∀ c, p c = true → IsSolid c) (cs : List Char) :
    AllSolid (cs.takeWhile p) :=
  fun c hc => h c (List.all_eq_true.mp List.all_takeWhile c hc)

theorem endsSolid {cs : List Char} (h : AllSolid cs) (hne : cs ≠ []) : EndsSolid cs :=
  ⟨cs.dropLast, cs.getLast hne, [], (List.dropLast_concat_getLast hne).symm, h _ (List.getLast_mem hne),
    List.not_mem_nil⟩

end AllSolid

theorem EndsSolid.append {ds : List Char} (h : EndsSolid ds) (cs : List Char) : EndsSolid (cs ++ ds) := by
  obtain ⟨before, c, after, rfl, hsolid, hline⟩ := h
  exact ⟨cs ++ before, c, after, (List.append_assoc ..).symm, hsolid, hline⟩

theorem EndsSolid.append_line {cs : List Char} (h : EndsSolid cs) {ds : List Char} (hds : '\n' ∉ ds) :
    EndsSolid (cs ++ ds) := by
  obtain ⟨before, c, after, rfl, hsolid, hline⟩ := h
  exact ⟨before, c, after ++ ds, List.append_assoc .., hsolid, fun hmem =>
    (List.mem_append.mp hmem).elim hline hds⟩

theorem EndsSolid.cons {cs : List Char} (h : EndsSolid cs) (c : Char) : EndsSolid (c :: cs) :=
  h.append [c]

theorem EndsSolid.ne_nil {cs : List Char} (h : EndsSolid cs) : cs ≠ [] := by
  obtain ⟨before, c, after, rfl, -, -⟩ := h
  exact List.append_ne_nil_of_right_ne_nil _ (List.cons_ne_nil _ _)

theorem endsSolid_singleton {c : Char} (h : IsSolid c) : EndsSolid [c] :=
  ⟨[], c, [], rfl, h, List.not_mem_nil⟩

/-- The first characters of a text are those of a front part and those of the rest. -/
theorem take_add_eq (cs : List Char) (a b : Nat) :
    cs.take (a + b) = cs.take a ++ (cs.drop a).take b := List.take_add

theorem take_length_takeWhile (p : Char → Bool) (cs : List Char) :
    cs.take (cs.takeWhile p).length = cs.takeWhile p :=
  List.prefix_iff_eq_take.mp (List.takeWhile_prefix p) |>.symm

/-! ## Names -/

theorem allSolid_unit {cs : List Char} (h : (Text.readUnit? cs).isSome = true) :
    AllSolid (cs.take 4) := by
  have hex : ∀ {c : Char} {n : Nat}, Text.hexValue? c = some n → IsSolid c :=
    fun h => solid_of_hex (by rw [h]; rfl)
  obtain ⟨result, h⟩ := Option.isSome_iff_exists.mp h
  unfold Text.readUnit? at h
  split at h
  · obtain ⟨_, ha, h⟩ := Option.bind_eq_some_iff.mp h
    obtain ⟨_, hb, h⟩ := Option.bind_eq_some_iff.mp h
    obtain ⟨_, hc, h⟩ := Option.bind_eq_some_iff.mp h
    obtain ⟨_, hd, -⟩ := Option.bind_eq_some_iff.mp h
    exact .cons (hex ha) (.cons (hex hb) (.cons (hex hc) (.cons (hex hd) .nil)))
  · cases h

theorem allSolid_nameEscape {cs : List Char} {n : Nat} (h : nameEscapeLength? cs = some n) :
    AllSolid (cs.take n) := by
  unfold nameEscapeLength? at h
  split at h
  · next rest =>
    have hu : IsSolid 'u' := by decide
    unfold escapeLength? at h
    dsimp only at h
    rw [if_neg (by decide), if_pos (by decide)] at h
    split at h
    · next more =>
      split at h
      · next hclosed =>
        cases h
        have hhead : (more.drop (more.takeWhile fun d => (Text.hexValue? d).isSome).length).head? =
            some '}' := by
          simp only [Bool.and_eq_true, beq_iff_eq] at hclosed
          exact hclosed.2
        obtain ⟨after, hafter⟩ := List.head?_eq_some_iff.mp hhead
        rw [List.take_succ_cons, List.take_succ_cons, take_add_eq, take_length_takeWhile, hafter]
        exact .cons hu (.cons (by decide) (.append (.takeWhile (fun _ => solid_of_hex) _)
          (.cons (by decide) .nil)))
      · cases h
    · split at h
      · next hunit =>
        cases h
        rw [List.take_succ_cons]
        exact .cons hu (allSolid_unit hunit)
      · cases h
  · cases h

/-- What continues a name is solid, given the characters of an escape that are skipped. -/
theorem allSolid_nameTail (skip : Nat) (cs : List Char) (h : AllSolid (cs.take skip)) :
    AllSolid (cs.take (nameTail skip cs)) := by
  fun_induction nameTail skip cs with
  | case1 => exact .nil
  | case2 skip c cs ih =>
      rw [List.take_succ_cons] at h
      rw [Nat.add_comm, List.take_succ_cons]
      exact .cons (h c List.mem_cons_self) (ih fun d hd => h d (List.mem_cons_of_mem c hd))
  | case3 c cs hname ih =>
      rw [Nat.add_comm, List.take_succ_cons]
      exact .cons (solid_of_isNameChar hname) (ih .nil)
  | case4 c cs hname hslash n hescape ih =>
      rw [Nat.add_comm, List.take_succ_cons]
      rw [beq_iff_eq] at hslash
      subst hslash
      exact .cons (by decide) (ih (allSolid_nameEscape hescape))
  | case5 => exact .nil
  | case6 => exact .nil

theorem solid_name {cs : List Char} {n : Nat} (h : nameLength? cs = some n) :
    AllSolid (cs.take n) ∧ cs.take n ≠ [] := by
  unfold nameLength? at h
  split at h
  · next c rest =>
    split at h
    · next hstart =>
      cases h
      rw [Nat.add_comm, List.take_succ_cons]
      rw [isNameStart, Bool.and_eq_true] at hstart
      exact ⟨.cons (solid_of_isNameChar hstart.1) (allSolid_nameTail 0 rest .nil), List.cons_ne_nil _ _⟩
    · split at h
      · next hslash =>
        obtain ⟨m, hescape, h⟩ := Option.map_eq_some_iff.mp h
        cases h
        rw [beq_iff_eq] at hslash
        subst hslash
        rw [Nat.add_comm, List.take_succ_cons]
        exact ⟨.cons (by decide) (allSolid_nameTail m rest (allSolid_nameEscape hescape)),
          List.cons_ne_nil _ _⟩
      · cases h
  · cases h

theorem endsSolid_name {cs : List Char} {n : Nat} (h : nameLength? cs = some n) :
    EndsSolid (cs.take n) :=
  (solid_name h).1.endsSolid (solid_name h).2

theorem endsSolid_privateName {cs : List Char} {n : Nat} (h : privateNameLength? cs = some n) :
    EndsSolid (cs.take n) := by
  unfold privateNameLength? at h
  split at h
  · obtain ⟨m, hname, h⟩ := Option.map_eq_some_iff.mp h
    cases h
    exact (endsSolid_name hname).cons _
  · cases h

theorem endsSolid_tagName {cs : List Char} {n : Nat} (h : tagNameLength? cs = some n) :
    EndsSolid (cs.take n) := by
  unfold tagNameLength? at h
  split at h
  · cases h
  · next m hname =>
    split at h
    · cases h
      obtain ⟨hsolid, hne⟩ := solid_name hname
      rw [take_add_eq, take_length_takeWhile]
      refine (hsolid.append (.takeWhile (fun c hc => ?_) _)).endsSolid
        (List.append_ne_nil_of_left_ne_nil hne _)
      simp only [Bool.or_eq_true, beq_iff_eq] at hc
      rcases hc with (((hletter | hdigit) | rfl) | rfl) | rfl
      · exact solid_of_letter hletter
      · exact solid_of_digit hdigit
      all_goals decide
    · cases h
      exact endsSolid_name hname

/-! ## Numbers -/

section Digits

variable {isDigit : Char → Bool}

theorem allSolid_groupedDigits (h : ∀ c, isDigit c = true → IsSolid c) (cs : List Char) :
    AllSolid (cs.take (groupedDigits isDigit cs)) := by
  fun_induction groupedDigits isDigit cs with
  | case1 => exact .nil
  | case2 c cs hdigit ih =>
      rw [Nat.add_comm, List.take_succ_cons]
      exact .cons (h c hdigit) ih
  | case3 c hdigit d cs hgroup ih =>
      rw [Nat.add_comm, List.take_succ_cons]
      rw [Bool.and_eq_true, beq_iff_eq] at hgroup
      rw [hgroup.1]
      exact .cons (by decide) ih
  | case4 => exact .nil
  | case5 => exact .nil

theorem allSolid_digits (h : ∀ c, isDigit c = true → IsSolid c) (cs : List Char) :
    AllSolid (cs.take (digitsLength isDigit cs)) := by
  unfold digitsLength
  split
  · split
    · exact allSolid_groupedDigits h _
    · exact .nil
  · exact .nil

end Digits

theorem allSolid_exponent (cs : List Char) : AllSolid (cs.take (exponentLength cs)) := by
  unfold exponentLength
  split
  · next e rest =>
    split
    · next he =>
      have hsolid : IsSolid e := by
        simp only [Bool.or_eq_true, beq_iff_eq] at he
        rcases he with rfl | rfl <;> decide
      have hmore : ∀ signed, AllSolid (rest.take signed) → AllSolid ((e :: rest).take
          (if (digitsLength Text.isAsciiDigit (rest.drop signed) == 0) = true then 0
            else 1 + signed + digitsLength Text.isAsciiDigit (rest.drop signed))) := by
        intro signed hsigned
        split
        · exact .nil
        · rw [Nat.add_assoc, Nat.add_comm 1, List.take_succ_cons, take_add_eq]
          exact .cons hsolid (hsigned.append (allSolid_digits (fun _ => solid_of_digit) _))
      cases rest with
      | nil => exact hmore 0 .nil
      | cons s more =>
          by_cases hs : (s == '-' || s == '+') = true
          · simp only [hs, if_true]
            simp only [Bool.or_eq_true, beq_iff_eq] at hs
            refine hmore 1 (.cons ?_ .nil)
            rcases hs with rfl | rfl <;> decide
          · simp only [hs]
            exact hmore 0 .nil
    · exact .nil
  · exact .nil

theorem allSolid_bigMark {cs : List Char} {n : Nat} (h : AllSolid (cs.take n)) :
    AllSolid (cs.take (bigMark cs n)) := by
  unfold bigMark
  split
  · next hmark =>
    obtain ⟨after, hafter⟩ := List.head?_eq_some_iff.mp (beq_iff_eq.mp hmark)
    rw [take_add_eq, hafter]
    exact h.append (.cons (by decide) .nil)
  · exact h

theorem le_bigMark (cs : List Char) (n : Nat) : n ≤ bigMark cs n := by
  unfold bigMark
  split
  · exact Nat.le_succ n
  · exact Nat.le_refl n

theorem solid_radix {cs : List Char} {n : Nat} (h : radixLength? cs = some n) :
    AllSolid (cs.take n) ∧ 0 < n := by
  unfold radixLength? at h
  split at h
  · next x rest =>
    dsimp only at h
    obtain ⟨isDigit, hdigits, h⟩ := Option.bind_eq_some_iff.mp h
    have hkind : IsSolid x ∧ ∀ c, isDigit c = true → IsSolid c := by
      split at hdigits
      · next hx =>
        cases hdigits
        simp only [Bool.or_eq_true, beq_iff_eq] at hx
        exact ⟨by rcases hx with rfl | rfl <;> decide, fun _ => solid_of_hex⟩
      split at hdigits
      · next hx =>
        cases hdigits
        simp only [Bool.or_eq_true, beq_iff_eq] at hx
        refine ⟨by rcases hx with rfl | rfl <;> decide, fun c hc => ?_⟩
        exact solid_of_between (by simpa using hc) (by decide) (by decide)
      split at hdigits
      · next hx =>
        cases hdigits
        simp only [Bool.or_eq_true, beq_iff_eq] at hx
        refine ⟨by rcases hx with rfl | rfl <;> decide, fun c hc => ?_⟩
        simp only [Bool.or_eq_true, beq_iff_eq] at hc
        rcases hc with rfl | rfl <;> decide
      · cases hdigits
    split at h
    · cases h
    · cases h
      rw [Nat.add_comm, List.take_succ_cons, List.take_succ_cons]
      exact ⟨.cons (by decide) (.cons hkind.1 (allSolid_digits hkind.2 _)), Nat.succ_pos _⟩
  · cases h

theorem solid_number {cs : List Char} {n : Nat} (h : numberLength? cs = some n) :
    AllSolid (cs.take n) ∧ 0 < n := by
  have hwhole : AllSolid (cs.take (digitsLength Text.isAsciiDigit cs)) :=
    allSolid_digits (fun _ => solid_of_digit) cs
  unfold numberLength? at h
  split at h
  · next m hradix =>
    cases h
    obtain ⟨hsolid, hpos⟩ := solid_radix hradix
    exact ⟨allSolid_bigMark hsolid, Nat.lt_of_lt_of_le hpos (le_bigMark _ _)⟩
  dsimp only at h
  have hinteger : ∀ m, (if (digitsLength Text.isAsciiDigit cs == 0) = true then none
      else some (bigMark cs (digitsLength Text.isAsciiDigit cs))) = some m →
      AllSolid (cs.take m) ∧ 0 < m := by
    intro m hm
    split at hm
    · cases hm
    · next hzero =>
      cases hm
      rw [beq_iff_eq] at hzero
      exact ⟨allSolid_bigMark hwhole, Nat.lt_of_lt_of_le (Nat.pos_of_ne_zero hzero) (le_bigMark _ _)⟩
  split at h
  · split at h
    · next rest hrest =>
      split at h
      · cases h
      · cases h
        have hfraction : AllSolid (cs.take (digitsLength Text.isAsciiDigit cs + 1 +
            digitsLength Text.isAsciiDigit rest)) := by
          rw [Nat.add_assoc, take_add_eq, hrest, Nat.add_comm 1, List.take_succ_cons]
          exact hwhole.append (.cons (by decide) (allSolid_digits (fun _ => solid_of_digit) rest))
        refine ⟨?_, by omega⟩
        rw [take_add_eq]
        exact hfraction.append (allSolid_exponent _)
    · split at h
      · exact hinteger n h
      · next hzero =>
        cases h
        rw [Bool.or_eq_true, not_or, beq_iff_eq] at hzero
        refine ⟨?_, by omega⟩
        rw [take_add_eq]
        exact hwhole.append (allSolid_exponent _)
  · exact hinteger n h

theorem numberLength?_nil : numberLength? [] = none := by decide

theorem endsSolid_number {cs : List Char} {n : Nat} (h : numberLength? cs = some n) :
    EndsSolid (cs.take n) := by
  obtain ⟨hsolid, hpos⟩ := solid_number h
  refine hsolid.endsSolid fun hnil => ?_
  rcases List.take_eq_nil_iff.mp hnil with hzero | rfl
  · omega
  · rw [numberLength?_nil] at h
    cases h

/-! ## Texts and regular expressions -/

theorem endsSolid_stringTail {quote : Char} (hquote : IsSolid quote) {skip : Nat} {cs : List Char}
    {n : Nat} (h : stringTail? quote skip cs = some n) : EndsSolid (cs.take n) := by
  fun_induction stringTail? quote skip cs generalizing n with
  | case1 => cases h
  | case2 skip c cs ih =>
      obtain ⟨m, hm, h⟩ := Option.map_eq_some_iff.mp h
      cases h
      exact (ih hm).cons c
  | case3 c cs hend =>
      cases h
      rw [beq_iff_eq] at hend
      exact endsSolid_singleton (hend ▸ hquote)
  | case4 c cs hend hslash k hescape ih =>
      obtain ⟨m, hm, h⟩ := Option.map_eq_some_iff.mp h
      cases h
      exact (ih hm).cons c
  | case5 => cases h
  | case6 => cases h
  | case7 c cs hend hslash hbreak ih =>
      obtain ⟨m, hm, h⟩ := Option.map_eq_some_iff.mp h
      cases h
      exact (ih hm).cons c

theorem endsSolid_attributeTail {quote : Char} (hquote : IsSolid quote) {skip : Nat} {cs : List Char}
    {n : Nat} (h : attributeTail? quote skip cs = some n) : EndsSolid (cs.take n) := by
  have hmore : ∀ {skip n : Nat} {c : Char} {cs : List Char},
      (∀ {m}, attributeTail? quote skip cs = some m → EndsSolid (cs.take m)) →
      (attributeTail? quote skip cs).map (· + 1) = some n → EndsSolid ((c :: cs).take n) := by
    intro skip n c cs ih h
    obtain ⟨m, hm, h⟩ := Option.map_eq_some_iff.mp h
    cases h
    exact (ih hm).cons c
  induction cs generalizing skip n with
  | nil => cases skip <;> cases h
  | cons c cs ih =>
      cases skip with
      | succ skip => exact hmore ih h
      | zero =>
          rw [attributeTail?.eq_def] at h
          dsimp only at h
          split at h
          · next hend =>
            cases h
            rw [beq_iff_eq] at hend
            exact endsSolid_singleton (hend ▸ hquote)
          split at h
          · split at h
            · split at h
              · split at h
                · exact hmore ih h
                · cases h
              · exact hmore ih h
            · cases h
          · exact hmore ih h

theorem solid_of_isQuote {c : Char} (h : (c == '"' || c == '\'') = true) : IsSolid c := by
  simp only [Bool.or_eq_true, beq_iff_eq] at h
  rcases h with rfl | rfl <;> decide

theorem endsSolid_string {cs : List Char} {n : Nat} (h : stringLength? cs = some n) :
    EndsSolid (cs.take n) := by
  unfold stringLength? at h
  split at h
  · split at h
    · next hquote =>
      obtain ⟨m, hm, h⟩ := Option.map_eq_some_iff.mp h
      cases h
      exact (endsSolid_stringTail (solid_of_isQuote hquote) hm).cons _
    · cases h
  · cases h

theorem endsSolid_attributeString {cs : List Char} {n : Nat} (h : attributeStringLength? cs = some n) :
    EndsSolid (cs.take n) := by
  unfold attributeStringLength? at h
  split at h
  · split at h
    · next hquote =>
      obtain ⟨m, hm, h⟩ := Option.map_eq_some_iff.mp h
      cases h
      exact (endsSolid_attributeTail (solid_of_isQuote hquote) hm).cons _
    · cases h
  · cases h

theorem endsSolid_regexTail {inClass escaped : Bool} {cs : List Char} {n : Nat}
    (h : regexTail? inClass escaped cs = some n) : EndsSolid (cs.take n) := by
  induction cs generalizing inClass escaped n with
  | nil => cases h
  | cons c cs ih =>
      have hmore : ∀ {inClass escaped : Bool}, (regexTail? inClass escaped cs).map (· + 1) = some n →
          EndsSolid ((c :: cs).take n) := by
        intro inClass escaped h
        obtain ⟨m, hm, h⟩ := Option.map_eq_some_iff.mp h
        cases h
        exact (ih hm).cons c
      rw [regexTail?] at h
      split at h
      · cases h
      split at h
      · exact hmore h
      split at h
      · exact hmore h
      split at h
      · exact hmore h
      split at h
      · exact hmore h
      split at h
      · next hslash =>
        cases h
        rw [beq_iff_eq] at hslash
        subst hslash
        exact endsSolid_singleton (by decide)
      · exact hmore h

theorem endsSolid_regex {cs : List Char} {n : Nat} (h : regexLength? cs = some n) :
    EndsSolid (cs.take n) := by
  unfold regexLength? at h
  split at h
  · next rest =>
    split at h
    · next m hm =>
      split at h
      · cases h
      · cases h
        rw [Nat.add_assoc, Nat.add_comm 1, List.take_succ_cons, take_add_eq, take_length_takeWhile]
        refine ((endsSolid_regexTail hm).append_line fun hmem => ?_).cons '/'
        exact absurd (AllSolid.takeWhile (fun _ => solid_of_lower) _ _ hmem) (by decide)
    · cases h
  · cases h

/-! ## Comments -/

theorem endsSolid_blockComment {cs : List Char} {n : Nat} (h : blockCommentTail? cs = some n) :
    EndsSolid (cs.take n) := by
  induction cs generalizing n with
  | nil => cases h
  | cons c cs ih =>
      rw [blockCommentTail?] at h
      split at h
      · next hend =>
        cases h
        obtain ⟨rest, hrest⟩ := Option.isSome_iff_exists.mp hend
        rw [Text.after?_eq_some hrest]
        exact (endsSolid_singleton (c := '/') (by decide)).cons '*'
      · obtain ⟨m, hm, h⟩ := Option.map_eq_some_iff.mp h
        cases h
        exact (ih hm).cons c

theorem endsSolid_comment {cs : List Char} {n : Nat} (h : commentLength? cs = some n) :
    EndsSolid (cs.take n) := by
  unfold commentLength? at h
  split at h
  · next rest =>
    cases h
    rw [Nat.add_comm, List.take_succ_cons, List.take_succ_cons, take_length_takeWhile]
    refine ((endsSolid_singleton (c := '/') (by decide)).cons '/').append_line fun hmem => ?_
    have hline := List.all_eq_true.mp List.all_takeWhile _ hmem
    exact absurd hline (by decide)
  · obtain ⟨m, hm, h⟩ := Option.map_eq_some_iff.mp h
    cases h
    exact ((endsSolid_blockComment hm).cons '*').cons '/'
  · cases h

end Restyle.Tsx
