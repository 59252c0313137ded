import Restyle.Proofs.Respelling

/-!
# The blanks of a selector

The one spelling of a selector changes its blanks and nothing else.  What stands between two characters after it
depends on the roles of the two alone: a comma has one blank behind it and none before it, a combinator one on
each side, and between other characters some blanks become one.  Whether a character is a combinator is seen
from the text behind it.
-/

namespace Restyle.Text

/-! ## Characters with the blanks before them -/

/-- A character that is not blank, with the blanks before it. -/
structure Glyph where
  gap : List Char
  char : Char
  deriving DecidableEq, Repr

/-- The glyphs of a text behind some blanks. -/
def glyphsFrom (gap : List Char) : List Char → List Glyph
  | [] => []
  | c :: cs => if isBlank c then glyphsFrom (gap ++ [c]) cs else ⟨gap, c⟩ :: glyphsFrom [] cs

/-- The glyphs of a text; the blanks at its end belong to none. -/
def glyphs (cs : List Char) : List Glyph :=
  glyphsFrom [] cs

/-- The gap of a glyph is blank and its character is not. -/
structure Glyph.Proper (g : Glyph) : Prop where
  gap : ∀ c ∈ g.gap, isBlank c = true
  char : isBlank g.char = false

/-- The text of a glyph. -/
def Glyph.text (g : Glyph) : List Char :=
  g.gap ++ [g.char]

/-- The text of some glyphs. -/
def spell (gs : List Glyph) : List Char :=
  gs.flatMap Glyph.text

/-- Puts blanks in front of the first glyph. -/
def indent (gap : List Char) : List Glyph → List Glyph
  | [] => []
  | g :: gs => ⟨gap ++ g.gap, g.char⟩ :: gs

/-- Takes the blanks in front of the first glyph away. -/
def unindent : List Glyph → List Glyph
  | [] => []
  | g :: gs => ⟨[], g.char⟩ :: gs

theorem glyphsFrom_blanks {blanks : List Char} (h : ∀ c ∈ blanks, isBlank c = true) (gap cs : List Char) :
    glyphsFrom gap (blanks ++ cs) = glyphsFrom (gap ++ blanks) cs := by
  induction blanks generalizing gap with
  | nil => rw [List.nil_append, List.append_nil]
  | cons c blanks ih =>
      obtain ⟨hc, hblanks⟩ := List.forall_mem_cons.mp h
      rw [List.cons_append, glyphsFrom, if_pos hc, ih hblanks, List.append_assoc, List.singleton_append]

theorem glyphsFrom_cons {c : Char} (hc : isBlank c = false) (gap cs : List Char) :
    glyphsFrom gap (c :: cs) = ⟨gap, c⟩ :: glyphs cs := by
  rw [glyphsFrom, if_neg (by rw [hc]; exact Bool.false_ne_true), glyphs]

theorem glyphs_cons {c : Char} (hc : isBlank c = false) (cs : List Char) :
    glyphs (c :: cs) = ⟨[], c⟩ :: glyphs cs :=
  glyphsFrom_cons hc [] cs

theorem glyphs_blanks {blanks : List Char} (h : ∀ c ∈ blanks, isBlank c = true) : glyphs blanks = [] := by
  have hall := glyphsFrom_blanks h [] []
  rwa [List.append_nil] at hall

theorem glyphs_blanks_cons {blanks : List Char} (h : ∀ c ∈ blanks, isBlank c = true) {c : Char}
    (hc : isBlank c = false) (cs : List Char) : glyphs (blanks ++ c :: cs) = ⟨blanks, c⟩ :: glyphs cs := by
  rw [glyphs, glyphsFrom_blanks h, List.nil_append, glyphsFrom_cons hc]

/-- A text is blank, or it starts with a glyph. -/
theorem blanks_or_glyph (cs : List Char) :
    (∀ c ∈ cs, isBlank c = true) ∨ ∃ gap c rest, (∀ d ∈ gap, isBlank d = true) ∧ isBlank c = false ∧
      cs = gap ++ c :: rest := by
  obtain ⟨gap, hgap, hcs⟩ := exists_trimStart cs
  cases hrest : trimStart cs with
  | nil =>
      rw [hrest, List.append_nil] at hcs
      exact .inl (hcs ▸ hgap)
  | cons c rest =>
      have hc : isBlank c = false := by
        have hhead := List.head?_dropWhile_not isBlank cs
        rw [show cs.dropWhile isBlank = c :: rest from hrest] at hhead
        simpa using hhead
      rw [hrest] at hcs
      exact .inr ⟨gap, c, rest, hgap, hc, hcs⟩

/-- Texts are read glyph by glyph. -/
theorem glyphInduction {motive : List Char → Prop} (blanks : ∀ cs, (∀ c ∈ cs, isBlank c = true) → motive cs)
    (glyph : ∀ gap c rest, (∀ d ∈ gap, isBlank d = true) → isBlank c = false →
      (∀ cs, cs.length ≤ rest.length → motive cs) → motive (gap ++ c :: rest)) (cs : List Char) : motive cs := by
  induction hn : cs.length using Nat.strong_induction_on generalizing cs with
  | _ n ih =>
      rcases blanks_or_glyph cs with hblanks | ⟨gap, c, rest, hgap, hc, rfl⟩
      · exact blanks cs hblanks
      · refine glyph gap c rest hgap hc fun more hmore => ih more.length ?_ more rfl
        rw [List.length_append, List.length_cons] at hn
        omega

theorem proper_of_mem_glyphs {cs : List Char} {g : Glyph} (h : g ∈ glyphs cs) : g.Proper := by
  induction cs using glyphInduction with
  | blanks cs hcs =>
      rw [glyphs_blanks hcs] at h
      cases h
  | glyph gap c rest hgap hc ih =>
      rw [glyphs_blanks_cons hgap hc] at h
      rcases List.mem_cons.mp h with rfl | h
      · exact ⟨hgap, hc⟩
      · exact ih rest le_rfl h

theorem Glyph.text_append (g : Glyph) (cs : List Char) : g.text ++ cs = g.gap ++ g.char :: cs := by
  rw [Glyph.text, List.append_assoc, List.singleton_append]

theorem spell_cons (g : Glyph) (gs : List Glyph) : spell (g :: gs) = g.text ++ spell gs :=
  List.flatMap_cons

theorem spell_append (gs more : List Glyph) : spell (gs ++ more) = spell gs ++ spell more :=
  List.flatMap_append

/-- A text is spelled by its glyphs, up to the blanks at its end. -/
theorem exists_spell_glyphs (cs : List Char) :
    ∃ blanks, (∀ c ∈ blanks, isBlank c = true) ∧ cs = spell (glyphs cs) ++ blanks := by
  induction cs using glyphInduction with
  | blanks cs hcs => exact ⟨cs, hcs, by rw [glyphs_blanks hcs]; rfl⟩
  | glyph gap c rest hgap hc ih =>
      obtain ⟨blanks, hblanks, hrest⟩ := ih rest le_rfl
      refine ⟨blanks, hblanks, ?_⟩
      rw [glyphs_blanks_cons hgap hc, spell_cons, List.append_assoc, ← hrest, Glyph.text_append]

theorem glyphs_spell_append {gs : List Glyph} (h : ∀ g ∈ gs, g.Proper) (cs : List Char) :
    glyphs (spell gs ++ cs) = gs ++ glyphs cs := by
  induction gs with
  | nil => rfl
  | cons g gs ih =>
      obtain ⟨hg, hgs⟩ := List.forall_mem_cons.mp h
      rw [spell_cons, List.append_assoc, Glyph.text_append, glyphs_blanks_cons hg.gap hg.char, ih hgs,
        List.cons_append]

theorem glyphs_indent {blanks : List Char} (h : ∀ c ∈ blanks, isBlank c = true) (cs : List Char) :
    glyphs (blanks ++ cs) = indent blanks (glyphs cs) := by
  rcases blanks_or_glyph cs with hcs | ⟨gap, c, rest, hgap, hc, rfl⟩
  · rw [glyphs_blanks hcs, glyphs_blanks (List.forall_mem_append.mpr ⟨h, hcs⟩)]
    rfl
  · rw [← List.append_assoc, glyphs_blanks_cons (List.forall_mem_append.mpr ⟨h, hgap⟩) hc,
      glyphs_blanks_cons hgap hc]
    rfl

theorem trimStart_blanks {blanks : List Char} (h : ∀ c ∈ blanks, isBlank c = true) : trimStart blanks = [] := by
  rw [← List.append_nil blanks, trimStart, List.dropWhile_append_of_pos h, List.dropWhile_nil]

theorem trimStart_blanks_cons {blanks : List Char} (h : ∀ c ∈ blanks, isBlank c = true) {c : Char}
    (hc : isBlank c = false) (cs : List Char) : trimStart (blanks ++ c :: cs) = c :: cs := by
  rw [trimStart, List.dropWhile_append_of_pos h]
  exact trimStart_cons_of_not_blank cs hc

theorem glyphs_trimStart (cs : List Char) : glyphs (trimStart cs) = unindent (glyphs cs) := by
  rcases blanks_or_glyph cs with hcs | ⟨gap, c, rest, hgap, hc, rfl⟩
  · rw [trimStart_blanks hcs, glyphs_blanks hcs]
    rfl
  · rw [trimStart_blanks_cons hgap hc, glyphs_blanks_cons hgap hc]
    exact glyphs_blanks_cons (fun _ h => absurd h List.not_mem_nil) hc rest

theorem glyphs_append_blanks {blanks : List Char} (h : ∀ c ∈ blanks, isBlank c = true) (cs : List Char) :
    glyphs (cs ++ blanks) = glyphs cs := by
  induction cs using glyphInduction with
  | blanks cs hcs => rw [glyphs_blanks hcs, glyphs_blanks (List.forall_mem_append.mpr ⟨hcs, h⟩)]
  | glyph gap c rest hgap hc ih =>
      rw [List.append_assoc, List.cons_append, glyphs_blanks_cons hgap hc, glyphs_blanks_cons hgap hc,
        ih rest le_rfl]

theorem glyphs_trim (cs : List Char) : glyphs (trim cs) = unindent (glyphs cs) := by
  obtain ⟨blanks, hblanks, hcs⟩ := exists_trimEnd (trimStart cs)
  rw [← glyphs_trimStart, trim]
  conv_rhs => rw [hcs, glyphs_append_blanks hblanks]

theorem isBlank_of_mem_space : ∀ c ∈ [' '], isBlank c = true :=
  List.forall_mem_singleton.mpr (by decide)

theorem glyphs_word_append {word : List Char} (h : ∀ c ∈ word, isBlank c = false) (cs : List Char) :
    glyphs (word ++ cs) = word.map (Glyph.mk []) ++ glyphs cs := by
  induction word with
  | nil => rfl
  | cons c word ih =>
      obtain ⟨hc, hword⟩ := List.forall_mem_cons.mp h
      rw [List.cons_append, glyphs_cons hc, ih hword, List.map_cons, List.cons_append]

/-- Some blanks as one. -/
def narrowed (gap : List Char) : List Char :=
  if gap.isEmpty then [] else [' ']

/-- Glyphs with single blanks between them. -/
def narrow (gs : List Glyph) : List Glyph :=
  gs.map fun g => ⟨narrowed g.gap, g.char⟩

theorem narrow_indent (c : Char) (gs : List Glyph) :
    narrow (indent [c] gs) = indent [' '] (unindent (narrow gs)) := by
  cases gs <;> rfl

theorem unindent_narrow_indent (gap : List Char) (gs : List Glyph) :
    unindent (narrow (indent gap gs)) = unindent (narrow gs) := by
  cases gs <;> rfl

theorem glyphs_intercalate_cons (word : List Char) (words : List (List Char)) :
    glyphs ([' '].intercalate (word :: words)) = glyphs (word ++ [' '] ++ [' '].intercalate words) := by
  cases words with
  | nil =>
      rw [List.intercalate_singleton, List.intercalate_nil, List.append_nil,
        glyphs_append_blanks isBlank_of_mem_space]
  | cons next words => rw [List.intercalate_cons_cons]

/-- The runs of a text with single blanks between them, behind the open run. -/
theorem glyphs_intercalate_runsFrom (cs : List Char) {current : List Char} (h : ∀ c ∈ current, isBlank c = false) :
    glyphs ([' '].intercalate (runsFrom isBlank current cs)) = current.reverse.map (Glyph.mk []) ++
      if current.isEmpty then unindent (narrow (glyphs cs)) else narrow (glyphs cs) := by
  have hnone : ∀ c ∈ [], isBlank c = false := fun _ h => absurd h List.not_mem_nil
  induction cs generalizing current with
  | nil =>
      cases current with
      | nil => rfl
      | cons c current =>
          have hword := glyphs_word_append (fun d hd => h d (List.mem_reverse.mp hd)) []
          rw [List.append_nil] at hword
          rw [runsFrom, if_neg (by simp), List.intercalate_singleton, hword]
          rfl
  | cons c cs ih =>
      rw [runsFrom]
      cases hc : isBlank c with
      | true =>
          have hglyphs : glyphs (c :: cs) = indent [c] (glyphs cs) :=
            glyphs_indent (List.forall_mem_singleton.mpr hc) cs
          have hrest := ih hnone
          rw [List.reverse_nil, List.map_nil, List.nil_append, List.isEmpty_nil, if_pos rfl] at hrest
          cases current with
          | nil =>
              rw [if_pos rfl, if_pos List.isEmpty_nil, hrest, hglyphs, List.isEmpty_nil, if_pos rfl,
                unindent_narrow_indent]
              rfl
          | cons d current =>
              rw [if_pos rfl, if_neg (by simp), if_neg (by simp), glyphs_intercalate_cons, List.append_assoc,
                glyphs_word_append (fun e he => h e (List.mem_reverse.mp he)), glyphs_indent isBlank_of_mem_space,
                hrest, hglyphs,
                narrow_indent]
      | false =>
          have hopen : ∀ d ∈ c :: current, isBlank d = false := List.forall_mem_cons.mpr ⟨hc, h⟩
          rw [if_neg Bool.false_ne_true, ih hopen, if_neg (by simp), glyphs_cons hc, List.reverse_cons,
            List.map_append, List.append_assoc]
          split <;> rfl

/-- A text with single blanks has the glyphs of the text, with single blanks between them. -/
theorem glyphs_intercalate_words (cs : List Char) :
    glyphs ([' '].intercalate (words cs)) = unindent (narrow (glyphs cs)) := by
  have hnone : ∀ c ∈ [], isBlank c = false := fun _ h => absurd h List.not_mem_nil
  rw [words, glyphs_intercalate_runsFrom cs hnone]
  rfl

/-- The characters of a text that are not blank. -/
theorem map_char_glyphs (cs : List Char) : (glyphs cs).map Glyph.char = cs.filter fun c => !isBlank c := by
  induction cs using glyphInduction with
  | blanks cs hcs =>
      rw [glyphs_blanks hcs, List.map_nil, eq_comm, List.filter_eq_nil_iff]
      intro c hc
      simp [hcs c hc]
  | glyph gap c rest hgap hc ih =>
      have hnone : gap.filter (fun c => !isBlank c) = [] :=
        List.filter_eq_nil_iff.mpr fun d hd => by simp [hgap d hd]
      rw [glyphs_blanks_cons hgap hc, List.map_cons, ih rest le_rfl, List.filter_append, hnone, List.nil_append,
        List.filter_cons_of_pos (by simp [hc])]

end Restyle.Text

namespace Restyle.Css

open Text (Glyph glyphs indent isBlank narrow narrowed unindent)

/-! ## Roles -/

/-- What a character of a selector is for the blanks around it. -/
inductive Role where
  | word
  | comma
  | combinator
  deriving DecidableEq, Repr

/-- The role of a character in front of some glyphs. -/
def roleOf (c : Char) (after : List Glyph) : Role :=
  if c = ',' then .comma
  else if isCombinator c = true ∧ after.head? ≠ some ⟨[], '='⟩ ∧ closesGroup (after.map Glyph.char) = false then
    .combinator
  else .word

/-- A way to write the blanks between two characters by their roles. -/
abbrev Spacing := Role → Role → List Char → List Char

/-- Writes the blanks of some glyphs, the first of which stands behind a character of the given role. -/
def respaced (spacing : Spacing) (left : Role) : List Glyph → List Glyph
  | [] => []
  | g :: gs =>
    ⟨spacing left (roleOf g.char gs) g.gap, g.char⟩ :: respaced spacing (roleOf g.char gs) gs

/-- The blanks of the one spelling: one behind a comma, and one for each combinator next to them. -/
def gapBetween : Spacing
  | .comma, _, _ => [' ']
  | _, .comma, _ => []
  | .combinator, .combinator, _ => [' ', ' ']
  | .combinator, .word, _ => [' ']
  | .word, .combinator, _ => [' ']
  | .word, .word, gap => narrowed gap

/-- The spacing that puts fixed blanks around the characters of one role. -/
def padded (role : Role) (before after : List Char) : Spacing := fun left right gap =>
  (if left = role then after else []) ++
    (if right = role then before else if left = role then [] else gap)

/-- The blanks before an equals sign stay, as a combinator is none with an equals sign behind it. -/
structure Steady (spacing : Spacing) : Prop where
  tight : spacing .word .word [] = []
  wide : ∀ left gap, gap ≠ [] → spacing left .word gap ≠ []

theorem steady_narrowed : Steady fun _ _ => narrowed where
  tight := rfl
  wide left gap hgap := by
    rw [narrowed, if_neg (by simpa using hgap)]
    exact List.cons_ne_nil _ _

theorem steady_combinator : Steady (padded .combinator [' '] [' ']) where
  tight := rfl
  wide left gap hgap := by
    cases left with
    | combinator => exact List.cons_ne_nil _ _
    | comma => exact hgap
    | word => exact hgap

section

variable {spacing : Spacing}

theorem map_char_respaced (left : Role) (gs : List Glyph) :
    (respaced spacing left gs).map Glyph.char = gs.map Glyph.char := by
  induction gs generalizing left with
  | nil => rfl
  | cons g gs ih => rw [respaced, List.map_cons, List.map_cons, ih]

theorem unindent_respaced_unindent (left : Role) (gs : List Glyph) :
    unindent (respaced spacing left (unindent gs)) = unindent (respaced spacing left gs) := by
  cases gs <;> rfl

theorem roleOf_equals (after : List Glyph) : roleOf '=' after = .word := by
  rw [roleOf, if_neg (by decide), if_neg (fun h => by cases h.1)]

/-- A steady spacing keeps the equals signs that stand right behind a character. -/
theorem Steady.head?_respaced_iff (h : Steady spacing) {left : Role} {gs : List Glyph}
    (hleft : gs.head? = some ⟨[], '='⟩ → left = .word) :
    (respaced spacing left gs).head? = some ⟨[], '='⟩ ↔ gs.head? = some ⟨[], '='⟩ := by
  cases gs with
  | nil => exact Iff.rfl
  | cons g gs =>
      obtain ⟨gap, c⟩ := g
      rw [respaced]
      simp only [List.head?_cons, Option.some_inj, Glyph.mk.injEq] at hleft ⊢
      refine and_congr_left fun hc => ?_
      subst hc
      rw [roleOf_equals]
      constructor
      · intro hnil
        by_contra hgap
        exact h.wide left gap hgap hnil
      · intro hgap
        rw [hleft ⟨hgap, rfl⟩, hgap]
        exact h.tight

/-- A steady spacing leaves all roles as they are. -/
theorem Steady.roleOf_respaced (h : Steady spacing) (c : Char) (gs : List Glyph) :
    roleOf c (respaced spacing (roleOf c gs) gs) = roleOf c gs := by
  by_cases hcomma : c = ','
  · rw [roleOf, roleOf, if_pos hcomma, if_pos hcomma]
  · have hleft : gs.head? = some ⟨[], '='⟩ → roleOf c gs = .word := by
      intro hhead
      rw [roleOf, if_neg hcomma, if_neg (fun hcombinator => hcombinator.2.1 hhead)]
    have hhead := not_congr (h.head?_respaced_iff hleft)
    conv_lhs => rw [roleOf, if_neg hcomma, map_char_respaced]
    conv_rhs => rw [roleOf, if_neg hcomma]
    exact if_congr (and_congr_right' (and_congr_left' hhead)) rfl rfl

/-- Two spacings one after the other are one spacing, if the first is steady. -/
theorem Steady.respaced_respaced (h : Steady spacing) (next : Spacing) (left : Role) (gs : List Glyph) :
    respaced next left (respaced spacing left gs) =
      respaced (fun l r gap => next l r (spacing l r gap)) left gs := by
  induction gs generalizing left with
  | nil => rfl
  | cons g gs ih =>
      simp only [respaced]
      rw [h.roleOf_respaced, ih]

end

/-! ## The passes over a selector -/

/-- A reader of the characters of one role, with the blanks around them. -/
structure ReadsRole (read? : List Char → Option (List Char × List Char)) (role : Role)
    (before after : List Char) : Prop where
  blanks : ∀ blanks, (∀ c ∈ blanks, isBlank c = true) → read? blanks = none
  glyph : ∀ gap c rest, (∀ d ∈ gap, isBlank d = true) → isBlank c = false →
    read? (gap ++ c :: rest) =
      if roleOf c (glyphs rest) = role then some (before ++ c :: after, Text.trimStart rest) else none

theorem respace_of_none {read? : List Char → Option (List Char × List Char)} {cs : List Char} {c : Char}
    (h : read? (c :: cs) = none) : respace read? 0 (c :: cs) = c :: respace read? 0 cs := by
  rw [respace, h]

theorem respace_of_some {read? : List Char → Option (List Char × List Char)} {signs written rest : List Char}
    (hne : signs ≠ []) (h : read? (signs ++ rest) = some (written, rest)) :
    respace read? 0 (signs ++ rest) = written ++ respace read? 0 rest := by
  cases signs with
  | nil => exact absurd rfl hne
  | cons c signs =>
      rw [List.cons_append] at h ⊢
      rw [respace, h]
      dsimp only
      rw [respace_eq_drop, List.length_append, Nat.add_sub_cancel, List.drop_left]

section

variable {read? : List Char → Option (List Char × List Char)} {role : Role} {before after : List Char}

theorem padded_of_left_ne {left : Role} (h : left ≠ role) (right : Role) (gap : List Char) :
    padded role before after left right gap = if right = role then before else gap := by
  rw [padded, if_neg h, if_neg h, List.nil_append]

theorem padded_self (right : Role) (gap : List Char) :
    padded role before after role right gap = after ++ if right = role then before else [] := by
  rw [padded, if_pos rfl, if_pos rfl]

theorem respaced_padded_of_ne {left left' : Role} (hleft : left ≠ role) (hleft' : left' ≠ role)
    (gs : List Glyph) :
    respaced (padded role before after) left gs = respaced (padded role before after) left' gs := by
  cases gs with
  | nil => rfl
  | cons g gs => rw [respaced, respaced, padded_of_left_ne hleft, padded_of_left_ne hleft']

/-- The blanks behind a character of the role are written with it. -/
theorem indent_respaced_padded {left : Role} (hleft : left ≠ role) (gs : List Glyph) :
    indent after (respaced (padded role before after) left (unindent gs)) =
      respaced (padded role before after) role gs := by
  cases gs with
  | nil => rfl
  | cons g gs => rw [unindent, respaced, respaced, padded_of_left_ne hleft, padded_self, indent]

/-- A reader that finds no separator leaves a glyph as it is. -/
theorem ReadsRole.respace_word (h : ReadsRole read? role before after) {gap rest : List Char} {c : Char}
    (hgap : ∀ d ∈ gap, isBlank d = true) (hc : isBlank c = false) (hrole : roleOf c (glyphs rest) ≠ role) :
    respace read? 0 (gap ++ c :: rest) = gap ++ c :: respace read? 0 rest := by
  induction gap with
  | nil =>
      have hread := h.glyph [] c rest hgap hc
      rw [if_neg hrole] at hread
      exact respace_of_none hread
  | cons d gap ih =>
      have hread := h.glyph (d :: gap) c rest hgap hc
      rw [if_neg hrole, List.cons_append] at hread
      rw [List.cons_append, respace_of_none hread, ih (List.forall_mem_cons.mp hgap).2, List.cons_append]

theorem ReadsRole.respace_blanks (h : ReadsRole read? role before after) {blanks : List Char}
    (hblanks : ∀ c ∈ blanks, isBlank c = true) : respace read? 0 blanks = blanks := by
  induction blanks with
  | nil => rfl
  | cons c blanks ih =>
      rw [respace_of_none (h.blanks _ hblanks), ih (List.forall_mem_cons.mp hblanks).2]

/-- A pass over a text writes the blanks around the characters of one role. -/
theorem ReadsRole.glyphs_respace (h : ReadsRole read? role before after) (hrole : role ≠ .word)
    (hbefore : ∀ c ∈ before, isBlank c = true) (hafter : ∀ c ∈ after, isBlank c = true) (cs : List Char) :
    glyphs (respace read? 0 cs) = respaced (padded role before after) .word (glyphs cs) := by
  induction cs using Text.glyphInduction with
  | blanks cs hcs =>
      rw [h.respace_blanks hcs, Text.glyphs_blanks hcs]
      rfl
  | glyph gap c rest hgap hc ih =>
      rw [Text.glyphs_blanks_cons hgap hc, respaced, padded_of_left_ne hrole.symm]
      by_cases hsign : roleOf c (glyphs rest) = role
      · -- the blanks behind the character are read with it, and written before the next glyph
        obtain ⟨blanks, hblanks, hrest⟩ := Text.exists_trimStart rest
        have hread := h.glyph gap c rest hgap hc
        have hsplit : gap ++ c :: rest = (gap ++ c :: blanks) ++ Text.trimStart rest := by
          rw [List.append_assoc, List.cons_append, ← hrest]
        rw [if_pos hsign, hsplit] at hread
        rw [hsplit, respace_of_some (by simp) hread, if_pos hsign, hsign, List.append_assoc, List.cons_append,
          Text.glyphs_blanks_cons hbefore hc, Text.glyphs_indent hafter,
          ih _ (Text.length_trimStart_le rest), Text.glyphs_trimStart, indent_respaced_padded hrole.symm]
      · rw [h.respace_word hgap hc hsign, if_neg hsign, Text.glyphs_blanks_cons hgap hc, ih rest le_rfl,
          respaced_padded_of_ne hsign hrole.symm]

end

/-! ## Combinators and commas -/

/-- The blanks of a text do not matter for its parentheses. -/
theorem closesGroup_glyphs (cs : List Char) : closesGroup ((glyphs cs).map Glyph.char) = closesGroup cs := by
  have hkept : ∀ c : Char, (decide ((!isBlank c) = true ∧ (c == '(' || c == ')') = true)) =
      (c == '(' || c == ')') := by
    intro c
    by_cases hparenthesis : c = '(' ∨ c = ')'
    · rcases hparenthesis with rfl | rfl
      · decide
      · decide
    · have hnone : (c == '(' || c == ')') = false := by simpa using hparenthesis
      simp [hnone]
  rw [closesGroup, closesGroup, Text.map_char_glyphs, List.find?_filter]
  simp only [hkept]

theorem head?_glyphs_iff {c : Char} (hc : isBlank c = false) (cs : List Char) :
    (glyphs cs).head? = some ⟨[], c⟩ ↔ Text.startsWith [c] cs = true := by
  cases cs with
  | nil => exact iff_of_false (fun h => by cases h) (fun h => by cases h)
  | cons d cs =>
      have hstarts : Text.startsWith [c] (d :: cs) = true ↔ d = c := by
        by_cases heq : d = c
        · simp [Text.startsWith, Text.after?, heq]
        · simp [Text.startsWith, Text.after?, heq, Ne.symm heq]
      rw [hstarts]
      cases hd : isBlank d with
      | true =>
          have hblank : ∀ e ∈ [d], isBlank e = true := List.forall_mem_singleton.mpr hd
          rw [← List.singleton_append, Text.glyphs_indent hblank]
          refine iff_of_false ?_ fun heq => ?_
          · cases glyphs cs <;> simp [indent]
          · rw [heq, hc] at hd
            cases hd
      | false =>
          rw [Text.glyphs_cons hd]
          simp

theorem roleOf_eq_comma_iff {c : Char} {after : List Glyph} : roleOf c after = .comma ↔ c = ',' := by
  rw [roleOf]
  split_ifs <;> simp_all

theorem roleOf_eq_combinator_iff {c : Char} {after : List Glyph} :
    roleOf c after = .combinator ↔ isCombinator c = true ∧ after.head? ≠ some ⟨[], '='⟩ ∧
      closesGroup (after.map Glyph.char) = false := by
  rw [roleOf]
  by_cases hcomma : c = ','
  · subst hcomma
    rw [if_pos rfl]
    exact iff_of_false (fun h => by cases h) fun h => absurd h.1 (by decide)
  · rw [if_neg hcomma]
    split_ifs with h
    · exact iff_of_true rfl h
    · exact iff_of_false (fun h => by cases h) h

theorem readsRole_combinator :
    ReadsRole (fun cs => (combinator? cs).map fun (c, rest) => ([' ', c, ' '], rest)) .combinator [' '] [' '] := by
  constructor
  · intro blanks hblanks
    rw [combinator?, Text.trimStart_blanks hblanks]
    rfl
  · intro gap c rest hgap hc
    have hreads : (isCombinator c && !Text.startsWith ['='] rest && !closesGroup rest) = true ↔
        roleOf c (glyphs rest) = .combinator := by
      rw [roleOf_eq_combinator_iff, closesGroup_glyphs, ne_eq, head?_glyphs_iff (by decide)]
      simp [and_assoc]
    rw [combinator?, Text.trimStart_blanks_cons hgap hc]
    dsimp only
    by_cases hrole : roleOf c (glyphs rest) = .combinator
    · rw [if_pos hrole, if_pos (hreads.mpr hrole)]
      rfl
    · rw [if_neg hrole, if_neg (fun h => hrole (hreads.mp h))]
      rfl

theorem readsRole_comma : ReadsRole (fun cs => (comma? cs).map fun rest => ([',', ' '], rest)) .comma [] [' '] := by
  constructor
  · intro blanks hblanks
    rw [comma?, Text.trimStart_blanks hblanks]
    rfl
  · intro gap c rest hgap hc
    rw [comma?, Text.trimStart_blanks_cons hgap hc]
    by_cases hcomma : c = ','
    · rw [if_pos (roleOf_eq_comma_iff.mpr hcomma), hcomma]
      rfl
    · rw [if_neg (fun h => hcomma (roleOf_eq_comma_iff.mp h))]
      split
      · next heq =>
          cases heq
          exact absurd rfl hcomma
      · rfl

theorem respaced_narrowed (left : Role) (gs : List Glyph) :
    respaced (fun _ _ => narrowed) left gs = narrow gs := by
  induction gs generalizing left with
  | nil => rfl
  | cons g gs ih => rw [respaced, ih, narrow, narrow, List.map_cons]

theorem glyphs_collapse (cs : List Char) :
    glyphs (collapse cs) = unindent (respaced (fun _ _ => narrowed) .word (glyphs cs)) := by
  rw [collapse_eq, Text.glyphs_intercalate_words, respaced_narrowed]

theorem gapBetween_eq (left right : Role) (gap : List Char) :
    padded .comma [] [' '] left right (padded .combinator [' '] [' '] left right (narrowed gap)) =
      gapBetween left right gap := by
  cases left <;> cases right <;> rfl

/-- The one spelling of a selector changes the blanks between its characters by their roles. -/
theorem glyphs_normalizeSelector (text : String) :
    glyphs (normalizeSelector text).toList = unindent (respaced gapBetween .word (glyphs text.toList)) := by
  have hnone : ∀ c ∈ [], isBlank c = true := fun _ h => absurd h List.not_mem_nil
  rw [normalizeSelector, String.toList_ofList, Text.glyphs_trim, spaceCommas,
    readsRole_comma.glyphs_respace (by decide) hnone Text.isBlank_of_mem_space, spaceCombinators,
    readsRole_combinator.glyphs_respace (by decide) Text.isBlank_of_mem_space Text.isBlank_of_mem_space,
    glyphs_collapse, steady_combinator.respaced_respaced, unindent_respaced_unindent,
    steady_narrowed.respaced_respaced]
  simp only [gapBetween_eq]

end Restyle.Css
