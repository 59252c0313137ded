import Restyle.Proofs.Filling
import Restyle.Proofs.Gaps
import Restyle.Proofs.Spacing

/-!
# Quoted text in one spelling

Neither the spelling of a selector nor that of a value reads quotes: blanks are narrowed, and combinators and
commas are spaced, inside of quotes as outside.  So quoted text is left alone only where it already stands as it
would be written: a selector keeps its quotations if every gap inside of them is settled, and a value has a
quotation of its text if this has single blanks only.
-/

namespace Restyle.Text

/-! ## Texts with single blanks -/

/-- A text with single blanks between its characters. -/
def Tight (cs : List Char) : Prop :=
  ∀ g ∈ glyphs cs, narrowed g.gap = g.gap

instance (cs : List Char) : Decidable (Tight cs) :=
  inferInstanceAs (Decidable (∀ g ∈ glyphs cs, narrowed g.gap = g.gap))

/-- A text that does not end with a blank. -/
def EndsDark (cs : List Char) : Prop :=
  ∀ c ∈ cs.getLast?, isBlank c = false

theorem endsDark_concat (cs : List Char) {c : Char} (hc : isBlank c = false) : EndsDark (cs ++ [c]) := by
  intro d hd
  rw [List.getLast?_concat] at hd
  cases hd
  exact hc

/-- The blanks behind a text that does not end with one are its last blanks. -/
theorem EndsDark.trimEnd_append {cs blanks : List Char} (h : EndsDark cs)
    (hblanks : ∀ c ∈ blanks, isBlank c = true) : trimEnd (cs ++ blanks) = cs := by
  have hdark : trimStart cs.reverse = cs.reverse :=
    trimStart_eq_self (by rw [List.head?_reverse]; exact h)
  rw [trimEnd, List.reverse_append, trimStart,
    List.dropWhile_append_of_pos fun c hc => hblanks c (List.mem_reverse.mp hc), ← trimStart, hdark,
    List.reverse_reverse]

theorem EndsDark.append_inj {cs ds gap gap' : List Char} (hcs : EndsDark cs) (hds : EndsDark ds)
    (hgap : ∀ c ∈ gap, isBlank c = true) (hgap' : ∀ c ∈ gap', isBlank c = true) :
    cs ++ gap = ds ++ gap' ↔ cs = ds ∧ gap = gap' := by
  constructor
  · intro h
    have hfront : cs = ds := by rw [← hcs.trimEnd_append hgap, h, hds.trimEnd_append hgap']
    exact ⟨hfront, List.append_cancel_left (hfront ▸ h)⟩
  · rintro ⟨rfl, rfl⟩
    rfl

theorem EndsDark.spell_glyphs {cs : List Char} (h : EndsDark cs) : spell (glyphs cs) = cs := by
  obtain ⟨blanks, hblanks, hcs⟩ := exists_spell_glyphs cs
  have hnil : blanks = [] := by
    by_contra hne
    obtain ⟨c, hc⟩ := Option.isSome_iff_exists.mp (List.getLast?_isSome.mpr hne)
    have hlast : c ∈ cs.getLast? := by
      rw [hcs, List.getLast?_append_of_ne_nil _ hne]
      exact hc
    cases (h c hlast).symm.trans (hblanks c (List.mem_of_getLast? hc))
  rw [hnil, List.append_nil] at hcs
  exact hcs.symm

theorem EndsDark.glyphs_append {cs : List Char} (h : EndsDark cs) (more : List Char) :
    glyphs (cs ++ more) = glyphs cs ++ glyphs more := by
  conv_lhs => rw [← h.spell_glyphs]
  exact glyphs_spell_append (fun g hg => proper_of_mem_glyphs hg) more

/-- The glyphs of a piece of a text are glyphs of the text, its first gap aside. -/
theorem exists_glyphs_of_isInfix {c : Char} (hc : isBlank c = false) {piece text : List Char}
    (hends : EndsDark piece) (h : c :: piece <:+: text) :
    ∃ before gap after, glyphs text = before ++ ⟨gap, c⟩ :: (glyphs piece ++ after) := by
  obtain ⟨front, back, rfl⟩ := h
  obtain ⟨gap, hgap, hfront⟩ := exists_spell_glyphs front
  refine ⟨glyphs front, gap, glyphs back, ?_⟩
  conv_lhs => rw [hfront]
  rw [List.append_assoc, List.append_assoc, glyphs_spell_append fun g hg => proper_of_mem_glyphs hg,
    List.cons_append, glyphs_blanks_cons hgap hc, hends.glyphs_append]

theorem tight_cons_iff {c : Char} (hc : isBlank c = false) {cs : List Char} :
    Tight (c :: cs) ↔ ∀ g ∈ glyphs cs, narrowed g.gap = g.gap := by
  rw [Tight, glyphs_cons hc, List.forall_mem_cons]
  exact and_iff_right rfl

/-- A piece of a text with single blanks has single blanks. -/
theorem Tight.of_isInfix {c : Char} (hc : isBlank c = false) {piece text : List Char} (hends : EndsDark piece)
    (htext : Tight text) (h : c :: piece <:+: text) : Tight (c :: piece) := by
  obtain ⟨before, gap, after, hglyphs⟩ := exists_glyphs_of_isInfix hc hends h
  refine (tight_cons_iff hc).mpr fun g hg => htext g ?_
  rw [hglyphs]
  exact List.mem_append_right _ (List.mem_cons_of_mem _ (List.mem_append_left _ hg))

/-- Narrowing the blanks of a text keeps its pieces with single blanks. -/
theorem Tight.isInfix_of_narrow {c : Char} (hc : isBlank c = false) {piece text written : List Char}
    (hends : EndsDark piece) (hpiece : Tight (c :: piece)) (h : c :: piece <:+: text)
    (hwritten : glyphs written = unindent (narrow (glyphs text))) : c :: piece <:+: written := by
  obtain ⟨before, gap, after, htext⟩ := exists_glyphs_of_isInfix hc hends h
  obtain ⟨blanks, -, hspell⟩ := exists_spell_glyphs written
  have hkept : narrow (glyphs piece) = glyphs piece :=
    (List.map_congr_left fun g hg => by rw [(tight_cons_iff hc).mp hpiece g hg]).trans (List.map_id' _)
  have hglyphs : glyphs written =
      unindent (narrow before ++ ⟨narrowed gap, c⟩ :: (glyphs piece ++ narrow after)) := by
    rw [hwritten, htext, narrow, List.map_append, List.map_cons, List.map_append, ← narrow, ← narrow, ← narrow,
      hkept]
  rw [hspell, hglyphs]
  cases narrow before with
  | nil =>
      refine ⟨[], spell (narrow after) ++ blanks, ?_⟩
      simp only [List.nil_append, unindent, spell_cons, Glyph.text_append, spell_append, hends.spell_glyphs,
        List.cons_append, List.append_assoc]
  | cons g gs =>
      refine ⟨g.char :: spell gs ++ narrowed gap, spell (narrow after) ++ blanks, ?_⟩
      simp only [List.nil_append, unindent, spell_cons, Glyph.text_append, spell_append, hends.spell_glyphs,
        List.cons_append, List.append_assoc]

theorem glyphs_squeeze (s : String) : glyphs (squeeze s).toList = unindent (narrow (glyphs s.toList)) := by
  rw [toList_squeeze, glyphs_intercalate_words]

theorem unindent_unindent (gs : List Glyph) : unindent (unindent gs) = unindent gs := by
  cases gs <;> rfl

theorem glyphs_strip_squeeze (s : String) :
    glyphs (strip (squeeze s)).toList = unindent (narrow (glyphs s.toList)) := by
  rw [strip, String.toList_ofList, glyphs_trim, glyphs_squeeze, unindent_unindent]

theorem tight_of_narrow {cs : List Char} {gs : List Glyph} (h : glyphs cs = unindent (narrow gs)) : Tight cs := by
  have hnarrowed : ∀ gap, narrowed (narrowed gap) = narrowed gap := by
    intro gap
    cases gap <;> rfl
  rw [Tight, h]
  intro g hg
  cases gs with
  | nil => cases hg
  | cons g' gs =>
      rw [narrow, List.map_cons, unindent] at hg
      rcases List.mem_cons.mp hg with rfl | hg
      · rfl
      · obtain ⟨g', -, rfl⟩ := List.mem_map.mp hg
        exact hnarrowed g'.gap

end Restyle.Text

namespace Restyle.Css

open Text (EndsDark Glyph glyphs isBlank narrowed spell unindent)

/-! ## Quotations -/

/-- Where the reader of a text stands behind one more character, parentheses aside. -/
def RunState.next (state : RunState) (c : Char) : RunState :=
  (nextRun 0 c state).1

/-- The pieces of a text in quotes, where `current` is the piece that is open. -/
def quotationsFrom (state : RunState) (current : List Char) : List Char → List (List Char)
  | [] => []
  | c :: cs =>
    let piece := if state = .plain then [c] else current ++ [c]
    (if state ≠ .plain ∧ state.next c = .plain then [piece] else []) ++ quotationsFrom (state.next c) piece cs

/-- The pieces of a text in quotes, with the quotes, in order. -/
def quotations (cs : List Char) : List (List Char) :=
  quotationsFrom .plain [] cs

/-- The quotes of a text are balanced if its reader does not stand inside of a string behind it. -/
def Balanced (cs : List Char) : Prop :=
  (standing cs).1 = .plain

instance (cs : List Char) : Decidable (Balanced cs) :=
  inferInstanceAs (Decidable (_ = _))

theorem next_plain (c : Char) : RunState.plain.next c = if c = '"' ∨ c = '\'' then .quoted c else .plain := by
  rw [RunState.next, nextRun]
  simp only [Bool.or_eq_true, beq_iff_eq]
  split_ifs <;> rfl

theorem next_quoted (q c : Char) :
    (RunState.quoted q).next c = if c = '\\' then .escaped q else if c = q then .plain else .quoted q := by
  rw [RunState.next, nextRun]
  simp only [beq_iff_eq]

theorem quoting_plain : RunState.plain.Quoting :=
  trivial

theorem RunState.Quoting.next {state : RunState} (h : state.Quoting) (c : Char) : (state.next c).Quoting :=
  h.nextRun 0 c

theorem RunState.Quoting.foldl_next {state : RunState} (h : state.Quoting) (cs : List Char) :
    (cs.foldl RunState.next state).Quoting := by
  induction cs generalizing state with
  | nil => exact h
  | cons c cs ih => exact ih (h.next c)

theorem nextRun_fst (depth : Nat) (c : Char) (state : RunState) : (nextRun depth c state).1 = state.next c := by
  cases state with
  | plain =>
      rw [RunState.next, nextRun, nextRun]
      split_ifs <;> rfl
  | quoted q => rfl
  | escaped q => rfl

theorem standingFrom_fst (start : RunState × Nat) (cs : List Char) :
    (standingFrom start cs).1 = cs.foldl RunState.next start.1 := by
  induction cs generalizing start with
  | nil => rfl
  | cons c cs ih =>
      rw [List.foldl_cons, ← nextRun_fst start.2]
      exact ih _

theorem balanced_iff (cs : List Char) : Balanced cs ↔ cs.foldl RunState.next .plain = .plain := by
  rw [Balanced, standing, standingFrom_fst]

/-- The open quote of a reader. -/
def RunState.quote? : RunState → Option Char
  | .plain => none
  | .quoted q => some q
  | .escaped q => some q

/-- The open piece of a reader starts with the open quote. -/
def Opens (state : RunState) (current : List Char) : Prop :=
  ∀ q ∈ state.quote?, ∃ body, current = q :: body

theorem Opens.next {state : RunState} {current : List Char} (h : Opens state current) (c : Char) :
    Opens (state.next c) (if state = .plain then [c] else current ++ [c]) := by
  intro q hq
  cases state with
  | plain =>
      rw [next_plain] at hq
      split_ifs at hq
      · cases hq
        exact ⟨[], rfl⟩
      · cases hq
  | quoted quote =>
      obtain ⟨body, rfl⟩ := h quote rfl
      rw [next_quoted] at hq
      split_ifs at hq <;> cases hq <;> exact ⟨body ++ [c], rfl⟩
  | escaped quote =>
      obtain ⟨body, rfl⟩ := h quote rfl
      cases hq
      exact ⟨body ++ [c], rfl⟩

/-- A string is closed by the quote that opened it. -/
theorem quote?_of_closes {state : RunState} {c : Char} (hopen : state ≠ .plain) (h : state.next c = .plain) :
    state.quote? = some c := by
  cases state with
  | plain => exact absurd rfl hopen
  | quoted q =>
      rw [next_quoted] at h
      split_ifs at h with hescape hquote
      rw [hquote, RunState.quote?]
  | escaped q => cases h

/-- A text in quotes. -/
def Quoted (piece : List Char) : Prop :=
  ∃ q body, (q = '"' ∨ q = '\'') ∧ piece = q :: (body ++ [q])

theorem mem_quotationsFrom {state : RunState} (hstate : state.Quoting) {current : List Char}
    (hopens : Opens state current) {cs piece : List Char} (h : piece ∈ quotationsFrom state current cs) :
    piece <:+: current ++ cs ∧ Quoted piece := by
  induction cs generalizing state current with
  | nil => cases h
  | cons c cs ih =>
      rw [quotationsFrom] at h
      rcases List.mem_append.mp h with h | h
      · split_ifs at h with hcloses hplain
        · exact absurd hplain hcloses.1
        · have hquote := quote?_of_closes hcloses.1 hcloses.2
          obtain ⟨body, rfl⟩ := hopens c hquote
          rw [List.mem_singleton.mp h]
          refine ⟨⟨[], cs, by simp⟩, c, body, ?_, rfl⟩
          cases state with
          | plain => cases hquote
          | quoted q =>
              cases hquote
              exact hstate
          | escaped q =>
              cases hquote
              exact hstate
        · cases h
      · obtain ⟨hpart, hquoted⟩ := ih (hstate.next c) (hopens.next c) h
        refine ⟨hpart.trans ?_, hquoted⟩
        split
        · exact (List.suffix_append current (c :: cs)).isInfix
        · rw [List.append_assoc, List.singleton_append]

theorem mem_quotations {cs piece : List Char} (h : piece ∈ quotations cs) : piece <:+: cs ∧ Quoted piece :=
  mem_quotationsFrom quoting_plain (fun _ hq => by cases hq) h

/-! ## Blanks in quotations -/

/-- Where a reader stands behind some blanks. -/
def RunState.rested : RunState → RunState
  | .plain => .plain
  | .quoted q => .quoted q
  | .escaped q => .quoted q

theorem RunState.Quoting.rested {state : RunState} (h : state.Quoting) : state.rested.Quoting := by
  cases state <;> exact h

theorem rested_rested (state : RunState) : state.rested.rested = state.rested := by
  cases state <;> rfl

theorem rested_eq_plain_iff {state : RunState} : state.rested = .plain ↔ state = .plain := by
  cases state <;> simp [RunState.rested]

theorem next_blank {state : RunState} (hstate : state.Quoting) {c : Char} (hc : isBlank c = true) :
    state.next c = state.rested := by
  have hne : ∀ d, isBlank d = false → c ≠ d := by
    rintro d hd rfl
    cases hc.symm.trans hd
  have hquotes : c ≠ '"' ∧ c ≠ '\'' := ⟨hne _ (by decide), hne _ (by decide)⟩
  cases state with
  | plain =>
      rw [next_plain, if_neg (not_or.mpr hquotes)]
      rfl
  | quoted q =>
      have hq : c ≠ q := by
        rcases hstate with rfl | rfl
        · exact hquotes.1
        · exact hquotes.2
      rw [next_quoted, if_neg (hne _ (by decide)), if_neg hq]
      rfl
  | escaped q => rfl

theorem foldl_next_blanks {gap : List Char} (hgap : ∀ c ∈ gap, isBlank c = true) {state : RunState}
    (hstate : state.Quoting) : gap.foldl RunState.next state = if gap = [] then state else state.rested := by
  induction gap generalizing state with
  | nil => rfl
  | cons c gap ih =>
      obtain ⟨hc, hgap⟩ := List.forall_mem_cons.mp hgap
      rw [List.foldl_cons, next_blank hstate hc, ih hgap hstate.rested, rested_rested, ite_self, if_neg (by simp)]

theorem foldl_next_blanks_eq_plain_iff {gap : List Char} (hgap : ∀ c ∈ gap, isBlank c = true) {state : RunState}
    (hstate : state.Quoting) : gap.foldl RunState.next state = .plain ↔ state = .plain := by
  rw [foldl_next_blanks hgap hstate]
  split
  · exact Iff.rfl
  · exact rested_eq_plain_iff

/-- Where a reader stands behind a glyph. -/
def RunState.over (state : RunState) (g : Glyph) : RunState :=
  g.text.foldl RunState.next state

theorem over_eq {state : RunState} (hstate : state.Quoting) {g : Glyph} (hgap : ∀ c ∈ g.gap, isBlank c = true) :
    state.over g = (if g.gap = [] then state else state.rested).next g.char := by
  rw [RunState.over, Glyph.text, List.foldl_append, foldl_next_blanks hgap hstate]
  rfl

theorem RunState.Quoting.over {state : RunState} (h : state.Quoting) (g : Glyph) : (state.over g).Quoting :=
  h.foldl_next g.text

theorem quotationsFrom_plain (current current' cs : List Char) :
    quotationsFrom .plain current cs = quotationsFrom .plain current' cs := by
  cases cs with
  | nil => rfl
  | cons c cs => rw [quotationsFrom, quotationsFrom, if_pos rfl, if_pos rfl]

/-- The blanks in a text open and close no quotation. -/
theorem quotationsFrom_blanks {gap : List Char} (hgap : ∀ c ∈ gap, isBlank c = true) {state : RunState}
    (hstate : state.Quoting) (current cs : List Char) :
    quotationsFrom state current (gap ++ cs) =
      quotationsFrom (gap.foldl RunState.next state) (current ++ gap) cs := by
  induction gap generalizing state current with
  | nil => rw [List.nil_append, List.append_nil, List.foldl_nil]
  | cons c gap ih =>
      obtain ⟨hc, hgap⟩ := List.forall_mem_cons.mp hgap
      have hstays : ¬ (state ≠ .plain ∧ state.next c = .plain) := by
        rw [next_blank hstate hc, rested_eq_plain_iff]
        exact fun h => h.1 h.2
      rw [List.cons_append, quotationsFrom, if_neg hstays, List.nil_append, ih hgap (hstate.next c),
        List.foldl_cons]
      split_ifs with hplain
      · have hstill : gap.foldl RunState.next (state.next c) = .plain := by
          rw [foldl_next_blanks_eq_plain_iff hgap (hstate.next c), next_blank hstate hc, rested_eq_plain_iff, hplain]
        rw [hstill]
        exact quotationsFrom_plain _ _ _
      · rw [List.append_assoc, List.singleton_append]

/-- What a glyph adds to the open piece. -/
def pieceWith (state : RunState) (current : List Char) (g : Glyph) : List Char :=
  if state = .plain then [g.char] else current ++ g.text

/-- A text is read glyph by glyph. -/
theorem quotationsFrom_glyph {g : Glyph} (hgap : ∀ c ∈ g.gap, isBlank c = true) {state : RunState}
    (hstate : state.Quoting) (current cs : List Char) :
    quotationsFrom state current (g.text ++ cs) =
      (if state ≠ .plain ∧ state.over g = .plain then [pieceWith state current g] else []) ++
        quotationsFrom (state.over g) (pieceWith state current g) cs := by
  have hplain := foldl_next_blanks_eq_plain_iff hgap hstate
  have hover : (g.gap.foldl RunState.next state).next g.char = state.over g := by
    rw [RunState.over, Glyph.text, List.foldl_append]
    rfl
  rw [Glyph.text, List.append_assoc, List.singleton_append, quotationsFrom_blanks hgap hstate, quotationsFrom,
    hover]
  simp only [ne_eq, hplain, pieceWith, Glyph.text, List.append_assoc]

theorem quotationsFrom_append_blanks {blanks : List Char} (hblanks : ∀ c ∈ blanks, isBlank c = true)
    {state : RunState} (hstate : state.Quoting) (current cs : List Char) :
    quotationsFrom state current (cs ++ blanks) = quotationsFrom state current cs := by
  induction cs generalizing state current with
  | nil =>
      have hread := quotationsFrom_blanks hblanks hstate current []
      rwa [List.append_nil] at hread
  | cons c cs ih => rw [List.cons_append, quotationsFrom, quotationsFrom, ih (hstate.next c)]

/-- The blanks at both ends of a text do not matter for its quotations. -/
theorem quotations_eq_of_glyphs {cs : List Char} {gs : List Glyph} (hproper : ∀ g ∈ gs, g.Proper)
    (h : glyphs cs = unindent gs) : quotations cs = quotations (spell gs) := by
  obtain ⟨blanks, hblanks, hcs⟩ := Text.exists_spell_glyphs cs
  rw [quotations, hcs, h, quotationsFrom_append_blanks hblanks quoting_plain]
  cases gs with
  | nil => rfl
  | cons g gs =>
      have hg := (hproper g List.mem_cons_self).gap
      have hbare : ∀ c ∈ (Glyph.mk [] g.char).gap, isBlank c = true := fun _ hc => absurd hc List.not_mem_nil
      have hover : RunState.plain.over ⟨[], g.char⟩ = RunState.plain.over g := by
        rw [over_eq quoting_plain hbare, over_eq quoting_plain hg, if_pos rfl]
        split <;> rfl
      rw [unindent, quotations, Text.spell_cons, Text.spell_cons, quotationsFrom_glyph hbare quoting_plain,
        quotationsFrom_glyph hg quoting_plain, hover, pieceWith, pieceWith]
      rfl

/-! ## Gaps in quotations -/

/-- A gap of a text, between two roles. -/
structure Gap where
  left : Role
  right : Role
  blanks : List Char
  deriving DecidableEq, Repr

/-- A gap is settled if it is as the one spelling writes it. -/
def Gap.Settled (gap : Gap) : Prop :=
  gapBetween gap.left gap.right gap.blanks = gap.blanks

instance (gap : Gap) : Decidable gap.Settled :=
  inferInstanceAs (Decidable (_ = _))

/-- The gaps inside of quotations in some glyphs, the first of which stands behind a character of the given role. -/
def quotedGapsFrom (state : RunState) (left : Role) : List Glyph → List Gap
  | [] => []
  | g :: gs =>
    (if state = .plain then [] else [⟨left, roleOf g.char gs, g.gap⟩]) ++
      quotedGapsFrom (state.over g) (roleOf g.char gs) gs

/-- The gaps inside of the quotations of a text. -/
def quotedGaps (cs : List Char) : List Gap :=
  quotedGapsFrom .plain .word (glyphs cs)

theorem blank_gapBetween (left right : Role) (gap : List Char) :
    ∀ c ∈ gapBetween left right gap, isBlank c = true := by
  have hnone : ∀ c ∈ ([] : List Char), isBlank c = true := fun _ hc => absurd hc List.not_mem_nil
  have hone := Text.isBlank_of_mem_space
  have htwo : ∀ c ∈ [' ', ' '], isBlank c = true := List.forall_mem_cons.mpr ⟨by decide, hone⟩
  cases left <;> cases right
  case word.word =>
    rw [gapBetween, narrowed]
    split
    · exact hnone
    · exact hone
  all_goals first | exact hone | exact hnone | exact htwo

theorem proper_of_mem_respaced {left : Role} {gs : List Glyph} (h : ∀ g ∈ gs, g.Proper) :
    ∀ g ∈ respaced gapBetween left gs, g.Proper := by
  induction gs generalizing left with
  | nil => exact fun g hg => absurd hg List.not_mem_nil
  | cons g gs ih =>
      obtain ⟨hg, hgs⟩ := List.forall_mem_cons.mp h
      exact List.forall_mem_cons.mpr ⟨⟨blank_gapBetween _ _ g.gap, hg.char⟩, ih hgs⟩

/-- A comma and a combinator neither end a string nor escape a character. -/
theorem next_sign {c : Char} {after : List Glyph} (hsign : roleOf c after ≠ .word) {q : Char}
    (hq : q = '"' ∨ q = '\'') : (RunState.quoted q).next c = .quoted q := by
  have hmem : c ∈ [',', '>', '+', '~'] := by
    rw [roleOf] at hsign
    split_ifs at hsign with hcomma hcombinator
    · rw [hcomma]
      exact List.mem_cons_self
    · have hone := hcombinator.1
      simp only [isCombinator, Bool.or_eq_true, beq_iff_eq] at hone
      simp only [List.mem_cons, List.not_mem_nil, or_false]
      tauto
    · exact absurd rfl hsign
  have hsigns : [',', '>', '+', '~'].all (fun c => c != '\\' && c != '"' && c != '\'') = true := by decide
  have hother := List.all_eq_true.mp hsigns c hmem
  simp only [Bool.and_eq_true, bne_iff_ne] at hother
  rw [next_quoted, if_neg hother.1.1, if_neg]
  rcases hq with rfl | rfl
  · exact hother.1.2
  · exact hother.2

/-- A reader stands behind a character of the one spelling where it stands behind the character of the text. -/
theorem over_respaced {state : RunState} (hstate : state.Quoting) {left : Role}
    (hleft : state.rested ≠ state → left = .word) {g : Glyph} (hg : g.Proper) (after : List Glyph) :
    state.over ⟨gapBetween left (roleOf g.char after) g.gap, g.char⟩ = state.over g := by
  rw [over_eq hstate hg.gap, over_eq hstate (blank_gapBetween _ _ g.gap)]
  dsimp only
  -- blanks matter behind a backslash alone, and a backslash is a word
  by_cases hrested : state.rested = state
  · rw [hrested, ite_self, ite_self]
  rw [hleft hrested]
  by_cases hword : roleOf g.char after = .word
  · have hempty : narrowed g.gap = [] ↔ g.gap = [] := by
      rw [narrowed]
      split <;> simp_all
    rw [hword, gapBetween]
    simp only [hempty]
  · have hsame : state.rested.next g.char = state.next g.char := by
      cases state with
      | plain => rfl
      | quoted q => rfl
      | escaped q => exact next_sign hword hstate
    split <;> split
    · rfl
    · exact hsame.symm
    · exact hsame
    · rfl

/-- Behind a backslash in a string there is a word. -/
theorem word_of_escapes {state : RunState} {g : Glyph} {after : List Glyph} (hstate : state.Quoting)
    (hg : g.Proper) (h : (state.over g).rested ≠ state.over g) : roleOf g.char after = .word := by
  have hescape : ∀ state : RunState, (state.next g.char).rested ≠ state.next g.char → g.char = '\\' := by
    intro state h
    cases state with
    | plain =>
        rw [next_plain] at h
        split_ifs at h <;> exact absurd rfl h
    | quoted q =>
        rw [next_quoted] at h
        split_ifs at h with hescape
        · exact hescape
        · exact absurd rfl h
        · exact absurd rfl h
    | escaped q => exact absurd rfl h
  rw [over_eq hstate hg.gap] at h
  rw [hescape _ h]
  rfl

theorem pieceWith_eq_iff {state : RunState} (hopen : state ≠ .plain) {current current' : List Char}
    (hcurrent : EndsDark current) (hcurrent' : EndsDark current') {gap gap' : List Char}
    (hgap : ∀ c ∈ gap, isBlank c = true) (hgap' : ∀ c ∈ gap', isBlank c = true) (c : Char) :
    pieceWith state current' ⟨gap', c⟩ = pieceWith state current ⟨gap, c⟩ ↔ current' = current ∧ gap' = gap := by
  rw [pieceWith, pieceWith, if_neg hopen, if_neg hopen, Glyph.text, Glyph.text, ← List.append_assoc,
    ← List.append_assoc, List.append_left_inj, hcurrent'.append_inj hcurrent hgap' hgap]

theorem endsDark_pieceWith (state : RunState) (current : List Char) {g : Glyph} (hg : g.Proper) :
    EndsDark (pieceWith state current g) := by
  rw [pieceWith]
  split
  · exact Text.endsDark_concat [] hg.char
  · rw [Glyph.text, ← List.append_assoc]
    exact Text.endsDark_concat _ hg.char

/-- The one spelling keeps what is read of a quotation, and the quotations behind it, if all gaps are settled. -/
theorem quotationsFrom_respaced_iff {state : RunState} (hstate : state.Quoting) {left : Role}
    (hleft : state.rested ≠ state → left = .word) {gs : List Glyph} (hproper : ∀ g ∈ gs, g.Proper)
    (hcloses : (spell gs).foldl RunState.next state = .plain) {current current' : List Char}
    (hcurrent : EndsDark current) (hcurrent' : EndsDark current') :
    quotationsFrom state current' (spell (respaced gapBetween left gs)) = quotationsFrom state current (spell gs) ↔
      (state ≠ .plain → current' = current) ∧ ∀ gap ∈ quotedGapsFrom state left gs, gap.Settled := by
  induction gs generalizing state left current current' with
  | nil =>
      refine iff_of_true rfl ⟨fun hopen => absurd hcloses hopen, fun gap hgap => absurd hgap List.not_mem_nil⟩
  | cons g gs ih =>
      obtain ⟨hg, hgs⟩ := List.forall_mem_cons.mp hproper
      have hover := over_respaced hstate hleft hg gs
      have hg' : Glyph.Proper ⟨gapBetween left (roleOf g.char gs) g.gap, g.char⟩ :=
        ⟨blank_gapBetween _ _ g.gap, hg.char⟩
      have hword : (state.over g).rested ≠ state.over g → roleOf g.char gs = .word := word_of_escapes hstate hg
      have hrest : (spell gs).foldl RunState.next (state.over g) = .plain := by
        rw [← hcloses, RunState.over, ← List.foldl_append]
        rfl
      have hnext := ih (hstate.over g) hword hgs hrest (endsDark_pieceWith state current hg)
        (endsDark_pieceWith state current' hg')
      rw [respaced, Text.spell_cons, Text.spell_cons, quotationsFrom_glyph hg.gap hstate,
        quotationsFrom_glyph hg'.gap hstate, hover, quotedGapsFrom, List.forall_mem_append]
      by_cases hopen : state = .plain
      · -- outside of strings the piece starts again, whatever was read before
        have hpiece : ∀ current g, pieceWith state current g = [g.char] := fun _ _ => if_pos hopen
        rw [hpiece, hpiece] at hnext
        rw [hpiece, hpiece, if_neg fun h => h.1 hopen, if_pos hopen, List.nil_append, List.nil_append, hnext]
        simp [hopen]
      · have hpiece := pieceWith_eq_iff hopen hcurrent hcurrent' hg.gap hg'.gap g.char
        rw [if_neg hopen, List.forall_mem_singleton, Gap.Settled]
        by_cases hclose : state.over g = .plain
        · rw [if_pos ⟨hopen, hclose⟩, if_pos ⟨hopen, hclose⟩, List.singleton_append, List.singleton_append,
            List.cons.injEq, hnext, hpiece]
          simp [hopen, hclose, and_assoc]
        · rw [if_neg fun h => hclose h.2, if_neg fun h => hclose h.2, List.nil_append, List.nil_append, hnext,
            hpiece]
          simp [hopen, hclose, and_assoc]

/-- A selector with balanced quotes keeps its quotations if all gaps in them are settled, and only then. -/
theorem quotations_normalizeSelector_iff {text : String} (h : Balanced text.toList) :
    quotations (normalizeSelector text).toList = quotations text.toList ↔
      ∀ gap ∈ quotedGaps text.toList, gap.Settled := by
  have hproper : ∀ g ∈ glyphs text.toList, g.Proper := fun g hg => Text.proper_of_mem_glyphs hg
  obtain ⟨blanks, hblanks, htext⟩ := Text.exists_spell_glyphs text.toList
  have hkept : quotations text.toList = quotations (spell (glyphs text.toList)) := by
    rw [quotations, quotations]
    conv_lhs => rw [htext, quotationsFrom_append_blanks hblanks quoting_plain]
  have hcloses : (spell (glyphs text.toList)).foldl RunState.next .plain = .plain := by
    rwa [balanced_iff, htext, List.foldl_append,
      foldl_next_blanks_eq_plain_iff hblanks (quoting_plain.foldl_next _)] at h
  rw [quotations_eq_of_glyphs (proper_of_mem_respaced hproper) (glyphs_normalizeSelector text), hkept, quotations,
    quotations, quotationsFrom_respaced_iff quoting_plain (fun h => absurd rfl h) hproper hcloses
      (fun c hc => by cases hc) (fun c hc => by cases hc)]
  exact and_iff_right fun hopen => absurd rfl hopen

end Restyle.Css

namespace Restyle.Style

open Text (EndsDark Tight isBlank)

/-! ## Values -/

theorem numberLiteral_eq_text {value s : String} (h : numberLiteral value = .text s) : s = value := by
  unfold numberLiteral at h
  split at h
  · exact (Value.text.inj h).symm
  · split at h
    · split at h <;> cases h
    · cases h

/-- The text of a value is its squeezed text or a `content` value of it. -/
theorem text_normalizeValue {property raw s : String} (h : normalizeValue property raw = .text s) :
    s = Text.squeeze raw ∨ s = quoteContent (Text.squeeze raw) := by
  unfold normalizeValue at h
  dsimp only at h
  split at h
  · exact .inr (Value.text.inj h).symm
  · refine .inl ?_
    split at h
    · split at h
      · exact numberLiteral_eq_text h
      · split at h
        · split at h
          · cases h
          · exact (Value.text.inj h).symm
        · exact (Value.text.inj h).symm
    · exact (Value.text.inj h).symm

/-- A value with a character of no number stays a text. -/
theorem exists_text_normalizeValue {raw : String} {c : Char} (hc : NotNumeral c) (h : c ∈ raw.toList)
    (property : String) : ∃ s, normalizeValue property raw = .text s := by
  unfold normalizeValue
  dsimp only
  rw [isNumber_squeeze_of_mem hc h]
  split
  · exact ⟨_, rfl⟩
  · exact ⟨_, rfl⟩

/-- A `content` value is its stripped text, or this in quotes. -/
theorem quoteContent_cases (value : String) :
    (quoteContent value).toList = (Text.strip value).toList ∨
      (quoteContent value).toList = '"' :: ((Text.strip value).toList ++ ['"']) := by
  unfold quoteContent
  dsimp only
  split
  · next hnil =>
      rw [hnil]
      exact .inr rfl
  · split
    · exact .inl rfl
    · split
      · exact .inl rfl
      · refine .inr ?_
        rw [String.toList_append, String.toList_append]
        rfl

theorem tight_quoteContent (raw : String) : Tight (quoteContent (Text.squeeze raw)).toList := by
  have hstripped := Text.glyphs_strip_squeeze raw
  rcases quoteContent_cases (Text.squeeze raw) with heq | heq
  · rw [heq]
    exact Text.tight_of_narrow hstripped
  · have hquote : isBlank '"' = false := by decide
    have hends : EndsDark (Text.strip (Text.squeeze raw)).toList := by
      rw [Text.strip, String.toList_ofList]
      exact Text.getLast?_trim _
    rw [heq, Text.tight_cons_iff hquote, hends.glyphs_append]
    intro g hg
    rcases List.mem_append.mp hg with hg | hg
    · exact Text.tight_of_narrow hstripped g hg
    · rw [Text.glyphs_cons hquote] at hg
      cases List.mem_singleton.mp hg
      rfl

/-- A value has a piece of its text if this has single blanks, and only then. -/
theorem isInfix_normalizeValue_iff {property raw s : String} (h : normalizeValue property raw = .text s) {c : Char}
    (hc : isBlank c = false) {piece : List Char} (hends : EndsDark piece) (hpiece : c :: piece <:+: raw.toList) :
    c :: piece <:+: s.toList ↔ Tight (c :: piece) := by
  rcases text_normalizeValue h with heq | heq
  · rw [heq]
    exact ⟨(Text.tight_of_narrow (Text.glyphs_squeeze raw)).of_isInfix hc hends,
      fun htight => htight.isInfix_of_narrow hc hends hpiece (Text.glyphs_squeeze raw)⟩
  · rw [heq]
    refine ⟨(tight_quoteContent raw).of_isInfix hc hends, fun htight => ?_⟩
    have hstripped := htight.isInfix_of_narrow hc hends hpiece (Text.glyphs_strip_squeeze raw)
    rcases quoteContent_cases (Text.squeeze raw) with heq | heq
    · rwa [heq]
    · rw [heq]
      exact List.infix_cons (hstripped.trans (List.prefix_append _ _).isInfix)

/-- A value is a text with this piece. -/
def Value.HasText (value : Value) (piece : List Char) : Prop :=
  ∃ s, value = .text s ∧ piece <:+: s.toList

/-- A piece in quotes is in a value of its text if it has single blanks, and only then. -/
theorem hasText_normalizeValue_iff {text : String} {piece : List Char}
    (h : piece ∈ Css.quotations text.toList) (property : String) :
    (normalizeValue property text).HasText piece ↔ Tight piece := by
  obtain ⟨hpart, quote, body, hquote, rfl⟩ := Css.mem_quotations h
  have hnumeral : NotNumeral quote := by
    rcases hquote with rfl | rfl
    · exact ⟨by decide, by decide, by decide, by decide⟩
    · exact ⟨by decide, by decide, by decide, by decide⟩
  obtain ⟨s, hs⟩ := exists_text_normalizeValue hnumeral (hpart.subset List.mem_cons_self) property
  rw [← isInfix_normalizeValue_iff hs hnumeral.blank (Text.endsDark_concat body hnumeral.blank) hpart, hs]
  constructor
  · rintro ⟨s', heq, hpiece⟩
    rwa [Value.text.inj heq]
  · exact fun hpiece => ⟨s, rfl, hpiece⟩

/-! ## Selectors and values -/

/--
In a text with balanced quotes, the spelling of a selector keeps the pieces in quotes if every gap in them is settled,
and only then, and a value of any property has those of them that have single blanks.
-/
theorem quotations_kept {text : String} (h : Css.Balanced text.toList) :
    (Css.quotations (Css.normalizeSelector text).toList = Css.quotations text.toList ↔
      ∀ gap ∈ Css.quotedGaps text.toList, gap.Settled) ∧
    ((∀ gap ∈ Css.quotedGaps text.toList, gap.Settled) →
      ∀ piece ∈ Css.quotations text.toList, piece <:+: (Css.normalizeSelector text).toList) ∧
    ∀ property, ∀ piece ∈ Css.quotations text.toList,
      ((normalizeValue property text).HasText piece ↔ Tight piece) := by
  have hselector := Css.quotations_normalizeSelector_iff h
  refine ⟨hselector, fun hsettled piece hpiece => ?_, fun property piece hpiece => ?_⟩
  · rw [← hselector.mpr hsettled] at hpiece
    exact (Css.mem_quotations hpiece).1
  · exact hasText_normalizeValue_iff hpiece property

/-- A selector with a list in quotes. -/
def listedTitle : String :=
  "&[title=\"a, b\"]>i"

/-- The list is kept with its comma and its blank. -/
theorem quotations_kept_listedTitle :
    Css.Balanced listedTitle.toList ∧ Css.quotations listedTitle.toList = ["\"a, b\"".toList] ∧
      Css.quotations (Css.normalizeSelector listedTitle).toList = ["\"a, b\"".toList] ∧
      ∀ property, (normalizeValue property listedTitle).HasText "\"a, b\"".toList := by
  have hbalanced : Css.Balanced listedTitle.toList := by decide +kernel
  have hpieces : Css.quotations listedTitle.toList = ["\"a, b\"".toList] := by decide +kernel
  have hpiece : "\"a, b\"".toList ∈ Css.quotations listedTitle.toList := by
    rw [hpieces]
    exact List.mem_singleton_self _
  obtain ⟨hselector, -, hvalue⟩ := quotations_kept hbalanced
  refine ⟨hbalanced, hpieces, ?_, fun property => (hvalue property _ hpiece).mpr (by decide +kernel)⟩
  rw [hselector.mpr (by decide +kernel), hpieces]

/-- A selector with a combinator in quotes. -/
def angledTitle : String :=
  "&[title=\"a>b\"]"

/-- A value with two blanks in quotes. -/
def wideContent : String :=
  "\"a  b\""

/-- The combinator is spaced, and the blanks are narrowed. -/
theorem not_kept_angledTitle_wideContent :
    (Css.Balanced angledTitle.toList ∧ Css.quotations angledTitle.toList = ["\"a>b\"".toList] ∧
      Css.normalizeSelector angledTitle = "&[title=\"a > b\"]" ∧
      ¬ "\"a>b\"".toList <:+: (Css.normalizeSelector angledTitle).toList) ∧
    Css.Balanced wideContent.toList ∧ Css.quotations wideContent.toList = [wideContent.toList] ∧
      normalizeValue "content" wideContent = .text "\"a b\"" ∧
      ¬ (normalizeValue "content" wideContent).HasText wideContent.toList := by
  have hpieces : Css.quotations wideContent.toList = [wideContent.toList] := by decide +kernel
  have hpiece : wideContent.toList ∈ Css.quotations wideContent.toList := by
    rw [hpieces]
    exact List.mem_singleton_self _
  have hwritten : quoteContent (Text.squeeze wideContent) = "\"a b\"" := by decide +kernel
  have hwide : ¬ Tight wideContent.toList := by decide +kernel
  refine ⟨by decide +kernel, by decide +kernel, hpieces, congrArg Value.text hwritten, fun hkept => ?_⟩
  exact hwide ((hasText_normalizeValue_iff hpiece "content").mp hkept)

end Restyle.Style
