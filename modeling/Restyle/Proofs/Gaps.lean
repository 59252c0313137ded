import Restyle.Proofs.Printing

/-!
# Tokens and the blanks between them

A text that can be tokenized is made of its tokens and of blanks between them: every token is a piece of the
text, no two tokens share a character, and what no token has is blank.  A run of text closes the strings and
parentheses that it opens, and has no brace and no semicolon outside of them.  A text that cannot be tokenized
leaves a comment, a string or a parenthesis open.
-/

namespace Restyle.Css

open Text (isBlank)

/-! ## Strings and parentheses -/

/-- Where a reader stands behind a text: inside or outside of a string, and in how many parentheses. -/
def standingFrom (start : RunState × Nat) (cs : List Char) : RunState × Nat :=
  cs.foldl (fun place c => nextRun place.2 c place.1) start

/-- Where the reader of a whole text stands behind it. -/
def standing (cs : List Char) : RunState × Nat :=
  standingFrom (.plain, 0) cs

/-- The signs that end a run of text. -/
def blockSigns : List Char := ['{', '}', ';']

/-- No brace and no semicolon of a text is outside of its strings and parentheses. -/
def KeepsSigns (start : RunState × Nat) (cs : List Char) : Prop :=
  ∀ before c after, cs = before ++ c :: after → c ∈ blockSigns → standingFrom start before ≠ (.plain, 0)

theorem standingFrom_append (start : RunState × Nat) (cs ds : List Char) :
    standingFrom start (cs ++ ds) = standingFrom (standingFrom start cs) ds :=
  List.foldl_append

theorem keepsSigns_nil (start : RunState × Nat) : KeepsSigns start [] := by
  intro before c after heq
  cases before <;> cases heq

theorem keepsSigns_cons_iff {start : RunState × Nat} {c : Char} {cs : List Char} :
    KeepsSigns start (c :: cs) ↔
      (c ∈ blockSigns → start ≠ (.plain, 0)) ∧ KeepsSigns (nextRun start.2 c start.1) cs := by
  constructor
  · intro h
    constructor
    · exact fun hc => h [] c cs rfl hc
    · rintro before d after rfl hd
      exact h (c :: before) d after rfl hd
  · rintro ⟨hfirst, hrest⟩ before d after heq hd
    cases before with
    | nil =>
        cases heq
        exact hfirst hd
    | cons b before =>
        cases heq
        exact hrest before d after rfl hd

theorem KeepsSigns.of_isPrefix {start : RunState × Nat} {cs ds : List Char} (h : KeepsSigns start ds)
    (hlead : cs <+: ds) : KeepsSigns start cs := by
  obtain ⟨more, rfl⟩ := hlead
  rintro before c after rfl
  apply h before c (after ++ more)
  rw [List.append_assoc, List.cons_append]

/-- A run of text ends before each of these signs. -/
theorem endsRun_of_mem_blockSigns {last c : Char} (h : c ∈ blockSigns) (cs : List Char) :
    endsRun last (c :: cs) = true := by
  simp only [blockSigns, List.mem_cons, List.not_mem_nil, or_false] at h
  rcases h with rfl | rfl | rfl <;> rfl

/-- A run of text ends outside of all strings and parentheses, and before the first sign out there. -/
theorem runLength_spec {state : RunState} {depth : Nat} {last : Char} {cs : List Char} {n : Nat}
    (h : runLength state depth last cs = .ok n) :
    standingFrom (state, depth) (cs.take n) = (.plain, 0) ∧ KeepsSigns (state, depth) (cs.take n) := by
  induction cs generalizing state depth last n with
  | nil =>
      rw [List.take_nil]
      unfold runLength at h
      split at h
      · split at h
        · next hdepth =>
            rw [eq_of_beq hdepth]
            exact ⟨rfl, keepsSigns_nil _⟩
        · cases h
      · cases h
  | cons c cs ih =>
      rw [runLength_cons] at h
      split at h
      · next hends =>
          cases h
          rw [hends.1, hends.2.1]
          exact ⟨rfl, keepsSigns_nil _⟩
      · next hgoes =>
          cases hrun : runLength (nextRun depth c state).1 (nextRun depth c state).2 c cs with
          | error fault =>
              rw [hrun] at h
              cases h
          | ok m =>
              rw [hrun] at h
              cases h
              obtain ⟨hstands, hkeeps⟩ := ih hrun
              rw [List.take_succ_cons]
              refine ⟨hstands, keepsSigns_cons_iff.mpr ⟨fun hc hstart => ?_, hkeeps⟩⟩
              obtain ⟨rfl, rfl⟩ := Prod.mk.inj hstart
              exact hgoes ⟨rfl, rfl, endsRun_of_mem_blockSigns hc cs⟩

/-- A run of text that does not end leaves a string or a parenthesis open. -/
theorem runLength_error {state : RunState} {depth : Nat} {last : Char} {cs : List Char} {fault : RunFault}
    (h : runLength state depth last cs = .error fault) :
    (fault = .openString ∧ (standingFrom (state, depth) cs).1 ≠ .plain) ∨
      (fault = .openParenthesis ∧ (standingFrom (state, depth) cs).1 = .plain ∧
        (standingFrom (state, depth) cs).2 ≠ 0) := by
  induction cs generalizing state depth last with
  | nil =>
      unfold runLength at h
      split at h
      · split at h
        · cases h
        · next hdepth =>
            cases h
            exact .inr ⟨rfl, rfl, fun hzero => hdepth (beq_iff_eq.mpr hzero)⟩
      · next hopen =>
          cases h
          exact .inl ⟨rfl, hopen⟩
  | cons c cs ih =>
      rw [runLength_cons] at h
      split at h
      · cases h
      · cases hrun : runLength (nextRun depth c state).1 (nextRun depth c state).2 c cs with
        | error fault' =>
            rw [hrun] at h
            cases h
            exact ih hrun
        | ok m =>
            rw [hrun] at h
            cases h

/-- The first character of a run is read like the others, but it cannot end the run. -/
theorem runTail_eq (c : Char) (cs : List Char) :
    runTail c cs = runLength (nextRun 0 c .plain).1 (nextRun 0 c .plain).2 c cs := by
  rw [runTail, nextRun]
  split_ifs <;> rfl

/-! ### Blanks behind a run -/

/-- A string is opened by a quote. -/
def RunState.Quoting : RunState → Prop
  | .plain => True
  | .quoted q => q = '"' ∨ q = '\''
  | .escaped q => q = '"' ∨ q = '\''

theorem RunState.Quoting.nextRun {state : RunState} (h : state.Quoting) (depth : Nat) (c : Char) :
    (nextRun depth c state).1.Quoting := by
  cases state with
  | escaped q => exact h
  | quoted q =>
      rw [Css.nextRun]
      split_ifs
      · exact h
      · trivial
      · exact h
  | plain =>
      rw [Css.nextRun]
      split_ifs with hquote
      · simpa [RunState.Quoting] using hquote
      · trivial
      · trivial
      · trivial

theorem quoting_standingFrom {start : RunState × Nat} (h : start.1.Quoting) (cs : List Char) :
    (standingFrom start cs).1.Quoting := by
  induction cs generalizing start with
  | nil => exact h
  | cons c cs ih => exact ih (h.nextRun start.2 c)

/-- A blank closes neither a string nor a parenthesis. -/
theorem eq_of_nextRun_blank {c : Char} (hc : isBlank c = true) {state : RunState} (hstate : state.Quoting)
    {depth : Nat} (h : nextRun depth c state = (.plain, 0)) : state = .plain ∧ depth = 0 := by
  have hsigns : ['"', '\'', '(', ')'].all (fun d => !isBlank d) = true := by decide
  have hne : ∀ d ∈ ['"', '\'', '(', ')'], c ≠ d := by
    rintro d hd rfl
    have hd' := List.all_eq_true.mp hsigns c hd
    rw [hc] at hd'
    cases hd'
  simp only [List.mem_cons, List.not_mem_nil, or_false, forall_eq_or_imp, forall_eq] at hne
  obtain ⟨hdouble, hsingle, hopen, hclose⟩ := hne
  cases state with
  | escaped q => cases h
  | quoted q =>
      have hquote : c ≠ q := by
        rcases hstate with rfl | rfl
        · exact hdouble
        · exact hsingle
      rw [nextRun, if_neg (c := (c == q) = true) (by simpa using hquote)] at h
      split at h <;> cases h
  | plain =>
      rw [nextRun, if_neg (by simp [hdouble, hsingle]), if_neg (by simpa using hopen),
        if_neg (by simpa using hclose)] at h
      exact ⟨rfl, congrArg Prod.snd h⟩

theorem standing_of_append_blanks {cs blanks : List Char} (hblanks : ∀ c ∈ blanks, isBlank c = true)
    (h : standing (cs ++ blanks) = (.plain, 0)) : standing cs = (.plain, 0) := by
  induction blanks using List.reverseRecOn with
  | nil => rwa [List.append_nil] at h
  | append_singleton blanks c ih =>
      apply ih fun d hd => hblanks d (List.mem_append_left _ hd)
      have hc := hblanks c (List.mem_append_right _ List.mem_cons_self)
      rw [← List.append_assoc, standing, standingFrom_append] at h
      have hstart : (RunState.plain, 0).1.Quoting := trivial
      have hquoting : (standing (cs ++ blanks)).1.Quoting := quoting_standingFrom hstart (cs ++ blanks)
      obtain ⟨hstate, hdepth⟩ := eq_of_nextRun_blank hc hquoting h
      exact Prod.ext hstate hdepth

/-! ## Tokens that cover a text -/

/-- What a run of text is like: trimmed, not empty, and closed before any brace and any semicolon. -/
structure RunText (value : String) : Prop where
  nonempty : value ≠ ""
  trimmed : Text.strip value = value
  closed : standing value.toList = (.plain, 0)
  signs : KeepsSigns (.plain, 0) value.toList

/-- Tokens and blanks take turns in a text that starts at an offset. -/
inductive Covers : Nat → List Char → List Token → Prop where
  | blanks {offset : Nat} {cs : List Char} (blank : ∀ c ∈ cs, isBlank c = true) : Covers offset cs []
  | token {offset : Nat} {gap cs : List Char} {token : Token} {tokens : List Token}
      (blank : ∀ c ∈ gap, isBlank c = true) (place : token.offset = offset + gap.length)
      (nonempty : token.value ≠ "") (text : token.kind = .text → RunText token.value)
      (rest : Covers (token.offset + token.value.length) cs tokens) :
      Covers offset (gap ++ (token.value.toList ++ cs)) (token :: tokens)

namespace Covers

variable {offset : Nat} {cs : List Char} {tokens : List Token}

theorem append_blanks {gap : List Char} (hgap : ∀ c ∈ gap, isBlank c = true)
    (h : Covers (offset + gap.length) cs tokens) : Covers offset (gap ++ cs) tokens := by
  cases h with
  | blanks hblank =>
      apply Covers.blanks
      intro c hc
      rcases List.mem_append.mp hc with hc | hc
      · exact hgap c hc
      · exact hblank c hc
  | @token _ gap' cs token tokens hblank hplace hnonempty htext hrest =>
      rw [← List.append_assoc]
      apply Covers.token _ _ hnonempty htext hrest
      · intro c hc
        rcases List.mem_append.mp hc with hc | hc
        · exact hgap c hc
        · exact hblank c hc
      · rw [hplace, List.length_append, Nat.add_assoc]

theorem le_offset (h : Covers offset cs tokens) : ∀ token ∈ tokens, offset ≤ token.offset := by
  induction h with
  | blanks hblank => exact fun _ hmem => absurd hmem List.not_mem_nil
  | token hblank hplace hnonempty htext hrest ih =>
      rw [List.forall_mem_cons]
      constructor
      · omega
      · intro other hother
        have hle := ih other hother
        omega

/-- Tokens that cover a text are pieces of it. -/
theorem slice (h : Covers offset cs tokens) (before : List Char) (hbefore : before.length = offset) :
    ∀ token ∈ tokens,
      ((before ++ cs).drop token.offset).take token.value.length = token.value.toList := by
  induction h generalizing before with
  | blanks hblank => exact fun _ hmem => absurd hmem List.not_mem_nil
  | @token offset gap cs token tokens hblank hplace hnonempty htext hrest ih =>
      rw [List.forall_mem_cons]
      have hfront : (before ++ gap).length = token.offset := by
        rw [List.length_append, hbefore, hplace]
      constructor
      · rw [← List.append_assoc, List.drop_left' hfront, List.take_left' String.length_toList]
      · have hbehind : (before ++ gap ++ token.value.toList).length = token.offset + token.value.length := by
          rw [List.length_append, hfront, String.length_toList]
        have hlater := ih _ hbehind
        rwa [List.append_assoc, List.append_assoc] at hlater

theorem apart (h : Covers offset cs tokens) :
    tokens.Pairwise fun a b => a.offset + a.value.length ≤ b.offset := by
  induction h with
  | blanks hblank => exact .nil
  | token hblank hplace hnonempty htext hrest ih => exact .cons hrest.le_offset ih

theorem nonempty (h : Covers offset cs tokens) : ∀ token ∈ tokens, token.value ≠ "" := by
  induction h with
  | blanks hblank => exact fun _ hmem => absurd hmem List.not_mem_nil
  | token hblank hplace hnonempty htext hrest ih => exact List.forall_mem_cons.mpr ⟨hnonempty, ih⟩

theorem runTexts (h : Covers offset cs tokens) : ∀ token ∈ tokens, token.kind = .text → RunText token.value := by
  induction h with
  | blanks hblank => exact fun _ hmem => absurd hmem List.not_mem_nil
  | token hblank hplace hnonempty htext hrest ih => exact List.forall_mem_cons.mpr ⟨htext, ih⟩

/-- What is in no token is blank. -/
theorem isBlank_of_outside (h : Covers offset cs tokens) {i : Nat} {c : Char} (hc : cs[i]? = some c)
    (houtside : ∀ token ∈ tokens,
      ¬ (token.offset ≤ offset + i ∧ offset + i < token.offset + token.value.length)) : isBlank c = true := by
  induction h generalizing i with
  | blanks hblank => exact hblank c (List.mem_of_getElem? hc)
  | @token offset gap cs token tokens hblank hplace hnonempty htext hrest ih =>
      obtain ⟨hself, hothers⟩ := List.forall_mem_cons.mp houtside
      by_cases hgap : i < gap.length
      · rw [List.getElem?_append_left hgap] at hc
        exact hblank c (List.mem_of_getElem? hc)
      obtain ⟨k, rfl⟩ := Nat.exists_eq_add_of_le (Nat.not_lt.mp hgap)
      rw [List.getElem?_append_right (Nat.le_add_right _ _), Nat.add_sub_cancel_left] at hc
      obtain ⟨j, rfl⟩ : ∃ j, k = token.value.length + j := Nat.exists_eq_add_of_le (by omega)
      rw [List.getElem?_append_right (by rw [String.length_toList]; omega), String.length_toList,
        Nat.add_sub_cancel_left] at hc
      apply ih hc
      intro other hother
      have hnot := hothers other hother
      omega

end Covers

/--
The tokens of a text without a loss: they are pieces of the text, one behind the other, and only blanks are
outside of them.
-/
structure Lossless (text : List Char) (tokens : List Token) : Prop where
  increasing : tokens.Pairwise fun a b => a.offset < b.offset
  slices : ∀ token ∈ tokens, (text.drop token.offset).take token.value.length = token.value.toList
  apart : tokens.Pairwise fun a b => a.offset + a.value.length ≤ b.offset
  blank : ∀ i c, text[i]? = some c →
    (∀ token ∈ tokens, ¬ (token.offset ≤ i ∧ i < token.offset + token.value.length)) → isBlank c = true
  texts : ∀ token ∈ tokens, token.kind = .text → RunText token.value

theorem Covers.lossless {text : List Char} {tokens : List Token} (h : Covers 0 text tokens) :
    Lossless text tokens where
  increasing := by
    refine h.apart.imp_of_mem fun {a b} ha _ hle => ?_
    have hpos : 0 < a.value.length :=
      Nat.pos_of_ne_zero fun hzero => h.nonempty a ha (String.length_eq_zero_iff.mp hzero)
    omega
  slices := h.slice [] rfl
  apart := h.apart
  blank := fun i c hc houtside =>
    h.isBlank_of_outside hc fun token htoken hin => houtside token htoken (by omega)
  texts := h.runTexts

/-! ## Tokenizing -/

/-- What is wrong with a text that cannot be tokenized: from an offset on, something stays open. -/
inductive StaysOpen (offset : Nat) : List Char → SyntaxFault → Prop where
  | comment {cs : List Char} (unclosed : ¬ ['*', '/'] <:+: cs) :
      StaysOpen offset ('/' :: '*' :: cs) (.unterminatedComment offset)
  | string {cs : List Char} (inside : (standing cs).1 ≠ .plain) :
      StaysOpen offset cs (.unterminatedString offset)
  | parenthesis {cs : List Char} (outside : (standing cs).1 = .plain) (inside : (standing cs).2 ≠ 0) :
      StaysOpen offset cs (.unbalancedParenthesis offset)

theorem not_isInfix_of_commentTail? {cs : List Char} (h : commentTail? cs = none) : ¬ ['*', '/'] <:+: cs := by
  induction cs with
  | nil => exact fun hinfix => by simpa using List.infix_nil.mp hinfix
  | cons c cs ih =>
      rw [commentTail?] at h
      split at h
      · cases h
      next hstarts =>
      rw [List.infix_cons_iff]
      rintro (⟨rest, hrest⟩ | hinfix)
      · apply hstarts
        rw [← hrest, Text.startsWith, Text.after?_append]
        rfl
      · exact ih (Option.map_eq_none_iff.mp h) hinfix

theorem StartsText.not_mem_blockSigns {c : Char} {cs : List Char} (h : StartsText c cs) : c ∉ blockSigns := by
  simp only [blockSigns, List.mem_cons, List.not_mem_nil, or_false, not_or]
  exact ⟨ne_of_beq_false h.lbrace, ne_of_beq_false h.rbrace, ne_of_beq_false h.semicolon⟩

/-- A run of text is its trimmed text and the blanks behind it. -/
theorem runText_trim {c : Char} {cs : List Char} (hc : isBlank c = false) (hstarts : StartsText c cs) {n : Nat}
    (hrun : runTail c cs = .ok n) :
    ∃ gap, (∀ d ∈ gap, isBlank d = true) ∧ c :: cs.take n = Text.trim (c :: cs.take n) ++ gap ∧
      RunText (String.ofList (Text.trim (c :: cs.take n))) := by
  rw [runTail_eq] at hrun
  obtain ⟨hstands, hkeeps⟩ := runLength_spec hrun
  have hsigns : KeepsSigns (.plain, 0) (c :: cs.take n) :=
    keepsSigns_cons_iff.mpr ⟨fun hmem => absurd hmem hstarts.not_mem_blockSigns, hkeeps⟩
  obtain ⟨gap, hgap, hsplit⟩ := Text.exists_trimEnd (c :: cs.take n)
  have htrim : Text.trim (c :: cs.take n) = Text.trimEnd (c :: cs.take n) := by
    rw [Text.trim, Text.trimStart_cons_of_not_blank _ hc]
  rw [← htrim] at hsplit
  refine ⟨gap, hgap, hsplit, ?_⟩
  constructor
  · rw [Ne, String.ofList_eq_empty_iff]
    intro hnil
    rw [hnil, List.nil_append] at hsplit
    have hblank := hgap c (hsplit ▸ List.mem_cons_self)
    rw [hc] at hblank
    cases hblank
  · rw [Text.strip_eq_self_iff, String.toList_ofList, Text.trim_trim]
  · rw [String.toList_ofList]
    apply standing_of_append_blanks hgap
    rw [← hsplit]
    exact hstands
  · rw [String.toList_ofList]
    exact hsigns.of_isPrefix ⟨gap, hsplit.symm⟩

theorem tokenAt_covers {offset : Nat} {c : Char} {cs : List Char} {token : Token} {n : Nat}
    (hc : isBlank c = false) (h : tokenAt offset c cs = .ok (token, n)) :
    n ≤ cs.length ∧ token.offset = offset ∧ token.value ≠ "" ∧ (token.kind = .text → RunText token.value) ∧
      ∃ gap, (∀ d ∈ gap, isBlank d = true) ∧ c :: cs.take n = token.value.toList ++ gap := by
  obtain ⟨hoffset, hle, htakes⟩ := tokenAt_spec h
  refine ⟨hle, hoffset, ?_⟩
  by_cases hkind : token.kind = .text
  · obtain ⟨hstarts, hrun⟩ := tokenAt_text h hkind
    rw [hstarts.tokenAt hrun] at h
    cases h
    obtain ⟨gap, hgap, hsplit, htext⟩ := runText_trim hc hstarts hrun
    exact ⟨htext.nonempty, fun _ => htext, gap, hgap, by rwa [String.toList_ofList]⟩
  · have hvalue := htakes.literal hkind
    refine ⟨fun hempty => ?_, fun htext => absurd htext hkind, [], fun _ hd => absurd hd List.not_mem_nil, ?_⟩
    · rw [hempty] at hvalue
      cases hvalue
    · rw [hvalue, List.append_nil]

/-- No token starts at a sign from which on something stays open. -/
theorem tokenAt_error {offset : Nat} {c : Char} {cs : List Char} {fault : SyntaxFault}
    (h : tokenAt offset c cs = .error fault) : StaysOpen offset (c :: cs) fault := by
  unfold tokenAt at h
  dsimp only at h
  split at h
  · next hopen =>
      obtain ⟨hslash, hstar⟩ := Bool.and_eq_true_iff.mp hopen
      obtain ⟨rest, hrest⟩ := Option.isSome_iff_exists.mp hstar
      have hcs : cs = '*' :: rest := Text.after?_eq_some hrest
      rw [hcs, eq_of_beq hslash]
      split at h
      · cases h
      · next hnone =>
          cases h
          apply StaysOpen.comment
          apply not_isInfix_of_commentTail?
          rwa [hcs] at hnone
  -- the other signs are tokens of their own
  split at h
  · cases h
  split at h
  · cases h
  split at h
  · cases h
  split at h
  · cases h
  have hopen : ∀ runFault, runTail c cs = .error runFault →
      (runFault = .openString ∧ (standing (c :: cs)).1 ≠ .plain) ∨
        (runFault = .openParenthesis ∧ (standing (c :: cs)).1 = .plain ∧ (standing (c :: cs)).2 ≠ 0) := by
    intro runFault hrun
    rw [runTail_eq] at hrun
    have hopen := runLength_error hrun
    exact hopen
  split at h
  · cases h
  · next hrun =>
      cases h
      rcases hopen _ hrun with ⟨-, hinside⟩ | ⟨hne, -⟩
      · exact .string hinside
      · cases hne
  · next hrun =>
      cases h
      rcases hopen _ hrun with ⟨hne, -⟩ | ⟨-, houtside, hinside⟩
      · cases hne
      · exact .parenthesis houtside hinside

/-- The tokens of a text cover it. -/
theorem tokensFrom_covers {offset : Nat} {cs : List Char} {tokens : List Token}
    (h : tokensFrom offset cs = .ok tokens) : Covers offset cs tokens := by
  induction hn : cs.length using Nat.strong_induction_on generalizing cs offset tokens with
  | _ n ih =>
      subst hn
      unfold tokensFrom at h
      split at h
      · cases h
        exact .blanks fun _ hd => absurd hd List.not_mem_nil
      next c rest =>
      split at h
      · next hblank =>
          have hcovers := ih rest.length (Nat.lt_succ_self _) h rfl
          have hgap : ∀ d ∈ [c], isBlank d = true := fun d hd => List.mem_singleton.mp hd ▸ hblank
          exact hcovers.append_blanks hgap
      next hblank =>
      split at h
      · cases h
      next token n htoken =>
      cases hmore : tokensFrom (offset + n + 1) (rest.drop n) with
      | error fault =>
          rw [hmore] at h
          cases h
      | ok more =>
          rw [hmore] at h
          cases h
          obtain ⟨hle, hoffset, hnonempty, htext, gap, hgap, hsplit⟩ :=
            tokenAt_covers (Bool.eq_false_iff.mpr hblank) htoken
          have hshorter : (rest.drop n).length < (c :: rest).length := by
            rw [List.length_drop, List.length_cons]
            omega
          have hcovers := ih (rest.drop n).length hshorter hmore rfl
          have htext' : c :: rest = token.value.toList ++ (gap ++ rest.drop n) := by
            rw [← List.append_assoc, ← hsplit, List.cons_append, List.take_append_drop]
          have hplace : offset + n + 1 = token.offset + token.value.length + gap.length := by
            have hlength := congrArg List.length hsplit
            rw [List.length_cons, List.length_take, List.length_append, String.length_toList,
              Nat.min_eq_left hle] at hlength
            omega
          rw [htext']
          rw [hplace] at hcovers
          have hnone : ∀ d ∈ ([] : List Char), isBlank d = true := fun _ hd => absurd hd List.not_mem_nil
          exact .token hnone hoffset hnonempty htext (hcovers.append_blanks hgap)

/-- A text without tokens has a place from which on something stays open. -/
theorem tokensFrom_error {offset : Nat} {cs : List Char} {fault : SyntaxFault}
    (h : tokensFrom offset cs = .error fault) :
    ∃ k < cs.length, StaysOpen (offset + k) (cs.drop k) fault := by
  induction hn : cs.length using Nat.strong_induction_on generalizing cs offset with
  | _ n ih =>
      subst hn
      unfold tokensFrom at h
      split at h
      · cases h
      next c rest =>
      rw [List.length_cons]
      split at h
      · obtain ⟨k, hk, hopen⟩ := ih rest.length (Nat.lt_succ_self _) h rfl
        rw [Nat.add_right_comm] at hopen
        exact ⟨k + 1, Nat.succ_lt_succ hk, hopen⟩
      split at h
      · next hfault =>
          cases h
          exact ⟨0, Nat.succ_pos _, tokenAt_error hfault⟩
      next token n htoken =>
      cases hmore : tokensFrom (offset + n + 1) (rest.drop n) with
      | ok more =>
          rw [hmore] at h
          cases h
      | error fault' =>
          rw [hmore] at h
          cases h
          have hshorter : (rest.drop n).length < (c :: rest).length := by
            rw [List.length_drop, List.length_cons]
            omega
          obtain ⟨k, hk, hopen⟩ := ih (rest.drop n).length hshorter hmore rfl
          rw [List.length_drop] at hk
          refine ⟨n + k + 1, by omega, ?_⟩
          rw [List.drop_drop] at hopen
          rwa [List.drop_succ_cons, show offset + (n + k + 1) = offset + n + 1 + k by omega]

/--
Every text is tokenized without a loss, or it has a place from which on a comment, a string or a parenthesis
stays open.
-/
theorem tokenize_lossless (text : String) :
    (∃ fault p, tokenize text = .error fault ∧ p < text.length ∧ StaysOpen p (text.toList.drop p) fault) ∨
      ∃ tokens, tokenize text = .ok tokens ∧ Lossless text.toList tokens := by
  cases h : tokenize text with
  | error fault =>
      obtain ⟨p, hp, hopen⟩ := tokensFrom_error h
      rw [Nat.zero_add] at hopen
      exact .inl ⟨fault, p, rfl, by rwa [← String.length_toList], hopen⟩
  | ok tokens => exact .inr ⟨tokens, rfl, (tokensFrom_covers h).lossless⟩

end Restyle.Css
