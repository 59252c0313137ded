import Restyle.Proofs.Placement
import Mathlib.Data.List.DropRight

/-!
# The blocks of a style sheet

A list of tokens is a rule tree if every brace fits what stands before it: an opening one follows a text,
and a closing one has an open block to close.  If no block is left open, the tree has one nested rule for
every opening brace, in the order of the braces and as deep as the braces are nested.  All other lists
are refused with the first thing that is wrong with them.
-/

namespace Restyle.Css

/-- The tokens that the reader of blocks looks at. -/
def significant (tokens : List Token) : List Token :=
  tokens.filter (·.kind != .comment)

/-- The number of blocks that are opened in a list of tokens. -/
def opened (tokens : List Token) : Nat :=
  tokens.countP (·.kind == .lbrace)

/-- The number of blocks that are closed in a list of tokens. -/
def closed (tokens : List Token) : Nat :=
  tokens.countP (·.kind == .rbrace)

/--
The grammar of style sheets: every opening brace directly follows a text, no closing brace comes before
its partner, and there are as many of the ones as of the other ones.
-/
structure WellFormed (tokens : List Token) : Prop where
  selectors : ∀ before brace after, tokens = before ++ brace :: after → brace.kind = .lbrace →
    ∃ front text, before = front ++ [text] ∧ text.kind = .text
  nested : ∀ before, before <+: tokens → closed before ≤ opened before
  balanced : closed tokens = opened tokens

/-- The texts at the end of a list of tokens. -/
def lastTexts (tokens : List Token) : List String :=
  (tokens.rtakeWhile (·.kind == .text)).map Token.value

/-- The selector of the block that is opened behind a list of tokens. -/
def selectorBehind (tokens : List Token) : String :=
  let cs := (" ".intercalate (lastTexts tokens)).toList
  normalizeSelector (String.ofList (peelSelector cs.length cs).2)

/-- The depths and selectors of the blocks that are opened in `tokens`, which stand behind `before`. -/
def openingsFrom (before : List Token) : List Token → List (Nat × String)
  | [] => []
  | token :: tokens =>
    if token.kind = .lbrace then
      (opened before - closed before, selectorBehind before) :: openingsFrom (before ++ [token]) tokens
    else openingsFrom (before ++ [token]) tokens

/-- The blocks that are opened in a list of tokens: how many are open around each, and its selector. -/
def openings (tokens : List Token) : List (Nat × String) :=
  openingsFrom [] tokens

namespace Rule

mutual

/-- The rules below a rule, outer rules first: how many rules are around each, and its selector. -/
def outline (depth : Nat) : Rule → List (Nat × String)
  | ⟨_, _, nested, _⟩ => outlineAll depth nested

/-- The rules of a list with all rules below them. -/
def outlineAll (depth : Nat) : List Rule → List (Nat × String)
  | [] => []
  | rule :: rules => (depth, rule.selector) :: (rule.outline (depth + 1) ++ outlineAll depth rules)

end

end Rule

/-- A token can stand behind a list of tokens: a block has a selector, and a brace closes an open block. -/
structure FitsBehind (before : List Token) (token : Token) : Prop where
  lbrace : token.kind = .lbrace → lastTexts before ≠ []
  rbrace : token.kind = .rbrace → closed before < opened before

/-- Every token fits what stands before it. -/
def Fitting (tokens : List Token) : Prop :=
  ∀ before token after, tokens = before ++ token :: after → FitsBehind before token

/-- What is wrong with a brace that does not fit. -/
def Token.misfit (token : Token) : SyntaxFault :=
  if token.kind = .rbrace then .unexpectedClose token.offset else .missingSelector token.offset

/-- What is wrong with a text: its tokens cannot be read, a token does not fit, or a block is left open. -/
inductive Faulty (text : String) : SyntaxFault → Prop
  | lexical {fault : SyntaxFault} (unread : tokenize text = .error fault) : Faulty text fault
  | misfit {tokens before after : List Token} {token : Token} (read : tokenize text = .ok tokens)
      (split : significant tokens = before ++ token :: after) (sound : Fitting before)
      (first : ¬ FitsBehind before token) : Faulty text token.misfit
  | unclosed {tokens : List Token} {depth : Nat} {selector : String} (read : tokenize text = .ok tokens)
      (sound : Fitting (significant tokens))
      (depth_eq : opened (significant tokens) = closed (significant tokens) + (depth + 1))
      (last : (openings (significant tokens)).reverse.find? (·.1 ≤ depth) = some (depth, selector)) :
      Faulty text (.unclosedBlock selector)

/-! ## One more token -/

section

variable (tokens : List Token) (token : Token)

theorem opened_concat : opened (tokens ++ [token]) = opened tokens + if token.kind = .lbrace then 1 else 0 := by
  simp [opened, List.countP_cons]

theorem closed_concat : closed (tokens ++ [token]) = closed tokens + if token.kind = .rbrace then 1 else 0 := by
  simp [closed, List.countP_cons]

theorem lastTexts_concat : lastTexts (tokens ++ [token]) =
    if token.kind = .text then lastTexts tokens ++ [token.value] else [] := by
  rw [lastTexts, List.rtakeWhile_concat]
  by_cases h : token.kind = .text
  · rw [if_pos (by rw [h]; rfl), if_pos h, List.map_append]
    rfl
  · rw [if_neg (by simpa using h), if_neg h]
    rfl

theorem lastTexts_ne_nil_iff :
    lastTexts tokens ≠ [] ↔ ∃ front text, tokens = front ++ [text] ∧ text.kind = .text := by
  cases tokens using List.reverseRecOn with
  | nil => exact iff_of_false (fun h => h rfl) (by rintro ⟨front, text, h, -⟩; simp at h)
  | append_singleton front last =>
      rw [lastTexts_concat]
      constructor
      · intro h
        by_cases hlast : last.kind = .text
        · exact ⟨front, last, rfl, hlast⟩
        · exact absurd (if_neg hlast) h
      · rintro ⟨_, _, heq, htext⟩
        obtain ⟨-, rfl⟩ := List.append_inj' heq rfl |>.imp_right List.cons.inj |>.imp_right And.left
        rw [if_pos htext]
        exact List.append_ne_nil_of_right_ne_nil _ (List.cons_ne_nil _ _)

theorem openingsFrom_concat (before : List Token) : openingsFrom before (tokens ++ [token]) =
    openingsFrom before tokens ++ openingsFrom (before ++ tokens) [token] := by
  induction tokens generalizing before with
  | nil => rw [List.append_nil]; rfl
  | cons first tokens ih =>
      rw [List.cons_append, openingsFrom, openingsFrom, ih, List.append_assoc, List.singleton_append]
      split
      · rfl
      · rfl

theorem openings_concat : openings (tokens ++ [token]) = openings tokens ++
    if token.kind = .lbrace then [(opened tokens - closed tokens, selectorBehind tokens)] else [] := by
  rw [openings, openingsFrom_concat, List.nil_append, openings, openingsFrom]
  rfl

theorem fitting_concat_iff : Fitting (tokens ++ [token]) ↔ Fitting tokens ∧ FitsBehind tokens token := by
  constructor
  · intro h
    refine ⟨fun before other after heq => h before other (after ++ [token]) ?_, h tokens token [] rfl⟩
    rw [heq, List.append_assoc, List.cons_append]
  · rintro ⟨h, hlast⟩ before other after heq
    cases after using List.reverseRecOn with
    | nil =>
        obtain ⟨rfl, hother⟩ := List.append_inj' heq rfl
        exact (List.cons.inj hother).1 ▸ hlast
    | append_singleton after last =>
        rw [← List.cons_append, ← List.append_assoc] at heq
        exact h before other after (List.append_inj' heq rfl).1

end

theorem fitting_nil : Fitting [] := by
  intro before token after h
  simp at h

/-- Only braces may fail to fit. -/
theorem not_fitsBehind_iff {before : List Token} {token : Token} : ¬ FitsBehind before token ↔
    (token.kind = .lbrace ∧ lastTexts before = []) ∨ (token.kind = .rbrace ∧ opened before ≤ closed before) := by
  constructor
  · intro h
    by_contra hnone
    obtain ⟨hopen, hclose⟩ := not_or.mp hnone
    exact h ⟨fun hkind htexts => hopen ⟨hkind, htexts⟩, fun hkind => not_le.mp fun hle => hclose ⟨hkind, hle⟩⟩
  · rintro (⟨hkind, hnone⟩ | ⟨hkind, hle⟩) h
    · exact h.lbrace hkind hnone
    · exact absurd (h.rbrace hkind) (not_lt.mpr hle)

/-- In tokens that fit, no block is closed before it is opened. -/
theorem Fitting.closed_le {tokens : List Token} (h : Fitting tokens) : closed tokens ≤ opened tokens := by
  induction tokens using List.reverseRecOn with
  | nil => exact Nat.le_refl _
  | append_singleton tokens token ih =>
      obtain ⟨htokens, htoken⟩ := (fitting_concat_iff tokens token).mp h
      have hle := ih htokens
      rw [opened_concat, closed_concat]
      by_cases hkind : token.kind = .rbrace
      · have hlt := htoken.rbrace hkind
        rw [if_pos hkind]
        omega
      · rw [if_neg hkind]
        omega

theorem Fitting.of_isPrefix {before tokens : List Token} (h : Fitting tokens) (hbefore : before <+: tokens) :
    Fitting before := by
  obtain ⟨more, rfl⟩ := hbefore
  intro front token after heq
  refine h front token (after ++ more) ?_
  rw [heq, List.append_assoc, List.cons_append]

/-- The grammar asks for tokens that fit, and for as many closing braces as opening ones. -/
theorem wellFormed_iff (tokens : List Token) :
    WellFormed tokens ↔ Fitting tokens ∧ closed tokens = opened tokens := by
  constructor
  · rintro ⟨hselectors, hnested, hbalanced⟩
    refine ⟨fun before token after heq => ⟨fun hopen => ?_, fun hclose => ?_⟩, hbalanced⟩
    · exact (lastTexts_ne_nil_iff before).mpr (hselectors before token after heq hopen)
    · have hprefix : before ++ [token] <+: tokens := ⟨after, by rw [heq, List.append_assoc]; rfl⟩
      have hle := hnested _ hprefix
      have hopen : token.kind ≠ .lbrace := by
        rw [hclose]
        decide
      rw [closed_concat, opened_concat, if_pos hclose, if_neg hopen] at hle
      omega
  · rintro ⟨hfitting, hbalanced⟩
    refine ⟨fun before brace after heq hopen => ?_, fun before hbefore => ?_, hbalanced⟩
    · exact (lastTexts_ne_nil_iff before).mp ((hfitting before brace after heq).lbrace hopen)
    · exact (hfitting.of_isPrefix hbefore).closed_le

/-! ## The outline of the open rules -/

namespace Rule

theorem outlineAll_append (depth : Nat) (rules more : List Rule) :
    outlineAll depth (rules ++ more) = outlineAll depth rules ++ outlineAll depth more := by
  induction rules with
  | nil => rfl
  | cons rule rules ih =>
      rw [List.cons_append, outlineAll, outlineAll, ih, List.cons_append, List.append_assoc]

theorem outline_addNested (depth : Nat) (rule inner : Rule) :
    outline depth { rule with nested := rule.nested ++ [inner] } =
      rule.outline depth ++ (depth, inner.selector) :: inner.outline (depth + 1) := by
  obtain ⟨selector, declarations, nested, atRules⟩ := rule
  rw [outline, outline, outlineAll_append, outlineAll, outlineAll, List.append_nil]

/-- Declarations are not in the outline. -/
theorem outline_addDeclarations (depth : Nat) (rule : Rule) (declarations : List Declaration) :
    outline depth { rule with declarations } = rule.outline depth := by
  obtain ⟨selector, own, nested, atRules⟩ := rule
  rw [outline, outline]

theorem outline_eq_flatMap (depth : Nat) (rule : Rule) :
    rule.outline depth = rule.nested.flatMap fun inner => (depth, inner.selector) :: inner.outline (depth + 1) := by
  obtain ⟨selector, declarations, nested, atRules⟩ := rule
  rw [outline]
  induction nested with
  | nil => rfl
  | cons inner nested ih => rw [outlineAll, List.flatMap_cons, ih, List.cons_append]

/-- What is below a rule is deeper than the rule. -/
theorem le_of_mem_outline {depth : Nat} {rule : Rule} {entry : Nat × String} (h : entry ∈ rule.outline depth) :
    depth ≤ entry.1 := by
  induction rule using Rule.induction generalizing depth with
  | step rule ih =>
      rw [outline_eq_flatMap] at h
      obtain ⟨inner, hinner, h⟩ := List.mem_flatMap.mp h
      rcases List.mem_cons.mp h with rfl | h
      · exact Nat.le_refl _
      · exact Nat.le_of_succ_le (ih inner hinner h)

end Rule

/-- The outline of the rules that are open, of which `current` is the innermost one. -/
def outlineOpen (current : Rule) : List Rule → List (Nat × String)
  | [] => current.outline 0
  | parent :: outer =>
    outlineOpen parent outer ++ (outer.length, current.selector) :: current.outline (outer.length + 1)

theorem outlineOpen_addDeclarations (current : Rule) (declarations : List Declaration) (outer : List Rule) :
    outlineOpen { current with declarations } outer = outlineOpen current outer := by
  cases outer with
  | nil => exact current.outline_addDeclarations 0 declarations
  | cons parent outer =>
      rw [outlineOpen, outlineOpen, current.outline_addDeclarations]

theorem outlineOpen_addNested (current inner : Rule) (outer : List Rule) :
    outlineOpen { current with nested := current.nested ++ [inner] } outer =
      outlineOpen inner (current :: outer) := by
  cases outer with
  | nil => exact current.outline_addNested 0 inner
  | cons parent outer =>
      rw [outlineOpen, outlineOpen, outlineOpen, current.outline_addNested, List.append_assoc, List.cons_append]
      rfl

/-- The innermost open rule is the last one in the outline that is not deeper. -/
theorem find?_outlineOpen (current parent : Rule) (outer : List Rule) :
    (outlineOpen current (parent :: outer)).reverse.find? (·.1 ≤ outer.length) =
      some (outer.length, current.selector) := by
  have hdeeper : (current.outline (outer.length + 1)).reverse.find? (·.1 ≤ outer.length) = none := by
    refine List.find?_eq_none.mpr fun entry hentry hle => ?_
    have hlt := Rule.le_of_mem_outline (List.mem_reverse.mp hentry)
    have hle := of_decide_eq_true hle
    omega
  rw [outlineOpen, List.reverse_append, List.reverse_cons, List.find?_append, List.find?_append, hdeeper,
    Option.none_or, List.find?_singleton, if_pos (decide_eq_true (Nat.le_refl _)), Option.some_or]

/-! ## Reading tokens -/

namespace SheetState

/-- What the reader knows once it has read a list of tokens. -/
structure Reads (tokens : List Token) (s : SheetState) : Prop where
  pending : s.pending = lastTexts tokens
  depth : opened tokens = closed tokens + s.outer.length
  outline : outlineOpen s.current s.outer = openings tokens

theorem outer_flush (s : SheetState) : s.flush.outer = s.outer := by
  rw [flush]
  split <;> rfl

theorem outlineOpen_flush (s : SheetState) :
    outlineOpen s.flush.current s.flush.outer = outlineOpen s.current s.outer := by
  rw [flush]
  split
  · rfl
  · exact outlineOpen_addDeclarations _ _ _

section

variable {tokens : List Token} {token : Token} {s : SheetState}

theorem Reads.text (h : s.Reads tokens) (hkind : token.kind = .text) :
    Reads (tokens ++ [token]) { s with pending := s.pending ++ [token.value] } where
  pending := by rw [lastTexts_concat, if_pos hkind, h.pending]
  depth := by rw [opened_concat, closed_concat, hkind]; exact h.depth
  outline := by
    rw [openings_concat, hkind, if_neg (by decide), List.append_nil]
    exact h.outline

theorem Reads.semicolon (h : s.Reads tokens) (hkind : token.kind = .semicolon) :
    Reads (tokens ++ [token]) s.flush where
  pending := by rw [lastTexts_concat, hkind, if_neg (by decide), s.pending_flush]
  depth := by
    rw [opened_concat, closed_concat, hkind, s.outer_flush]
    exact h.depth
  outline := by
    rw [openings_concat, hkind, if_neg (by decide), List.append_nil, s.outlineOpen_flush]
    exact h.outline

theorem selector_openRule (s : SheetState) (h : s.pending = lastTexts tokens) :
    s.openRule.current.selector = selectorBehind tokens := by
  rw [selectorBehind, ← h]
  rfl

theorem outlineOpen_openRule (s : SheetState) : outlineOpen s.openRule.current s.openRule.outer =
    outlineOpen s.current s.outer ++ [(s.outer.length, s.openRule.current.selector)] := by
  rw [← outlineOpen_addDeclarations s.current
    (s.current.declarations ++ (peelSelector s.text.toList.length s.text.toList).1) s.outer]
  rfl

theorem Reads.lbrace (h : s.Reads tokens) (hkind : token.kind = .lbrace) :
    Reads (tokens ++ [token]) s.openRule where
  pending := by
    rw [lastTexts_concat, hkind, if_neg (by decide)]
    rfl
  depth := by
    have hlength : s.openRule.outer.length = s.outer.length + 1 := rfl
    rw [opened_concat, closed_concat, hkind, hlength, if_pos rfl, if_neg (by decide), h.depth]
    rfl
  outline := by
    have hdepth : opened tokens - closed tokens = s.outer.length := by
      have hopened := h.depth
      omega
    rw [openings_concat, if_pos hkind, hdepth, s.outlineOpen_openRule, h.outline,
      selector_openRule s h.pending]

theorem Reads.rbrace (h : s.Reads tokens) (hkind : token.kind = .rbrace) {parent : Rule} {outer : List Rule}
    (houter : s.flush.outer = parent :: outer) : Reads (tokens ++ [token]) (s.flush.closeRule parent outer) where
  pending := by
    rw [lastTexts_concat, hkind, if_neg (by decide)]
    rfl
  depth := by
    have hlength : s.outer.length = outer.length + 1 := by rw [← s.outer_flush, houter, List.length_cons]
    have hdepth := h.depth
    rw [opened_concat, closed_concat, hkind, if_pos rfl, if_neg (by decide)]
    change opened tokens = closed tokens + 1 + outer.length
    omega
  outline := by
    rw [openings_concat, hkind, if_neg (by decide), List.append_nil, ← h.outline, ← s.outlineOpen_flush, houter]
    exact outlineOpen_addNested parent s.flush.current outer

/-- A token that fits is read. -/
theorem Reads.step (h : s.Reads tokens) (hcomment : token.kind ≠ .comment) (hfits : FitsBehind tokens token) :
    ∃ s', s.step token = .ok s' ∧ Reads (tokens ++ [token]) s' := by
  rw [SheetState.step]
  cases hkind : token.kind with
  | comment => exact absurd hkind hcomment
  | text => exact ⟨_, rfl, h.text hkind⟩
  | semicolon => exact ⟨_, rfl, h.semicolon hkind⟩
  | lbrace =>
      have hpending : s.pending.isEmpty = false := by
        rw [h.pending]
        exact List.isEmpty_eq_false_iff.mpr (hfits.lbrace hkind)
      exact ⟨_, if_neg (by rw [hpending]; decide), h.lbrace hkind⟩
  | rbrace =>
      have hlt := hfits.rbrace hkind
      have hdepth := h.depth
      cases houter : s.outer with
      | nil =>
          rw [houter, List.length_nil] at hdepth
          omega
      | cons parent outer =>
          rw [← s.outer_flush] at houter
          refine ⟨s.flush.closeRule parent outer, ?_, h.rbrace hkind houter⟩
          simp only [houter]

/-- A token that does not fit is refused. -/
theorem Reads.step_misfit (h : s.Reads tokens) (hmisfit : ¬ FitsBehind tokens token) :
    s.step token = .error token.misfit := by
  rw [SheetState.step, Token.misfit]
  rcases not_fitsBehind_iff.mp hmisfit with ⟨hkind, hnone⟩ | ⟨hkind, hle⟩
  · have hopen : TokenKind.lbrace ≠ .rbrace := by decide
    rw [hkind, h.pending, hnone, if_neg hopen]
    rfl
  · have houter : s.flush.outer = [] := by
      have hdepth := h.depth
      rw [s.outer_flush]
      exact List.eq_nil_of_length_eq_zero (by omega)
    rw [hkind, if_pos rfl]
    simp only [houter]

/-- If all blocks are closed, the tree has the blocks that were opened. -/
theorem Reads.finish_closed (h : s.Reads tokens) (hclosed : closed tokens = opened tokens) :
    ∃ root, s.finish = .ok root ∧ root.outline 0 = openings tokens := by
  have houter : s.flush.outer = [] := by
    have hdepth := h.depth
    rw [s.outer_flush]
    exact List.eq_nil_of_length_eq_zero (by omega)
  refine ⟨s.flush.current, ?_, ?_⟩
  · rw [finish]
    simp only [houter]
  · rw [← h.outline, ← s.outlineOpen_flush, houter, outlineOpen]

/-- If a block is left open, the innermost one is reported. -/
theorem Reads.finish_open (h : s.Reads tokens) (hopen : closed tokens ≠ opened tokens) :
    ∃ depth selector, s.finish = .error (.unclosedBlock selector) ∧
      opened tokens = closed tokens + (depth + 1) ∧
      (openings tokens).reverse.find? (·.1 ≤ depth) = some (depth, selector) := by
  have hdepth := h.depth
  cases houter : s.flush.outer with
  | nil =>
      rw [← s.outer_flush, houter] at hdepth
      exact absurd hdepth.symm hopen
  | cons parent outer =>
      refine ⟨outer.length, s.flush.current.selector, ?_, ?_, ?_⟩
      · rw [finish]
        simp only [houter]
      · rw [hdepth, ← s.outer_flush, houter, List.length_cons]
      · rw [← h.outline, ← s.outlineOpen_flush, houter]
        exact find?_outlineOpen s.flush.current parent outer

end

/-- The reader before the first token. -/
abbrev start : SheetState :=
  { current := { selector := "&" } }

theorem reads_start : start.Reads [] :=
  ⟨rfl, rfl, rfl⟩

/-- Comments are skipped. -/
theorem foldlM_significant (tokens : List Token) (s : SheetState) :
    (significant tokens).foldlM step s = tokens.foldlM step s := by
  induction tokens generalizing s with
  | nil => rfl
  | cons token tokens ih =>
      rw [significant, List.filter_cons]
      by_cases hkind : token.kind = .comment
      · have hstep : s.step token = .ok s := by rw [step, hkind]
        rw [if_neg (by rw [hkind]; decide), List.foldlM_cons, hstep]
        exact ih s
      · rw [if_pos (by simpa using hkind), List.foldlM_cons, List.foldlM_cons]
        exact bind_congr fun next => ih next

/-- Tokens are read as far as they fit; the first one that does not is refused. -/
theorem run_cases {tokens : List Token} (hcomments : ∀ token ∈ tokens, token.kind ≠ .comment) :
    (Fitting tokens ∧ ∃ s, tokens.foldlM step start = .ok s ∧ s.Reads tokens) ∨
      ∃ before token after, tokens = before ++ token :: after ∧ Fitting before ∧ ¬ FitsBehind before token ∧
        tokens.foldlM step start = .error token.misfit := by
  induction tokens using List.reverseRecOn with
  | nil => exact .inl ⟨fitting_nil, start, rfl, reads_start⟩
  | append_singleton tokens token ih =>
      rw [List.foldlM_append]
      rcases ih fun other hother => hcomments other (List.mem_append_left _ hother) with
        ⟨hfitting, s, hrun, hreads⟩ | ⟨before, misfit, after, rfl, hbefore, hmisfit, hrun⟩
      · rw [hrun]
        by_cases hfits : FitsBehind tokens token
        · obtain ⟨s', hstep, hreads'⟩ := hreads.step (hcomments token (by simp)) hfits
          refine .inl ⟨(fitting_concat_iff tokens token).mpr ⟨hfitting, hfits⟩, s', ?_, hreads'⟩
          change [token].foldlM step s = _
          rw [List.foldlM_cons, hstep]
          rfl
        · refine .inr ⟨tokens, token, [], rfl, hfitting, hfits, ?_⟩
          change [token].foldlM step s = _
          rw [List.foldlM_cons, hreads.step_misfit hfits]
          rfl
      · refine .inr ⟨before, misfit, after ++ [token], by simp, hbefore, hmisfit, ?_⟩
        rw [hrun]
        rfl

end SheetState

open SheetState (start)

theorem parseSheet_eq {text : String} {tokens : List Token} (h : tokenize text = .ok tokens) :
    parseSheet text = (significant tokens).foldlM SheetState.step start >>= SheetState.finish := by
  rw [parseSheet, h, SheetState.foldlM_significant]
  rfl

/-- Every text is either read to a tree with the blocks of its braces, or refused for what is wrong with it. -/
theorem parseSheet_cases (text : String) :
    (∃ tokens root, tokenize text = .ok tokens ∧ WellFormed (significant tokens) ∧ parseSheet text = .ok root ∧
        root.outline 0 = openings (significant tokens)) ∨
      ((∀ tokens, tokenize text = .ok tokens → ¬ WellFormed (significant tokens)) ∧
        ∃ fault, parseSheet text = .error fault ∧ Faulty text fault) := by
  cases htokens : tokenize text with
  | error fault =>
      refine .inr ⟨fun tokens h => ?_, fault, ?_, .lexical htokens⟩
      · cases h
      · rw [parseSheet, htokens]
        rfl
  | ok tokens =>
      have hcomments : ∀ token ∈ significant tokens, token.kind ≠ .comment := by
        intro token htoken
        simpa using (List.mem_filter.mp htoken).2
      rw [parseSheet_eq htokens]
      rcases SheetState.run_cases hcomments with
        ⟨hfitting, s, hrun, hreads⟩ | ⟨before, token, after, hsplit, hbefore, hmisfit, hrun⟩
      · rw [hrun]
        by_cases hclosed : closed (significant tokens) = opened (significant tokens)
        · obtain ⟨root, hroot, houtline⟩ := hreads.finish_closed hclosed
          exact .inl ⟨tokens, root, rfl, (wellFormed_iff _).mpr ⟨hfitting, hclosed⟩, hroot, houtline⟩
        · obtain ⟨depth, selector, hfault, hdepth, hlast⟩ := hreads.finish_open hclosed
          refine .inr ⟨fun other hother hformed => ?_, _, hfault, .unclosed htokens hfitting hdepth hlast⟩
          cases hother
          exact hclosed hformed.balanced
      · refine .inr ⟨fun other hother hformed => ?_, token.misfit, by rw [hrun]; rfl,
          .misfit htokens hsplit hbefore hmisfit⟩
        cases hother
        exact hmisfit (((wellFormed_iff _).mp hformed).1 before token after hsplit)

/-- Every rule below the root is in the outline once. -/
theorem Rule.length_outline (depth : Nat) (rule : Rule) : (rule.outline depth).length = rule.countNested := by
  induction rule using Rule.induction generalizing depth with
  | step rule ih =>
      obtain ⟨selector, declarations, nested, atRules⟩ := rule
      rw [outline, countNested]
      replace ih : ∀ inner ∈ nested, ∀ depth, (inner.outline depth).length = inner.countNested := ih
      induction nested with
      | nil => rfl
      | cons inner nested ihNested =>
          obtain ⟨hinner, hnested⟩ := List.forall_mem_cons.mp ih
          rw [outlineAll, countAll, List.length_cons, List.length_append, hinner, ihNested hnested]
          omega

theorem length_openings (tokens : List Token) : (openings tokens).length = opened tokens := by
  induction tokens using List.reverseRecOn with
  | nil => rfl
  | append_singleton tokens token ih =>
      rw [openings_concat, opened_concat, List.length_append, ih]
      split <;> rfl

/--
Exactly the texts whose tokens are in the grammar are read.  The tree of such a text has one nested rule for
every opening brace, in the order of the braces and as deep as they are nested.  Every other text is refused
with what is wrong with it.
-/
theorem parseSheet_accepts (text : String) :
    ((∃ root, parseSheet text = .ok root) ↔
        ∃ tokens, tokenize text = .ok tokens ∧ WellFormed (significant tokens)) ∧
      (∀ root tokens, parseSheet text = .ok root → tokenize text = .ok tokens →
        root.outline 0 = openings (significant tokens) ∧ root.countNested = opened (significant tokens)) ∧
      ((¬ ∃ tokens, tokenize text = .ok tokens ∧ WellFormed (significant tokens)) →
        ∃ fault, parseSheet text = .error fault ∧ Faulty text fault) := by
  rcases parseSheet_cases text with
    ⟨tokens, root, htokens, hformed, hroot, houtline⟩ | ⟨hnot, fault, hfault, hfaulty⟩
  · refine ⟨iff_of_true ⟨root, hroot⟩ ⟨tokens, htokens, hformed⟩, fun other more hother hmore => ?_,
      fun hnot => absurd ⟨tokens, htokens, hformed⟩ hnot⟩
    cases hroot.symm.trans hother
    cases htokens.symm.trans hmore
    exact ⟨houtline, by rw [← root.length_outline 0, houtline, length_openings]⟩
  · have hrefused : ¬ ∃ root, parseSheet text = .ok root := by
      rintro ⟨root, hroot⟩
      cases hfault.symm.trans hroot
    have hinvalid : ¬ ∃ tokens, tokenize text = .ok tokens ∧ WellFormed (significant tokens) := by
      rintro ⟨tokens, htokens, hformed⟩
      exact hnot tokens htokens hformed
    refine ⟨iff_of_false hrefused hinvalid, fun root _ hroot _ => absurd ⟨root, hroot⟩ hrefused,
      fun _ => ⟨fault, hfault, hfaulty⟩⟩

/-- A sheet with a comment before a brace and a block inside of a block. -/
def nestedSheet : String :=
  "a /* in */ \x7b b \x7b top: 0 \x7d \x7d c \x7b\x7d"

/-- A sheet that ends inside of a block. -/
def cutSheet : String :=
  "a \x7b b \x7b top: 0 \x7d"

/-- The one sheet is read with its three blocks, and the other one is refused. -/
theorem parseSheet_accepts_nested :
    (∃ root, parseSheet nestedSheet = .ok root ∧ root.outline 0 = [(0, "a"), (1, "b"), (0, "c")] ∧
      root.countNested = 3) ∧
    ∃ fault, parseSheet cutSheet = .error fault ∧ Faulty cutSheet fault := by
  have hread : ((parseSheet nestedSheet).toOption).isSome = true := by decide +kernel
  have hblocks : (tokenize nestedSheet).toOption.map
      (fun tokens => (openings (significant tokens), opened (significant tokens))) =
        some ([(0, "a"), (1, "b"), (0, "c")], 3) := by decide +kernel
  have hcut : ((parseSheet cutSheet).toOption).isSome = false := by decide +kernel
  refine ⟨?_, ?_⟩
  · obtain ⟨hiff, htree, -⟩ := parseSheet_accepts nestedSheet
    cases hroot : parseSheet nestedSheet with
    | error fault =>
        rw [hroot] at hread
        cases hread
    | ok root =>
        obtain ⟨tokens, htokens, -⟩ := hiff.mp ⟨root, hroot⟩
        obtain ⟨houtline, hcount⟩ := htree root tokens hroot htokens
        rw [htokens] at hblocks
        obtain ⟨hopenings, hopened⟩ := Prod.mk.inj (Option.some.inj hblocks)
        exact ⟨root, rfl, houtline.trans hopenings, hcount.trans hopened⟩
  · obtain ⟨hiff, -, hfault⟩ := parseSheet_accepts cutSheet
    refine hfault fun hformed => ?_
    obtain ⟨root, hroot⟩ := hiff.mpr hformed
    rw [hroot] at hcut
    cases hcut

end Restyle.Css
