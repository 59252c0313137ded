import Restyle.Proofs.Blocks

/-!
# Printed style sheets

A rule tree is printed as its declarations, each on a line of its own and with a semicolon, and behind them
its nested rules, each with its selector and braces.  If the pieces between braces and semicolons can be
read back one by one, the printed sheet is read back to the tree: the reader passes one piece after the
other, whatever stands behind it.
-/

namespace Restyle.Text

/-! ## Trimmed texts -/

theorem trimStart_eq_self {cs : List Char} (h : ∀ c ∈ cs.head?, isBlank c = false) : trimStart cs = cs := by
  cases cs with
  | nil => rfl
  | cons c cs => exact trimStart_cons_of_not_blank cs (h c rfl)

/-- Text that neither starts nor ends with a blank has nothing to trim. -/
theorem trim_eq_self {cs : List Char} (hhead : ∀ c ∈ cs.head?, isBlank c = false)
    (hlast : ∀ c ∈ cs.getLast?, isBlank c = false) : trim cs = cs := by
  rw [trim, trimStart_eq_self hhead, trimEnd, trimStart_eq_self (by rwa [List.head?_reverse]),
    List.reverse_reverse]

/-- A blank at the end of a text is trimmed. -/
theorem trim_concat {c : Char} (hc : isBlank c = true) (cs : List Char) : trim (cs ++ [c]) = trim cs := by
  have hend : ∀ text, trimEnd (text ++ [c]) = trimEnd text := by
    intro text
    rw [trimEnd, List.reverse_append, List.reverse_singleton, List.singleton_append, trimStart,
      List.dropWhile_cons_of_pos hc, ← trimStart, ← trimEnd]
  rw [trim, trim, trimStart, trimStart, List.dropWhile_append]
  split
  · next hempty => rw [List.isEmpty_iff.mp hempty, List.dropWhile_cons_of_pos hc, List.dropWhile_nil]
  · exact hend _

theorem head?_trimStart (cs : List Char) : ∀ c ∈ (trimStart cs).head?, isBlank c = false := by
  intro c hc
  have h := List.head?_dropWhile_not isBlank cs
  rw [← trimStart, Option.mem_def.mp hc] at h
  simpa using h

theorem getLast?_trim (cs : List Char) : ∀ c ∈ (trim cs).getLast?, isBlank c = false := by
  rw [trim, trimEnd, List.getLast?_reverse]
  exact head?_trimStart _

theorem head?_trim (cs : List Char) : ∀ c ∈ (trim cs).head?, isBlank c = false := by
  intro c hc
  -- trimming the end keeps the first character or leaves nothing
  obtain ⟨more, hmore⟩ := isPrefix_trimEnd (trimStart cs)
  refine head?_trimStart cs c ?_
  rw [Option.mem_def, ← hmore]
  exact List.mem_head?_append_of_mem_head? hc

theorem trim_trim (cs : List Char) : trim (trim cs) = trim cs :=
  trim_eq_self (head?_trim cs) (getLast?_trim cs)

theorem strip_eq_self_iff {s : String} : strip s = s ↔ trim s.toList = s.toList := by
  rw [strip, ← String.toList_inj, String.toList_ofList]

end Restyle.Text

namespace Restyle.Css

open Slot (slotsIn)

/-! ## What can be printed -/

/--
A declaration that can be read back: it is trimmed, it has a property in the spelling that is kept, no slot
is in it, the lexer reads it as one text up to its semicolon, and its first colon is the one that is printed.
-/
@[mk_iff]
structure Declaration.Printable (d : Declaration) : Prop where
  named : d.property ≠ ""
  property_trimmed : Text.strip d.property = d.property
  value_trimmed : Text.strip d.value = d.value
  spelled : Text.lower d.property = d.property ∨ Text.hasLead "--" d.property = true
  unmarked : d.slots = []
  lexed : tokenize (d.property ++ ": " ++ d.value ++ ";") =
    .ok [⟨.text, Text.strip (d.property ++ ": " ++ d.value), 0⟩,
      ⟨.semicolon, ";", (d.property ++ ": " ++ d.value).length⟩]
  colon : splitColon? (d.property ++ ": " ++ d.value).toList = some (d.property.toList, ' ' :: d.value.toList)

/--
A selector that can be read back: it is in the spelling that is kept, no slot is in it, and the lexer reads
it as one text up to its brace.
-/
@[mk_iff]
structure PrintableSelector (selector : String) : Prop where
  nonempty : selector ≠ ""
  normal : normalizeSelector selector = selector
  unmarked : Slot.indices selector = []
  lexed : tokenize (selector ++ " " ++ "\x7b") =
    .ok [⟨.text, Text.strip (selector ++ " "), 0⟩, ⟨.lbrace, "\x7b", (selector ++ " ").length⟩]

instance (d : Declaration) : Decidable d.Printable :=
  decidable_of_iff _ (Declaration.printable_iff d).symm

instance (selector : String) : Decidable (PrintableSelector selector) :=
  decidable_of_iff _ (printableSelector_iff selector).symm

/-- A rule of which everything inside can be read back. -/
inductive Rule.Printable : Rule → Prop
  | intro {rule : Rule} (declarations : ∀ d ∈ rule.declarations, d.Printable)
      (selectors : ∀ inner ∈ rule.nested, PrintableSelector inner.selector)
      (nested : ∀ inner ∈ rule.nested, inner.Printable) : rule.Printable

/-! ## Text runs up to a sign -/

/-- A sign that ends a text run wherever it stands outside of quotes and parentheses. -/
def EndsText (sign : Char) : Prop :=
  ∀ last rest, endsRun last (sign :: rest) = true

theorem endsText_semicolon : EndsText ';' := fun _ _ => rfl

theorem endsText_lbrace : EndsText '{' := fun _ _ => rfl

/-- Only the next two characters decide whether a run ends. -/
theorem endsRun_append_sign (last c : Char) (cs : List Char) (sign : Char) (rest : List Char) :
    endsRun last (c :: (cs ++ sign :: rest)) = endsRun last (c :: (cs ++ [sign])) := by
  have hlead : ∀ d, Text.startsWith ['/', d] (c :: (cs ++ sign :: rest)) =
      Text.startsWith ['/', d] (c :: (cs ++ [sign])) := by
    intro d
    cases cs <;> simp only [Text.startsWith, Text.after?, List.nil_append, List.cons_append] <;> split_ifs <;> rfl
  rw [endsRun, endsRun, hlead, hlead]

/-- A run that ends at a sign does so whatever stands behind the sign. -/
theorem runLength_append_sign {sign : Char} (hsign : EndsText sign) (rest : List Char) {state : RunState}
    {depth : Nat} {last : Char} {cs : List Char}
    (h : runLength state depth last (cs ++ [sign]) = .ok cs.length) :
    runLength state depth last (cs ++ sign :: rest) = .ok cs.length := by
  induction cs generalizing state depth last with
  | nil =>
      rw [List.nil_append, runLength_cons] at h ⊢
      by_cases hends : state = .plain ∧ depth = 0
      · exact if_pos ⟨hends.1, hends.2, hsign last rest⟩
      · rw [if_neg fun hall => hends ⟨hall.1, hall.2.1⟩] at h
        cases hrun : runLength (nextRun depth sign state).1 (nextRun depth sign state).2 sign [] with
        | error fault =>
            rw [hrun] at h
            cases h
        | ok m =>
            rw [hrun] at h
            cases h
  | cons c cs ih =>
      rw [List.cons_append, runLength_cons] at h ⊢
      rw [endsRun_append_sign]
      split at h
      · cases h
      · next hgoes =>
          rw [if_neg hgoes]
          cases hrun : runLength (nextRun depth c state).1 (nextRun depth c state).2 c (cs ++ [sign]) with
          | error fault =>
              rw [hrun] at h
              cases h
          | ok m =>
              rw [hrun] at h
              cases h
              rw [ih hrun]
              rfl

theorem runTail_append_sign {sign : Char} (hsign : EndsText sign) (rest : List Char) {c : Char}
    {cs : List Char} (h : runTail c (cs ++ [sign]) = .ok cs.length) :
    runTail c (cs ++ sign :: rest) = .ok cs.length := by
  unfold runTail at h ⊢
  split_ifs at h ⊢
  · exact runLength_append_sign hsign rest h
  · exact runLength_append_sign hsign rest h
  · exact runLength_append_sign hsign rest h

/-- A run of text, and no other token, starts at a character. -/
structure StartsText (c : Char) (cs : List Char) : Prop where
  block : (c == '/' && Text.startsWith ['*'] cs) = false
  line : (c == '/' && Text.startsWith ['/'] cs) = false
  lbrace : (c == '{') = false
  rbrace : (c == '}') = false
  semicolon : (c == ';') = false

theorem StartsText.tokenAt {c : Char} {cs : List Char} (h : StartsText c cs) {n : Nat} (hrun : runTail c cs = .ok n)
    (offset : Nat) :
    tokenAt offset c cs = .ok (⟨.text, String.ofList (Text.trim (c :: cs.take n)), offset⟩, n) := by
  rw [Css.tokenAt, h.block, h.line, h.lbrace, h.rbrace, h.semicolon, hrun]
  rfl

theorem tokenAt_text {offset : Nat} {c : Char} {cs : List Char} {token : Token} {n : Nat}
    (h : tokenAt offset c cs = .ok (token, n)) (htext : token.kind = .text) :
    StartsText c cs ∧ runTail c cs = .ok n := by
  unfold tokenAt at h
  dsimp only at h
  split at h
  · split at h
    · cases h
      cases htext
    · cases h
  next hblock =>
  split at h
  · cases h
    cases htext
  next hline =>
  split at h
  · cases h
    cases htext
  next hopen =>
  split at h
  · cases h
    cases htext
  next hclose =>
  split at h
  · cases h
    cases htext
  next hsemicolon =>
  split at h
  · next hrun =>
      cases h
      exact ⟨⟨Bool.eq_false_iff.mpr hblock, Bool.eq_false_iff.mpr hline, Bool.eq_false_iff.mpr hopen,
        Bool.eq_false_iff.mpr hclose, Bool.eq_false_iff.mpr hsemicolon⟩, hrun⟩
  · cases h
  · cases h

theorem StartsText.append_sign {c sign : Char} {cs : List Char} (h : StartsText c (cs ++ [sign]))
    (rest : List Char) : StartsText c (cs ++ sign :: rest) := by
  have hfirst : ∀ d, Text.startsWith [d] (cs ++ sign :: rest) = Text.startsWith [d] (cs ++ [sign]) := by
    intro d
    cases cs <;> simp only [Text.startsWith, Text.after?, List.nil_append, List.cons_append] <;> split_ifs <;> rfl
  exact ⟨by rw [hfirst, h.block], by rw [hfirst, h.line], h.lbrace, h.rbrace, h.semicolon⟩

/-- A text run ends before a character that is not blank. -/
theorem not_isBlank_of_endsRun {last c : Char} {cs : List Char} (h : endsRun last (c :: cs) = true) :
    Text.isBlank c = false := by
  have hsigns : ['{', '}', ';', '/'].all (fun d => !Text.isBlank d) = true := by decide
  simpa using List.all_eq_true.mp hsigns c (mem_of_endsRun h)

/-- Reading on from any offset, a text is one run up to a sign and is kept as `value`. -/
def ReadsRun (raw : List Char) (sign : Char) (value : String) : Prop :=
  ∃ c cs, raw = c :: cs ∧ Text.isBlank c = false ∧
    ∀ offset rest, tokenAt offset c (cs ++ sign :: rest) = .ok (⟨.text, value, offset⟩, cs.length)

theorem tokensFrom_nil (offset : Nat) : tokensFrom offset [] = .ok [] := by
  unfold tokensFrom
  rfl

theorem tokensFrom_blank (offset : Nat) {c : Char} (hc : Text.isBlank c = true) (cs : List Char) :
    tokensFrom offset (c :: cs) = tokensFrom (offset + 1) cs := by
  conv_lhs => unfold tokensFrom
  exact if_pos hc

theorem tokensFrom_token {offset : Nat} {c : Char} {cs : List Char} (hc : Text.isBlank c = false) {token : Token}
    {n : Nat} (h : tokenAt offset c cs = .ok (token, n)) :
    tokensFrom offset (c :: cs) = (tokensFrom (offset + n + 1) (cs.drop n)).map (token :: ·) := by
  conv_lhs => unfold tokensFrom
  rw [if_neg (by rw [hc]; exact Bool.false_ne_true), h]

theorem tokensFrom_cons {offset : Nat} {c : Char} {cs : List Char} (hc : Text.isBlank c = false)
    {tokens : List Token} (h : tokensFrom offset (c :: cs) = .ok tokens) :
    ∃ token n more, tokenAt offset c cs = .ok (token, n) ∧ tokens = token :: more ∧
      tokensFrom (offset + n + 1) (cs.drop n) = .ok more := by
  unfold tokensFrom at h
  rw [if_neg (by rw [hc]; exact Bool.false_ne_true)] at h
  split at h
  · cases h
  next token n htoken =>
  cases hmore : tokensFrom (offset + n + 1) (cs.drop n) with
  | error fault =>
      rw [hmore] at h
      cases h
  | ok more =>
      rw [hmore] at h
      cases h
      exact ⟨token, n, more, htoken, rfl, hmore⟩

/-- A text that is lexed as one run up to a sign is so wherever it stands. -/
theorem readsRun_of_tokensFrom {sign : Char} (hsign : EndsText sign) {raw : List Char} {value signText : String}
    {kind : TokenKind} (hne : raw ≠ []) (hhead : ∀ c ∈ raw.head?, Text.isBlank c = false)
    (h : tokensFrom 0 (raw ++ [sign]) = .ok [⟨.text, value, 0⟩, ⟨kind, signText, raw.length⟩]) :
    ReadsRun raw sign value := by
  obtain ⟨c, cs, rfl⟩ := List.exists_cons_of_ne_nil hne
  have hc := hhead c rfl
  rw [List.cons_append] at h
  obtain ⟨token, n, more, htoken, htokens, hmore⟩ := tokensFrom_cons hc h
  obtain ⟨rfl, rfl⟩ := List.cons.inj htokens
  obtain ⟨hstarts, hrun⟩ := tokenAt_text htoken rfl
  obtain ⟨hle, last, hends⟩ := runTail_ends hrun
  -- the second token stands where the run ends, so the run takes the whole text
  have hlength : n = cs.length := by
    cases hrest : (cs ++ [sign]).drop n with
    | nil =>
        rw [hrest, tokensFrom_nil] at hmore
        cases hmore
    | cons d rest =>
        rw [hrest] at hmore hends
        obtain ⟨second, m, none, hsecond, hboth, -⟩ := tokensFrom_cons (not_isBlank_of_endsRun hends) hmore
        have hoffset := (tokenAt_spec hsecond).1
        rw [← (List.cons.inj hboth).1, List.length_cons] at hoffset
        change cs.length + 1 = 0 + n + 1 at hoffset
        omega
  subst hlength
  have hvalue : value = String.ofList (Text.trim (c :: cs)) := by
    rw [hstarts.tokenAt hrun, List.take_left] at htoken
    cases htoken
    rfl
  refine ⟨c, cs, rfl, hc, fun offset rest => ?_⟩
  rw [(hstarts.append_sign rest).tokenAt (runTail_append_sign hsign rest hrun), List.take_left, hvalue]

theorem tokenAt_semicolon (offset : Nat) (rest : List Char) :
    tokenAt offset ';' rest = .ok (⟨.semicolon, ";", offset⟩, 0) := rfl

theorem tokenAt_lbrace (offset : Nat) (rest : List Char) :
    tokenAt offset '{' rest = .ok (⟨.lbrace, "\x7b", offset⟩, 0) := rfl

theorem tokenAt_rbrace (offset : Nat) (rest : List Char) :
    tokenAt offset '}' rest = .ok (⟨.rbrace, "\x7d", offset⟩, 0) := rfl

/-! ## Passing over a piece of a sheet -/

/-- The rest of a sheet is read on from a state of the reader. -/
def readFrom (offset : Nat) (cs : List Char) (s : SheetState) : Except SyntaxFault Rule := do
  let s ← (← tokensFrom offset cs).foldlM SheetState.step s
  s.finish

/-- Whatever stands behind a piece of a sheet, the reader comes to it in the state `s'`. -/
def Passes (raw : List Char) (s s' : SheetState) : Prop :=
  ∀ offset rest, readFrom offset (raw ++ rest) s = readFrom (offset + raw.length) rest s'

theorem readFrom_token {offset : Nat} {c : Char} {cs : List Char} {token : Token} {n : Nat} {s s' : SheetState}
    (hc : Text.isBlank c = false) (htoken : tokenAt offset c cs = .ok (token, n)) (hstep : s.step token = .ok s') :
    readFrom offset (c :: cs) s = readFrom (offset + n + 1) (cs.drop n) s' := by
  rw [readFrom, readFrom, tokensFrom_token hc htoken]
  cases tokensFrom (offset + n + 1) (cs.drop n) with
  | error fault => rfl
  | ok tokens =>
      change ((token :: tokens).foldlM SheetState.step s >>= SheetState.finish) = _
      rw [List.foldlM_cons, hstep]
      rfl

namespace Passes

variable {raw more : List Char} {s s' s'' : SheetState}

theorem nil (s : SheetState) : Passes [] s s :=
  fun _ _ => rfl

theorem append (h : Passes raw s s') (h' : Passes more s' s'') : Passes (raw ++ more) s s'' := by
  intro offset rest
  rw [List.append_assoc, h, h', List.length_append, Nat.add_assoc]

theorem blank {c : Char} (h : Text.isBlank c = true) (s : SheetState) : Passes [c] s s := by
  intro offset rest
  rw [List.singleton_append, readFrom, readFrom, tokensFrom_blank offset h]
  rfl

/-- A token of one character is passed over by its step. -/
theorem sign {c : Char} {token : Nat → Token} (hc : Text.isBlank c = false)
    (htoken : ∀ offset rest, tokenAt offset c rest = .ok (token offset, 0))
    (hstep : ∀ offset, s.step (token offset) = .ok s') : Passes [c] s s' := by
  intro offset rest
  rw [List.singleton_append, readFrom_token hc (htoken offset rest) (hstep offset)]
  rfl

/-- A run of text waits for what its sign makes of it. -/
theorem run {c : Char} {value : String} (h : ReadsRun raw c value) {current : Rule} {outer : List Rule}
    (hsign : Passes [c] { current, outer, pending := [value] } s') : Passes (raw ++ [c]) { current, outer } s' := by
  obtain ⟨d, cs, rfl, hd, hrun⟩ := h
  intro offset rest
  have hstep : SheetState.step { current, outer } ⟨.text, value, offset⟩ =
      .ok { current, outer, pending := [value] } := rfl
  have htail := hsign (offset + cs.length + 1) rest
  rw [List.append_assoc, List.cons_append, List.singleton_append, readFrom_token hd (hrun offset rest) hstep,
    List.drop_left, ← List.singleton_append, htail]
  simp only [List.length_append, List.length_cons, List.length_nil]
  rfl

end Passes

/-! ## Printed declarations -/

/-- What stands behind the colon that ends a name is not looked at. -/
theorem colonFrom_replace {quote : Option Char} {depth : Int} {name value : List Char}
    (h : colonFrom quote depth (name ++ ':' :: value) = some (name, value)) (other : List Char) :
    colonFrom quote depth (name ++ ':' :: other) = some (name, other) := by
  induction name generalizing quote depth with
  | nil =>
      rw [List.nil_append, colonFrom_cons] at h ⊢
      split at h
      · next hcolon => exact if_pos hcolon
      · obtain ⟨found, -, heq⟩ := Option.map_eq_some_iff.mp h
        cases (Prod.mk.inj heq).1
  | cons c name ih =>
      rw [List.cons_append, colonFrom_cons] at h ⊢
      split at h
      · cases h
      · next hgoes =>
          obtain ⟨found, hfound, heq⟩ := Option.map_eq_some_iff.mp h
          cases heq
          rw [if_neg hgoes, ih hfound]
          rfl

/-- A text without slots keeps what stands before its declaration. -/
theorem peelDeclaration_of_slotsIn {cs : List Char} (h : slotsIn cs = []) (fuel : Nat) :
    peelDeclaration fuel cs = ([], cs) := by
  have hread : Slot.read? cs = none := (Slot.slotsIn_eq_nil_iff cs).mp h cs List.suffix_rfl
  cases fuel with
  | zero => rfl
  | succ fuel => rw [peelDeclaration, leadingSlot?, hread]

theorem peelSelector_of_slotsIn {cs : List Char} (h : slotsIn cs = []) (fuel : Nat) :
    peelSelector fuel cs = ([], cs) := by
  have hread : Slot.read? cs = none := (Slot.slotsIn_eq_nil_iff cs).mp h cs List.suffix_rfl
  cases fuel with
  | zero => rfl
  | succ fuel => rw [peelSelector, slotBeforeRule?, hread]

namespace Declaration.Printable

variable {d : Declaration} (h : d.Printable)

include h

/-- The text of a declaration up to its semicolon, as the lexer keeps it. -/
theorem exists_trim : ∃ tail, Text.trim tail = d.value.toList ∧ slotsIn tail = slotsIn d.value.toList ∧
    Text.trim (d.property ++ ": " ++ d.value).toList = d.property.toList ++ ':' :: tail := by
  have hproperty := Text.strip_eq_self_iff.mp h.property_trimmed
  have hvalue := Text.strip_eq_self_iff.mp h.value_trimmed
  have hne : d.property.toList ≠ [] := fun hnil => h.named (String.toList_eq_nil_iff.mp hnil)
  have hcolon : Text.isBlank ':' = false := by decide
  have hprinted : (d.property ++ ": " ++ d.value).toList = d.property.toList ++ ':' :: ' ' :: d.value.toList := by
    rw [String.toList_append, String.toList_append, List.append_assoc]
    rfl
  have hhead : ∀ tail, ∀ c ∈ (d.property.toList ++ ':' :: tail).head?, Text.isBlank c = false := by
    intro tail c hc
    rw [List.head?_append_of_ne_nil _ hne, ← hproperty] at hc
    exact Text.head?_trim _ c hc
  rw [hprinted]
  cases hvalues : d.value.toList with
  | nil =>
      -- the blank behind the colon is trimmed away
      refine ⟨[], rfl, rfl, ?_⟩
      have hblank : d.property.toList ++ [':', ' '] = (d.property.toList ++ [':']) ++ [' '] := by
        rw [List.append_assoc, List.singleton_append]
      rw [hblank, Text.trim_concat (by decide)]
      refine Text.trim_eq_self (hhead []) fun c hc => ?_
      rw [List.getLast?_concat, Option.mem_some_iff] at hc
      exact hc ▸ hcolon
  | cons c cs =>
      refine ⟨' ' :: c :: cs, ?_, ?_, Text.trim_eq_self (hhead _) ?_⟩
      · rw [← hvalues]
        exact hvalue
      · exact Slot.slotsIn_cons_sign (Slot.not_isMarkChar_of_mem_sheetSigns (by decide)) _
      · intro last hlast
        have hvalueLast : last ∈ (c :: cs).getLast? := by
          rw [List.getLast?_append_of_ne_nil _ (List.cons_ne_nil _ _), List.getLast?_cons_cons,
            List.getLast?_cons_cons] at hlast
          exact hlast
        rw [← hvalues, ← hvalue] at hvalueLast
        exact Text.getLast?_trim _ last hvalueLast

theorem declarationsOf_strip : declarationsOf (Text.strip (d.property ++ ": " ++ d.value)) = [d] := by
  obtain ⟨tail, htail, hslots, htrim⟩ := h.exists_trim
  have hproperty := Text.strip_eq_self_iff.mp h.property_trimmed
  have hmarks : slotsIn (d.property.toList ++ ':' :: tail) = [] := by
    have hunmarked := h.unmarked
    rw [slots, Slot.indices_eq, Slot.indices_eq] at hunmarked
    rw [Slot.slotsIn_append_sign (Slot.not_isMarkChar_of_mem_sheetSigns (by decide)), hslots, hunmarked]
  have hcolon : splitColon? (d.property.toList ++ ':' :: tail) = some (d.property.toList, tail) := by
    have hprinted := h.colon
    rw [String.toList_append, String.toList_append, List.append_assoc] at hprinted
    exact colonFrom_replace hprinted tail
  have hname : propertyName d.property.toList = d.property := by
    rw [propertyName, hproperty, String.ofList_toList]
    split_ifs with hkept
    · rfl
    · rcases h.spelled with hlower | hcustom
      · exact hlower
      · exact absurd (by rw [hcustom, Bool.true_or]) hkept
  rw [declarationsOf, Text.strip, String.toList_ofList, Text.trim_trim, htrim, peelDeclaration_of_slotsIn hmarks]
  dsimp only
  rw [hcolon]
  dsimp only
  rw [hname, htail, String.ofList_toList]
  rfl

/-- A printed declaration is read back. -/
theorem passes (current : Rule) (outer : List Rule) :
    Passes d.text.toList { current, outer }
      { current := { current with declarations := current.declarations ++ [d] }, outer } := by
  have htext : d.text.toList = (d.property ++ ": " ++ d.value).toList ++ [';'] := by
    rw [text, if_neg (by rw [String.isEmpty_iff]; exact h.named), String.toList_append]
    rfl
  have hne : d.property.toList ≠ [] := fun hnil => h.named (String.toList_eq_nil_iff.mp hnil)
  have hrun : ReadsRun (d.property ++ ": " ++ d.value).toList ';'
      (Text.strip (d.property ++ ": " ++ d.value)) := by
    have hlexed := h.lexed
    rw [tokenize, String.toList_append] at hlexed
    rw [← String.length_toList] at hlexed
    refine readsRun_of_tokensFrom endsText_semicolon ?_ ?_ hlexed
    · rw [String.toList_append, String.toList_append, List.append_assoc]
      exact List.append_ne_nil_of_left_ne_nil hne _
    · intro c hc
      rw [String.toList_append, String.toList_append, List.append_assoc, List.head?_append_of_ne_nil _ hne,
        ← Text.strip_eq_self_iff.mp h.property_trimmed] at hc
      exact Text.head?_trim _ c hc
  rw [htext]
  refine Passes.run hrun (Passes.sign (by decide) tokenAt_semicolon fun offset => ?_)
  rw [← h.declarationsOf_strip]
  rfl

end Declaration.Printable

/-! ## Printed rules -/

/-- Printed declarations, each on a line of its own, are read back. -/
theorem passes_declarations {declarations : List Declaration} (h : ∀ d ∈ declarations, d.Printable)
    (current : Rule) (outer : List Rule) :
    Passes ("\n".intercalate (declarations.map Declaration.text)).toList { current, outer }
      { current := { current with declarations := current.declarations ++ declarations }, outer } := by
  induction declarations generalizing current with
  | nil =>
      cases current
      rw [List.append_nil, List.map_nil, String.toList_intercalate]
      exact Passes.nil _
  | cons d declarations ih =>
      obtain ⟨hd, hdeclarations⟩ := List.forall_mem_cons.mp h
      cases declarations with
      | nil => exact hd.passes current outer
      | cons next declarations =>
          have hprinted : ("\n".intercalate ((d :: next :: declarations).map Declaration.text)).toList =
              d.text.toList ++ (['\n'] ++
                ("\n".intercalate ((next :: declarations).map Declaration.text)).toList) := by
            simp only [String.toList_intercalate, List.map_cons, List.intercalate_cons_cons, List.append_assoc]
            rfl
          have hrest := ih hdeclarations { current with declarations := current.declarations ++ [d] }
          rw [List.append_assoc] at hrest
          rw [hprinted]
          exact (hd.passes current outer).append ((Passes.blank (by decide) _).append hrest)

/-- The printed selector of a rule opens the rule. -/
theorem PrintableSelector.passes {selector : String} (h : PrintableSelector selector) (current : Rule)
    (outer : List Rule) :
    Passes (selector ++ " \x7b").toList { current, outer }
      { current := { selector, atRules := preludes current.atRules selector }, outer := current :: outer } := by
  have htrimmed : Text.trim selector.toList = selector.toList := by
    rw [← h.normal, normalizeSelector, String.toList_ofList, Text.trim_trim]
  have hne : selector.toList ≠ [] := fun hnil => h.nonempty (String.toList_eq_nil_iff.mp hnil)
  have hhead : ∀ c ∈ (selector ++ " ").toList.head?, Text.isBlank c = false := by
    intro c hc
    rw [String.toList_append, List.head?_append_of_ne_nil _ hne, ← htrimmed] at hc
    exact Text.head?_trim _ c hc
  have hkept : Text.strip (selector ++ " ") = selector := by
    rw [Text.strip, String.toList_append, show " ".toList = [' '] from rfl, Text.trim_concat (by decide), htrimmed,
      String.ofList_toList]
  have hrun : ReadsRun (selector ++ " ").toList '{' selector := by
    have hlexed := h.lexed
    rw [hkept, tokenize, String.toList_append, ← String.length_toList] at hlexed
    refine readsRun_of_tokensFrom endsText_lbrace ?_ hhead hlexed
    rw [String.toList_append]
    exact List.append_ne_nil_of_left_ne_nil hne _
  have hopen : SheetState.openRule { current, outer, pending := [selector] } =
      { current := { selector, atRules := preludes current.atRules selector }, outer := current :: outer } := by
    have hmarks : slotsIn selector.toList = [] := by
      rw [← Slot.indices_eq]
      exact h.unmarked
    have htext : SheetState.text { current, outer, pending := [selector] } = selector := rfl
    cases current
    rw [SheetState.openRule, htext]
    dsimp only
    rw [peelSelector_of_slotsIn hmarks]
    dsimp only
    rw [String.ofList_toList, h.normal, List.append_nil]
    rfl
  have htext : (selector ++ " \x7b").toList = (selector ++ " ").toList ++ ['{'] := by
    rw [String.toList_append, String.toList_append, List.append_assoc]
    rfl
  rw [htext, ← hopen]
  exact Passes.run hrun (Passes.sign (by decide) tokenAt_lbrace fun offset => rfl)

theorem passes_rbrace (current parent : Rule) (outer : List Rule) :
    Passes ['}'] { current, outer := parent :: outer }
      { current := { parent with nested := parent.nested ++ [current] }, outer } :=
  Passes.sign (by decide) tokenAt_rbrace fun _ => rfl

/-! ## Printed trees -/

namespace Rule

/-- The inside of a printed rule is read back into the open rule. -/
theorem Printable.passes_bodyText {rule : Rule} (h : rule.Printable) (hstacked : rule.Stacked) (outer : List Rule) :
    Passes rule.bodyText.toList { current := { selector := rule.selector, atRules := rule.atRules }, outer }
      { current := rule, outer } := by
  induction rule using Rule.induction generalizing outer with
  | step rule ih =>
      obtain ⟨hdeclarations, hselectors, hnested⟩ := h
      obtain ⟨hknown, hbelow⟩ := hstacked
      -- nested rules are added one by one
      have hrules : ∀ rules (current : Rule), rules ⊆ rule.nested → current.atRules = rule.atRules →
          Passes (nestedText rules).toList { current, outer }
            { current := { current with nested := current.nested ++ rules }, outer } := by
        intro rules
        induction rules with
        | nil =>
            intro current _ _
            cases current
            rw [List.append_nil]
            exact Passes.nil _
        | cons inner rules ihRules =>
            intro current hsubset hatRules
            obtain ⟨hinner, hrules⟩ := List.cons_subset.mp hsubset
            have hopen := (hselectors inner hinner).passes current outer
            rw [hatRules, ← hknown inner hinner] at hopen
            have hbody := ih inner hinner (hnested inner hinner) (hbelow inner hinner) (current :: outer)
            have hrest := ihRules { current with nested := current.nested ++ [inner] } hrules hatRules
            have htext : (nestedText (inner :: rules)).toList = (inner.selector ++ " \x7b").toList ++ (['\n'] ++
                (inner.bodyText.toList ++ (['}'] ++ (['\n'] ++ (nestedText rules).toList)))) := by
              rw [nestedText]
              simp only [String.toList_append, List.append_assoc]
              rfl
            rw [List.append_assoc] at hrest
            rw [htext]
            exact hopen.append ((Passes.blank (by decide) _).append (hbody.append
              ((passes_rbrace inner current outer).append ((Passes.blank (by decide) _).append hrest))))
      obtain ⟨selector, declarations, nested, atRules⟩ := rule
      have hown := passes_declarations hdeclarations { selector, atRules } outer
      have hall := hrules nested { selector, declarations, atRules } (List.Subset.refl _) rfl
      rw [bodyText, String.toList_append, String.toList_append, List.append_assoc]
      exact hown.append ((Passes.blank (by decide) _).append hall)

/-- A printed rule tree is read back. -/
theorem parseSheet_bodyText {root : Rule} (hselector : root.selector = "&") (hatRules : root.atRules = [])
    (hstacked : root.Stacked) (hprintable : root.Printable) : parseSheet root.bodyText = .ok root := by
  have hpasses := hprintable.passes_bodyText hstacked [] 0 []
  have hend : readFrom (0 + root.bodyText.toList.length) [] { current := root } = .ok root := by
    rw [readFrom, tokensFrom_nil]
    rfl
  rw [List.append_nil, hend, hselector, hatRules] at hpasses
  exact hpasses

/-- A rule with a brace in a quoted value and a semicolon in parentheses. -/
def sampleHover : Rule where
  selector := "&:hover > a, b"
  declarations := [⟨"content", "\"\x7d: \""⟩, ⟨"background", "url(a;b)"⟩]
  atRules := ["@media (min-width: 1px)"]

/-- The media query around the rule. -/
def sampleMedia : Rule where
  selector := "@media (min-width: 1px)"
  declarations := [⟨"color", "red"⟩]
  nested := [sampleHover]
  atRules := ["@media (min-width: 1px)"]

/-- A tree with a custom property that has a colon in its value, an empty value and two levels of rules. -/
def sampleTree : Rule where
  selector := "&"
  declarations := [⟨"--Gap", "a:b"⟩, ⟨"--empty", ""⟩]
  nested := [sampleMedia, { selector := "&::after" }]

theorem parseSheet_bodyText_sampleTree : parseSheet sampleTree.bodyText = .ok sampleTree := by
  have hhover : sampleHover.Printable :=
    ⟨by decide +kernel, List.forall_mem_nil _, List.forall_mem_nil _⟩
  have hmedia : sampleMedia.Printable :=
    ⟨by decide +kernel, List.forall_mem_singleton.mpr (by decide +kernel), List.forall_mem_singleton.mpr hhover⟩
  have hafter : Printable { selector := "&::after" } :=
    ⟨List.forall_mem_nil _, List.forall_mem_nil _, List.forall_mem_nil _⟩
  have htree : sampleTree.Printable :=
    ⟨by decide +kernel, by decide +kernel, List.forall_mem_cons.mpr ⟨hmedia, List.forall_mem_singleton.mpr hafter⟩⟩
  have hstackedMedia : sampleMedia.Stacked :=
    ⟨List.forall_mem_singleton.mpr (by decide),
      List.forall_mem_singleton.mpr ⟨List.forall_mem_nil _, List.forall_mem_nil _⟩⟩
  have hstacked : sampleTree.Stacked :=
    ⟨by decide,
      List.forall_mem_cons.mpr ⟨hstackedMedia,
        List.forall_mem_singleton.mpr ⟨List.forall_mem_nil _, List.forall_mem_nil _⟩⟩⟩
  exact parseSheet_bodyText rfl rfl hstacked htree

end Rule

end Restyle.Css
