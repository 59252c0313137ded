import Restyle.Css.Token
import Restyle.Proofs.Marks

/-!
# Slots in tokens

A token ends where a sign stands on one side of the boundary, so no slot mark is torn apart: the slots of a
text are those of its tokens, in order, and a token holds a slot exactly if its mark lies inside of it.
-/

namespace Restyle.Css

open Slot (Cut isMarkChar not_isMarkChar_of_mem_sheetSigns slotsIn)

/-! ## Where tokens end -/

/-- A text that is at its end or goes on with a sign. -/
def Pauses (cs : List Char) : Prop :=
  cs = [] ∨ ∃ c rest, cs = c :: rest ∧ isMarkChar c = false

theorem Pauses.cut {after : List Char} (h : Pauses after) (before : List Char) : Cut before after := by
  rcases h with h | h
  · exact .inr (.inl h)
  · exact .inr (.inr (.inr h))

theorem Pauses.of_head {c : Char} {cs : List Char} (h : isMarkChar c = false) : Pauses (c :: cs) :=
  .inr ⟨c, cs, rfl, h⟩

/-- A text run ends before a brace, a semicolon or a comment. -/
theorem mem_of_endsRun {last c : Char} {cs : List Char} (h : endsRun last (c :: cs) = true) :
    c ∈ ['{', '}', ';', '/'] := by
  have hslash : ∀ lead, Text.startsWith ('/' :: lead) (c :: cs) = true → c = '/' := by
    intro lead hlead
    obtain ⟨rest, hrest⟩ := Option.isSome_iff_exists.mp hlead
    exact (List.cons.inj (Text.after?_eq_some hrest)).1
  simp only [endsRun, Bool.or_eq_true, Bool.and_eq_true, beq_iff_eq] at h
  rcases h with (((rfl | rfl) | rfl) | h) | ⟨h, -⟩
  · decide
  · decide
  · decide
  · rw [hslash _ h]
    decide
  · rw [hslash _ h]
    decide

theorem pauses_of_endsRun {last : Char} {cs : List Char} (h : endsRun last cs = true) : Pauses cs := by
  cases cs with
  | nil => exact .inl rfl
  | cons c cs =>
      have hsigns : ['{', '}', ';', '/'] ⊆ Slot.sheetSigns := by decide
      exact .of_head (not_isMarkChar_of_mem_sheetSigns (hsigns (mem_of_endsRun h)))

/-- The state and the open parentheses of a text run after one more character. -/
def nextRun (depth : Nat) (c : Char) : RunState → RunState × Nat
  | .escaped q => (.quoted q, depth)
  | .quoted q => (if c == '\\' then .escaped q else if c == q then .plain else .quoted q, depth)
  | .plain =>
    if c == '"' || c == '\'' then (.quoted c, depth)
    else if c == '(' then (.plain, depth + 1)
    else if c == ')' then (.plain, depth - 1)
    else (.plain, depth)

/-- A text run either ends before a character or goes on behind it. -/
theorem runLength_cons (state : RunState) (depth : Nat) (last c : Char) (cs : List Char) :
    runLength state depth last (c :: cs) =
      if state = .plain ∧ depth = 0 ∧ endsRun last (c :: cs) = true then .ok 0
      else (runLength (nextRun depth c state).1 (nextRun depth c state).2 c cs).map (· + 1) := by
  cases state with
  | escaped q => rw [if_neg (by simp)]; rfl
  | quoted q =>
      rw [if_neg (by simp), runLength, nextRun]
      split_ifs <;> rfl
  | plain =>
      rw [runLength, nextRun]
      simp only [Bool.and_eq_true, beq_iff_eq, true_and]
      split_ifs <;> rfl

theorem runLength_ends {state : RunState} {depth : Nat} {last : Char} {cs : List Char} {n : Nat}
    (h : runLength state depth last cs = .ok n) : n ≤ cs.length ∧ ∃ before, endsRun before (cs.drop n) = true := by
  induction cs generalizing state depth last n with
  | nil =>
      have hzero : n = 0 := by
        unfold runLength at h
        split at h
        · split at h <;> cases h
          rfl
        · cases h
      exact ⟨Nat.le_of_eq hzero, last, by rw [List.drop_nil]; rfl⟩
  | cons c cs ih =>
      rw [runLength_cons] at h
      split at h
      · next hends =>
          cases h
          exact ⟨Nat.zero_le _, last, hends.2.2⟩
      · cases hrun : runLength (nextRun depth c state).1 (nextRun depth c state).2 c cs with
        | error fault =>
            rw [hrun] at h
            cases h
        | ok m =>
            rw [hrun] at h
            cases h
            obtain ⟨hle, before, hends⟩ := ih hrun
            exact ⟨Nat.succ_le_succ hle, before, hends⟩

theorem runTail_ends {c : Char} {cs : List Char} {n : Nat} (h : runTail c cs = .ok n) :
    n ≤ cs.length ∧ ∃ before, endsRun before (cs.drop n) = true := by
  unfold runTail at h
  split at h
  · exact runLength_ends h
  · split at h <;> exact runLength_ends h

theorem runTail_spec {c : Char} {cs : List Char} {n : Nat} (h : runTail c cs = .ok n) :
    n ≤ cs.length ∧ Pauses (cs.drop n) := by
  obtain ⟨hle, before, hends⟩ := runTail_ends h
  exact ⟨hle, pauses_of_endsRun hends⟩

/-- A comment ends with a slash. -/
theorem commentTail?_spec {cs : List Char} {n : Nat} (h : commentTail? cs = some n) :
    n ≤ cs.length ∧ ∃ front, cs.take n = front ++ ['/'] := by
  induction cs generalizing n with
  | nil => cases h
  | cons c cs ih =>
      rw [commentTail?] at h
      split at h
      · next hend =>
          cases h
          obtain ⟨rest, hrest⟩ := Option.isSome_iff_exists.mp hend
          rw [Text.after?_eq_some hrest]
          exact ⟨by simp, ['*'], rfl⟩
      · obtain ⟨m, hm, rfl⟩ := Option.map_eq_some_iff.mp h
        obtain ⟨hle, front, hfront⟩ := ih hm
        exact ⟨Nat.succ_le_succ hle, c :: front, by rw [List.take_succ_cons, hfront]; rfl⟩

theorem pauses_lineTail (cs : List Char) : Pauses (cs.drop (lineTail cs)) := by
  have hnewline : isMarkChar '\n' = false := not_isMarkChar_of_mem_sheetSigns (by decide)
  rw [lineTail]
  induction cs with
  | nil => exact .inl rfl
  | cons c cs ih =>
      rw [List.takeWhile_cons]
      split
      · exact ih
      · next hc =>
          have hc' : c = '\n' := by simpa using hc
          exact .of_head (hc' ▸ hnewline)

/-- A token takes a text, which is cut from what follows. -/
structure Takes (token : Token) (raw after : List Char) : Prop where
  nonempty : raw ≠ []
  cut : Cut raw after
  slots : slotsIn token.value.toList = slotsIn raw
  literal : token.kind ≠ .text → token.value.toList = raw
  bare : token.kind ≠ .text → token.kind ≠ .comment → slotsIn raw = []

theorem tokenAt_spec {offset : Nat} {c : Char} {cs : List Char} {token : Token} {n : Nat}
    (h : tokenAt offset c cs = .ok (token, n)) :
    token.offset = offset ∧ n ≤ cs.length ∧ Takes token (c :: cs.take n) (cs.drop n) := by
  have hslash : isMarkChar '/' = false := not_isMarkChar_of_mem_sheetSigns (by decide)
  -- tokens whose text is kept as it stands
  have hcomment : ∀ m : Nat, m ≤ cs.length → Cut (c :: cs.take m) (cs.drop m) →
      (Except.ok (⟨.comment, String.ofList (c :: cs.take m), offset⟩, m) : Except SyntaxFault _) =
        .ok (token, n) →
      token.offset = offset ∧ n ≤ cs.length ∧ Takes token (c :: cs.take n) (cs.drop n) := by
    intro m hm hcut heq
    cases heq
    exact ⟨rfl, hm, nofun, hcut, by rw [String.toList_ofList], fun _ => String.toList_ofList,
      fun _ hkind => absurd rfl hkind⟩
  have hsingle : ∀ kind : TokenKind, isMarkChar c = false →
      (Except.ok (⟨kind, String.ofList (c :: cs.take 0), offset⟩, 0) : Except SyntaxFault _) =
        .ok (token, n) →
      token.offset = offset ∧ n ≤ cs.length ∧ Takes token (c :: cs.take n) (cs.drop n) := by
    intro kind hc heq
    cases heq
    exact ⟨rfl, Nat.zero_le _, nofun, .inr (.inr (.inl ⟨[], c, rfl, hc⟩)), by rw [String.toList_ofList],
      fun _ => String.toList_ofList, fun _ _ => Slot.slotsIn_cons_sign hc []⟩
  unfold tokenAt at h
  dsimp only at h
  split at h
  · next hopen =>
      split at h
      · next m hm =>
          obtain ⟨hle, front, hfront⟩ := commentTail?_spec hm
          obtain ⟨rest, hrest⟩ := Option.isSome_iff_exists.mp (Bool.and_eq_true_iff.mp hopen).2
          have hcs : cs = '*' :: rest := Text.after?_eq_some hrest
          subst hcs
          refine hcomment (m + 1) (Nat.succ_le_succ hle)
            (.inr (.inr (.inl ⟨c :: '*' :: front, '/', ?_, hslash⟩))) h
          rw [List.take_succ_cons, show rest.take m = front ++ ['/'] from hfront]
          rfl
      · cases h
  split at h
  · exact hcomment _ (List.takeWhile_prefix _).length_le ((pauses_lineTail cs).cut _) h
  split at h
  · next hc =>
      exact hsingle .lbrace (not_isMarkChar_of_mem_sheetSigns (by rw [eq_of_beq hc]; decide)) h
  split at h
  · next hc =>
      exact hsingle .rbrace (not_isMarkChar_of_mem_sheetSigns (by rw [eq_of_beq hc]; decide)) h
  split at h
  · next hc =>
      exact hsingle .semicolon (not_isMarkChar_of_mem_sheetSigns (by rw [eq_of_beq hc]; decide)) h
  split at h
  · next m hm =>
      cases h
      obtain ⟨hle, hpauses⟩ := runTail_spec hm
      refine ⟨rfl, hle, nofun, hpauses.cut _, ?_, fun hkind => absurd rfl hkind, fun hkind => absurd rfl hkind⟩
      rw [String.toList_ofList, Slot.slotsIn_trim]
  · cases h
  · cases h

/-! ## The tokens of a text -/

/-- A token stands in a text at its offset, and what it takes is cut from what is around it. -/
def Token.StandsIn (token : Token) (text : List Char) : Prop :=
  ∃ before raw after, text = before ++ (raw ++ after) ∧ before.length = token.offset ∧
    Cut before (raw ++ after) ∧ Takes token raw after

/-- The slots of a text are those of its tokens. -/
theorem tokensFrom_spec {offset : Nat} {cs : List Char} {tokens : List Token}
    (h : tokensFrom offset cs = .ok tokens) {before : List Char} (hoffset : before.length = offset)
    (hcut : Cut before cs) :
    slotsIn cs = tokens.flatMap (fun token => slotsIn token.value.toList) ∧
      ∀ token ∈ tokens, token.StandsIn (before ++ cs) := by
  induction hn : cs.length using Nat.strong_induction_on generalizing cs offset tokens before with
  | _ n ih =>
      subst hn
      unfold tokensFrom at h
      split at h
      · cases h
        exact ⟨rfl, fun _ htoken => absurd htoken List.not_mem_nil⟩
      next c rest =>
      split at h
      · next hblank =>
          have hsign := Slot.not_isMarkChar_of_isBlank hblank
          obtain ⟨hslots, hstands⟩ := ih rest.length (Nat.lt_succ_self _) h
            (show (before ++ [c]).length = offset + 1 by rw [List.length_append, hoffset]; rfl)
            (.inr (.inr (.inl ⟨before, c, rfl, hsign⟩))) rfl
          rw [List.append_assoc, List.singleton_append] at hstands
          exact ⟨(Slot.slotsIn_cons_sign hsign rest).trans hslots, hstands⟩
      · split at h
        · cases h
        next token n htoken =>
        cases hmore : tokensFrom (offset + n + 1) (rest.drop n) with
        | error f =>
            rw [hmore] at h
            cases h
        | ok more =>
            rw [hmore] at h
            cases h
            obtain ⟨hat, hle, htakes⟩ := tokenAt_spec htoken
            have hsplit : c :: rest = (c :: rest.take n) ++ rest.drop n := by
              rw [List.cons_append, List.take_append_drop]
            have hlength : (before ++ (c :: rest.take n)).length = offset + n + 1 := by
              rw [List.length_append, hoffset, List.length_cons, List.length_take]
              omega
            have hshorter : (rest.drop n).length < (c :: rest).length := by
              rw [List.length_drop, List.length_cons]
              omega
            obtain ⟨hslots, hstands⟩ := ih (rest.drop n).length hshorter hmore hlength
              (htakes.cut.append_left htakes.nonempty before) rfl
            rw [List.append_assoc, ← hsplit] at hstands
            refine ⟨?_, List.forall_mem_cons.mpr ⟨?_, hstands⟩⟩
            · rw [hsplit, htakes.cut.slotsIn_append, hslots, List.flatMap_cons, htakes.slots]
            · exact ⟨before, c :: rest.take n, rest.drop n, by rw [hsplit], hoffset.trans hat.symm,
                by rwa [← hsplit], htakes⟩

/-! ## The token around a mark -/

/-- The mark of a slot stands in a text after a part that does not have the slot. -/
structure MarkedAfter (front : List Char) (index : Nat) (text : List Char) : Prop where
  stands : ∃ rest, text = front ++ (Slot.mark index ++ rest)
  fresh : index ∉ slotsIn front
  found : ∀ rest, index ∈ slotsIn (front ++ (Slot.mark index ++ rest))
  once : (slotsIn text).Nodup

theorem Slot.Cut.of_append {before after more : List Char} (h : Cut before (after ++ more)) :
    Cut before after := by
  rcases h with h | h | h | ⟨c, rest, hafter, hc⟩
  · exact .inl h
  · exact .inr (.inl (List.append_eq_nil_iff.mp h).1)
  · exact .inr (.inr (.inl h))
  · cases after with
    | nil => exact .inr (.inl rfl)
    | cons d after =>
        cases hafter
        exact .inr (.inr (.inr ⟨c, after, rfl, hc⟩))

/-- No cut goes through a mark. -/
theorem not_cut_mark {front left right rest : List Char} {index : Nat}
    (hmark : Slot.mark index = left ++ right) (hleft : left ≠ []) (hright : right ≠ []) :
    ¬ Cut (front ++ left) (right ++ rest) := by
  have hchars : ∀ c ∈ left ++ right, isMarkChar c = true :=
    fun c hc => Slot.isMarkChar_of_mem_mark (hmark ▸ hc)
  rintro (h | h | ⟨before, c, h, hc⟩ | ⟨c, after, h, hc⟩)
  · exact hleft (List.append_eq_nil_iff.mp h).2
  · exact hright (List.append_eq_nil_iff.mp h).1
  · have hlast : c ∈ left := by
      have hget := congrArg List.getLast? h
      rw [List.getLast?_append_of_ne_nil _ hleft, List.getLast?_concat] at hget
      exact List.mem_of_getLast? hget
    cases hc.symm.trans (hchars c (List.mem_append_left _ hlast))
  · cases right with
    | nil => exact hright rfl
    | cons d right =>
        cases h
        cases hc.symm.trans (hchars c (List.mem_append_right _ List.mem_cons_self))

/-- A slot is before or after a cut exactly if its mark is. -/
theorem MarkedAfter.mem_iff {front before after : List Char} {index : Nat}
    (h : MarkedAfter front index (before ++ after)) (hcut : Cut before after) :
    (index ∈ slotsIn before ↔ front.length + (Slot.mark index).length ≤ before.length) ∧
      (index ∈ slotsIn after ↔ before.length ≤ front.length) := by
  obtain ⟨⟨rest, htext⟩, hfresh, hfound, honce⟩ := h
  have hpos : 0 < (Slot.mark index).length := by
    rw [Slot.mark, List.length_append, List.length_append, show Slot.opening.length = 16 from rfl]
    omega
  have hmem : index ∈ slotsIn (before ++ after) := htext ▸ hfound rest
  rw [hcut.slotsIn_append] at hmem honce
  have hdisjoint : index ∈ slotsIn before → index ∉ slotsIn after :=
    fun hbefore hafter => (List.nodup_append.mp honce).2.2 _ hbefore _ hafter rfl
  -- the mark is after the cut, or before it
  have hright : ∀ middle, front = before ++ middle → Cut before middle →
      index ∉ slotsIn before ∧ before.length ≤ front.length := by
    rintro middle rfl hmiddle
    rw [hmiddle.slotsIn_append] at hfresh
    exact ⟨fun hbefore => hfresh (List.mem_append_left _ hbefore), by rw [List.length_append]; omega⟩
  have hleft : ∀ middle, before = front ++ (Slot.mark index ++ middle) →
      index ∈ slotsIn before ∧ front.length + (Slot.mark index).length ≤ before.length := by
    rintro middle rfl
    exact ⟨hfound middle, by rw [List.length_append, List.length_append]; omega⟩
  have hcases : (index ∉ slotsIn before ∧ before.length ≤ front.length) ∨
      (index ∈ slotsIn before ∧ front.length + (Slot.mark index).length ≤ before.length) := by
    rcases List.append_eq_append_iff.mp htext with ⟨middle, hfront, hafter⟩ | ⟨middle, hbefore, hmark⟩
    · exact .inl (hright middle hfront (hafter ▸ hcut).of_append)
    · rcases List.append_eq_append_iff.mp hmark with ⟨right, hmiddle, hrest⟩ | ⟨right, hsplit, hafter⟩
      · exact .inr (hleft right (by rw [hbefore, hmiddle]))
      · by_cases hmiddle : middle = []
        · refine .inl (hright [] ?_ (.inr (.inl rfl)))
          rw [hbefore, hmiddle, List.append_nil, List.append_nil]
        by_cases hnone : right = []
        · refine .inr (hleft [] ?_)
          rw [hbefore, hsplit, hnone, List.append_nil, List.append_nil]
        · rw [hbefore, hafter] at hcut
          exact absurd hcut (not_cut_mark hsplit hmiddle hnone)
  rcases hcases with ⟨hnot, hle⟩ | ⟨hbefore, hle⟩
  · have hafter := (List.mem_append.mp hmem).resolve_left hnot
    exact ⟨iff_of_false hnot (by omega), iff_of_true hafter hle⟩
  · exact ⟨iff_of_true hbefore hle, iff_of_false (hdisjoint hbefore) (by omega)⟩

/-- A token holds a slot exactly if the mark lies inside of the token. -/
theorem Token.StandsIn.mem_slotsIn_iff {token : Token} {text front : List Char} {index : Nat}
    (h : token.StandsIn text) (hkind : token.kind ≠ .text) (hmark : MarkedAfter front index text) :
    index ∈ slotsIn token.value.toList ↔
      token.offset ≤ front.length ∧
        front.length + (Slot.mark index).length ≤ token.offset + token.value.length := by
  obtain ⟨before, raw, after, rfl, hoffset, hcut, htakes⟩ := h
  have hlength : token.value.length = raw.length := by
    rw [← String.length_toList, htakes.literal hkind]
  have hopens := (hmark.mem_iff hcut).2
  have hmark' : MarkedAfter front index ((before ++ raw) ++ after) := by rwa [List.append_assoc]
  have hcloses := (hmark'.mem_iff (htakes.cut.append_left htakes.nonempty before)).1
  have honce := hmark.once
  rw [hcut.slotsIn_append, htakes.cut.slotsIn_append] at honce
  rw [htakes.cut.slotsIn_append] at hopens
  rw [hcut.of_append.slotsIn_append, List.length_append] at hcloses
  rw [← hoffset, hlength, htakes.slots, ← hopens, ← hcloses, List.mem_append, List.mem_append]
  constructor
  · exact fun hraw => ⟨.inl hraw, .inr hraw⟩
  · rintro ⟨hraw | hafter, hother⟩
    · exact hraw
    · rcases hother with hbefore | hraw
      · exact absurd rfl ((List.nodup_append.mp honce).2.2 _ hbefore _ (List.mem_append_right _ hafter))
      · exact hraw

end Restyle.Css
