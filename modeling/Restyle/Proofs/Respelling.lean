import Restyle.Css.Sheet
import Restyle.Proofs.Marks

/-!
# Slots of respelled texts

A selector is kept in one spelling, a declaration is cut at its colon, and slots in block position are
split off in front of both.  All of this moves, adds and removes signs only, so the slots of a text are
kept in order.
-/

namespace Restyle.Css

open Slot (isMarkChar not_isMarkChar_of_isBlank not_isMarkChar_of_mem_sheetSigns slotsIn slotsIn_cons_sign
  slotsIn_append_sign Plain)

/-! ## Selectors -/

theorem collapse_eq (cs : List Char) : collapse cs = [' '].intercalate (Text.words cs) :=
  Text.toList_intercalate_ofList (Text.words cs)

theorem slotsIn_collapse (cs : List Char) : slotsIn (collapse cs) = slotsIn cs := by
  rw [collapse_eq, Slot.slotsIn_intercalate]
  exact Slot.flatMap_runsFrom (fun _ => not_isMarkChar_of_isBlank) [] cs

/-- Signs end the open run, and what follows them starts with an empty one. -/
theorem runsFrom_signs {sep : Char → Bool} {signs : List Char} (hne : signs ≠ [])
    (h : ∀ c ∈ signs, sep c = true) (current rest : List Char) :
    Text.runsFrom sep current (signs ++ rest) =
      (if current.isEmpty then [] else [current.reverse]) ++ Text.runsFrom sep [] rest := by
  have hskip : ∀ more : List Char, (∀ c ∈ more, sep c = true) →
      Text.runsFrom sep [] (more ++ rest) = Text.runsFrom sep [] rest := by
    intro more hmore
    induction more with
    | nil => rfl
    | cons c more ih =>
        obtain ⟨hc, hmore⟩ := List.forall_mem_cons.mp hmore
        rw [List.cons_append, Text.runsFrom, if_pos hc, if_pos List.isEmpty_nil, ih hmore]
  cases signs with
  | nil => exact absurd rfl hne
  | cons c signs =>
      obtain ⟨hc, hsigns⟩ := List.forall_mem_cons.mp h
      rw [List.cons_append, Text.runsFrom, if_pos hc, hskip signs hsigns]
      split <;> rfl

theorem respace_eq_drop (read? : List Char → Option (List Char × List Char)) (skip : Nat)
    (cs : List Char) : respace read? skip cs = respace read? 0 (cs.drop skip) := by
  induction cs generalizing skip with
  | nil => cases skip <;> rfl
  | cons c cs ih =>
      cases skip with
      | zero => rfl
      | succ skip => exact ih skip

/-- A reader of separators reads signs and writes signs. -/
def ReadsSigns (read? : List Char → Option (List Char × List Char)) : Prop :=
  ∀ cs written rest, read? cs = some (written, rest) →
    (written ≠ [] ∧ ∀ c ∈ written, isMarkChar c = false) ∧
      ∃ signs, signs ≠ [] ∧ (∀ c ∈ signs, isMarkChar c = false) ∧ cs = signs ++ rest

/-- Respacing separators keeps the runs between signs. -/
theorem runsFrom_respace {read? : List Char → Option (List Char × List Char)} (h : ReadsSigns read?)
    (current cs : List Char) :
    Text.runsFrom (fun c => !isMarkChar c) current (respace read? 0 cs) =
      Text.runsFrom (fun c => !isMarkChar c) current cs := by
  induction hn : cs.length using Nat.strong_induction_on generalizing cs current with
  | _ n ih =>
      subst hn
      cases cs with
      | nil => rfl
      | cons c cs =>
          have hsep : ∀ text : List Char, (∀ d ∈ text, isMarkChar d = false) →
              ∀ d ∈ text, (!isMarkChar d) = true :=
            fun text htext d hd => by rw [htext d hd]; rfl
          rw [respace]
          split
          · next written rest hread =>
              obtain ⟨⟨hwritten, hwrittenSigns⟩, signs, hne, hsigns, hcs⟩ := h _ _ _ hread
              have hpos : 0 < signs.length := List.length_pos_iff.mpr hne
              have hlength := congrArg List.length hcs
              rw [List.length_cons, List.length_append] at hlength
              have hdrop : cs.drop (cs.length - rest.length) = rest := by
                have hwhole := congrArg (List.drop signs.length) hcs
                rw [List.drop_left, show signs.length = cs.length - rest.length + 1 by omega,
                  List.drop_succ_cons] at hwhole
                exact hwhole
              rw [respace_eq_drop, hdrop, hcs, runsFrom_signs hwritten (hsep _ hwrittenSigns),
                runsFrom_signs hne (hsep _ hsigns), ih rest.length (by rw [List.length_cons]; omega) [] rest rfl]
          · have hcs := fun current => ih cs.length (Nat.lt_succ_self _) current cs rfl
            rw [Text.runsFrom, Text.runsFrom, hcs, hcs]

theorem slotsIn_respace {read? : List Char → Option (List Char × List Char)} (h : ReadsSigns read?)
    (cs : List Char) : slotsIn (respace read? 0 cs) = slotsIn cs := by
  have hruns : ∀ text, (Text.runsFrom (fun c => !isMarkChar c) [] text).flatMap slotsIn = slotsIn text :=
    Slot.flatMap_runsFrom (fun c hc => by simpa using hc) []
  rw [← hruns, runsFrom_respace h, hruns]

/-- A sign with blanks around it. -/
theorem exists_signs_of_trimStart {cs rest : List Char} {c : Char} (h : Text.trimStart cs = c :: rest)
    (hc : isMarkChar c = false) :
    ∃ signs, signs ≠ [] ∧ (∀ d ∈ signs, isMarkChar d = false) ∧ cs = signs ++ Text.trimStart rest := by
  obtain ⟨before, hbefore, hcs⟩ := Text.exists_trimStart cs
  obtain ⟨after, hafter, hrest⟩ := Text.exists_trimStart rest
  refine ⟨before ++ c :: after, by simp, ?_, ?_⟩
  · intro d hd
    rcases List.mem_append.mp hd with hd | hd
    · exact not_isMarkChar_of_isBlank (hbefore d hd)
    · rcases List.mem_cons.mp hd with rfl | hd
      · exact hc
      · exact not_isMarkChar_of_isBlank (hafter d hd)
  · conv_lhs => rw [hcs, h, hrest]
    rw [List.append_assoc, List.cons_append]

theorem not_isMarkChar_of_isCombinator {c : Char} (h : isCombinator c = true) : isMarkChar c = false := by
  simp only [isCombinator, Bool.or_eq_true, beq_iff_eq] at h
  refine not_isMarkChar_of_mem_sheetSigns ?_
  rcases h with (rfl | rfl) | rfl
  · decide
  · decide
  · decide

theorem readsSigns_combinator :
    ReadsSigns fun cs => (combinator? cs).map fun (c, rest) => ([' ', c, ' '], rest) := by
  intro cs written rest h
  obtain ⟨⟨c, more⟩, hread, heq⟩ := Option.map_eq_some_iff.mp h
  cases heq
  unfold combinator? at hread
  split at hread
  · next d tail htrim =>
      split at hread
      · next hguard =>
          cases hread
          have hc := not_isMarkChar_of_isCombinator (Bool.and_eq_true_iff.mp
            (Bool.and_eq_true_iff.mp hguard).1).1
          have hblank : isMarkChar ' ' = false := not_isMarkChar_of_mem_sheetSigns (by decide)
          exact ⟨⟨nofun, by simp [hc, hblank]⟩, exists_signs_of_trimStart htrim hc⟩
      · cases hread
  · cases hread

theorem readsSigns_comma : ReadsSigns fun cs => (comma? cs).map fun rest => ([',', ' '], rest) := by
  intro cs written rest h
  obtain ⟨more, hread, heq⟩ := Option.map_eq_some_iff.mp h
  cases heq
  have hsubset : [',', ' '] ⊆ Slot.sheetSigns := by decide
  have hsigns : ∀ c ∈ [',', ' '], isMarkChar c = false :=
    fun c hc => not_isMarkChar_of_mem_sheetSigns (hsubset hc)
  unfold comma? at hread
  split at hread
  · next tail htrim =>
      cases hread
      exact ⟨⟨nofun, hsigns⟩, exists_signs_of_trimStart htrim (hsigns _ (by decide))⟩
  · cases hread

/-- A selector in its one spelling has its slots. -/
theorem slotsIn_normalizeSelector (text : String) :
    slotsIn (normalizeSelector text).toList = slotsIn text.toList := by
  rw [normalizeSelector, String.toList_ofList, Slot.slotsIn_trim, spaceCommas,
    slotsIn_respace readsSigns_comma, spaceCombinators, slotsIn_respace readsSigns_combinator, slotsIn_collapse]

/-! ## Declarations -/

theorem plain_of_not_mentions {s : String} (h : Text.mentions "__INTERPOLATION_" s = false) :
    Plain s.toList := by
  intro hopens
  rw [Text.mentions, show "__INTERPOLATION_".toList = Slot.opening from rfl,
    Text.occurs_of_isInfix (by decide) hopens] at h
  cases h

/-- The opening of a mark has capitals. -/
theorem plain_lower (s : String) : Plain (Text.lower s).toList := by
  rintro hopens
  have hcapital : Text.isAsciiUpper 'N' = true := by decide
  rw [Text.not_isAsciiUpper_of_mem_lower (hopens.subset (by decide))] at hcapital
  cases hcapital

/-- A property that is written in lower case has no slots. -/
theorem slotsIn_propertyName (cs : List Char) : slotsIn (propertyName cs).toList = slotsIn cs := by
  unfold propertyName
  dsimp only
  split
  · rw [String.toList_ofList, Slot.slotsIn_trim]
  · next hkept =>
      have hplain := plain_of_not_mentions (Bool.or_eq_false_iff.mp (Bool.eq_false_iff.mpr hkept)).2
      rw [String.toList_ofList] at hplain
      rw [(plain_lower _).slotsIn_eq_nil, ← Slot.slotsIn_trim cs, hplain.slotsIn_eq_nil]

/-- The open quote and the open parentheses in front of a colon after one more character. -/
def nextColon (depth : Int) (c : Char) : Option Char → Option Char × Int
  | some q => (if c == q then none else some q, depth)
  | none =>
    if c == '"' || c == '\'' then (some c, depth)
    else if c == '(' then (none, depth + 1)
    else if c == ')' then (none, depth - 1)
    else (none, depth)

/-- A character is the colon of a declaration, or the colon is behind it. -/
theorem colonFrom_cons (quote : Option Char) (depth : Int) (c : Char) (cs : List Char) :
    colonFrom quote depth (c :: cs) =
      if quote = none ∧ c = ':' ∧ depth = 0 then some ([], cs)
      else (colonFrom (nextColon depth c quote).1 (nextColon depth c quote).2 cs).map
        fun found => (c :: found.1, found.2) := by
  cases quote with
  | some q => rw [if_neg (fun h => Option.some_ne_none q h.1)]; rfl
  | none =>
      by_cases hcolon : c = ':' ∧ depth = 0
      · obtain ⟨rfl, rfl⟩ := hcolon
        rfl
      · have hgoes : ¬ ((none : Option Char) = none ∧ c = ':' ∧ depth = 0) := fun h => hcolon h.2
        have hkept : (c == ':' && depth == 0) = false := by simpa using hcolon
        rw [if_neg hgoes, colonFrom, nextColon]
        simp only [hkept, Bool.false_eq_true, if_false]
        split_ifs <;> rfl

theorem colonFrom_eq_some {quote : Option Char} {depth : Int} {cs name value : List Char}
    (h : colonFrom quote depth cs = some (name, value)) : cs = name ++ ':' :: value := by
  induction cs generalizing quote depth name with
  | nil => cases h
  | cons c cs ih =>
      rw [colonFrom_cons] at h
      split at h
      · next hcolon =>
          cases h
          rw [hcolon.2.1, List.nil_append]
      · obtain ⟨found, hfound, heq⟩ := Option.map_eq_some_iff.mp h
        cases heq
        rw [ih hfound, List.cons_append]

theorem slotsIn_splitColon {cs name value : List Char} (h : splitColon? cs = some (name, value)) :
    slotsIn cs = slotsIn name ++ slotsIn value := by
  rw [colonFrom_eq_some h, slotsIn_append_sign (not_isMarkChar_of_mem_sheetSigns (by decide))]

/-! ## Slots in block position -/

theorem slots_mk (property value : String) :
    Declaration.slots ⟨property, value⟩ = slotsIn property.toList ++ slotsIn value.toList := by
  rw [Declaration.slots, Slot.indices_eq, Slot.indices_eq]

/-- A text in block position has its slots. -/
theorem slots_block (cs : List Char) : Declaration.slots ⟨"", String.ofList cs⟩ = slotsIn cs := by
  have hempty : slotsIn ("" : String).toList = [] := rfl
  rw [slots_mk, hempty, List.nil_append, String.toList_ofList]

/-- A slot that is written in block position. -/
theorem slots_blockSlot {cs written rest : List Char} {index : Nat}
    (h : Slot.read? cs = some (index, written, rest)) :
    Declaration.slots ⟨"", String.ofList written⟩ = [index] := by
  obtain ⟨digits, hne, hdigits, hindex, hwritten, -⟩ := Slot.read?_eq_some_iff.mp h
  have hread : Slot.read? written = some (index, written, []) :=
    Slot.read?_eq_some_iff.mpr ⟨digits, hne, hdigits, hindex, hwritten, (List.append_nil _).symm⟩
  rw [slots_block, Slot.slotsIn_of_read? hread]
  rfl

/-- A line break, blanks and a selector after a mark hold the slots of the selector. -/
theorem slotsIn_of_lineBreak {mark tail written rest : List Char}
    (h : (match tail with
      | '\n' :: more => match Text.trimStart more with | [] => none | selector => some (mark, selector)
      | _ => none) = some (written, rest)) : mark = written ∧ slotsIn tail = slotsIn rest := by
  split at h
  · split at h
    · cases h
    · next below _ =>
        cases h
        exact ⟨rfl, by rw [slotsIn_cons_sign (not_isMarkChar_of_mem_sheetSigns (by decide)), Slot.slotsIn_trimStart]⟩
  · cases h

theorem slotsIn_slotBeforeRule {cs written rest : List Char} (h : slotBeforeRule? cs = some (written, rest)) :
    Declaration.slots ⟨"", String.ofList written⟩ ++ slotsIn rest = slotsIn cs := by
  have hgap : ∀ c, (c == ' ' || c == '\t') = true → isMarkChar c = false := by
    intro c hc
    simp only [Bool.or_eq_true, beq_iff_eq] at hc
    refine not_isMarkChar_of_mem_sheetSigns ?_
    rcases hc with rfl | rfl
    · decide
    · decide
  have hsemicolon : isMarkChar ';' = false := not_isMarkChar_of_mem_sheetSigns (by decide)
  unfold slotBeforeRule? at h
  split at h
  · cases h
  next index mark more hread =>
  dsimp only at h
  -- after the mark come gaps, at most one semicolon and a line break
  obtain ⟨rfl, hrest⟩ := slotsIn_of_lineBreak h
  rw [slots_blockSlot hread, Slot.slotsIn_of_read? hread, ← hrest]
  split
  · next after hsplit =>
      rw [Slot.slotsIn_dropWhile hgap, ← Slot.slotsIn_dropWhile hgap more, hsplit, slotsIn_cons_sign hsemicolon]
      rfl
  · rw [Slot.slotsIn_dropWhile hgap]
    rfl

theorem slotsIn_leadingSlot {cs written rest : List Char} (h : leadingSlot? cs = some (written, rest)) :
    Declaration.slots ⟨"", String.ofList written⟩ ++ slotsIn rest = slotsIn cs := by
  unfold leadingSlot? at h
  split at h
  · next index mark c more hread =>
      split at h
      · next hblank =>
          split at h
          · cases h
          · cases h
            rw [slots_blockSlot hread, Slot.slotsIn_of_read? hread, Slot.slotsIn_trimStart,
              slotsIn_cons_sign (not_isMarkChar_of_isBlank hblank)]
            rfl
      · cases h
  · cases h

theorem slotsIn_peelSelector (fuel : Nat) (cs : List Char) :
    (peelSelector fuel cs).1.flatMap Declaration.slots ++ slotsIn (peelSelector fuel cs).2 = slotsIn cs := by
  induction fuel generalizing cs with
  | zero => rfl
  | succ fuel ih =>
      rw [peelSelector]
      split
      · next written rest hread =>
          rw [← slotsIn_slotBeforeRule hread, ← ih rest, List.flatMap_cons, List.append_assoc]
      · rfl

theorem slotsIn_peelDeclaration (fuel : Nat) (cs : List Char) :
    (peelDeclaration fuel cs).1.flatMap Declaration.slots ++ slotsIn (peelDeclaration fuel cs).2 =
      slotsIn cs := by
  induction fuel generalizing cs with
  | zero => rfl
  | succ fuel ih =>
      rw [peelDeclaration]
      split
      · next written rest hread =>
          split
          · rfl
          · rw [← slotsIn_leadingSlot hread, ← Slot.slotsIn_trim rest, ← ih (Text.trim rest),
              List.flatMap_cons, List.append_assoc]
      · rfl

/-- The declarations of a text have its slots. -/
theorem flatMap_slots_declarationsOf (text : String) :
    (declarationsOf text).flatMap Declaration.slots = slotsIn text.toList := by
  have hpeel := slotsIn_peelDeclaration (Text.trim text.toList).length (Text.trim text.toList)
  rw [declarationsOf, ← Slot.slotsIn_trim text.toList]
  dsimp only
  generalize peelDeclaration _ _ = peeled at hpeel ⊢
  obtain ⟨slots, rest⟩ := peeled
  rw [← hpeel]
  dsimp only
  split
  · rw [List.flatMap_append, List.flatMap_singleton, slots_block]
  · next name value hcolon =>
      rw [List.flatMap_append, List.flatMap_singleton, slots_mk, slotsIn_propertyName, String.toList_ofList,
        Slot.slotsIn_trim, slotsIn_splitColon hcolon]

end Restyle.Css
