import Restyle.Proofs.Cascade
import Restyle.Proofs.Collision
import Restyle.Proofs.Placement

/-!
# The requests of a conversion

A conversion turns to its resolver for every slot of a value, longhand by longhand, and for a lone slot in
block position.  A nested rule is converted once for each block that its selector makes, so what stands
below a group of pseudo selectors is requested once for every member of the group.  `Answers.uses` lists the
requests in the order in which they come up, and `Answers.visits` the slots they are for.
-/

namespace Restyle.Text

/-- A character that is no form of the letters of a word is not read with the word. -/
theorem mem_of_afterAnyCase? {d : Char} {word cs rest : List Char}
    (hword : word.any (isFormOf · d) = false) (h : afterAnyCase? word cs = some rest)
    (hd : d ∈ cs) : d ∈ rest := by
  induction word generalizing cs with
  | nil =>
      cases h
      exact hd
  | cons letter word ih =>
      obtain ⟨hletter, hword⟩ := Bool.or_eq_false_iff.mp hword
      cases cs with
      | nil => cases hd
      | cons c cs =>
          rw [afterAnyCase?] at h
          split at h
          · next hform =>
              rcases List.mem_cons.mp hd with rfl | hd
              · cases hletter.symm.trans hform
              · exact ih hword h hd
          · cases h

end Restyle.Text

namespace Restyle.Css

open Slot (isMarkChar slotsIn)

/-! ## The slots of values -/

/-- The parts of a text between signs have its slots. -/
theorem flatMap_cutFrom {sep : Char → Bool} (h : ∀ c, sep c = true → isMarkChar c = false) (n : Nesting)
    (current cs : List Char) :
    (cutFrom sep n current cs).flatMap slotsIn = slotsIn (current.reverse ++ cs) := by
  induction cs generalizing n current with
  | nil => rw [cutFrom, List.flatMap_singleton, List.append_nil]
  | cons c cs ih =>
      rw [cutFrom]
      split
      · next hcut =>
          rw [List.flatMap_cons, ih, Slot.slotsIn_append_sign (h c (Bool.and_eq_true_iff.mp hcut).2)]
          rfl
      · rw [ih, List.reverse_cons, List.append_assoc, List.singleton_append]

/-- The tokens of a value have its slots, in order. -/
theorem flatMap_indices_valueTokens (value : String) :
    (valueTokens value).flatMap Slot.indices = Slot.indices value := by
  have hnonempty : ∀ parts : List (List Char),
      (parts.filter fun part => !part.isEmpty).flatMap slotsIn = parts.flatMap slotsIn := by
    intro parts
    induction parts with
    | nil => rfl
    | cons part parts ih => cases part <;> simp [ih]
  have hindices : (fun cs => Slot.indices (String.ofList cs)) = slotsIn :=
    funext fun cs => by rw [Slot.indices_eq, String.toList_ofList]
  rw [valueTokens, List.flatMap_map, hindices, splitBlanks, hnonempty,
    flatMap_cutFrom fun _ => Slot.not_isMarkChar_of_isBlank, Slot.indices_eq]
  exact Slot.slotsIn_trim value.toList

/-- A value that is one slot. -/
theorem indices_of_isWhole {value : String} (h : Slot.isWhole value = true) :
    Slot.indices value = [(Slot.indices value).headD 0] := by
  unfold Slot.isWhole at h
  split at h
  · next index written hread =>
      have hindices : Slot.indices value = [index] := by
        rw [Slot.indices_eq, ← Slot.slotsIn_trim, Slot.slotsIn_of_read? hread, Slot.slotsIn_nil]
      rw [hindices, List.headD_cons]
  · cases h

/-- The slots that a declaration asks for: none if its name holds one, or if it is a text with neither a name
nor a lone slot. -/
def Declaration.liveSlots (d : Declaration) : List Nat :=
  if d.property.isEmpty then if d.isBlockSlot then Slot.indices d.value else []
  else if Slot.present d.property then []
  else Slot.indices d.value

theorem Declaration.liveSlots_sublist (d : Declaration) : d.liveSlots.Sublist d.slots := by
  unfold liveSlots slots
  split_ifs
  · exact List.sublist_append_right _ _
  · exact List.nil_sublist _
  · exact List.nil_sublist _
  · exact List.sublist_append_right _ _

theorem Declaration.liveSlots_subset (d : Declaration) : d.liveSlots ⊆ d.slots :=
  d.liveSlots_sublist.subset

end Restyle.Css

namespace Restyle.Style

open Restyle.Css (Rule)
open Restyle.Css.Slot (not_isMarkChar_of_isBlank slotsIn)

/-- A final `!important` holds no slots. -/
theorem slotsIn_of_beforeImportant? {cs rest : List Char} (h : beforeImportant? cs = some rest) :
    slotsIn rest = slotsIn cs := by
  simp only [beforeImportant?, Option.bind_eq_bind, Option.bind_eq_some_iff] at h
  obtain ⟨front, hword, h⟩ := h
  split at h
  · next hlast =>
      cases h
      obtain ⟨tail, htext, hread⟩ : ∃ tail, Text.trimEnd cs = front ++ tail ∧
          Text.afterAnyCase? "important".toList tail = some [] := by
        unfold beforeWord? at hword
        dsimp only at hword
        split at hword
        · next hread =>
            cases hword
            exact ⟨_, (List.take_append_drop _ _).symm, eq_of_beq hread⟩
        · cases hword
      have htail : '_' ∉ tail := fun hmem =>
        List.not_mem_nil (Text.mem_of_afterAnyCase? (by decide) hread hmem)
      have hplain : Css.Slot.Plain tail := fun hopens => htail (hopens.subset (by decide))
      obtain ⟨blanks, hblanks, hfront⟩ := Text.exists_trimEnd front
      have hmark : Text.trimEnd cs = (Text.trimEnd front).dropLast ++ '!' :: (blanks ++ tail) := by
        rw [htext]
        conv_lhs => rw [hfront, ← List.dropLast_append_getLast? _ hlast]
        simp
      have hrest : slotsIn (blanks ++ tail) = [] := by
        rw [Css.Slot.slotsIn_signs_append fun c hc => not_isMarkChar_of_isBlank (hblanks c hc),
          hplain.slotsIn_eq_nil]
      rw [Css.Slot.slotsIn_trimEnd, ← Css.Slot.slotsIn_trimEnd cs, hmark,
        Css.Slot.slotsIn_append_sign (by decide), hrest, List.append_nil]
  · cases h

theorem indices_stripImportant (value : String) :
    Css.Slot.indices (stripImportant value).1 = Css.Slot.indices value := by
  rw [Css.Slot.indices_eq, Css.Slot.indices_eq]
  unfold stripImportant
  split
  · next rest hrest => rw [String.toList_ofList, Css.Slot.slotsIn_trim, slotsIn_of_beforeImportant? hrest]
  · rw [Text.strip, String.toList_ofList, Css.Slot.slotsIn_trim]

theorem map_snd_animationFrom {seen tokens : List String} {times : Nat} {expansion : Expansion}
    (h : animationFrom seen times tokens = some expansion) : expansion.map Prod.snd = tokens := by
  induction tokens generalizing seen times expansion with
  | nil =>
      cases h
      rfl
  | cons token tokens ih =>
      rw [animationFrom] at h
      dsimp only at h
      split at h
      · cases h
      · obtain ⟨rest, hrest, rfl⟩ := Option.map_eq_some_iff.mp h
        rw [List.map_cons, ih hrest]

theorem map_snd_expandBorder {property : String} {tokens : List String} {expansion : Expansion}
    (h : expandBorder property tokens = some expansion) : expansion.map Prod.snd = tokens := by
  unfold expandBorder at h
  split at h
  · cases h
  · rw [borderParts_of_distinctExpansion h, List.map_map]
    exact List.zipIdx_map_fst 0 tokens

theorem map_snd_expandBox {property : String} {tokens : List String} {expansion : Expansion}
    (h : expandBox property tokens = some expansion) : expansion.map Prod.snd = tokens := by
  unfold expandBox at h
  split at h <;> cases h <;> rfl

theorem map_snd_expandBackground {tokens : List String} {expansion : Expansion}
    (h : expandBackground tokens = some expansion) : expansion.map Prod.snd = tokens := by
  unfold expandBackground at h
  split at h
  · split at h
    · cases h
    · cases h
      rfl
  · cases h

/-- Every token of a shorthand goes to one longhand. -/
theorem map_snd_expandShorthand {property value : String} {expansion : Expansion}
    (h : expandShorthand property value = some expansion) :
    expansion.map Prod.snd = Css.valueTokens value := by
  unfold expandShorthand at h
  dsimp only at h
  split_ifs at h
  · exact map_snd_expandBorder h
  · exact map_snd_expandBox h
  · unfold expandAnimation at h
    split at h
    · cases h
    · exact map_snd_animationFrom h
  · exact map_snd_expandBackground h

/-! ## The requests of a declaration -/

/-- A request, with those for the slots in front of it in the same text. -/
structure Use where
  request : SlotRequest
  ahead : List SlotRequest := []

/-- The slot that a request is for. -/
def Use.slot (use : Use) : Nat :=
  use.request.index

/-- The requests for the slots of a text, if those ahead of it have been made already. -/
def pieceUses (base : SlotRequest) (ahead : List SlotRequest) : List Css.Slot.Piece → List Use
  | [] => []
  | .text _ :: pieces => pieceUses base ahead pieces
  | .slot index written :: pieces =>
    ⟨base.at index written, ahead⟩ :: pieceUses base (ahead ++ [base.at index written]) pieces

/-- The requests for the slots of a longhand. -/
def longhandUses (base : SlotRequest) (part : String × String) : List Use :=
  if Css.Slot.present part.2 then
    pieceUses { base with property := part.1, value := part.2 } [] (Css.Slot.pieces part.2.toList)
  else []

/-- The requests for the slots of a value. -/
def valueUses (scope : Scope) (property value : String) : List Use :=
  if Css.Slot.isWhole value then [⟨wholeRequest scope property value, []⟩]
  else
    match expandShorthand property value with
    | some expansion => expansion.flatMap (longhandUses (partRequest scope property value))
    | none => pieceUses (partRequest scope property value) [] (Css.Slot.pieces value.toList)

/-- The requests for the slots of a declaration. -/
def declarationUses (scope : Scope) (d : Css.Declaration) : List Use :=
  if d.property.isEmpty then if d.isBlockSlot then [⟨wholeRequest scope "" d.value, []⟩] else []
  else if Css.Slot.present d.property then []
  else if Css.Slot.present (stripImportant d.value).1 then
    valueUses scope (camelCase d.property) (stripImportant d.value).1
  else []

/-- Whether a slot has a value or entries for its place. -/
def Answers.gives (a : Answers) (request : SlotRequest) : Bool :=
  match a.slot request with
  | .ok (.given _ _ _) => true
  | _ => false

/-- Whether all slots ahead in the text have a value. -/
def Use.isClear (a : Answers) (use : Use) : Bool :=
  use.ahead.all a.gives

theorem map_slot_pieceUses (base : SlotRequest) (ahead : List SlotRequest) (pieces : List Css.Slot.Piece) :
    (pieceUses base ahead pieces).map Use.slot = pieces.filterMap Css.Slot.Piece.index? := by
  induction pieces generalizing ahead with
  | nil => rfl
  | cons piece pieces ih =>
      cases piece with
      | text cs => exact ih ahead
      | slot index written => exact congrArg (index :: ·) (ih _)

/-- Requests made after others have these ahead. -/
theorem subset_ahead_of_mem_pieceUses {base : SlotRequest} {ahead : List SlotRequest}
    {pieces : List Css.Slot.Piece} {use : Use} (h : use ∈ pieceUses base ahead pieces) : ahead ⊆ use.ahead := by
  induction pieces generalizing ahead with
  | nil => cases h
  | cons piece pieces ih =>
      cases piece with
      | text cs => exact ih h
      | slot index written =>
          rcases List.mem_cons.mp h with rfl | h
          · exact List.Subset.refl _
          · exact List.Subset.trans (List.subset_append_left _ _) (ih h)

/-- Behind a slot that is omitted no request is clear. -/
theorem isClear_of_omitted {a : Answers} {base request : SlotRequest} {ahead : List SlotRequest}
    {pieces : List Css.Slot.Piece} (h : a.slot request = .ok .omit) :
    ∀ use ∈ pieceUses base (ahead ++ [request]) pieces, use.isClear a = false := by
  intro use huse
  have hrequest : request ∈ use.ahead :=
    subset_ahead_of_mem_pieceUses huse (List.mem_append_right _ List.mem_cons_self)
  rw [Use.isClear, List.all_eq_false]
  exact ⟨request, hrequest, by simp [Answers.gives, h]⟩

theorem map_slot_longhandUses (base : SlotRequest) (part : String × String) :
    (longhandUses base part).map Use.slot = Css.Slot.indices part.2 := by
  unfold longhandUses
  split
  · exact map_slot_pieceUses _ _ _
  · next habsent =>
      rw [Bool.not_eq_true, Css.Slot.present_eq_false_iff, ← Css.Slot.indices_eq] at habsent
      rw [habsent, List.map_nil]

/-- A value is asked for each of its slots once, in order, whether it is expanded or not. -/
theorem map_slot_valueUses (scope : Scope) (property value : String) :
    (valueUses scope property value).map Use.slot = Css.Slot.indices value := by
  unfold valueUses
  split
  · next hwhole => exact (Css.indices_of_isWhole hwhole).symm
  · split
    · next expansion hexpansion =>
        have hlonghand : ∀ part : String × String,
            (longhandUses (partRequest scope property value) part).map Use.slot = Css.Slot.indices part.2 :=
          map_slot_longhandUses _
        rw [List.map_flatMap, ← Css.flatMap_indices_valueTokens, ← map_snd_expandShorthand hexpansion,
          List.flatMap_map]
        simp only [hlonghand]
    · exact map_slot_pieceUses _ _ _

/-- A declaration is asked for its live slots, whatever the scope. -/
theorem map_slot_declarationUses (scope : Scope) (d : Css.Declaration) :
    (declarationUses scope d).map Use.slot = d.liveSlots := by
  unfold declarationUses Css.Declaration.liveSlots
  split
  · split
    · next hblock => exact (Css.indices_of_isWhole (Bool.and_eq_true_iff.mp hblock).2).symm
    · rfl
  · split
    · rfl
    · rw [← indices_stripImportant]
      split
      · exact map_slot_valueUses scope _ _
      · next habsent =>
          rw [Bool.not_eq_true, Css.Slot.present_eq_false_iff, ← Css.Slot.indices_eq] at habsent
          rw [habsent, List.map_nil]

/-! ## The requests of a rule -/

namespace Answers

variable (a : Answers)

mutual

/-- The requests for the slots of a rule in a scope: those of its declarations, then those of every nested
rule, once for each of its blocks. -/
def uses (scope : Scope) : Rule → List Use
  | ⟨_, declarations, nested, _⟩ => declarations.flatMap (declarationUses scope) ++ usesAll scope nested

/-- The requests for the slots of nested rules. -/
def usesAll (scope : Scope) : List Rule → List Use
  | [] => []
  | child :: rest =>
    (a.blocksFor scope child).flatMap (fun block => uses block.2.1 child) ++ usesAll scope rest

end

/-- The number of blocks that a nested rule makes: one for each member of a group of pseudo selectors, one
for another selector, and none if it is dropped. -/
def members (child : Rule) : Nat :=
  match a.fill child.selector (Css.Slot.indices child.selector) with
  | none => 0
  | some selector =>
    match nestedPaths? selector with
    | some paths => paths.length
    | none => if Css.isAtRule selector then 0 else 1

mutual

/-- The slots that a rule asks for, in order. -/
def visits : Rule → List Nat
  | ⟨_, declarations, nested, _⟩ => declarations.flatMap Css.Declaration.liveSlots ++ visitsAll nested

/-- The slots that nested rules ask for: those of each rule as often as it has members. -/
def visitsAll : List Rule → List Nat
  | [] => []
  | child :: rest => (List.replicate (a.members child) (visits child)).flatten ++ visitsAll rest

end

theorem length_blocksFor (scope : Scope) (child : Rule) :
    (a.blocksFor scope child).length = a.members child := by
  unfold blocksFor members
  cases a.fill child.selector (Css.Slot.indices child.selector) with
  | none => rfl
  | some selector =>
      dsimp only
      unfold blocksOf
      cases nestedPaths? selector with
      | some paths => rw [List.length_map, List.length_map]
      | none =>
          dsimp only
          split <;> rfl

theorem fst_of_mem_blocksFor {scope : Scope} {child : Rule} {block : Rule × Scope × List Key}
    (h : block ∈ a.blocksFor scope child) : block.1 = child := by
  unfold blocksFor at h
  split at h
  · cases h
  · obtain ⟨inner, -, rfl⟩ := List.mem_map.mp h
    rfl

theorem usesAll_eq_flatMap (scope : Scope) (rules : List Rule) :
    a.usesAll scope rules = (a.blocks scope rules).flatMap fun block => a.uses block.2.1 block.1 := by
  induction rules with
  | nil => rfl
  | cons child rest ih =>
      rw [usesAll, ih, blocks, blocks, List.flatMap_cons, List.flatMap_append]
      exact congrArg (· ++ _) (List.flatMap_congr fun block hblock => by rw [a.fst_of_mem_blocksFor hblock])

theorem uses_eq (scope : Scope) (rule : Rule) :
    a.uses scope rule = rule.declarations.flatMap (declarationUses scope) ++
      (a.blocks scope rule.nested).flatMap fun block => a.uses block.2.1 block.1 := by
  obtain ⟨selector, declarations, nested, atRules⟩ := rule
  rw [uses, usesAll_eq_flatMap]

theorem visitsAll_eq_flatMap (rules : List Rule) :
    a.visitsAll rules =
      rules.flatMap fun child => (List.replicate (a.members child) (a.visits child)).flatten := by
  induction rules with
  | nil => rfl
  | cons child rest ih => rw [visitsAll, ih, List.flatMap_cons]

theorem visits_eq (rule : Rule) :
    a.visits rule = rule.declarations.flatMap Css.Declaration.liveSlots ++
      rule.nested.flatMap fun child => (List.replicate (a.members child) (a.visits child)).flatten := by
  obtain ⟨selector, declarations, nested, atRules⟩ := rule
  rw [visits, visitsAll_eq_flatMap]

/-- The slots that are requested do not depend on the scope. -/
theorem map_slot_uses (scope : Scope) (rule : Rule) : (a.uses scope rule).map Use.slot = a.visits rule := by
  induction rule using Css.Rule.induction generalizing scope with
  | step rule ih =>
      rw [uses_eq, visits_eq, List.map_append, List.map_flatMap, List.map_flatMap, blocks, List.flatMap_assoc]
      congr 1
      · exact List.flatMap_congr fun d _ => map_slot_declarationUses scope d
      · refine List.flatMap_congr fun child hchild => ?_
        rw [← a.length_blocksFor scope child, ← List.map_const', ← List.flatMap_def]
        exact List.flatMap_congr fun block hblock => by
          rw [a.fst_of_mem_blocksFor hblock]
          exact ih child hchild block.2.1

theorem flatten_replicate_subset (n : Nat) (slots : List Nat) : (List.replicate n slots).flatten ⊆ slots := by
  intro slot hslot
  obtain ⟨again, hagain, hslot⟩ := List.mem_flatten.mp hslot
  rwa [(List.mem_replicate.mp hagain).2] at hslot

/-- A slot that a rule asks for is a live one of a declaration in the rule tree. -/
theorem exists_of_mem_visits {rule : Rule} {slot : Nat} (h : slot ∈ a.visits rule) :
    ∃ inner ∈ rule.walk, ∃ d ∈ inner.declarations, slot ∈ d.liveSlots := by
  induction rule using Css.Rule.induction with
  | step rule ih =>
      obtain ⟨selector, declarations, nested, atRules⟩ := rule
      rw [visits_eq] at h
      rw [Css.Rule.walk, Css.Rule.walkAll_eq_flatMap]
      rcases List.mem_append.mp h with hown | hbelow
      · obtain ⟨d, hd, hslot⟩ := List.mem_flatMap.mp hown
        exact ⟨_, List.mem_cons_self, d, hd, hslot⟩
      · obtain ⟨child, hchild, hslot⟩ := List.mem_flatMap.mp hbelow
        obtain ⟨inner, hinner, hrest⟩ := ih child hchild (flatten_replicate_subset _ _ hslot)
        exact ⟨inner, List.mem_cons_of_mem _ (List.mem_flatMap.mpr ⟨child, hchild, hinner⟩), hrest⟩

theorem visits_subset (rule : Rule) : a.visits rule ⊆ rule.slots := by
  intro slot hslot
  obtain ⟨inner, hinner, d, hd, hlive⟩ := a.exists_of_mem_visits hslot
  exact List.mem_flatMap.mpr ⟨inner, hinner, List.mem_append_right _ (List.mem_flatMap.mpr
    ⟨d, hd, d.liveSlots_subset hlive⟩)⟩

/-- In the conversion of a rule tree a rule is converted this often: once for each way to choose a member
of every group of pseudo selectors around it. -/
inductive Repeats (root : Rule) : Rule → Nat → Prop where
  | root : Repeats root root 1
  | nested {rule child : Rule} {n : Nat} :
      Repeats root rule n → child ∈ rule.nested → Repeats root child (n * a.members child)

/-- A slot that stands at one place of a list is counted there alone. -/
theorem count_flatMap_of_mem {α : Type} {f g : α → List Nat} {xs : List α} {x : α} {slot : Nat}
    (hsub : ∀ y, g y ⊆ f y) (hone : (xs.flatMap f).count slot ≤ 1) (hx : x ∈ xs) (hslot : slot ∈ f x) :
    (xs.flatMap g).count slot = (g x).count slot ∧ (f x).count slot ≤ 1 := by
  obtain ⟨before, after, rfl⟩ := List.append_of_mem hx
  have hpos := List.count_pos_iff.mpr hslot
  rw [List.flatMap_append, List.flatMap_cons, List.count_append, List.count_append] at hone
  have hnone : ∀ ys : List α, (ys.flatMap f).count slot = 0 → (ys.flatMap g).count slot = 0 := by
    intro ys hys
    rw [List.count_eq_zero] at hys ⊢
    intro hmem
    obtain ⟨y, hy, hg⟩ := List.mem_flatMap.mp hmem
    exact hys (List.mem_flatMap.mpr ⟨y, hy, hsub y hg⟩)
  rw [List.flatMap_append, List.flatMap_cons, List.count_append, List.count_append, hnone before (by omega),
    hnone after (by omega)]
  omega

/-- The slots of a nested rule are asked for as often as it has members. -/
theorem count_visits_nested {rule child : Rule} {slot : Nat} (hone : rule.slots.count slot ≤ 1)
    (hchild : child ∈ rule.nested) (hslot : slot ∈ child.slots) :
    (a.visits rule).count slot = a.members child * (a.visits child).count slot ∧ child.slots.count slot ≤ 1 := by
  have hbelow : slot ∈ rule.nested.flatMap Rule.slots := List.mem_flatMap.mpr ⟨child, hchild, hslot⟩
  rw [Rule.slots_eq, List.count_append] at hone
  have hpos := List.count_pos_iff.mpr hbelow
  obtain ⟨hnested, hinner⟩ := count_flatMap_of_mem
    (fun inner => List.Subset.trans (flatten_replicate_subset (a.members inner) _) (a.visits_subset inner))
    (by omega) hchild hslot
  have hown : slot ∉ rule.declarations.flatMap Css.Declaration.liveSlots := by
    intro hmem
    obtain ⟨d, hd, hlive⟩ := List.mem_flatMap.mp hmem
    have hnone : rule.ownSlots.count slot = 0 := by omega
    exact List.count_eq_zero.mp hnone (List.mem_append_right _ (List.mem_flatMap.mpr
      ⟨d, hd, d.liveSlots_subset hlive⟩))
  refine ⟨?_, hinner⟩
  rw [visits_eq, List.count_append, List.count_eq_zero.mpr hown, Nat.zero_add, hnested, List.count_flatten,
    List.map_replicate, List.sum_replicate_nat]

/-- A live slot of a rule is asked for once when the rule is converted. -/
theorem count_visits_own {rule : Rule} {slot : Nat} {d : Css.Declaration} (hone : rule.slots.count slot ≤ 1)
    (hd : d ∈ rule.declarations) (hlive : slot ∈ d.liveSlots) : (a.visits rule).count slot = 1 := by
  have hmark : slot ∈ d.slots := d.liveSlots_subset hlive
  have hpos : 0 < (rule.declarations.flatMap Css.Declaration.slots).count slot :=
    List.count_pos_iff.mpr (List.mem_flatMap.mpr ⟨d, hd, hmark⟩)
  rw [Rule.slots_eq, List.count_append, Rule.ownSlots, List.count_append] at hone
  obtain ⟨hdeclared, hslots⟩ := count_flatMap_of_mem (f := Css.Declaration.slots)
    (g := Css.Declaration.liveSlots) (fun d => d.liveSlots_subset) (by omega) hd hmark
  have hnested : slot ∉ rule.nested.flatMap fun child =>
      (List.replicate (a.members child) (a.visits child)).flatten := by
    intro hmem
    obtain ⟨child, hchild, hfound⟩ := List.mem_flatMap.mp hmem
    have hnone : (rule.nested.flatMap Rule.slots).count slot = 0 := by omega
    exact List.count_eq_zero.mp hnone (List.mem_flatMap.mpr
      ⟨child, hchild, a.visits_subset child (flatten_replicate_subset _ _ hfound)⟩)
  have hlivePos := List.count_pos_iff.mpr hlive
  have hliveLe : d.liveSlots.count slot ≤ d.slots.count slot := d.liveSlots_sublist.count_le slot
  rw [visits_eq, List.count_append, hdeclared, List.count_eq_zero.mpr hnested]
  omega

/-- A rule below asks for its slots in each of its conversions. -/
theorem count_visits_of_repeats {root rule : Rule} {n slot : Nat} (h : a.Repeats root rule n)
    (hone : root.slots.count slot ≤ 1) (hslot : slot ∈ rule.slots) :
    (a.visits root).count slot = n * (a.visits rule).count slot ∧ rule.slots.count slot ≤ 1 := by
  induction h with
  | root => exact ⟨(Nat.one_mul _).symm, hone⟩
  | @nested rule child n _ hchild ih =>
      have hbelow : slot ∈ rule.nested.flatMap Rule.slots := List.mem_flatMap.mpr ⟨child, hchild, hslot⟩
      obtain ⟨hcount, hrule⟩ := ih (by rw [Rule.slots_eq]; exact List.mem_append_right _ hbelow)
      obtain ⟨hnested, hinner⟩ := a.count_visits_nested hrule hchild hslot
      exact ⟨by rw [hcount, hnested, Nat.mul_assoc], hinner⟩

/-- A live slot with one mark in the rule tree is asked for once in every conversion of its rule. -/
theorem count_visits {root rule : Rule} {n slot : Nat} {d : Css.Declaration} (h : a.Repeats root rule n)
    (hone : root.slots.count slot = 1) (hd : d ∈ rule.declarations) (hlive : slot ∈ d.liveSlots) :
    (a.visits root).count slot = n := by
  have hown : slot ∈ rule.ownSlots :=
    List.mem_append_right _ (List.mem_flatMap.mpr ⟨d, hd, d.liveSlots_subset hlive⟩)
  obtain ⟨hcount, hrule⟩ := a.count_visits_of_repeats h hone.le
    (by rw [Rule.slots_eq]; exact List.mem_append_left _ hown)
  rw [hcount, a.count_visits_own hrule hd hlive, Nat.mul_one]

end Answers

end Restyle.Style
