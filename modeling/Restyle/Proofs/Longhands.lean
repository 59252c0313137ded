import Restyle.Proofs.Requests

/-!
# Longhands of shorthands

A shorthand that is expanded gives each of its tokens to one of its own longhands, in order and no longhand
twice.  A slot in a border takes a part that no static token has taken, unless it is the last token and all
that is static is a color: then it is taken for a second color.
-/

namespace Restyle.Style

/-! ## Expansions -/

/-- The longhands of an animation. -/
def animationLonghands : List String :=
  ["animationName", "animationDuration", "animationDelay", "animationTimingFunction", "animationIterationCount",
    "animationDirection", "animationFillMode", "animationPlayState"]

/-- The longhands that a shorthand may be expanded to. -/
def longhandsOf (property : String) : List String :=
  if isBorderShorthand property then ["Width", "Style", "Color"].map (property ++ ·)
  else if property == "margin" || property == "padding" then
    ["Top", "Right", "Bottom", "Left", "Block", "Inline"].map (property ++ ·)
  else if property == "animation" then animationLonghands
  else if property == "background" then ["backgroundColor"]
  else []

/-- Longhands are added one by one as long as they are different. -/
theorem distinctExpansion_eq_some_iff {used : List String} {parts expansion : Expansion} :
    distinctExpansion used parts = some expansion ↔
      expansion = parts ∧ (parts.map Prod.fst).Nodup ∧ ∀ name ∈ parts.map Prod.fst, name ∉ used := by
  induction parts generalizing used expansion with
  | nil => simp [distinctExpansion, eq_comm]
  | cons part parts ih =>
      obtain ⟨longhand, token⟩ := part
      rw [distinctExpansion, List.map_cons, List.nodup_cons, List.forall_mem_cons]
      by_cases hused : longhand ∈ used
      · simp [hused]
      · have hrest : ∀ rest, distinctExpansion (longhand :: used) parts = some rest ↔
            rest = parts ∧ longhand ∉ parts.map Prod.fst ∧ (parts.map Prod.fst).Nodup ∧
              ∀ name ∈ parts.map Prod.fst, name ∉ used := by
          intro rest
          rw [ih]
          constructor
          · rintro ⟨rfl, hnodup, havoid⟩
            exact ⟨rfl, fun hmem => havoid longhand hmem List.mem_cons_self, hnodup,
              fun name hname hmem => havoid name hname (List.mem_cons_of_mem _ hmem)⟩
          · rintro ⟨rfl, hfirst, hnodup, havoid⟩
            refine ⟨rfl, hnodup, fun name hname hmem => ?_⟩
            rcases List.mem_cons.mp hmem with rfl | hmem
            · exact hfirst hname
            · exact havoid name hname hmem
        rw [if_neg (by simpa using hused), Option.map_eq_some_iff]
        constructor
        · rintro ⟨rest, hread, rfl⟩
          obtain ⟨rfl, hfirst, hnodup, havoid⟩ := (hrest rest).mp hread
          exact ⟨rfl, ⟨hfirst, hnodup⟩, hused, havoid⟩
        · rintro ⟨rfl, ⟨hfirst, hnodup⟩, -, havoid⟩
          exact ⟨parts, (hrest parts).mpr ⟨rfl, hfirst, hnodup, havoid⟩, rfl⟩

/-! ## Borders -/

/-- The part of a border that the token at an index stands for. -/
def borderPartAt (tokens : List String) (token : String) (index : Nat) : BorderPart :=
  if Css.Slot.present token then inferBorderPart tokens index else borderPartOf token

/-- The parts of a border that its tokens stand for. -/
def borderParts (tokens : List String) : List BorderPart :=
  tokens.zipIdx.map fun (token, index) => borderPartAt tokens token index

theorem borderLonghand_injective (property : String) : Function.Injective (borderLonghand property) := by
  intro part part' h
  have hsuffix : part.suffix.toList = part'.suffix.toList := by
    have h := congrArg String.toList h
    rw [borderLonghand, borderLonghand, String.toList_append, String.toList_append] at h
    exact List.append_cancel_left h
  cases part <;> cases part' <;> first | rfl | exact absurd hsuffix (by decide)

theorem length_borderParts (tokens : List String) : (borderParts tokens).length = tokens.length := by
  rw [borderParts, List.length_map, List.length_zipIdx]

/-- A border is expanded exactly if it has several tokens and they stand for different parts. -/
theorem expandBorder_eq_some_iff {property : String} {tokens : List String} {expansion : Expansion} :
    expandBorder property tokens = some expansion ↔
      2 ≤ tokens.length ∧ (borderParts tokens).Nodup ∧
        expansion = ((borderParts tokens).map (borderLonghand property)).zip tokens := by
  have hparts : (tokens.zipIdx.map fun (token, index) =>
      (borderLonghand property (borderPartAt tokens token index), token)) =
        ((borderParts tokens).map (borderLonghand property)).zip tokens := by
    have hzip := @List.zip_map' _ _ _ (fun x => borderLonghand property (borderPartAt tokens x.1 x.2)) Prod.fst
      tokens.zipIdx
    rw [List.zipIdx_map_fst] at hzip
    rw [borderParts, List.map_map]
    exact hzip.symm
  have hnames : (((borderParts tokens).map (borderLonghand property)).zip tokens).map Prod.fst =
      (borderParts tokens).map (borderLonghand property) :=
    List.map_fst_zip (by rw [List.length_map, length_borderParts])
  have hexpand : expandBorder property tokens = if tokens.length < 2 then none else
      distinctExpansion [] (((borderParts tokens).map (borderLonghand property)).zip tokens) := by
    rw [← hparts]
    rfl
  rw [hexpand]
  split
  · next hshort => exact iff_of_false (fun h => by cases h) fun h => absurd h.1 (Nat.not_le.mpr hshort)
  · next hlong =>
      rw [distinctExpansion_eq_some_iff, hnames,
        List.nodup_map_iff (borderLonghand_injective property)]
      constructor
      · rintro ⟨heq, hnodup, -⟩
        exact ⟨Nat.not_lt.mp hlong, hnodup, heq⟩
      · rintro ⟨-, hnodup, heq⟩
        exact ⟨heq, hnodup, fun _ _ => List.not_mem_nil⟩

/-- Longhands of a shorthand, none of them twice. -/
structure AreLonghands (property : String) (names : List String) : Prop where
  distinct : names.Nodup
  known : names ⊆ longhandsOf property

theorem areLonghands_border {property : String} (hborder : isBorderShorthand property = true)
    {tokens : List String} {expansion : Expansion} (h : expandBorder property tokens = some expansion) :
    AreLonghands property (expansion.map Prod.fst) := by
  obtain ⟨-, hnodup, rfl⟩ := expandBorder_eq_some_iff.mp h
  rw [List.map_fst_zip (by rw [List.length_map, length_borderParts])]
  refine ⟨hnodup.map (borderLonghand_injective property), fun name hname => ?_⟩
  obtain ⟨part, -, rfl⟩ := List.mem_map.mp hname
  rw [longhandsOf, if_pos hborder]
  refine List.mem_map_of_mem (f := (property ++ ·)) ?_
  cases part <;> decide

/-! ## Other shorthands -/

theorem areLonghands_box {property : String} (hbox : property = "margin" ∨ property = "padding")
    {tokens : List String} {expansion : Expansion} (h : expandBox property tokens = some expansion) :
    AreLonghands property (expansion.map Prod.fst) := by
  have hsides : ∀ sides ∈ [["Block", "Inline"], ["Top", "Inline", "Bottom"], ["Top", "Right", "Bottom", "Left"]],
      AreLonghands property (sides.map (property ++ ·)) := by
    intro sides hsides
    constructor
    · rcases hbox with rfl | rfl <;> revert sides <;> decide
    · rcases hbox with rfl | rfl <;> revert sides <;> decide
  unfold expandBox at h
  split at h
  · cases h
    exact hsides ["Block", "Inline"] (by decide)
  · cases h
    exact hsides ["Top", "Inline", "Bottom"] (by decide)
  · cases h
    exact hsides ["Top", "Right", "Bottom", "Left"] (by decide)
  · cases h

/-- The tokens of an animation with the longhands they stand for. -/
def animationParts (seen : List String) (times : Nat) : List String → Expansion
  | [] => []
  | token :: tokens =>
    let longhand := animationLonghand seen times token
    let times := if isTime (Text.lower token) && times < 2 then times + 1 else times
    (longhand, token) :: animationParts (longhand :: seen) times tokens

theorem animationFrom_eq (seen : List String) (times : Nat) (tokens : List String) :
    animationFrom seen times tokens = distinctExpansion seen (animationParts seen times tokens) := by
  induction tokens generalizing seen times with
  | nil => rfl
  | cons token tokens ih =>
      rw [animationFrom, animationParts, distinctExpansion]
      dsimp only
      rw [ih]

theorem animationLonghand_mem (seen : List String) (times : Nat) (token : String) :
    animationLonghand seen times token ∈ animationLonghands := by
  unfold animationLonghand
  dsimp only
  repeat' split
  all_goals decide

theorem map_fst_animationParts_subset (seen : List String) (times : Nat) (tokens : List String) :
    (animationParts seen times tokens).map Prod.fst ⊆ animationLonghands := by
  induction tokens generalizing seen times with
  | nil => exact List.nil_subset _
  | cons token tokens ih =>
      exact List.cons_subset.mpr ⟨animationLonghand_mem seen times token, ih _ _⟩

theorem areLonghands_animation {value : String} {tokens : List String} {expansion : Expansion}
    (h : expandAnimation value tokens = some expansion) : AreLonghands "animation" (expansion.map Prod.fst) := by
  unfold expandAnimation at h
  split at h
  · cases h
  · rw [animationFrom_eq, distinctExpansion_eq_some_iff] at h
    obtain ⟨rfl, hnodup, -⟩ := h
    exact ⟨hnodup, map_fst_animationParts_subset [] 0 tokens⟩

theorem areLonghands_background {tokens : List String} {expansion : Expansion}
    (h : expandBackground tokens = some expansion) : AreLonghands "background" (expansion.map Prod.fst) := by
  unfold expandBackground at h
  split at h
  · split at h
    · cases h
    · cases h
      have hknown : ["backgroundColor"] ⊆ longhandsOf "background" := by decide
      exact ⟨List.nodup_singleton _, hknown⟩
  · cases h

theorem areLonghands_of_expandShorthand {property value : String} {expansion : Expansion}
    (h : expandShorthand property value = some expansion) : AreLonghands property (expansion.map Prod.fst) := by
  unfold expandShorthand at h
  dsimp only at h
  split_ifs at h with hborder hbox hanimation hbackground
  · exact areLonghands_border hborder h
  · exact areLonghands_box (by simpa using hbox) h
  · rw [beq_iff_eq] at hanimation
    subst hanimation
    exact areLonghands_animation h
  · rw [beq_iff_eq] at hbackground
    subst hbackground
    exact areLonghands_background h

/-- An expansion has the tokens of the value in order, each with a longhand of its own. -/
theorem expandShorthand_conserves {property value : String} {expansion : Expansion}
    (h : expandShorthand property value = some expansion) :
    expansion.map Prod.snd = Css.valueTokens value ∧ (expansion.map Prod.fst).Nodup ∧
      ∀ name ∈ expansion.map Prod.fst, name ∈ longhandsOf property := by
  obtain ⟨hdistinct, hknown⟩ := areLonghands_of_expandShorthand h
  exact ⟨map_snd_expandShorthand h, hdistinct, hknown⟩

/-- A border on top whose style is a slot. -/
def topBorder : Expansion :=
  [("borderTopWidth", "1px"), ("borderTopStyle", "__INTERPOLATION_0__"), ("borderTopColor", "rgb(0, 0, 0)")]

theorem expandShorthand_conserves_topBorder :
    expandShorthand "borderTop" " 1px  __INTERPOLATION_0__ rgb(0, 0, 0)" = some topBorder ∧
      topBorder.map Prod.snd = Css.valueTokens " 1px  __INTERPOLATION_0__ rgb(0, 0, 0)" ∧
      (topBorder.map Prod.fst).Nodup ∧ ∀ name ∈ topBorder.map Prod.fst, name ∈ longhandsOf "borderTop" := by
  have h : expandShorthand "borderTop" " 1px  __INTERPOLATION_0__ rgb(0, 0, 0)" = some topBorder := by
    decide +kernel
  exact ⟨h, expandShorthand_conserves h⟩

/-! ## Slots in borders -/

/-- The parts of a border that its static tokens take. -/
def staticParts (tokens : List String) : List BorderPart :=
  (tokens.filter fun token => !Css.Slot.present token).map borderPartOf

/-- A slot is taken for a part that is free, as long as there is one. -/
def InfersFree (tokens : List String) (index : Nat) : Prop :=
  (∃ part, part ∉ staticParts tokens) → inferBorderPart tokens index ∉ staticParts tokens

section

variable {tokens : List String} {index : Nat} {token : String}

/-- Besides a slot, all static tokens count. -/
theorem mem_takenParts_iff (htoken : tokens[index]? = some token) (hslot : Css.Slot.present token = true)
    (part : BorderPart) : part ∈ takenParts tokens index ↔ part ∈ staticParts tokens := by
  simp only [takenParts, staticParts, List.mem_filterMap, List.mem_map, List.mem_filter, Prod.exists,
    List.mem_zipIdx_iff_getElem?]
  constructor
  · rintro ⟨other, i, hother, htaken⟩
    split at htaken
    · next hstatic =>
        cases htaken
        exact ⟨other, ⟨List.mem_of_getElem? hother, (Bool.and_eq_true_iff.mp hstatic).2⟩, rfl⟩
    · cases htaken
  · rintro ⟨other, ⟨hmem, hstatic⟩, rfl⟩
    obtain ⟨i, hi⟩ := List.mem_iff_getElem?.mp hmem
    refine ⟨other, i, hi, if_pos ?_⟩
    have hne : i ≠ index := by
      rintro rfl
      rw [htoken] at hi
      cases hi
      rw [hslot] at hstatic
      cases hstatic
    simpa [hne] using hstatic

/-- A part that is taken is taken by another token. -/
theorem one_lt_length_of_mem_takenParts (hindex : index < tokens.length) {part : BorderPart}
    (h : part ∈ takenParts tokens index) : 1 < tokens.length := by
  obtain ⟨⟨other, i⟩, hother, htaken⟩ := List.mem_filterMap.mp h
  have hi := (List.getElem?_eq_some_iff.mp (List.mem_zipIdx_iff_getElem?.mp hother)).1
  have hne : i ≠ index := by
    rintro rfl
    simp at htaken
  dsimp only at hi
  omega

/-- If the color is free, so is what is inferred. -/
theorem inferBorderPart_not_mem_of_color (hcolor : .color ∉ takenParts tokens index) :
    inferBorderPart tokens index ∉ takenParts tokens index := by
  have hfree : ∀ {part}, part ∈ [BorderPart.width, .style, .color].filter
      (fun part => !(takenParts tokens index).contains part) → part ∉ takenParts tokens index := by
    intro part hpart
    simpa using (List.mem_filter.mp hpart).2
  unfold inferBorderPart
  dsimp only
  split
  · next part hremaining => exact hfree (by rw [hremaining]; exact List.mem_singleton_self part)
  · split_ifs with hmany hlast hfirst hmiddle
    · exact hcolor
    · exact hfree (List.contains_iff_mem.mp (Bool.and_eq_true_iff.mp hfirst).2)
    · exact hfree (List.contains_iff_mem.mp (Bool.and_eq_true_iff.mp hmiddle).2)
    · exact hcolor
    · exact hcolor

/-- If the color and one more part are taken, the third part is inferred. -/
theorem inferBorderPart_not_mem_of_two (hcolor : .color ∈ takenParts tokens index)
    (htwo : .width ∈ takenParts tokens index ∨ .style ∈ takenParts tokens index)
    (hfree : ∃ part, part ∉ takenParts tokens index) :
    inferBorderPart tokens index ∉ takenParts tokens index := by
  obtain ⟨part, hpart⟩ := hfree
  rcases htwo with hwidth | hstyle
  · have hstyle : .style ∉ takenParts tokens index := by
      cases part with
      | width => exact absurd hwidth hpart
      | style => exact hpart
      | color => exact absurd hcolor hpart
    simp [inferBorderPart, hwidth, hstyle, hcolor]
  · have hwidth : .width ∉ takenParts tokens index := by
      cases part with
      | width => exact hpart
      | style => exact absurd hstyle hpart
      | color => exact absurd hcolor hpart
    simp [inferBorderPart, hwidth, hstyle, hcolor]

/-- If the color alone is taken, the position decides, and the last token is taken for a second color. -/
theorem inferBorderPart_of_onlyColor (hindex : index < tokens.length)
    (hcolor : .color ∈ takenParts tokens index) (hwidth : .width ∉ takenParts tokens index)
    (hstyle : .style ∉ takenParts tokens index) :
    inferBorderPart tokens index =
      if index + 1 = tokens.length then .color else if index = 0 then .width else .style := by
  have hmany := one_lt_length_of_mem_takenParts hindex hcolor
  have hremaining : ([BorderPart.width, .style, .color].filter
      fun part => !(takenParts tokens index).contains part) = [.width, .style] := by
    simp [hcolor, hwidth, hstyle]
  unfold inferBorderPart
  simp only [hremaining, if_pos hmany]
  by_cases hlast : index + 1 = tokens.length
  · have hzero : index ≠ 0 := by omega
    simp [hlast, hzero]
  · have hbefore : index + 1 < tokens.length := by omega
    by_cases hzero : index = 0
    · simp [hzero, hmany.ne]
    · simp [hlast, hzero, Nat.pos_of_ne_zero hzero, hbefore]

end

/-- Some parts are all the color exactly if the color is among them and the others are not. -/
theorem onlyColor_iff (parts : List BorderPart) :
    (parts ≠ [] ∧ ∀ part ∈ parts, part = .color) ↔ .color ∈ parts ∧ .width ∉ parts ∧ .style ∉ parts := by
  constructor
  · rintro ⟨hne, hall⟩
    obtain ⟨part, hpart⟩ := List.exists_mem_of_ne_nil parts hne
    rw [hall part hpart] at hpart
    exact ⟨hpart, fun h => absurd (hall _ h) (by decide), fun h => absurd (hall _ h) (by decide)⟩
  · rintro ⟨hcolor, hwidth, hstyle⟩
    refine ⟨List.ne_nil_of_mem hcolor, fun part hpart => ?_⟩
    cases part with
    | width => exact absurd hpart hwidth
    | style => exact absurd hpart hstyle
    | color => rfl

/--
A slot in a border is taken for a part that is free, unless it is the last token and the static tokens, of which
there are some, are all colors: then it is taken for the color too, although the width and the style are free.
-/
theorem infersFree_iff {tokens : List String} {index : Nat} {token : String} (htoken : tokens[index]? = some token)
    (hslot : Css.Slot.present token = true) :
    InfersFree tokens index ↔
      ¬ (index + 1 = tokens.length ∧ staticParts tokens ≠ [] ∧ ∀ part ∈ staticParts tokens, part = .color) := by
  have hindex : index < tokens.length := (List.getElem?_eq_some_iff.mp htoken).1
  rw [onlyColor_iff, InfersFree]
  simp only [← mem_takenParts_iff htoken hslot]
  by_cases hcolor : .color ∈ takenParts tokens index
  · by_cases hothers : .width ∈ takenParts tokens index ∨ .style ∈ takenParts tokens index
    · have hnot : ¬ (.width ∉ takenParts tokens index ∧ .style ∉ takenParts tokens index) :=
        fun h => hothers.elim h.1 h.2
      exact iff_of_true (inferBorderPart_not_mem_of_two hcolor hothers) fun h => hnot h.2.2
    · obtain ⟨hwidth, hstyle⟩ := not_or.mp hothers
      rw [inferBorderPart_of_onlyColor hindex hcolor hwidth hstyle]
      by_cases hlast : index + 1 = tokens.length
      · rw [if_pos hlast]
        exact iff_of_false (fun h => h ⟨.width, hwidth⟩ hcolor) fun h => h ⟨hlast, hcolor, hwidth, hstyle⟩
      · rw [if_neg hlast]
        refine iff_of_true (fun _ => ?_) fun h => hlast h.1
        split
        · exact hwidth
        · exact hstyle
  · exact iff_of_true (fun _ => inferBorderPart_not_mem_of_color hcolor) fun h => hcolor h.2.1

/-- A slot before a color is taken for the width or the style. -/
theorem infersFree_beforeColor :
    Css.Slot.present "__INTERPOLATION_0__" = true ∧ InfersFree ["__INTERPOLATION_0__", "red"] 0 := by
  have hslot : Css.Slot.present "__INTERPOLATION_0__" = true := by decide +kernel
  have hindex : ["__INTERPOLATION_0__", "red"][0]? = some "__INTERPOLATION_0__" := rfl
  refine ⟨hslot, (infersFree_iff hindex hslot).mpr ?_⟩
  decide

/-- A slot behind a color is taken for a second color. -/
theorem not_infersFree_behindColor :
    Css.Slot.present "__INTERPOLATION_0__" = true ∧
      inferBorderPart ["red", "__INTERPOLATION_0__"] 1 = .color ∧
      ¬ InfersFree ["red", "__INTERPOLATION_0__"] 1 := by
  have hcolor : inferBorderPart ["red", "__INTERPOLATION_0__"] 1 = .color := by decide +kernel
  have hstatic : staticParts ["red", "__INTERPOLATION_0__"] = [.color] := by decide +kernel
  refine ⟨by decide +kernel, hcolor, fun h => ?_⟩
  rw [InfersFree, hcolor, hstatic] at h
  exact h ⟨.width, by decide⟩ (List.mem_singleton_self _)

end Restyle.Style
