import Restyle.Proofs.Playback

/-!
# What additions leave of each other

Lowering is lossless for a component if the values that its selectors for children, for components inside and
for attributes add are still in their entries when all is done, those aside that a later selector for the same
thing and under the same condition sets again.  An entry is a plain table for the additions, though: what a
later one names is replaced, with all conditions and pseudo-elements that it had.  So a value stays exactly
if the last addition that names the key over it brings it along.
-/

namespace Restyle.Style.Object

theorem has_topKey_of_held? {o : Object} {path : List Key} {property condition : Key} {value : Value}
    (h : o.held? path property condition = some value) : o.has (topKey path property) = true := by
  rw [has]
  cases hget : o.get? (topKey path property) with
  | some v => rfl
  | none =>
      cases path with
      | nil =>
          rw [held?, choice?, show o.get? property = none from hget] at h
          cases h
      | cons key path =>
          rw [held?, show o.get? key = none from hget] at h
          cases h

end Restyle.Style.Object

namespace Restyle.Lowering

open Restyle.Style (Key Value Object)

namespace Addition

/-- Whether an addition is for something else than the component after a sibling. -/
def isSelected (a : Addition) : Bool :=
  match a.target with
  | .sibling _ _ => false
  | _ => true

/-- Whether a later addition for the same thing and under the same condition sets a property. -/
def Superseded (a : Addition) (later : List Addition) (path : List Key) (property : Key) : Prop :=
  ∃ b ∈ later, b.target = a.target ∧ b.condition = a.condition ∧
    ∃ condition, (b.value? path property condition).isSome = true

end Addition

/-- The values that selectors add are in the entries that lowering leaves behind, unless they are set again. -/
def Lossless (settings : Settings) (name : String) (arena : Arena) : Prop :=
  ∀ c, (ended (lowerAll settings) arena).get? name = some c →
    ∀ before a later, additions settings name arena = before ++ a :: later → a.isSelected = true →
      ∀ path property condition value, a.value? path property condition = some value →
        (Addition.entryOf c.extraStyles a.entry).held? path property condition = some value ∨
          a.Superseded later path property

/-- What an addition names has in the end the value of the last addition from there on that names it. -/
theorem get?_entryOf_lowerAll {settings : Settings} {name : String} {arena : Arena} {c c' : Component}
    (hc : arena.get? name = some c) (hbodies : DistinctBodies c.styles)
    (hc' : (ended (lowerAll settings) arena).get? name = some c') {before later : List Addition}
    {a : Addition} (hlog : additions settings name arena = before ++ a :: later) {key : Key}
    (hkey : a.styles.has key = true) :
    (Addition.entryOf c'.extraStyles a.entry).get? key =
      ((Addition.lastNaming later a.entry key).getD a).styles.get? key := by
  obtain ⟨⟨d, hd, hextra⟩, hwell⟩ := extraStyles_lowerAll settings hc hbodies
  cases hc'.symm.trans hd
  rw [hlog] at hextra hwell
  have ha : a.WellFormed := hwell a (List.mem_append_right _ List.mem_cons_self)
  have hlater : ∀ b ∈ later, b.body.keys.Nodup :=
    fun b hb => (hwell b (List.mem_append_right _ (List.mem_cons_of_mem _ hb))).distinct
  have hnames : a.names a.entry key = true := by
    rw [Addition.names, beq_self_eq_true, hkey, Bool.true_and]
  rw [hextra, List.foldl_append, List.foldl_cons, Addition.get?_foldl_addTo hlater]
  cases Addition.lastNaming later a.entry key with
  | some b => rfl
  | none => exact (Addition.get?_addTo ha.distinct _ _ _).trans (if_pos hnames)

theorem Addition.of_lastNaming {additions : List Addition} {entry : String} {key : Key} {b : Addition}
    (h : lastNaming additions entry key = some b) : b ∈ additions ∧ b.names entry key = true :=
  List.mem_filter.mp (List.mem_of_getLast? h)

/-- Lowering is lossless exactly if the last addition over a value brings it along or is for the same thing. -/
theorem lossless_iff {settings : Settings} {name : String} {arena : Arena} {c : Component}
    (hc : arena.get? name = some c) (hbodies : DistinctBodies c.styles) :
    Lossless settings name arena ↔
      ∀ before a later, additions settings name arena = before ++ a :: later → a.isSelected = true →
        ∀ path property condition value, a.value? path property condition = some value →
          a.Superseded later path property ∨
            ∀ b, Addition.lastNaming later a.entry (Object.topKey path property) = some b →
              b.styles.held? path property condition = some value := by
  obtain ⟨⟨c', hc', -⟩, hwell⟩ := extraStyles_lowerAll settings hc hbodies
  -- what the entry holds in the end is what the last addition over the value holds
  have hheld : ∀ before a later, additions settings name arena = before ++ a :: later →
      ∀ path property condition value, a.value? path property condition = some value →
        ((Addition.entryOf c'.extraStyles a.entry).held? path property condition = some value ↔
          ∀ b, Addition.lastNaming later a.entry (Object.topKey path property) = some b →
            b.styles.held? path property condition = some value) := by
    intro before a later hlog path property condition value hvalue
    have ha : a.WellFormed := hwell a (hlog ▸ List.mem_append_right _ List.mem_cons_self)
    have hown := Addition.held?_of_value? ha hvalue
    rw [Object.held?_congr
      (get?_entryOf_lowerAll hc hbodies hc' hlog (Object.has_topKey_of_held? hown)) condition]
    cases Addition.lastNaming later a.entry (Object.topKey path property) with
    | none => exact iff_of_true hown nofun
    | some b => exact ⟨fun h d hd => Option.some.inj hd ▸ h, fun h => h b rfl⟩
  constructor
  · intro h before a later hlog hselected path property condition value hvalue
    rcases h c' hc' before a later hlog hselected path property condition value hvalue with hstays | hagain
    · exact .inr ((hheld before a later hlog path property condition value hvalue).mp hstays)
    · exact .inl hagain
  · intro h d hd before a later hlog hselected path property condition value hvalue
    cases hc'.symm.trans hd
    rcases h before a later hlog hselected path property condition value hvalue with hagain | hstays
    · exact .inr hagain
    · exact .inl ((hheld before a later hlog path property condition value hvalue).mpr hstays)

/-- A button with styles for the icon inside of it: always, and while the button is hovered. -/
def iconButton (always hovered : Object) : Component where
  name := "Button"
  styleKey := "button"
  base := "button"
  baseIsIntrinsic := true
  styles := [(.name "${Icon}", .obj always), (.name "&:hover ${Icon}", .obj hovered)]

/-- A module with such a button and the icon. -/
def iconModule (always hovered : Object) : Arena :=
  [("Button", iconButton always hovered),
    ("Icon", { name := "Icon", styleKey := "icon", base := "svg", baseIsIntrinsic := true })]

/-- Styles for different properties of one component inside do not touch each other. -/
theorem lossless_separateProperties :
    Lossless {} "Button" (iconModule [(.name "color", .text "red")] [(.name "opacity", .int 1)]) := by
  have hbodies :
      DistinctBodies (iconButton [(.name "color", .text "red")] [(.name "opacity", .int 1)]).styles := by
    intro key body hmem
    simp only [iconButton, List.mem_cons, List.not_mem_nil, or_false, Prod.mk.injEq,
      Value.obj.injEq] at hmem
    rcases hmem with ⟨-, rfl⟩ | ⟨-, rfl⟩ <;> decide
  have hkeys : (additions {} "Button"
      (iconModule [(.name "color", .text "red")] [(.name "opacity", .int 1)])).map (·.styles.keys) =
        [[.name "color"], [.name "opacity"]] := by decide +kernel
  obtain ⟨first, rest, hadditions, hfirst, hrest⟩ := List.map_eq_cons_iff.mp hkeys
  obtain ⟨second, none, rfl, hsecond, hnone⟩ := List.map_eq_cons_iff.mp hrest
  cases List.map_eq_nil_iff.mp hnone
  refine (lossless_iff rfl hbodies).mpr fun before a later hlog _ path property condition value hvalue => ?_
  refine .inr fun b hb => ?_
  obtain ⟨hlater, hnames⟩ := Addition.of_lastNaming hb
  obtain ⟨-, hover⟩ := Bool.and_eq_true_iff.mp hnames
  have ha := (extraStyles_lowerAll {} rfl hbodies).2 a (hlog ▸ List.mem_append_right _ List.mem_cons_self)
  have hown := Object.has_topKey_of_held? (Addition.held?_of_value? ha hvalue)
  rw [Object.has_iff_mem_keys] at hover hown
  -- the additions name different keys, so the second is not over a value of the first
  cases before with
  | nil =>
      cases hadditions.symm.trans hlog
      cases List.mem_singleton.mp hlater
      rw [hfirst] at hown
      rw [hsecond] at hover
      have hsame := (List.mem_singleton.mp hown).symm.trans (List.mem_singleton.mp hover)
      exact absurd hsame (by decide)
  | cons x before =>
      cases before with
      | nil =>
          cases hadditions.symm.trans hlog
          cases hlater
      | cons y before => simpa using congrArg List.length (hadditions.symm.trans hlog)

/-- The styles while the button is hovered take the place of those that always hold. -/
theorem not_lossless_sameProperty :
    ¬ Lossless {} "Button"
      (iconModule [(.name "color", .text "red")] [(.name "color", .text "blue")]) := by
  intro h
  have hlog : (additions {} "Button"
      (iconModule [(.name "color", .text "red")] [(.name "color", .text "blue")])).map
        (fun a => (a.entry, a.isSelected, a.condition,
          (a.value? [] (.name "color") Key.default).bind Value.text?)) =
      [("iconInButton", true, none, some "red"),
        ("iconInButton", true, some (Key.ancestor ":hover"), none)] := by decide +kernel
  have hfinal : ((ended (lowerAll {})
      (iconModule [(.name "color", .text "red")] [(.name "color", .text "blue")])).get? "Button").map
        (fun c => ((Addition.entryOf c.extraStyles "iconInButton").held? [] (.name "color")
          Key.default).bind Value.text?) = some none := by decide +kernel
  obtain ⟨first, rest, hadditions, hfirst, hrest⟩ := List.map_eq_cons_iff.mp hlog
  obtain ⟨second, none, rfl, hsecond, hnone⟩ := List.map_eq_cons_iff.mp hrest
  cases List.map_eq_nil_iff.mp hnone
  obtain ⟨c, hc, hc'⟩ := Option.map_eq_some_iff.mp hfinal
  simp only [Prod.mk.injEq] at hfirst hsecond
  obtain ⟨hentry, hselected, hcondition, hred⟩ := hfirst
  obtain ⟨value, hvalue, htext⟩ := Option.bind_eq_some_iff.mp hred
  rcases h c hc [] first [second] hadditions hselected _ _ _ value hvalue with hstays | ⟨b, hb, -, hsame, -⟩
  · rw [hentry] at hstays
    rw [hstays, Option.bind_some, htext] at hc'
    cases hc'
  · cases List.mem_singleton.mp hb
    rw [hcondition, hsecond.2.2.1] at hsame
    cases hsame

end Restyle.Lowering
