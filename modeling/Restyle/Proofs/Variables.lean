import Restyle.Proofs.Crossings

/-!
# Names of custom properties

The name of a custom property over which a value crosses is made of the style key of the component, of the
property, and of the other component with its pseudo state.  The parts are joined with the hyphens that separate
the words inside the parts, so that a name does not tell where the style key ends and the property starts.  Two
values get the same name where one style key goes on with words that the other property starts with, and then the
value that is defined later takes the place of the other.
-/

namespace Restyle.Lowering

open Restyle.Component (VariableInjection)
open Restyle.Style (Key Value Object)

/-! ## Names that run together -/

/-- The words of a style key. -/
def keyWords (c : Component) : List Char :=
  (Style.kebabCase c.styleKey).toList

/-- The words of a property. -/
def propertyWords (property : String) : List Char :=
  (Style.kebabCase (Text.dropLeading '-' property)).toList

/-- Two texts joined with a hyphen read like two others: they are the same, or words pass from one to the other. -/
def RunTogether (first second first' second' : List Char) : Prop :=
  (first = first' ∧ second = second') ∨
    (∃ words, first' = first ++ '-' :: words ∧ second = words ++ '-' :: second') ∨
    (∃ words, first = first' ++ '-' :: words ∧ second' = words ++ '-' :: second)

theorem joined_eq_iff (first second first' second' : List Char) :
    first ++ '-' :: second = first' ++ '-' :: second' ↔ RunTogether first second first' second' := by
  rw [List.append_eq_append_iff]
  constructor
  · rintro (⟨words, rfl, hrest⟩ | ⟨words, rfl, hrest⟩)
    · cases words with
      | nil => exact .inl ⟨(List.append_nil _).symm, (List.cons.inj hrest).2⟩
      | cons sign words =>
          obtain ⟨rfl, hwords⟩ := List.cons.inj hrest
          exact .inr (.inl ⟨words, rfl, hwords⟩)
    · cases words with
      | nil => exact .inl ⟨List.append_nil _, ((List.cons.inj hrest).2).symm⟩
      | cons sign words =>
          obtain ⟨rfl, hwords⟩ := List.cons.inj hrest
          exact .inr (.inr ⟨words, rfl, hwords⟩)
  · rintro (⟨rfl, rfl⟩ | ⟨words, rfl, rfl⟩ | ⟨words, rfl, rfl⟩)
    · exact .inl ⟨[], by simp⟩
    · exact .inl ⟨'-' :: words, by simp⟩
    · exact .inr ⟨'-' :: words, by simp⟩

instance (first second first' second' : List Char) : Decidable (RunTogether first second first' second') :=
  decidable_of_iff _ (joined_eq_iff first second first' second')

/-- Custom properties for the same state of the same component have the same name if their other parts run together. -/
theorem bridgeVariable_eq_iff (c d : Component) (property other : String) (parent : Component) (pseudo : String) :
    bridgeVariable c property parent pseudo = bridgeVariable d other parent pseudo ↔
      RunTogether (keyWords c) (propertyWords property) (keyWords d) (propertyWords other) := by
  have hparts : ∀ c property, (bridgeVariable c property parent pseudo).toList =
      ['-', '-'] ++ ((keyWords c ++ '-' :: propertyWords property) ++
        ("-on-" ++ Style.kebabCase parent.styleKey ++ "-" ++ hyphenated pseudo).toList) := by
    intro c property
    simp [bridgeVariable, keyWords, propertyWords]
  rw [← joined_eq_iff, ← String.toList_inj, hparts, hparts, List.append_right_inj, List.append_left_inj]

/-! ## The crossings of an arena -/

/-- Values of different properties, or of different components, that depend on the same state of the same component. -/
structure Meet (c d : Component) (x y : Crossing) : Prop where
  target : x.target = y.target
  pseudo : x.pseudo = y.pseudo
  differ : (c.name, x.property) ≠ (d.name, y.property)

instance (c d : Component) (x y : Crossing) : Decidable (Meet c d x y) :=
  decidable_of_iff (x.target = y.target ∧ x.pseudo = y.pseudo ∧ (c.name, x.property) ≠ (d.name, y.property))
    ⟨fun h => ⟨h.1, h.2.1, h.2.2⟩, fun h => ⟨h.target, h.pseudo, h.differ⟩⟩

/-- Different values that depend on the same state of the same component have custom properties of their own. -/
def VariablesApart (arena : Arena) : Prop :=
  ∀ c ∈ arena.values, ∀ x ∈ crossings arena c, ∀ d ∈ arena.values, ∀ y ∈ crossings arena d,
    Meet c d x y → x.varName ≠ y.varName

instance (arena : Arena) : Decidable (VariablesApart arena) := by
  unfold VariablesApart
  infer_instance

/-- The style keys and properties of values that depend on the same state of the same component do not run together. -/
def WordsApart (arena : Arena) : Prop :=
  ∀ c ∈ arena.values, ∀ x ∈ crossings arena c, ∀ d ∈ arena.values, ∀ y ∈ crossings arena d,
    Meet c d x y → ¬ RunTogether (keyWords c) (propertyWords x.property) (keyWords d) (propertyWords y.property)

instance (arena : Arena) : Decidable (WordsApart arena) := by
  unfold WordsApart
  infer_instance

theorem variablesApart_iff {arena : Arena} (hnamed : Named arena) : VariablesApart arena ↔ WordsApart arena := by
  refine forall₂_congr fun c _ => forall₂_congr fun x hx => forall₂_congr fun d _ => forall₂_congr fun y hy => ?_
  refine forall_congr' fun hmeet => not_congr ?_
  obtain ⟨target, hxleads⟩ := exists_leads hnamed hx
  obtain ⟨target', hyleads⟩ := exists_leads hnamed hy
  have hfound := hyleads.found
  rw [← hmeet.target, hxleads.found] at hfound
  cases hfound
  rw [hxleads.varName, hyleads.varName, ← hmeet.pseudo, bridgeVariable_eq_iff]

/-! ## The last definition -/

/-- A custom property has, under a pseudo state, a value that one of a list of definitions gives it. -/
def Given (is : List VariableInjection) (i : VariableInjection) (styles : Object) : Prop :=
  ∃ o, styles.get? (.name i.varName) = some (.obj o) ∧
    ∃ j ∈ is, j.varName = i.varName ∧ j.pseudo = i.pseudo ∧ Object.get? o (.name i.pseudo) = some j.value

/-- A custom property has no plain value. -/
def NotPlain (i : VariableInjection) (styles : Object) : Prop :=
  ∀ value, styles.get? (.name i.varName) = some value → value.isObject = true

section

variable {is : List VariableInjection} {i j : VariableInjection} {styles : Object}

theorem exists_defined (h : NotPlain i styles) :
    ∃ o, defined styles i = styles.set (.name i.varName) (.obj (Object.set o (.name i.pseudo) i.value)) := by
  unfold defined definition
  cases hget : styles.get? (.name i.varName) with
  | none => exact ⟨[(Key.default, .null)], rfl⟩
  | some value =>
      have hobject := h value hget
      cases value with
      | obj o => exact ⟨o, rfl⟩
      | _ => cases hobject

theorem given_defined (hi : i ∈ is) (h : NotPlain i styles) : Given is i (defined styles i) := by
  obtain ⟨o, ho⟩ := exists_defined h
  rw [ho]
  exact ⟨_, Object.get?_set_self _ _ _, i, hi, rfl, rfl, Object.get?_set_self _ _ _⟩

theorem Given.notPlain (h : Given is i styles) : NotPlain i styles := by
  obtain ⟨o, ho, -⟩ := h
  intro value hvalue
  cases ho.symm.trans hvalue
  rfl

/-- A later definition gives the custom property another value from the list, or leaves it as it is. -/
theorem Given.defined (h : Given is i styles) (hj : j ∈ is) : Given is i (defined styles j) := by
  by_cases hname : j.varName = i.varName
  · by_cases hpseudo : j.pseudo = i.pseudo
    · have hplain : NotPlain j styles := by
        rw [NotPlain, hname]
        exact h.notPlain
      have hgiven := given_defined hj hplain
      rw [Given, hname, hpseudo] at hgiven
      exact hgiven
    · obtain ⟨o, ho, k, hk, hvarName, hstate, hvalue⟩ := h
      rw [Lowering.defined, definition, hname, ho]
      refine ⟨_, Object.get?_set_self _ _ _, k, hk, hvarName, hstate, ?_⟩
      rw [Object.get?_set_of_ne _ _ fun heq => hpseudo (Key.name.inj heq), hvalue]
  · rw [Given, get?_defined_of_ne hname]
    exact h

theorem NotPlain.defined (h : NotPlain i styles) (j : VariableInjection) : NotPlain i (defined styles j) := by
  intro value hvalue
  unfold Lowering.defined at hvalue
  split at hvalue
  · by_cases hname : Key.name j.varName = .name i.varName
    · rw [hname, Object.get?_set_self] at hvalue
      cases hvalue
      rfl
    · rw [Object.get?_set_of_ne _ _ hname] at hvalue
      exact h value hvalue
  · exact h value hvalue

theorem Given.foldl_defined {js : List VariableInjection} (hjs : ∀ j ∈ js, j ∈ is) (h : Given is i styles) :
    Given is i (js.foldl Lowering.defined styles) := by
  induction js generalizing styles with
  | nil => exact h
  | cons j js ih =>
      obtain ⟨hj, hrest⟩ := List.forall_mem_cons.mp hjs
      exact ih hrest (h.defined hj)

/-- After a row of definitions every one of them has given its custom property a value, or a later one has. -/
theorem given_foldl_defined {js : List VariableInjection} (hjs : ∀ j ∈ js, j ∈ is) (hi : i ∈ js)
    (h : NotPlain i styles) : Given is i (js.foldl Lowering.defined styles) := by
  induction js generalizing styles with
  | nil => cases hi
  | cons j js ih =>
      obtain ⟨hj, hrest⟩ := List.forall_mem_cons.mp hjs
      rw [List.foldl_cons]
      rcases List.mem_cons.mp hi with rfl | hi
      · exact (given_defined hj h).foldl_defined hrest
      · exact ih hrest hi (h.defined j)

end

/-! ## Values that stay -/

/-- Every component keeps a value of its own in the definition of every custom property that it depends on. -/
def KeepsOwn (arena after : Arena) : Prop :=
  ∀ c ∈ arena.values, ∀ x ∈ crossings arena c, ∃ target o, after.get? x.target = some target ∧
    target.styles.get? (.name x.varName) = some (.obj o) ∧
    ∃ y ∈ crossings arena c, y.property = x.property ∧ y.target = x.target ∧ y.pseudo = x.pseudo ∧
      Object.get? o (.name x.pseudo) = some y.value

theorem get?_of_mem_values {arena : Arena} (hnames : arena.names.Nodup) (hnamed : Named arena) {c : Component}
    (hc : c ∈ arena.values) : arena.get? c.name = some c := by
  obtain ⟨entry, hentry, rfl⟩ := List.mem_map.mp hc
  have hget := Table.get?_of_mem hnames hentry
  rw [hnamed _ _ hget, hget]

theorem exists_crossing_of_mem_definitions {arena : Arena} (hnone : arena.All fun c => c.injections = [])
    {i : VariableInjection} (hi : i ∈ definitions arena) :
    ∃ c ∈ arena.values, ∃ y ∈ crossings arena c, y.toVariableInjection = i := by
  obtain ⟨c, hc, hi⟩ := List.mem_flatMap.mp hi
  obtain ⟨entry, hentry, rfl⟩ := List.mem_map.mp hc
  rw [hnone entry hentry, List.nil_append] at hi
  obtain ⟨y, hy, rfl⟩ := List.mem_map.mp hi
  exact ⟨entry.2, hc, y, hy, rfl⟩

/-- Values with custom properties of their own are not overwritten by those of other components. -/
theorem keepsOwn_of_variablesApart {settings : Settings} {s s' : Session Arena} (hnames : s.store.names.Nodup)
    (hnamed : Named s.store) (hkeys : s.store.All DistinctKeys) (hnone : s.store.All fun c => c.injections = [])
    (hrun : (ancestor.run settings).run s = (.ok ⟨⟩, s')) (h : VariablesApart s.store) :
    KeepsOwn s.store s'.store := by
  intro c hc x hx
  obtain ⟨target, hleads⟩ := exists_leads hnamed hx
  obtain ⟨target', htarget', hstyles⟩ := styles_run_ancestor hnames hkeys hrun hleads.found
  have hmem := mem_definitions (get?_of_mem_values hnames hnamed hc) hx
  have hplain : NotPlain x.toVariableInjection (crossedStyles s.store target) := by
    intro value hvalue
    by_contra hleaf
    exact not_plainlyDeclared_of_run hnames hkeys hrun
      ⟨_, hmem, target, value, hleads.found, hvalue, Bool.eq_false_iff.mpr hleaf⟩
  have hin : x.toVariableInjection ∈ definitionsIn x.target s.store :=
    List.mem_filter.mpr ⟨hmem, beq_iff_eq.mpr rfl⟩
  obtain ⟨o, ho, j, hj, hvarName, hpseudo, hvalue⟩ := given_foldl_defined (fun _ hj => hj) hin hplain
  obtain ⟨hj, htarget⟩ := List.mem_filter.mp hj
  obtain ⟨d, hd, y, hy, rfl⟩ := exists_crossing_of_mem_definitions hnone hj
  have htarget := beq_iff_eq.mp htarget
  refine ⟨target', o, htarget', hstyles ▸ ho, ?_⟩
  by_cases hdiffer : (c.name, x.property) = (d.name, y.property)
  · obtain ⟨hname, hproperty⟩ := Prod.mk.inj hdiffer
    have hsame := get?_of_mem_values hnames hnamed hd
    rw [← hname, get?_of_mem_values hnames hnamed hc] at hsame
    cases hsame
    exact ⟨y, hy, hproperty.symm, htarget, hpseudo, hvalue⟩
  · exact absurd hvarName.symm (h c hc x hx d hd y hy ⟨htarget.symm, hpseudo.symm, hdiffer⟩)

/--
Values of different components or properties that depend on the same state of the same component have different
custom properties exactly if the words of their style keys and properties do not run together.  The pass then comes
to its end unless a custom property has a plain value, and no value takes the place of another component's.
-/
theorem ancestor_variablesApart_iff (settings : Settings) {s : Session Arena} (hnames : s.store.names.Nodup)
    (hnamed : Named s.store) (hkeys : s.store.All DistinctKeys) (hnone : s.store.All fun c => c.injections = []) :
    (VariablesApart s.store ↔ WordsApart s.store) ∧
      (WordsApart s.store → ¬ PlainlyDeclared s.store →
        ∃ s', (ancestor.run settings).run s = (.ok ⟨⟩, s') ∧ KeepsOwn s.store s'.store) := by
  refine ⟨variablesApart_iff hnamed, fun hwords hplain => ?_⟩
  obtain ⟨_, s', hrun⟩ :=
    Work.exists_run_of_not_stops (mt (stops_ancestor_iff_plainlyDeclared settings hnames hkeys).mp hplain)
  exact ⟨s', hrun, keepsOwn_of_variablesApart hnames hnamed hkeys hnone hrun ((variablesApart_iff hnamed).mpr hwords)⟩

/-- A component with a value that depends on its card being hovered. -/
def hoveredInCard (name styleKey property : String) (value : Value) : String × Component :=
  tagged name styleKey [(.name "$\x7bCard\x7d:hover &", .obj [(.name property, value)])]

/-- A card with a box and a component with another style key inside. -/
def cardWithBox (other otherKey : String) : Arena :=
  [tagged "Card" "card" [], hoveredInCard "Box" "box" "borderColor" (.text "red"),
    hoveredInCard other otherKey "color" (.text "blue")]

theorem injections_cardWithBox (other otherKey : String) :
    (cardWithBox other otherKey).All fun c => c.injections = [] := by
  simp [Table.All, cardWithBox, hoveredInCard, tagged]

/-- The box and a title keep their values. -/
theorem ancestor_variablesApart_title :
    VariablesApart (cardWithBox "Title" "title") ∧ ∃ s',
      (ancestor.run {}).run { store := cardWithBox "Title" "title" } = (.ok ⟨⟩, s') ∧
        KeepsOwn (cardWithBox "Title" "title") s'.store := by
  have hkeys : (cardWithBox "Title" "title").All DistinctKeys := all_distinctKeys (by decide)
  have hundeclared : Undeclared (cardWithBox "Title" "title") := by decide
  have hwords : WordsApart (cardWithBox "Title" "title") := by decide
  obtain ⟨hiff, hkeeps⟩ := ancestor_variablesApart_iff {} (s := { store := cardWithBox "Title" "title" }) (by decide)
    (named_of_forall (by decide)) hkeys (injections_cardWithBox _ _)
  exact ⟨hiff.mpr hwords, hkeeps hwords (hundeclared.not_plainlyDeclared hkeys)⟩

/-- The border color of the box goes over a custom property of the card. -/
def boxBorderColor : Crossing where
  target := "Card"
  varName := "--box-border-color-on-card-hover"
  pseudo := ":hover"
  value := .text "red"
  source := "Box"
  property := "borderColor"

/-- The text that a custom property has under a pseudo state. -/
def definedText? (c : Component) (varName pseudo : String) : Option String := do
  let entry ← c.styles.get? (.name varName)
  let o ← entry.entries?
  let value ← Object.get? o (.name pseudo)
  value.text?

/-- The border color of a box and the color of a box border have the same custom property, and the red is lost. -/
theorem not_variablesApart_boxBorder :
    ((cardWithBox "BoxBorder" "boxBorder").values.map (·.styleKey)).Nodup ∧
      ¬ VariablesApart (cardWithBox "BoxBorder" "boxBorder") ∧ ∃ s',
      (ancestor.run {}).run { store := cardWithBox "BoxBorder" "boxBorder" } = (.ok ⟨⟩, s') ∧
        (∃ card, s'.store.get? "Card" = some card ∧
          definedText? card "--box-border-color-on-card-hover" ":hover" = some "blue") ∧
        ¬ KeepsOwn (cardWithBox "BoxBorder" "boxBorder") s'.store := by
  have hnames : (cardWithBox "BoxBorder" "boxBorder").names.Nodup := by decide
  have hkeys : (cardWithBox "BoxBorder" "boxBorder").All DistinctKeys := all_distinctKeys (by decide)
  have hcard : Table.get? (cardWithBox "BoxBorder" "boxBorder") "Card" = some (tagged "Card" "card" []).2 := rfl
  obtain ⟨s', hrun⟩ := exists_run_ancestor {} (s := { store := cardWithBox "BoxBorder" "boxBorder" }) hnames hkeys
    (by decide)
  obtain ⟨card, hget, hstyles⟩ := styles_run_ancestor hnames hkeys hrun hcard
  have hblue : definedText? card "--box-border-color-on-card-hover" ":hover" = some "blue" := by
    rw [definedText?, hstyles]
    decide
  refine ⟨by decide, by decide, s', hrun, ⟨card, hget, hblue⟩, fun hkeeps => ?_⟩
  obtain ⟨target, o, htarget, ho, y, hy, -, -, -, hvalue⟩ :=
    hkeeps _ (List.mem_cons_of_mem _ List.mem_cons_self) boxBorderColor (List.mem_singleton.mpr rfl)
  cases hget.symm.trans htarget
  obtain rfl : y = boxBorderColor := List.mem_singleton.mp hy
  have hred : definedText? card "--box-border-color-on-card-hover" ":hover" = some "red" := by
    simp only [boxBorderColor] at ho hvalue
    simp [definedText?, ho, hvalue, Value.entries?, Value.text?]
  exact absurd (hred.symm.trans hblue) (by decide)

end Restyle.Lowering
