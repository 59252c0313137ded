import Restyle.Proofs.Enclosure
import Restyle.Proofs.Folding
import Restyle.Proofs.Marks

/-!
# The cascade of a static rule

A rule without slots contributes its declarations in reading order, each inside of the blocks around it.
Its style object holds the last value that is contributed to a property outside of conditions, and the last
one directly below each condition; everything further below a condition is dropped and reported.
-/

namespace Restyle.Text

/-! ## Signs that open the keys of blocks -/

/-- The characters that the key of a pseudo-class, a pseudo-element or an at-rule starts with. -/
def opensKey (c : Char) : Bool :=
  c == ':' || c == '@'

theorem opensKey_ofNat {n : Nat} (h : 64 < n) : opensKey (Char.ofNat n) = false := by
  have hcolon : Char.ofNat n ≠ ':' := ofNat_ne (Nat.lt_trans (by decide) h) (by decide)
  have hat : Char.ofNat n ≠ '@' := ofNat_ne h (by decide)
  simp [opensKey, hcolon, hat]

theorem lt_upperShifts : ∀ row ∈ upperShifts, ((64 : Nat) : Int) < row.1 + row.2.2.2 :=
  lt_of_all_shifts (by decide)

theorem opensKey_expansion {table : Array (Nat × List Nat)}
    (htable : ∀ row ∈ table, ∀ n ∈ row.2, 64 < n) {n : Nat} {cs : List Char}
    (h : expansion? table n = some cs) : ∀ c ∈ cs, opensKey c = false := by
  obtain ⟨row, hfind, rfl⟩ := Option.map_eq_some_iff.mp h
  intro c hc
  obtain ⟨m, hm, rfl⟩ := List.mem_map.mp hc
  exact opensKey_ofNat (htable row (Array.mem_of_find?_eq_some hfind) m hm)

/-- The characters of an expansion lie above a bound, decided row by row. -/
theorem lt_of_all_expansions {table : Array (Nat × List Nat)} {bound : Nat}
    (h : table.toList.all (fun row => row.2.all (Nat.blt bound)) = true) :
    ∀ row ∈ table, ∀ n ∈ row.2, bound < n := by
  intro row hrow n hn
  have habove := List.all_eq_true.mp h row (Array.mem_toList_iff.mpr hrow)
  exact Nat.blt_eq.mp (List.all_eq_true.mp habove n hn)

theorem lt_upperExpansions : ∀ row ∈ upperExpansions, ∀ n ∈ row.2, 64 < n :=
  lt_of_all_expansions (by decide)

theorem lt_titleExceptions : ∀ row ∈ titleExceptions, ∀ n ∈ row.2, 64 < n :=
  lt_of_all_expansions (by decide)

theorem opensKey_lowerChar {c : Char} (h : opensKey c = false) : ∀ d ∈ lowerChar c, opensKey d = false := by
  intro d hd
  unfold lowerChar at hd
  split at hd
  · rw [List.mem_singleton.mp hd]
    split
    · next hupper =>
        refine opensKey_ofNat ?_
        have hA : 'A'.toNat ≤ c.toNat := (Bool.and_eq_true_iff.mp hupper).1 |> of_decide_eq_true
        have hval : 'A'.toNat = 65 := by decide
        omega
    · exact h
  · next hascii =>
      split at hd
      · have hall : [Char.ofNat 0x69, Char.ofNat 0x307].all (fun e => !opensKey e) = true := by decide
        simpa using List.all_eq_true.mp hall d hd
      · rw [List.mem_singleton.mp hd]
        exact opensKey_ofNat (Nat.lt_trans (by decide) (lt_shiftBy lt_lowerShifts (by omega)))

theorem opensKey_upperChar {c : Char} (h : opensKey c = false) : ∀ d ∈ upperChar c, opensKey d = false := by
  intro d hd
  unfold upperChar at hd
  split at hd
  · rw [List.mem_singleton.mp hd]
    split
    · next hlower =>
        refine opensKey_ofNat ?_
        have ha : 'a'.toNat ≤ c.toNat := (Bool.and_eq_true_iff.mp hlower).1 |> of_decide_eq_true
        have hval : 'a'.toNat = 97 := by decide
        omega
    · exact h
  · next hascii =>
      split at hd
      · next cs hcs => exact opensKey_expansion lt_upperExpansions hcs d hd
      · rw [List.mem_singleton.mp hd]
        exact opensKey_ofNat (lt_shiftBy lt_upperShifts (by omega))

theorem opensKey_titleChar {c : Char} (h : opensKey c = false) : ∀ d ∈ titleChar c, opensKey d = false := by
  unfold titleChar
  split
  · exact opensKey_upperChar h
  · split
    · next cs hcs => exact opensKey_expansion lt_titleExceptions hcs
    · exact opensKey_upperChar h

theorem opensKey_lowerFrom (before : List Char) {cs : List Char} (h : ∀ c ∈ cs, opensKey c = false) :
    ∀ d ∈ lowerFrom before cs, opensKey d = false := by
  induction cs generalizing before with
  | nil => exact nofun
  | cons c cs ih =>
      obtain ⟨hc, hcs⟩ := List.forall_mem_cons.mp h
      intro d hd
      rcases List.mem_append.mp hd with hd | hd
      · split at hd
        · rw [List.mem_singleton.mp hd]
          decide
        · exact opensKey_lowerChar hc d hd
      · exact ih (c :: before) hcs d hd

theorem opensKey_lower {s : String} (h : ∀ c ∈ s.toList, opensKey c = false) :
    ∀ d ∈ (lower s).toList, opensKey d = false := by
  rw [lower, String.toList_ofList]
  exact opensKey_lowerFrom [] h

theorem opensKey_capitalize {s : String} (h : ∀ c ∈ s.toList, opensKey c = false) :
    ∀ d ∈ (capitalize s).toList, opensKey d = false := by
  rw [capitalize]
  cases hs : s.toList with
  | nil =>
      intro d hd
      cases hd
  | cons c cs =>
      rw [hs] at h
      obtain ⟨hc, hcs⟩ := List.forall_mem_cons.mp h
      rw [String.toList_ofList]
      exact List.forall_mem_append.mpr ⟨opensKey_titleChar hc, opensKey_lowerFrom [c] hcs⟩

theorem opensKey_of_isLetter {c : Char} (h : isLetter c = true ∨ c = '-') : opensKey c = false := by
  rcases h with h | rfl
  · cases hc : opensKey c with
    | false => rfl
    | true =>
        rcases Bool.or_eq_true_iff.mp hc with hc | hc <;>
        · cases beq_iff_eq.mp hc
          exact absurd h (by decide)
  · decide

theorem mem_of_mem_splitAt {sep : Char} {cs part : List Char} (h : part ∈ splitAt sep cs) :
    ∀ c ∈ part, c ∈ cs := by
  induction cs generalizing part with
  | nil =>
      cases List.mem_singleton.mp h
      exact nofun
  | cons d cs ih =>
      rw [splitAt] at h
      split at h
      · cases List.mem_singleton.mp h
        intro c hc
        cases List.mem_singleton.mp hc
        exact List.mem_cons_self
      · next first parts hparts =>
          rw [hparts] at ih
          intro c hc
          split at h
          · rcases List.mem_cons.mp h with rfl | h
            · cases hc
            · exact List.mem_cons_of_mem d (ih h c hc)
          · rcases List.mem_cons.mp h with rfl | h
            · rcases List.mem_cons.mp hc with rfl | hc
              · exact List.mem_cons_self
              · exact List.mem_cons_of_mem d (ih List.mem_cons_self c hc)
            · exact List.mem_cons_of_mem d (ih (List.mem_cons_of_mem first h) c hc)

end Restyle.Text

namespace Restyle.Style

/-! ## The keys of properties -/

theorem Key.isProperty_name {s : String} (h : ∀ c ∈ s.toList, Text.opensKey c = false)
    (hdefault : s ≠ "default") : (Key.name s).isProperty = true := by
  have hlead : ∀ (c : Char) (rest : List Char), Text.opensKey c = true →
      Text.startsWith (c :: rest) s.toList = false := by
    intro c rest hc
    rw [Text.startsWith]
    cases hs : s.toList with
    | nil => rfl
    | cons d cs =>
        have hne : c ≠ d := by
          rintro rfl
          cases (h c (by rw [hs]; exact List.mem_cons_self)).symm.trans hc
        simp [Text.after?, hne]
  have hcolon : Text.hasLead ":" s = false := hlead ':' [] rfl
  have helement : Text.hasLead "::" s = false := hlead ':' [':'] rfl
  have hat : Key.isConditionAtRuleText s = false := by
    have hmedia : Text.hasLead "@media" s = false := hlead '@' _ rfl
    have hsupports : Text.hasLead "@supports" s = false := hlead '@' _ rfl
    have hcontainer : Text.hasLead "@container" s = false := hlead '@' _ rfl
    rw [Key.isConditionAtRuleText, hmedia, hsupports, hcontainer]
    rfl
  simp [Key.isProperty, Key.isPseudoElement, Key.isCondition, Key.isPseudoClass, Key.isConditionAtRule,
    hcolon, helement, hat, hdefault]

/-- A property name of letters and hyphens keeps its token clear of the keys of blocks. -/
theorem opensKey_camelCase {property : String} (h : ∀ c ∈ property.toList, Text.opensKey c = false) :
    ∀ c ∈ (camelCase property).toList, Text.opensKey c = false := by
  have hname : ∀ c ∈ (Text.strip property).toList, Text.opensKey c = false := by
    rw [Text.strip, String.toList_ofList]
    exact fun c hc => h c ((Text.trim_infix _).subset hc)
  have hlower := Text.opensKey_lower hname
  have hparts : ∀ part ∈ ((Text.splitAt '-' (Text.lower (Text.strip property)).toList).filter
      fun part => !part.isEmpty).map String.ofList, ∀ c ∈ part.toList, Text.opensKey c = false := by
    intro part hpart c hc
    obtain ⟨cs, hcs, rfl⟩ := List.mem_map.mp hpart
    rw [String.toList_ofList] at hc
    exact hlower c (Text.mem_of_mem_splitAt (List.mem_of_mem_filter hcs) c hc)
  unfold camelCase
  dsimp only
  split
  · exact hname
  · split
    · exact hlower
    · next head rest hsplit =>
        rw [hsplit] at hparts
        obtain ⟨hhead, hrest⟩ := List.forall_mem_cons.mp hparts
        rw [String.toList_append]
        refine List.forall_mem_append.mpr ⟨?_, ?_⟩
        · split
          · exact Text.opensKey_capitalize hhead
          · exact hhead
        · intro c hc
          rw [String.toList_join, List.mem_flatMap] at hc
          obtain ⟨word, hword, hc⟩ := hc
          obtain ⟨part, hpart, rfl⟩ := List.mem_map.mp hword
          exact Text.opensKey_capitalize (hrest part hpart) c hc

theorem borderParts_of_distinctExpansion {used : List String} {parts expansion : Expansion}
    (h : distinctExpansion used parts = some expansion) : expansion = parts := by
  induction parts generalizing used expansion with
  | nil =>
      cases h
      rfl
  | cons part parts ih =>
      obtain ⟨longhand, token⟩ := part
      rw [distinctExpansion] at h
      split at h
      · cases h
      · obtain ⟨rest, hrest, rfl⟩ := Option.map_eq_some_iff.mp h
        rw [ih hrest]

theorem isProperty_borderLonghand :
    ∀ property ∈ borderShorthands, ∀ part ∈ [BorderPart.width, .style, .color],
      (Key.name (borderLonghand property part)).isProperty = true := by
  decide

theorem isProperty_animationLonghand (seen : List String) (times : Nat) (token : String) :
    (Key.name (animationLonghand seen times token)).isProperty = true := by
  unfold animationLonghand
  dsimp only
  repeat' split
  all_goals decide

theorem isProperty_of_animationFrom {seen : List String} {times : Nat} {tokens : List String}
    {expansion : Expansion} (h : animationFrom seen times tokens = some expansion) :
    ∀ part ∈ expansion, (Key.name part.1).isProperty = true := by
  induction tokens generalizing seen times expansion with
  | nil =>
      cases h
      exact nofun
  | cons token tokens ih =>
      rw [animationFrom] at h
      dsimp only at h
      split at h
      · cases h
      · obtain ⟨rest, hrest, rfl⟩ := Option.map_eq_some_iff.mp h
        exact List.forall_mem_cons.mpr ⟨isProperty_animationLonghand seen times token, ih hrest⟩

theorem isProperty_of_expandBox {property : String} (hproperty : property = "margin" ∨ property = "padding")
    {tokens : List String} {expansion : Expansion} (h : expandBox property tokens = some expansion) :
    ∀ part ∈ expansion, (Key.name part.1).isProperty = true := by
  have hall : ∀ suffix ∈ ["Block", "Inline", "Top", "Right", "Bottom", "Left"],
      (Key.name (property ++ suffix)).isProperty = true := by
    rcases hproperty with rfl | rfl <;> decide
  unfold expandBox at h
  split at h
  · cases h
    intro part hpart
    simp only [List.mem_cons, List.not_mem_nil, or_false] at hpart
    rcases hpart with rfl | rfl <;> exact hall _ (by simp)
  · cases h
    intro part hpart
    simp only [List.mem_cons, List.not_mem_nil, or_false] at hpart
    rcases hpart with rfl | rfl | rfl <;> exact hall _ (by simp)
  · cases h
    intro part hpart
    simp only [List.mem_cons, List.not_mem_nil, or_false] at hpart
    rcases hpart with rfl | rfl | rfl | rfl <;> exact hall _ (by simp)
  · cases h

theorem isProperty_backgroundColor : (Key.name "backgroundColor").isProperty = true := by decide

/-- The longhands of a shorthand are properties. -/
theorem isProperty_of_expandShorthand {property value : String} {expansion : Expansion}
    (h : expandShorthand property value = some expansion) :
    ∀ part ∈ expansion, (Key.name part.1).isProperty = true := by
  unfold expandShorthand at h
  dsimp only at h
  split at h
  · next hborder =>
      unfold expandBorder at h
      split at h
      · cases h
      · rw [borderParts_of_distinctExpansion h]
        intro part hpart
        obtain ⟨⟨token, i⟩, -, rfl⟩ := List.mem_map.mp hpart
        have hmem : property ∈ borderShorthands := by simpa [isBorderShorthand] using hborder
        refine isProperty_borderLonghand property hmem _ ?_
        generalize (if Css.Slot.present token then _ else _ : BorderPart) = kind
        cases kind <;> decide
  · split at h
    · next hbox =>
        refine isProperty_of_expandBox ?_ h
        simpa using hbox
    · split at h
      · unfold expandAnimation at h
        split at h
        · cases h
        · exact isProperty_of_animationFrom h
      · split at h
        · unfold expandBackground at h
          split at h
          · split at h
            · cases h
            · cases h
              intro part hpart
              rw [List.mem_singleton.mp hpart]
              exact isProperty_backgroundColor
          · cases h
        · cases h

theorem isObject_numberLiteral (text : String) : (numberLiteral text).isObject = false := by
  unfold numberLiteral
  split
  · rfl
  · split
    · split <;> rfl
    · rfl

/-- A static value is no object. -/
theorem isObject_normalizeValue (property raw : String) : (normalizeValue property raw).isObject = false := by
  unfold normalizeValue
  dsimp only
  split
  · rfl
  · split
    · split
      · exact isObject_numberLiteral _
      · split
        · split <;> rfl
        · rfl
    · rfl

/-! ## Static declarations -/

/-- A declaration without slots whose name is made of letters and hyphens; `default` is no property. -/
def isStaticDeclaration (d : Css.Declaration) : Bool :=
  !Css.Slot.present d.property && !Css.Slot.present d.value &&
    d.property.toList.all (fun c => Text.isLetter c || c == '-') && camelCase d.property != "default"

/-- The properties that a static value of a property sets, each with its own value. -/
def staticEntries (property value : String) : List (Key × Value) :=
  match expandShorthand property value with
  | some expansion =>
    expansion.map fun (longhand, token) => (.name longhand, normalizeValue longhand token)
  | none => [(.name property, normalizeValue property value)]

/-- The properties that a declaration sets, each with its value; without a name it sets none. -/
def declared (d : Css.Declaration) : List (Key × Value) :=
  if d.property.isEmpty then [] else staticEntries (camelCase d.property) (stripImportant d.value).1

theorem setStatic_eq_foldl (obj : Object) (property value : String) :
    setStatic obj property value =
      (staticEntries property value).foldl (fun o entry => o.set entry.1 entry.2) obj := by
  rw [setStatic, staticEntries]
  cases expandShorthand property value with
  | none => rfl
  | some expansion =>
      dsimp only
      rw [List.foldl_map]

theorem isObject_of_mem_staticEntries (property value : String) :
    ∀ entry ∈ staticEntries property value, entry.2.isObject = false := by
  unfold staticEntries
  split
  · intro entry hentry
    obtain ⟨⟨longhand, token⟩, -, rfl⟩ := List.mem_map.mp hentry
    exact isObject_normalizeValue longhand token
  · intro entry hentry
    rw [List.mem_singleton.mp hentry]
    exact isObject_normalizeValue property value

theorem isProperty_of_mem_staticEntries {property : String} (h : (Key.name property).isProperty = true)
    (value : String) :
    ∀ entry ∈ staticEntries property value, entry.1.isProperty = true ∧ entry.2.isObject = false := by
  intro entry hentry
  refine ⟨?_, isObject_of_mem_staticEntries property value entry hentry⟩
  unfold staticEntries at hentry
  split at hentry
  · next expansion hexpansion =>
      obtain ⟨part, hpart, rfl⟩ := List.mem_map.mp hentry
      exact isProperty_of_expandShorthand hexpansion part hpart
  · rw [List.mem_singleton.mp hentry]
    exact h

theorem isProperty_camelCase {property : String}
    (h : property.toList.all (fun c => Text.isLetter c || c == '-') = true)
    (hdefault : camelCase property ≠ "default") : (Key.name (camelCase property)).isProperty = true := by
  refine Key.isProperty_name (opensKey_camelCase fun c hc => Text.opensKey_of_isLetter ?_) hdefault
  have hsign := List.all_eq_true.mp h c hc
  rwa [Bool.or_eq_true, beq_iff_eq] at hsign

theorem isProperty_of_mem_declared {d : Css.Declaration} (h : isStaticDeclaration d = true) :
    ∀ entry ∈ declared d, entry.1.isProperty = true ∧ entry.2.isObject = false := by
  obtain ⟨hrest, hdefault⟩ := Bool.and_eq_true_iff.mp h
  obtain ⟨-, hletters⟩ := Bool.and_eq_true_iff.mp hrest
  unfold declared
  split
  · exact nofun
  · exact isProperty_of_mem_staticEntries (isProperty_camelCase hletters (bne_iff_ne.mp hdefault)) _

theorem isPrefix_beforeWord? {word : String} {cs rest : List Char} (h : beforeWord? word cs = some rest) :
    rest <+: cs := by
  unfold beforeWord? at h
  dsimp only at h
  split at h
  · cases h
    exact List.take_prefix _ cs
  · cases h

theorem isPrefix_beforeImportant? {cs rest : List Char} (h : beforeImportant? cs = some rest) :
    rest <+: cs := by
  simp only [beforeImportant?, Option.bind_eq_bind, Option.bind_eq_some_iff] at h
  obtain ⟨before, hbefore, h⟩ := h
  split at h
  · cases h
    exact (Text.isPrefix_trimEnd _).trans ((List.dropLast_prefix _).trans ((Text.isPrefix_trimEnd _).trans
      ((isPrefix_beforeWord? hbefore).trans (Text.isPrefix_trimEnd cs))))
  · cases h

/-- A value without slots has none when its weight is gone. -/
theorem present_stripImportant {value : String} (h : Css.Slot.present value = false) :
    Css.Slot.present (stripImportant value).1 = false := by
  rw [Css.Slot.present_eq_false_iff] at h ⊢
  refine Css.Slot.slotsIn_eq_nil_of_isInfix ?_ h
  unfold stripImportant
  split
  · next rest hrest =>
      rw [String.toList_ofList]
      exact (Text.trim_infix rest).trans (isPrefix_beforeImportant? hrest).isInfix
  · rw [Text.strip, String.toList_ofList]
    exact Text.trim_infix _

section

variable {τ : Type}

/-- A declaration without slots sets what it declares, and at most notes the mark that it loses. -/
theorem run_convertDeclaration_fixed {d : Css.Declaration} (hname : Css.Slot.present d.property = false)
    (hvalue : Css.Slot.present d.value = false) (r : Resolver τ) (scope : Scope) (obj : Object)
    (s : Session τ) :
    ∃ marks, (convertDeclaration r scope obj d).run s =
      (.ok ((declared d).foldl (fun o entry => o.set entry.1 entry.2) obj), { s with important := marks }) ∧
      ((stripImportant d.value).2 = false → marks = s.important) := by
  cases hempty : d.property.isEmpty with
  | true =>
      have hblock : d.isBlockSlot = false := by
        rw [Css.Declaration.isBlockSlot, hempty, Bool.true_and]
        exact Css.Slot.isWhole_eq_false_of_not_present hvalue
      refine ⟨s.important, ?_, fun _ => rfl⟩
      rw [declared, if_pos hempty]
      simp [convertDeclaration, hempty, hblock]
  | false =>
      rw [convertDeclaration_named hempty hname]
      unfold setValue
      rw [present_stripImportant hvalue, if_neg Bool.false_ne_true, setStatic_eq_foldl, declared, hempty,
        if_neg Bool.false_ne_true]
      split
      · next hmark => exact ⟨s.important ++ [camelCase d.property], rfl, fun h => absurd hmark (by rw [h]; nofun)⟩
      · exact ⟨s.important, rfl, fun _ => rfl⟩

theorem run_convertDeclaration_static {d : Css.Declaration} (h : isStaticDeclaration d = true)
    (r : Resolver τ) (scope : Scope) (obj : Object) (s : Session τ) :
    ∃ marks, (convertDeclaration r scope obj d).run s =
      (.ok ((declared d).foldl (fun o entry => o.set entry.1 entry.2) obj), { s with important := marks }) := by
  simp only [isStaticDeclaration, Bool.and_eq_true, Bool.not_eq_true'] at h
  obtain ⟨⟨⟨hname, hvalue⟩, -⟩, -⟩ := h
  obtain ⟨marks, hrun, -⟩ := run_convertDeclaration_fixed hname hvalue r scope obj s
  exact ⟨marks, hrun⟩

theorem Represents.set_entries {o : Object} {cs : List Contribution} {blocks : List (List Key)}
    (h : Represents o cs blocks) {entries : List (Key × Value)}
    (hentries : ∀ entry ∈ entries, entry.1.isProperty = true ∧ entry.2.isObject = false) :
    Represents (entries.foldl (fun o entry => o.set entry.1 entry.2) o)
      (cs ++ entries.map fun entry => ⟨[], entry.1, entry.2⟩) blocks := by
  induction entries generalizing o cs with
  | nil => rwa [List.map_nil, List.append_nil]
  | cons entry entries ih =>
      obtain ⟨hentry, hrest⟩ := List.forall_mem_cons.mp hentries
      have hset := ih (h.set_leaf hentry.1 hentry.2) hrest
      rwa [List.append_assoc] at hset

end

end Restyle.Style

namespace Restyle.Css

theorem Rule.mem_walk_self (rule : Rule) : rule ∈ rule.walk := by
  obtain ⟨selector, declarations, nested, atRules⟩ := rule
  rw [Rule.walk]
  exact List.mem_cons_self

theorem Rule.walk_subset_walkAll {child : Rule} {rules : List Rule} (h : child ∈ rules) :
    child.walk ⊆ Rule.walkAll rules := by
  induction rules with
  | nil => cases h
  | cons rule rules ih =>
      rw [Rule.walkAll]
      rcases List.mem_cons.mp h with rfl | h
      · exact List.subset_append_left _ _
      · exact List.subset_append_of_subset_right _ (ih h)

theorem Rule.walkAll_subset_walk (rule : Rule) : Rule.walkAll rule.nested ⊆ rule.walk := by
  obtain ⟨selector, declarations, nested, atRules⟩ := rule
  rw [Rule.walk]
  exact List.subset_cons_self _ _

end Restyle.Css

namespace Restyle.Style

/-! ## Static rules -/

/--
A rule tree without slots in which every nested rule has key paths, and every property is a name of letters
and hyphens.
-/
def isStatic (rule : Css.Rule) : Bool :=
  rule.walk.all (fun rule => rule.declarations.all isStaticDeclaration) &&
    (Css.Rule.walkAll rule.nested).all fun child =>
      !Css.Slot.present child.selector && (nestedPaths? child.selector).isSome

theorem isStaticDeclaration_of_isStatic {rule : Css.Rule} (h : isStatic rule = true) {d : Css.Declaration}
    (hd : d ∈ rule.declarations) : isStaticDeclaration d = true :=
  List.all_eq_true.mp (List.all_eq_true.mp (Bool.and_eq_true_iff.mp h).1 rule rule.mem_walk_self) d hd

theorem isStatic_of_mem_nested {rule child : Css.Rule} (h : isStatic rule = true) (hc : child ∈ rule.nested) :
    isStatic child = true := by
  obtain ⟨hdeclarations, hselectors⟩ := Bool.and_eq_true_iff.mp h
  have hwalk := Css.Rule.walk_subset_walkAll hc
  refine Bool.and_eq_true_iff.mpr ⟨List.all_eq_true.mpr fun below hbelow => ?_,
    List.all_eq_true.mpr fun below hbelow => ?_⟩
  · exact List.all_eq_true.mp hdeclarations below (rule.walkAll_subset_walk (hwalk hbelow))
  · exact List.all_eq_true.mp hselectors below (hwalk (child.walkAll_subset_walk hbelow))

theorem selector_of_mem_nested {rule child : Css.Rule} (h : isStatic rule = true)
    (hc : child ∈ rule.nested) :
    Css.Slot.present child.selector = false ∧ ∃ paths, nestedPaths? child.selector = some paths := by
  have hmem := Css.Rule.walk_subset_walkAll hc child.mem_walk_self
  have hselector := List.all_eq_true.mp (Bool.and_eq_true_iff.mp h).2 child hmem
  rw [Bool.and_eq_true, Bool.not_eq_true'] at hselector
  exact ⟨hselector.1, Option.isSome_iff_exists.mp hselector.2⟩

/-- The key paths of the blocks that a nested rule opens, one for every member of its selector. -/
def keyPaths (selector : String) : List (List Key) :=
  ((nestedPaths? selector).getD []).map fun path => path.map Key.name

mutual

/--
What a rule contributes in reading order: its own declarations, then its nested rules, each of them once in
every block that it opens.
-/
def contributions : Css.Rule → List Contribution
  | ⟨_, declarations, nested, _⟩ =>
    (declarations.flatMap declared).map (fun entry => ⟨[], entry.1, entry.2⟩) ++ contributionsAll nested

/-- What nested rules contribute. -/
def contributionsAll : List Css.Rule → List Contribution
  | [] => []
  | child :: rest =>
    (keyPaths child.selector).flatMap (fun path => (contributions child).map (Contribution.inside path)) ++
      contributionsAll rest

end

mutual

/-- The blocks that a rule opens, itself included. -/
def blockPaths : Css.Rule → List (List Key)
  | ⟨_, _, nested, _⟩ => [] :: blockPathsAll nested

/-- The blocks that nested rules open. -/
def blockPathsAll : List Css.Rule → List (List Key)
  | [] => []
  | child :: rest =>
    (keyPaths child.selector).flatMap (fun path => (blockPaths child).map (path ++ ·)) ++ blockPathsAll rest

end

theorem nil_mem_blockPaths (rule : Css.Rule) : [] ∈ blockPaths rule := by
  obtain ⟨selector, declarations, nested, atRules⟩ := rule
  rw [blockPaths]
  exact List.mem_cons_self

theorem opensBlock_of_mem_keyPaths {selector : String} {path : List Key} (h : path ∈ keyPaths selector) :
    ∀ key ∈ path, key.opensBlock = true := by
  obtain ⟨names, hnames, rfl⟩ := List.mem_map.mp h
  cases hpaths : nestedPaths? selector with
  | none =>
      rw [hpaths] at hnames
      cases hnames
  | some paths =>
      rw [hpaths] at hnames
      intro key hkey
      obtain ⟨name, hname, rfl⟩ := List.mem_map.mp hkey
      rcases key_of_nestedPaths? hpaths hnames name hname with helement | ⟨hcondition, hdefault⟩
      · rw [Key.opensBlock, helement, Bool.true_or]
      · have hne : Key.name name ≠ Key.default := fun heq => hdefault (Key.name.inj heq)
        rw [Key.opensBlock, Key.isBranch, hcondition, Bool.true_and, bne_iff_ne.mpr hne, Bool.or_true]

section

variable {τ : Type}

/-- Running to an object that represents contributions, with nothing changed but the lost weights. -/
def Converts (work : Work τ Object) (cs : List Contribution) (blocks : List (List Key)) : Prop :=
  ∀ s, ∃ o marks, work.run s = (.ok o, { s with important := marks }) ∧ Represents o cs blocks

theorem Converts.bind {work : Work τ Object} {next : Object → Work τ Object}
    {cs ds : List Contribution} {blocks further : List (List Key)} (h : Converts work cs blocks)
    (hnext : ∀ o, Represents o cs blocks → Converts (next o) ds further) :
    Converts (work >>= next) ds further := by
  intro s
  obtain ⟨o, marks, hrun, ho⟩ := h s
  obtain ⟨o', marks', hrun', ho'⟩ := hnext o ho { s with important := marks }
  exact ⟨o', marks', by rw [Work.run_bind_ok _ hrun, hrun'], ho'⟩

theorem converts_pure {o : Object} {cs : List Contribution} {blocks : List (List Key)}
    (h : Represents o cs blocks) : Converts (τ := τ) (pure o) cs blocks :=
  fun s => ⟨o, s.important, rfl, h⟩

theorem converts_declarations (r : Resolver τ) (scope : Scope) {declarations : List Css.Declaration}
    (hd : ∀ d ∈ declarations, isStaticDeclaration d = true) {o : Object} {cs : List Contribution}
    {blocks : List (List Key)} (h : Represents o cs blocks) :
    Converts (declarations.foldlM (convertDeclaration r scope) o)
      (cs ++ (declarations.flatMap declared).map fun entry => ⟨[], entry.1, entry.2⟩) blocks := by
  induction declarations generalizing o cs with
  | nil =>
      rw [List.flatMap_nil, List.map_nil, List.append_nil]
      exact converts_pure h
  | cons d declarations ih =>
      obtain ⟨hfirst, hrest⟩ := List.forall_mem_cons.mp hd
      rw [List.foldlM_cons, List.flatMap_cons, List.map_append, ← List.append_assoc]
      have hstep : Converts (convertDeclaration r scope o d)
          (cs ++ (declared d).map fun entry => ⟨[], entry.1, entry.2⟩) blocks := by
        intro s
        obtain ⟨marks, hrun⟩ := run_convertDeclaration_static hfirst r scope o s
        exact ⟨_, marks, hrun, h.set_entries (isProperty_of_mem_declared hfirst)⟩
      exact hstep.bind fun o' ho' => ih hrest ho'

theorem converts_mergeBody {o body : Object} {cs ds : List Contribution} {blocks further : List (List Key)}
    (ho : Represents o cs blocks) (hbody : Represents body ds further) (hfurther : [] ∈ further)
    {path : List Key} (hpath : ∀ key ∈ path, key.opensBlock = true) :
    Converts (τ := τ) (mergeBody o path body) (cs ++ ds.map (Contribution.inside path))
      (blocks ++ further.map (path ++ ·)) := by
  obtain ⟨o', hmerge, ho'⟩ := ho.exists_mergeAt hbody hpath hfurther
  rw [mergeBody, hmerge]
  exact converts_pure ho'

theorem converts_blocks (r : Resolver τ) {child : Css.Rule}
    (hchild : ∀ scope, Converts (convertRule r scope child) (contributions child) (blockPaths child))
    {paths : List (Scope × List Key)} (hpaths : ∀ path ∈ paths, ∀ key ∈ path.2, key.opensBlock = true)
    {o : Object} {cs : List Contribution} {blocks : List (List Key)} (h : Represents o cs blocks) :
    Converts (convertBlocks r child paths o)
      (cs ++ (paths.map Prod.snd).flatMap fun path => (contributions child).map (Contribution.inside path))
      (blocks ++ (paths.map Prod.snd).flatMap fun path => (blockPaths child).map (path ++ ·)) := by
  induction paths generalizing o cs blocks with
  | nil =>
      rw [List.map_nil, List.flatMap_nil, List.flatMap_nil, List.append_nil, List.append_nil]
      exact converts_pure h
  | cons path paths ih =>
      obtain ⟨hfirst, hrest⟩ := List.forall_mem_cons.mp hpaths
      rw [convertBlocks_cons, List.map_cons, List.flatMap_cons, List.flatMap_cons, ← List.append_assoc,
        ← List.append_assoc]
      refine Converts.bind ((hchild path.1).bind fun body hbody => ?_) fun o' ho' => ih hrest ho'
      exact converts_mergeBody h hbody (nil_mem_blockPaths child) hfirst

theorem converts_addNested (r : Resolver τ) (scope : Scope) {rule child : Css.Rule}
    (hrule : isStatic rule = true) (hc : child ∈ rule.nested)
    (hchild : ∀ scope, Converts (convertRule r scope child) (contributions child) (blockPaths child))
    {o : Object} {cs : List Contribution} {blocks : List (List Key)} (h : Represents o cs blocks) :
    Converts (addNested r scope o child)
      (cs ++ (keyPaths child.selector).flatMap fun path =>
        (contributions child).map (Contribution.inside path))
      (blocks ++ (keyPaths child.selector).flatMap fun path => (blockPaths child).map (path ++ ·)) := by
  obtain ⟨hslots, paths, hpaths⟩ := selector_of_mem_nested hrule hc
  have hindices : Css.Slot.indices child.selector = [] := by
    simpa [Css.Slot.present] using hslots
  have hkeys : (blocksOf scope child.selector).map Prod.snd = keyPaths child.selector := by
    simp [blocksOf, keyPaths, hpaths]
  rw [addNested, hindices, fillSelector, pure_bind, addFilled, hpaths, ← hkeys]
  simp only [Option.isNone_some, Bool.and_false, Bool.false_eq_true, if_false]
  refine converts_blocks r hchild (fun block hblock => ?_) h
  exact opensBlock_of_mem_keyPaths (hkeys ▸ List.mem_map_of_mem hblock)

/-- The raw object of a static rule represents what the rule contributes. -/
theorem converts_rule (r : Resolver τ) {rule : Css.Rule} (h : isStatic rule = true) (scope : Scope) :
    Converts (convertRule r scope rule) (contributions rule) (blockPaths rule) := by
  induction rule using Css.Rule.induction generalizing scope with
  | step rule ih =>
      obtain ⟨selector, declarations, nested, atRules⟩ := rule
      rw [convertRule, contributions, blockPaths]
      refine (converts_declarations r scope (fun d hd => isStaticDeclaration_of_isStatic h hd)
        represents_nil).bind fun o ho => ?_
      rw [List.nil_append] at ho
      rw [convertNested_eq_foldlM]
      have hnested : ∀ child ∈ nested, ∀ {o cs blocks}, Represents o cs blocks →
          Converts (addNested r scope o child)
            (cs ++ (keyPaths child.selector).flatMap fun path =>
              (contributions child).map (Contribution.inside path))
            (blocks ++ (keyPaths child.selector).flatMap fun path =>
              (blockPaths child).map (path ++ ·)) :=
        fun child hc _ _ _ ho => converts_addNested r scope h hc
          (ih child hc (isStatic_of_mem_nested h hc)) ho
      clear ih h
      -- the nested rules come one after the other, each behind all that is there already
      show Converts _ _ ([[]] ++ blockPathsAll nested)
      generalize (declarations.flatMap declared).map _ = cs at ho ⊢
      generalize [[]] = blocks at ho ⊢
      induction nested generalizing o cs blocks with
      | nil =>
          rw [contributionsAll, blockPathsAll, List.append_nil, List.append_nil]
          exact converts_pure ho
      | cons child nested ih =>
          obtain ⟨hfirst, hrest⟩ := List.forall_mem_cons.mp hnested
          rw [List.foldlM_cons, contributionsAll, blockPathsAll, ← List.append_assoc, ← List.append_assoc]
          exact (hfirst ho).bind fun o' ho' => ih o' hrest _ _ ho'

/-! ## Style objects and reports -/

/-- The report of a block that has no place in a style object. -/
def droppedReport (location : Option Location) (place : String) : Diagnostic :=
  { kind := .complexSelector, location, context := [("selector", .str place)] }

theorem run_reportDropped (location : Option Location) (places : List String) (s : Session τ) :
    ∃ d, (forIn places PUnit.unit fun place _ => do
        Work.report (droppedReport location place)
        pure (ForInStep.yield PUnit.unit)).run s = (.ok ⟨⟩, { s with diagnostics := d }) ∧
      d.items = s.diagnostics.items ++ places.map (droppedReport location) := by
  induction places generalizing s with
  | nil => exact ⟨s.diagnostics, rfl, (List.append_nil _).symm⟩
  | cons place places ih =>
      obtain ⟨d, hrun, hitems⟩ := ih { s with diagnostics := s.diagnostics.report (droppedReport location place) }
      refine ⟨d, ?_, ?_⟩
      · rw [List.forIn_cons, bind_assoc, Work.run_bind_ok _ (Work.run_report _ s)]
        exact hrun
      · rw [hitems]
        exact List.append_assoc s.diagnostics.items [droppedReport location place] _

/--
The styles and dropped places that follow from contributions and blocks.  A property holds the last value
outside of conditions, or null if there are only others, and the last one directly below each condition;
there are no other values.  The dropped blocks are those below a condition, which has all contributions
there.
-/
structure Cascades (cs : List Contribution) (blocks : List (List Key)) (styles : Object)
    (places : List String) : Prop where
  base : ∀ elements property value, (∀ key ∈ elements, key.isPseudoElement = true) →
    (styles.held? elements property Key.default = some value ↔
      Contribution.last cs elements property = some value ∨
        Contribution.last cs elements property = none ∧ value = .null ∧
          ∃ condition : Key, condition.isBranch = true ∧
            (Contribution.last cs (elements ++ [condition]) property).isSome = true)
  under : ∀ elements property condition, (∀ key ∈ elements, key.isPseudoElement = true) →
    condition.isBranch = true → styles.held? elements property condition =
      Contribution.last cs (elements ++ [condition]) property
  only : ∀ path property condition value, styles.held? path property condition = some value →
    (∀ key ∈ path, key.isPseudoElement = true) ∧ (condition = Key.default ∨ condition.isBranch = true)
  dropped : ∀ place, place ∈ places ↔ ∃ condition key : Key, condition.isBranch = true ∧
    (∃ elements : List Key, (∀ k ∈ elements, k.isPseudoElement = true) ∧
      ∃ block ∈ blocks, elements ++ [condition, key] <+: block) ∧
    place = condition.text ++ " " ++ key.text
  reported : ∀ c ∈ cs, ∀ (elements : List Key) (condition key : Key) (below : List Key),
    (∀ k ∈ elements, k.isPseudoElement = true) → condition.isBranch = true →
      c.path = elements ++ condition :: key :: below → condition.text ++ " " ++ key.text ∈ places

theorem Contribution.isSome_last {cs : List Contribution} {c : Contribution} (h : c ∈ cs) :
    (last cs c.path c.property).isSome = true := by
  rw [last, Option.isSome_map, List.find?_isSome]
  exact ⟨c, List.mem_reverse.mpr h, by simp⟩

/-- Folding an object that represents contributions makes their cascade. -/
theorem Represents.cascades {o : Object} {cs : List Contribution} {blocks : List (List Key)}
    (h : Represents o cs blocks) : Cascades cs blocks (flatten o).1 (flatten o).2 := by
  have hfolded := folded h.raw
  have hdropped : ∀ place, place ∈ (flatten o).2 ↔ ∃ condition key : Key, condition.isBranch = true ∧
      (∃ elements : List Key, (∀ k ∈ elements, k.isPseudoElement = true) ∧
        ∃ block ∈ blocks, elements ++ [condition, key] <+: block) ∧
      place = condition.text ++ " " ++ key.text := by
    intro place
    simp only [mem_dropped_flatten h.raw, Object.Nests, h.opens, and_assoc]
  refine ⟨fun elements property value helements => ?_, fun elements property condition helements hc => ?_,
    hfolded.only, hdropped, fun c hc elements condition key below helements hcondition hpath => ?_⟩
  · simp only [← h.plain]
    exact hfolded.base elements property value helements
  · rw [← h.plain]
    exact hfolded.under elements property condition helements hc
  · -- the contribution is found at its path, so the block around it has been opened
    have hsome := Contribution.isSome_last hc
    rw [← h.plain, Object.plain?] at hsome
    have hwithin : (o.within? c.path).isSome = true := by
      cases hinner : o.within? c.path with
      | none =>
          rw [hinner] at hsome
          cases hsome
      | some inner => rfl
    obtain ⟨block, hblock, hprefix⟩ := (h.opens c.path).mp hwithin
    refine (hdropped _).mpr ⟨condition, key, hcondition, ⟨elements, helements, block, hblock, ?_⟩, rfl⟩
    refine List.IsPrefix.trans ⟨below, ?_⟩ hprefix
    rw [hpath, List.append_assoc]
    rfl

/--
A static rule converts to the cascade of its contributions, and for everything that is dropped there is a
report.
-/
theorem convert_cascades {rule : Css.Rule} (h : isStatic rule = true) (r : Resolver τ) (s : Session τ) :
    ∃ styles places s', (convert r rule).run s = (.ok styles, s') ∧
      s'.diagnostics.items = s.diagnostics.items ++ places.map (droppedReport r.location) ∧
      Cascades (contributions rule) (blockPaths rule) styles places := by
  obtain ⟨o, marks, hrun, ho⟩ := converts_rule r h {} s
  obtain ⟨d, hreports, hitems⟩ :=
    run_reportDropped r.location (flatten o).2 { s with important := marks }
  refine ⟨(flatten o).1, (flatten o).2, { s with important := marks, diagnostics := d }, ?_, hitems,
    ho.cascades⟩
  rw [convert, Work.run_bind_ok _ hrun]
  exact Work.run_bind_ok _ hreports

end

/-- A rule with a group of pseudo-classes, a pseudo-element, and a pseudo-class inside of a media rule. -/
def sampleRule : Css.Rule where
  selector := "&"
  declarations := [⟨"color", "red"⟩, ⟨"border", "1px solid blue !important"⟩]
  nested :=
    [{ selector := "&:hover, &:focus", declarations := [⟨"color", "green"⟩] },
      { selector := "@media print", declarations := [⟨"margin-top", "0"⟩]
        nested := [{ selector := "&:hover", declarations := [⟨"color", "gray"⟩] }] },
      { selector := "&::before", declarations := [⟨"content", "x"⟩] }]

theorem cascades_sampleRule :
    isStatic sampleRule = true ∧
      (Contribution.last (contributions sampleRule) [] (.name "color")).bind Value.text? = some "red" ∧
      (Contribution.last (contributions sampleRule) [.name ":focus"] (.name "color")).bind Value.text? =
        some "green" ∧
      (Contribution.last (contributions sampleRule) [.name "@media print", .name ":hover"]
        (.name "color")).bind Value.text? = some "gray" ∧
      ∃ styles places s', (convert Resolver.none sampleRule).run { store := () } = (.ok styles, s') ∧
        s'.diagnostics.items = [] ++ places.map (droppedReport none) ∧
        Cascades (contributions sampleRule) (blockPaths sampleRule) styles places := by
  have hstatic : isStatic sampleRule = true := by decide
  exact ⟨hstatic, by decide, by decide, by decide,
    convert_cascades hstatic Resolver.none { store := () }⟩

end Restyle.Style
