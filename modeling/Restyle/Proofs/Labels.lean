import Restyle.Proofs.Reordering

/-!
# Keys of entries for attributes

The key of the entry for an attribute test ends in a label.  The label keeps the letters and digits of a value,
or of the name of the attribute where the value has none, and gives every word a capital; it says nothing of the
operator, and mostly nothing of the name of the attribute when there is a value.  Tests with the same label share
an entry, and then the styles of each of them are applied where any of them holds.
-/

namespace Restyle.Style

/-! ## What a label keeps -/

/-- The signs that the words of a label consist of. -/
def isWordSign (c : Char) : Bool :=
  Text.isAsciiLetter c || Text.isAsciiDigit c

/-- The letters and digits of a text, with capitals at the starts of words; `inWord` tells whether one came last. -/
def spoken (inWord : Bool) : List Char → List Char
  | [] => []
  | c :: cs =>
    if isWordSign c then (if inWord then [c] else Text.upperChar c) ++ spoken true cs
    else spoken false cs

theorem toList_upperFirst_cons (c : Char) (cs : List Char) :
    (Text.upperFirst (String.ofList (c :: cs))).toList = Text.upperChar c ++ cs := by
  rw [Text.upperFirst, String.toList_ofList]
  exact String.toList_ofList

/-- The words of a text with their capitals, where the word that is being read starts with `current`. -/
theorem flatMap_runs (current cs : List Char) :
    (Text.runsFrom (fun c => !isWordSign c) current cs).flatMap
        (fun part => (Text.upperFirst (String.ofList part)).toList) =
      if current = [] then spoken false cs
      else (Text.upperFirst (String.ofList current.reverse)).toList ++ spoken true cs := by
  induction cs generalizing current with
  | nil =>
      rw [Text.runsFrom]
      cases current with
      | nil => rfl
      | cons d ds => simp [spoken]
  | cons c cs ih =>
      rw [Text.runsFrom]
      cases hsign : isWordSign c with
      | false =>
          rw [if_pos (by simp)]
          cases current with
          | nil => simp [ih, spoken, hsign]
          | cons d ds => simp [ih, spoken, hsign]
      | true =>
          rw [if_neg (by simp), ih, if_neg (List.cons_ne_nil c current), List.reverse_cons]
          cases hopen : current.reverse with
          | nil =>
              rw [List.reverse_eq_nil_iff.mp hopen, if_pos rfl, List.nil_append, toList_upperFirst_cons]
              simp [spoken, hsign]
          | cons d ds =>
              rw [if_neg fun hnil => by simp [hnil] at hopen, List.cons_append, toList_upperFirst_cons,
                toList_upperFirst_cons]
              simp [spoken, hsign]

theorem toList_camelize (text : String) : (camelize text).toList = spoken false text.toList := by
  have hruns := flatMap_runs [] text.toList
  rw [if_pos rfl] at hruns
  rw [camelize, String.toList_join, List.flatMap_map]
  exact hruns

theorem toNat_lt_of_isWordSign {c : Char} (h : isWordSign c = true) : c.toNat < 128 := by
  have hle : c.toNat ≤ 'z'.toNat := by
    simp only [isWordSign, Text.isAsciiLetter, Text.isAsciiLower, Text.isAsciiUpper, Text.isAsciiDigit, Bool.or_eq_true,
      Bool.and_eq_true, decide_eq_true_eq] at h
    rcases h with (⟨-, hle⟩ | ⟨-, hle⟩) | ⟨-, hle⟩ <;> exact Nat.le_trans hle (by decide)
  exact Nat.lt_of_le_of_lt hle (by decide)

theorem upperChar_ne_nil {c : Char} (h : isWordSign c = true) : Text.upperChar c ≠ [] := by
  rw [Text.upperChar, if_pos (toNat_lt_of_isWordSign h)]
  exact List.cons_ne_nil _ _

/-- A text without letters and digits has no label. -/
theorem spoken_eq_nil_iff (inWord : Bool) (cs : List Char) :
    spoken inWord cs = [] ↔ cs.any isWordSign = false := by
  induction cs generalizing inWord with
  | nil => simp [spoken]
  | cons c cs ih =>
      rw [spoken, List.any_cons]
      cases hsign : isWordSign c with
      | false => simpa using ih false
      | true =>
          rw [if_pos rfl, Bool.true_or]
          refine iff_of_false (fun hnil => ?_) (by decide)
          have hfirst := (List.append_eq_nil_iff.mp hnil).1
          split at hfirst
          · cases hfirst
          · exact upperChar_ne_nil hsign hfirst

end Restyle.Style

namespace Restyle.Lowering

open Restyle.Component (AttributeSelector)
open Restyle.Style (Key Value Object camelize isWordSign spoken)

/-! ## Labels of attribute tests -/

/-- The text that the label of an attribute test is made of. -/
def labelText (attr : String) (value : Option String) : String :=
  match attr, value with
  | "target", some "_blank" => "External"
  | "href", some "https" => "Https"
  | "href", some ".pdf" => "Pdf"
  | _, some v => if v.toList.any isWordSign then v else attr
  | _, none => attr

theorem camelize_isEmpty (text : String) : (camelize text).isEmpty = !text.toList.any isWordSign := by
  rw [Bool.eq_iff_iff, String.isEmpty_iff, ← String.toList_eq_nil_iff, Style.toList_camelize,
    Style.spoken_eq_nil_iff, Bool.not_eq_true']

/-- A value without letters and digits gives way to the name of the attribute. -/
theorem label_of_value (attr value : String) :
    (if value.isEmpty || (camelize value).isEmpty then camelize attr else camelize value) =
      camelize (if value.toList.any isWordSign then value else attr) := by
  have hempty : value.isEmpty = true → value.toList.any isWordSign = false := fun h => by
    rw [String.isEmpty_iff.mp h]
    rfl
  rw [camelize_isEmpty]
  cases hany : value.toList.any isWordSign with
  | true =>
      have hsome : value.isEmpty = false := Bool.eq_false_iff.mpr fun h => by simp [hempty h] at hany
      rw [hsome]
      rfl
  | false =>
      rw [Bool.not_false, Bool.or_true]
      rfl

/-- The end of a key is the label of the test. -/
theorem attributeSuffix_eq (attr : String) (value : Option String) :
    attributeSuffix attr value = camelize (labelText attr value) := by
  unfold attributeSuffix
  split
  · decide
  · decide
  · decide
  · next v htarget hhttps hpdf =>
      unfold labelText
      split
      · next heq => exact (htarget rfl (Option.some.inj heq)).elim
      · next heq => exact (hhttps rfl (Option.some.inj heq)).elim
      · next heq => exact (hpdf rfl (Option.some.inj heq)).elim
      · next heq =>
          cases heq
          exact label_of_value _ _
      · next heq => cases heq
  · unfold labelText
    split
    · next heq => cases heq
    · next heq => cases heq
    · next heq => cases heq
    · next heq => cases heq
    · rfl

/-- Tests that read the same once their labels are cut down to letters and digits, with capitals at the starts of
words. -/
def AttributeTest.SameLabel (t u : AttributeTest) : Prop :=
  spoken false (labelText t.attr t.value).toList = spoken false (labelText u.attr u.value).toList

instance (t u : AttributeTest) : Decidable (t.SameLabel u) := by
  unfold AttributeTest.SameLabel
  infer_instance

theorem AttributeTest.sameLabel_iff (t u : AttributeTest) :
    t.SameLabel u ↔ attributeSuffix t.attr t.value = attributeSuffix u.attr u.value := by
  rw [SameLabel, attributeSuffix_eq, attributeSuffix_eq, ← Style.toList_camelize, ← Style.toList_camelize,
    String.toList_inj]

/-! ## The attribute selectors of a component -/

/-- The attribute selectors of a component: their tests and their bodies, in order. -/
def attributeRules (c : Component) : List (AttributeTest × Object) :=
  (rawSelectors c.styles).filterMap fun (selector, body) =>
    (attributeTest? (Text.strip selector)).map fun test => (test, body)

namespace AttributeTest

/-- Tests of the same attribute, with the same operator and the same value. -/
def SameTest (t u : AttributeTest) : Prop :=
  t.attr = u.attr ∧ t.operator = u.operator ∧ t.value = u.value

instance (t u : AttributeTest) : Decidable (t.SameTest u) := by
  unfold SameTest
  infer_instance

theorem SameTest.sameLabel {t u : AttributeTest} (h : t.SameTest u) : t.SameLabel u := by
  rw [sameLabel_iff, h.1, h.2.2]

/-- The key of the entry for a test. -/
def key (c : Component) (t : AttributeTest) : String :=
  c.styleKey ++ attributeSuffix t.attr t.value

theorem key_eq_iff (c : Component) (t u : AttributeTest) : t.key c = u.key c ↔ t.SameLabel u := by
  rw [sameLabel_iff, key, key, String.append_right_inj]

/-- The guard of the entry for a test. -/
def guard (c : Component) (t : AttributeTest) : AttributeSelector :=
  { styleKey := t.key c, attr := t.attr, operator := t.operator, value := t.value, pseudoElement := t.element }

/-- What a selector with a test adds to the entry. -/
def added (t : AttributeTest) (body : Object) : Object :=
  match t.element with
  | some element => [(.name element, .obj body)]
  | none => body

end AttributeTest

/-- The entries of a component after a selector with a test and a body. -/
def putRule (c : Component) (t : Table Object) (rule : AttributeTest × Object) : Table Object :=
  Addition.putEntry t (rule.1.key c) (rule.1.added rule.2)

theorem attributeSelectors_addExtra (c : Component) (key : String) (styles : Object) :
    (c.addExtra key styles).attributeSelectors = c.attributeSelectors := by
  unfold Component.addExtra
  split <;> rfl

/-- A selector with a test puts its body into the entry for the test, and adds the guard. -/
structure Guarded (c d d' : Component) (rules : List (AttributeTest × Object)) : Prop where
  entries : d'.extraStyles = rules.foldl (putRule c) d.extraStyles
  guards : d'.attributeSelectors = d.attributeSelectors ++ rules.map fun rule => rule.1.guard c

section

variable (settings : Settings) (arena : Arena)

/-- What the pass for attributes makes of a selector with a test. -/
theorem guarded_lower {c d : Component} (hkey : d.styleKey = c.styleKey) {selector : String} {test : AttributeTest}
    (htest : attributeTest? (Text.strip selector) = some test) (body : Object) :
    ∃ lowered, attributes.lower? settings arena d selector body = some lowered ∧
      lowered.component.styles = d.styles ∧ lowered.component.styleKey = c.styleKey ∧
        Guarded c d lowered.component [(test, body)] := by
  have hname : d.styleKey ++ attributeSuffix test.attr test.value = test.key c := by
    rw [AttributeTest.key, hkey]
  simp only [attributes, htest, Option.bind_eq_bind, Option.bind_some, hname]
  refine ⟨_, rfl, styles_addExtra _ _ _, (styleKey_addExtra _ _ _).trans hkey, ?_, ?_⟩
  · exact Addition.extraStyles_addExtra d (test.key c) (test.added body)
  · show (d.addExtra (test.key c) (test.added body)).attributeSelectors ++ _ = _
    rw [attributeSelectors_addExtra]
    rfl

/-- The pass for attributes deals with the selectors of a component one after the other. -/
theorem guarded_lowerEach {c : Component} (hkeys : DistinctKeys c) {selectors : List (String × Object)}
    (hselectors : ∀ entry ∈ selectors, entry ∈ rawSelectors c.styles) {d : Component} (hstyles : d.styles = c.styles)
    (hkey : d.styleKey = c.styleKey) :
    Guarded c d (lowerEach attributes settings arena d selectors).1
      (selectors.filterMap fun (selector, body) =>
        (attributeTest? (Text.strip selector)).map fun test => (test, body)) := by
  induction selectors generalizing d with
  | nil => exact ⟨rfl, (List.append_nil _).symm⟩
  | cons entry rest ih =>
      obtain ⟨selector, body⟩ := entry
      obtain ⟨hraw, hrest⟩ := List.forall_mem_cons.mp hselectors
      have hbody : currentBody d selector body = body := by
        refine currentBody_eq ?_ (hstyles ▸ hraw)
        rw [DistinctKeys, hstyles]
        exact hkeys
      rw [lowerEach, hbody, List.filterMap_cons]
      cases htest : attributeTest? (Text.strip selector) with
      | none =>
          simp only [attributes, htest]
          exact ih hrest hstyles hkey
      | some test =>
          obtain ⟨lowered, hlower, hstyles', hkey', hguarded⟩ :=
            guarded_lower settings arena hkey htest body
          obtain ⟨hentries, hguards⟩ := ih hrest (hstyles'.trans hstyles) hkey'
          rw [hlower]
          simp only [htest, Option.map_some]
          constructor
          · rw [hentries, hguarded.entries]
            rfl
          · rw [hguards, hguarded.guards, List.append_assoc]
            rfl

theorem guarded_visited {c : Component} (hkeys : DistinctKeys c) :
    Guarded c c (visited attributes settings arena c) (attributeRules c) := by
  have h := guarded_lowerEach settings arena hkeys (fun _ hentry => hentry) rfl rfl
  exact ⟨h.entries, h.guards⟩

end

/-! ## Separate entries -/

theorem get?_putEntry_of_ne (t : Table Object) {key entry : String} (h : key ≠ entry) (styles : Object) :
    (Addition.putEntry t key styles).get? entry = t.get? entry := by
  unfold Addition.putEntry
  split <;> exact Table.get?_set_of_ne _ _ h

theorem get?_putEntry_congr {t u : Table Object} {entry : String} (h : t.get? entry = u.get? entry) (key : String)
    (styles : Object) : (Addition.putEntry t key styles).get? entry = (Addition.putEntry u key styles).get? entry := by
  by_cases hkey : key = entry
  · subst hkey
    unfold Addition.putEntry
    rw [h]
    split <;> rw [Table.get?_set_self, Table.get?_set_self]
  · rw [get?_putEntry_of_ne t hkey, get?_putEntry_of_ne u hkey, h]

/-- An entry is made by the selectors that have its key. -/
theorem get?_foldl_putRule (c : Component) (entry : String) (rules : List (AttributeTest × Object)) {t u : Table Object}
    (h : t.get? entry = u.get? entry) :
    (rules.foldl (putRule c) t).get? entry =
      ((rules.filter fun rule => rule.1.key c == entry).foldl (putRule c) u).get? entry := by
  induction rules generalizing t u with
  | nil => exact h
  | cons rule rules ih =>
      rw [List.foldl_cons, List.filter_cons]
      split
      · exact ih (get?_putEntry_congr h _ _)
      · next hkey =>
          refine ih ((get?_putEntry_of_ne t (fun heq => hkey (beq_iff_eq.mpr heq)) _).trans h)

/--
The entries for the attribute tests of a component are separate: different tests have different keys, and the
entry for a test is what the selectors with this very test make of it.
-/
structure SeparateTests (before after : Component) : Prop where
  keys : ∀ r ∈ attributeRules before, ∀ r' ∈ attributeRules before, ¬ r.1.SameTest r'.1 →
    r.1.key before ≠ r'.1.key before
  entries : ∀ r ∈ attributeRules before, after.extraStyles.get? (r.1.key before) =
    (((attributeRules before).filter fun r' => r'.1.SameTest r.1).foldl (putRule before) before.extraStyles).get?
      (r.1.key before)

/-- The entries are separate if the labels of different tests are. -/
theorem separateTests_iff {c c' : Component} (h : Guarded c c c' (attributeRules c)) :
    SeparateTests c c' ↔
      ∀ r ∈ attributeRules c, ∀ r' ∈ attributeRules c, r.1.SameLabel r'.1 → r.1.SameTest r'.1 := by
  constructor
  · intro hseparate r hr r' hr' hlabel
    by_contra hdiffer
    exact hseparate.keys r hr r' hr' hdiffer ((AttributeTest.key_eq_iff c r.1 r'.1).mpr hlabel)
  · intro hlabels
    refine ⟨fun r hr r' hr' hdiffer hkey => ?_, fun r hr => ?_⟩
    · exact hdiffer (hlabels r hr r' hr' ((AttributeTest.key_eq_iff c r.1 r'.1).mp hkey))
    · have hsame : (attributeRules c).filter (fun r' => r'.1.key c == r.1.key c) =
          (attributeRules c).filter fun r' => r'.1.SameTest r.1 := by
        refine List.filter_congr fun r' hr' => ?_
        rw [Bool.eq_iff_iff, beq_iff_eq, decide_eq_true_iff, AttributeTest.key_eq_iff]
        exact ⟨hlabels r' hr' r hr, AttributeTest.SameTest.sameLabel⟩
      rw [h.entries, get?_foldl_putRule c _ _ rfl, hsame]

/-- The pass for attributes comes to its end, and has put the body of every selector into the entry of its test. -/
theorem run_attributes (settings : Settings) {s : Session Arena} (hnames : s.store.names.Nodup)
    (hkeys : s.store.All DistinctKeys) :
    ∃ s', (attributes.run settings).run s = (.ok ⟨⟩, s') ∧ ∀ name c, s.store.get? name = some c →
      ∃ c', s'.store.get? name = some c' ∧ Guarded c c c' (attributeRules c) := by
  have hpass : attributes ∈ allPasses := by simp [allPasses]
  obtain ⟨⟨⟩, s', hrun⟩ :=
    Work.exists_run_of_not_stops (neverStops_run faultless_attributes rfl settings s)
  obtain ⟨s₁, notes, hvisit, hfinish, -⟩ := run_pass_eq_ok hrun
  obtain ⟨hstore, -⟩ := run_visit_eq_ok (unaware_of_ne hpass (by decide) settings s.store) hnames hvisit
  obtain ⟨hsame, -⟩ := Prod.mk.inj (Except.ok.inj hfinish)
  refine ⟨s', hrun, fun name c hc => ⟨visited attributes settings s.store c, ?_, guarded_visited settings s.store (hkeys.of_get? hc)⟩⟩
  rw [← hsame, hstore, hc]
  rfl

/--
The pass for attributes guards every entry by the test of a selector.  The entries are separate exactly if no two
different tests of a component have the same label.
-/
theorem attributes_separate_iff (settings : Settings) {s : Session Arena} (hnames : s.store.names.Nodup)
    (hkeys : s.store.All DistinctKeys) :
    ∃ s', (attributes.run settings).run s = (.ok ⟨⟩, s') ∧
      ∀ name c, s.store.get? name = some c → ∃ c', s'.store.get? name = some c' ∧
        c'.attributeSelectors = c.attributeSelectors ++ (attributeRules c).map (fun r => r.1.guard c) ∧
        (SeparateTests c c' ↔
          ∀ r ∈ attributeRules c, ∀ r' ∈ attributeRules c, r.1.SameLabel r'.1 → r.1.SameTest r'.1) := by
  obtain ⟨s', hrun, hends⟩ := run_attributes settings hnames hkeys
  refine ⟨s', hrun, fun name c hc => ?_⟩
  obtain ⟨c', hc', hguarded⟩ := hends name c hc
  exact ⟨c', hc', hguarded.guards, separateTests_iff hguarded⟩

/-- A field with styles for two tests of its attributes. -/
def sampleField (test other : String) : Component where
  name := "Field"
  styleKey := "field"
  base := "input"
  styles :=
    [(.name test, .obj [(.name "color", .text "red")]), (.name other, .obj [(.name "color", .text "blue")])]

/-- The tests for a kind of field and for a disabled field have entries of their own. -/
theorem attributes_separate_disabledField :
    ∃ s', (attributes.run {}).run { store := [("Field", sampleField "&[type='text']" "&[disabled]")] } = (.ok ⟨⟩, s') ∧
      ∃ c', s'.store.get? "Field" = some c' ∧ SeparateTests (sampleField "&[type='text']" "&[disabled]") c' := by
  obtain ⟨s', hrun, h⟩ := attributes_separate_iff {}
    (s := { store := [("Field", sampleField "&[type='text']" "&[disabled]")] }) (by decide)
    (List.forall_mem_singleton.mpr (by decide))
  obtain ⟨c', hc', -, hiff⟩ := h "Field" _ rfl
  exact ⟨s', hrun, c', hc', hiff.mpr (by decide)⟩

/-- A kind and a role of the same name have guards of their own, but the later styles are there for both. -/
theorem not_separateTests_searchField :
    ∃ s', (attributes.run {}).run { store := [("Field", sampleField "&[type='search']" "&[role='search']")] } =
        (.ok ⟨⟩, s') ∧
      ∃ c', s'.store.get? "Field" = some c' ∧
        c'.attributeSelectors.map (fun a => (a.styleKey, a.attr)) =
          [("fieldSearch", "type"), ("fieldSearch", "role")] ∧
        ((c'.extraStyles.get? "fieldSearch").bind fun o => (o.get? (.name "color")).bind Value.text?) = some "blue" ∧
        ¬ SeparateTests (sampleField "&[type='search']" "&[role='search']") c' := by
  obtain ⟨s', hrun, hends⟩ := run_attributes {}
    (s := { store := [("Field", sampleField "&[type='search']" "&[role='search']")] }) (by decide)
    (List.forall_mem_singleton.mpr (by decide))
  obtain ⟨c', hc', hguarded⟩ := hends "Field" _ rfl
  refine ⟨s', hrun, c', hc', ?_, ?_, fun hseparate => ?_⟩
  · rw [hguarded.guards]
    decide
  · rw [hguarded.entries]
    decide +kernel
  · have hlabels := (separateTests_iff hguarded).mp hseparate
    revert hlabels
    decide

end Restyle.Lowering
