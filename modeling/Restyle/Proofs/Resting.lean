import Restyle.Proofs.Crossings

/-!
# Values at rest

A value that has crossed over is a reference to a custom property, with the earlier value as its fallback.  While
no custom property is set a reference reads as its fallback, and several of them read as what they have been put
around.  The earlier value is kept where it is put into the reference as it is rendered elsewhere.  Texts, numbers
and expressions are; truth values and lists of texts are not, nor are the maps that may be the default of a conditional
map.
-/

namespace Restyle.Lowering

open Restyle.Component (VariableInjection)
open Restyle.Style (Key Value Object)

/-! ## References -/

/-- What a value reads as: a text, or what an expression comes to. -/
inductive Reading where
  | text (cs : List Char)
  | code (cs : List Char)
  deriving DecidableEq

namespace Reading

/-- What a value reads as where it is rendered on its own; nothing where there is none. -/
def of? : Value → Option Reading
  | .null => none
  | .text s => some (.text s.toList)
  | .js expression => some (.code expression.toList)
  | v => (Style.renderValue 0 v).toOption.map fun s => .text s.toList

def chars : Reading → List Char
  | text cs => cs
  | code cs => cs

def withChars : Reading → List Char → Reading
  | text _, cs => .text cs
  | code _, cs => .code cs

/-- The signs of a reference: before the name, after a name without fallback, before the fallback and after it. -/
structure Signs where
  lead : List Char
  alone : List Char
  gap : List Char
  close : List Char

/-- References of expressions are templates. -/
def signs : Reading → Signs
  | text _ => { lead := ['v', 'a', 'r', '('], alone := [')'], gap := [',', ' '], close := [')'] }
  | code _ => { lead := ['\x60', 'v', 'a', 'r', '('], alone := [')', '\x60'], gap := [',', ' ', '$', '{'],
                close := ['}', ')', '\x60'] }

end Reading

/-- A character of the name of a custom property in a reference. -/
def isVariableChar (c : Char) : Bool :=
  c != ',' && c != ')'

/-- The name and the fallback of a reference. -/
def reference? (r : Reading) : Option (String × Option Reading) := do
  let rest ← Text.after? r.signs.lead r.chars
  let name := String.ofList (rest.takeWhile isVariableChar)
  let rest := rest.dropWhile isVariableChar
  if rest = r.signs.alone then some (name, none)
  else
    let inner ← Text.after? r.signs.gap rest
    let fallback ← Text.after? r.signs.close.reverse inner.reverse
    some (name, some (r.withChars fallback.reverse))

theorem length_of_after? {lead cs rest : List Char} (h : Text.after? lead cs = some rest) :
    cs.length = lead.length + rest.length := by
  rw [Text.after?_eq_some h, List.length_append]

theorem chars_withChars (r : Reading) (cs : List Char) : (r.withChars cs).chars = cs := by
  cases r <;> rfl

/-- The fallback of a reference is shorter. -/
theorem length_fallback {r fallback : Reading} {name : String} (h : reference? r = some (name, some fallback)) :
    fallback.chars.length < r.chars.length := by
  simp only [reference?, Option.bind_eq_bind, Option.bind_eq_some_iff] at h
  obtain ⟨rest, hlead, h⟩ := h
  split at h
  · cases h
  · obtain ⟨inner, hgap, ending, hclose, h⟩ := by simpa only [Option.bind_eq_some_iff] using h
    cases h
    have hdropped : (rest.dropWhile isVariableChar).length ≤ rest.length := (List.dropWhile_suffix _).length_le
    have hstart : 0 < r.signs.lead.length := by cases r <;> exact Nat.succ_pos _
    have houter := length_of_after? hlead
    have hmiddle := length_of_after? hgap
    have hinner := length_of_after? hclose
    rw [List.length_reverse, List.length_reverse] at hinner
    rw [chars_withChars, List.length_reverse]
    omega

/-- What a value reads as when custom properties are set: a reference as what is set, or else as its fallback. -/
def evaluate (env : String → Option Reading) (r : Reading) : Option Reading :=
  match _h : reference? r with
  | none => some r
  | some (name, none) => env name
  | some (name, some fallback) => (env name).or (evaluate env fallback)
termination_by r.chars.length
decreasing_by exact length_fallback _h

theorem evaluate_of_reference? (env : String → Option Reading) {r : Reading} {name : String} {fallback : Option Reading}
    (h : reference? r = some (name, fallback)) :
    evaluate env r = (env name).or (fallback.bind (evaluate env)) := by
  rw [evaluate]
  split
  · next hnone => cases hnone.symm.trans h
  · next hsome =>
      cases hsome.symm.trans h
      simp
  · next hsome =>
      cases hsome.symm.trans h
      rfl

theorem evaluate_of_no_reference (env : String → Option Reading) {r : Reading} (h : reference? r = none) :
    evaluate env r = some r := by
  rw [evaluate]
  split
  · rfl
  · next hsome => cases hsome.symm.trans h
  · next hsome => cases hsome.symm.trans h

/-! ## References that the pass writes -/

/-- What is put into a reference as the fallback. -/
def inserted? : Value → Option Reading
  | .null => none
  | .js code => some (.code code.toList)
  | .int n => some (.text (toString n).toList)
  | .float x => some (.text (Style.renderDouble x).toList)
  | v => some (.text (Style.spelled v).toList)

/-- The name of a custom property ends where its reference goes on. -/
theorem name_of_reference {name : List Char} (hname : ∀ c ∈ name, isVariableChar c = true) {c : Char}
    (hc : isVariableChar c = false) (rest : List Char) :
    (name ++ c :: rest).takeWhile isVariableChar = name ∧ (name ++ c :: rest).dropWhile isVariableChar = c :: rest := by
  have hstop : ¬ isVariableChar c = true := Bool.eq_false_iff.mp hc
  rw [List.takeWhile_append_of_pos hname, List.dropWhile_append_of_pos hname, List.takeWhile_cons_of_neg hstop,
    List.dropWhile_cons_of_neg hstop, List.append_nil]
  exact ⟨rfl, rfl⟩

section

variable {r : Reading} {name : String} (hname : ∀ c ∈ name.toList, isVariableChar c = true)
include hname

theorem reference?_alone (h : r.chars = r.signs.lead ++ (name.toList ++ r.signs.alone)) :
    reference? r = some (name, none) := by
  have hends : ∃ rest, r.signs.alone = ')' :: rest := by cases r <;> exact ⟨_, rfl⟩
  obtain ⟨rest, hrest⟩ := hends
  obtain ⟨htake, hdrop⟩ := name_of_reference hname (c := ')') (by decide) rest
  rw [reference?, h, Text.after?_append, Option.bind_eq_bind, Option.bind_some, hrest]
  dsimp only
  rw [htake, hdrop, if_pos rfl, String.ofList_toList]

theorem reference?_fallback {fallback : List Char}
    (h : r.chars = r.signs.lead ++ (name.toList ++ (r.signs.gap ++ (fallback ++ r.signs.close)))) :
    reference? r = some (name, some (r.withChars fallback)) := by
  have hsigns : ∃ gap alone, r.signs.gap = ',' :: gap ∧ r.signs.alone = ')' :: alone := by
    cases r <;> exact ⟨_, _, rfl, rfl⟩
  obtain ⟨gap, alone, hgap, halone⟩ := hsigns
  obtain ⟨htake, hdrop⟩ := name_of_reference hname (c := ',') (by decide) (gap ++ (fallback ++ r.signs.close))
  rw [← List.cons_append, ← hgap] at htake hdrop
  have hgoes : r.signs.gap ++ (fallback ++ r.signs.close) ≠ r.signs.alone := by
    rw [hgap, halone]
    exact fun heq => absurd (List.cons.inj heq).1 (by decide)
  rw [reference?, h, Text.after?_append, Option.bind_eq_bind, Option.bind_some]
  dsimp only
  rw [htake, hdrop, if_neg hgoes, Text.after?_append, Option.bind_some, List.reverse_append, Text.after?_append,
    Option.bind_some, List.reverse_reverse, String.ofList_toList]

/-- What the pass writes is a reference, with the value as its fallback. -/
theorem reference?_variableReference (v : Value) :
    ∃ r, Reading.of? (variableReference name v) = some r ∧ reference? r = some (name, inserted? v) := by
  cases v with
  | null =>
      refine ⟨_, rfl, reference?_alone hname ?_⟩
      simp [Reading.chars, Reading.signs]
  | js code =>
      refine ⟨_, rfl, reference?_fallback hname ?_⟩
      simp [Reading.chars, Reading.signs, Style.templateSlot]
  | _ =>
      refine ⟨_, rfl, reference?_fallback hname ?_⟩
      simp [Reading.chars, Reading.signs]

end

/-! ## Values behind references -/

/-- What a value reads as when custom properties are set. -/
def readingOf? (env : String → Option Reading) (v : Value) : Option Reading :=
  (Reading.of? v).bind (evaluate env)

/-- A value is put into a reference as it is rendered on its own. -/
def InsertedAsRendered (v : Value) : Prop :=
  inserted? v = Reading.of? v

theorem insertedAsRendered_variableReference (name : String) (v : Value) :
    InsertedAsRendered (variableReference name v) := by
  cases v <;> rfl

/-- A truth value is put in with a capital. -/
theorem not_insertedAsRendered_bool (b : Bool) : ¬ InsertedAsRendered (.bool b) := by
  unfold InsertedAsRendered
  cases b <;> decide

/-- What is read does not start like a reference. -/
def StartsOtherwise (read : Option Reading) : Prop :=
  ∀ r, read = some r → ∃ c cs, c ≠ 'v' ∧ r = .text (c :: cs)

theorem startsOtherwise_none : StartsOtherwise none := nofun

theorem startsOtherwise_text {s : String} {c : Char} (hs : s.toList.head? = some c) (hc : c ≠ 'v') :
    StartsOtherwise (some (.text s.toList)) := by
  rintro r ⟨⟩
  obtain ⟨cs, hcs⟩ := List.head?_eq_some_iff.mp hs
  exact ⟨c, cs, hc, congrArg _ hcs⟩

theorem StartsOtherwise.bind_evaluate {read : Option Reading} (h : StartsOtherwise read)
    (env : String → Option Reading) : read.bind (evaluate env) = read := by
  cases read with
  | none => rfl
  | some r =>
      obtain ⟨c, cs, hc, rfl⟩ := h r rfl
      refine evaluate_of_no_reference env ?_
      have hlead : Text.after? (Reading.text (c :: cs)).signs.lead (Reading.text (c :: cs)).chars = none := by
        rw [Reading.signs, Reading.chars, Text.after?, if_neg]
        exact fun heq => hc (beq_iff_eq.mp heq).symm
      rw [reference?, hlead]
      rfl

/-- Values that are not put in as they are rendered cannot be taken for references in either form. -/
theorem insertedAsRendered_or_startsOtherwise (v : Value) :
    InsertedAsRendered v ∨ StartsOtherwise (inserted? v) ∧ StartsOtherwise (Reading.of? v) := by
  cases v with
  | null | int _ | float _ | text _ | js _ => exact .inl rfl
  | bool b =>
      cases b with
      | true =>
          refine .inr ⟨startsOtherwise_text (c := 'T') rfl (by decide), ?_⟩
          exact startsOtherwise_text (c := 't') rfl (by decide)
      | false =>
          refine .inr ⟨startsOtherwise_text (c := 'F') rfl (by decide), ?_⟩
          exact startsOtherwise_text (c := 'f') rfl (by decide)
  | block css =>
      have hspelled : (Style.spelled (.block css)).toList.head? = some 'C' := by
        rw [show Style.spelled (.block css) = "CssBlock(text=" ++ Style.spelledQuoted css ++ ")" from rfl]
        simp
      exact .inr ⟨startsOtherwise_text hspelled (by decide), startsOtherwise_none⟩
  | list items =>
      have hspelled : (Style.spelled (.list items)).toList.head? = some '[' := by
        rw [show Style.spelled (.list items) = "[" ++ ", ".intercalate (Style.spelledItems items) ++ "]" from rfl]
        simp
      refine .inr ⟨startsOtherwise_text hspelled (by decide), ?_⟩
      simp only [Reading.of?, Style.renderValue]
      cases Style.renderItems 0 items with
      | error fault => exact startsOtherwise_none
      | ok texts => exact startsOtherwise_text (c := '[') (by simp) (by decide)
  | obj entries =>
      have hspelled : (Style.spelled (.obj entries)).toList.head? = some '{' := by
        rw [show Style.spelled (.obj entries) = "\x7b" ++ ", ".intercalate (Style.spelledEntries entries) ++ "\x7d" from rfl]
        simp
      refine .inr ⟨startsOtherwise_text hspelled (by decide), ?_⟩
      cases entries with
      | nil => exact startsOtherwise_text (c := '{') rfl (by decide)
      | cons entry entries =>
          simp only [Reading.of?, Style.renderValue]
          cases Style.renderEntries 1 (entry :: entries) with
          | error fault => exact startsOtherwise_none
          | ok lines =>
              refine startsOtherwise_text (c := '{') ?_ (by decide)
              cases lines <;> simp [String.toList_intercalate]

/-- A value is told from the way it is put into references by what it reads as. -/
theorem insertedAsRendered_iff (v : Value) :
    InsertedAsRendered v ↔ (inserted? v).bind (evaluate fun _ => none) = readingOf? (fun _ => none) v := by
  constructor
  · intro h
    rw [h]
    rfl
  · intro h
    rcases insertedAsRendered_or_startsOtherwise v with hsame | ⟨hinserted, hrendered⟩
    · exact hsame
    · rwa [readingOf?, hinserted.bind_evaluate, hrendered.bind_evaluate] at h

section

variable {env : String → Option Reading} {name : String} (hname : ∀ c ∈ name.toList, isVariableChar c = true)
include hname

theorem readingOf?_variableReference (v : Value) :
    readingOf? env (variableReference name v) = (env name).or ((inserted? v).bind (evaluate env)) := by
  obtain ⟨r, hr, hreference⟩ := reference?_variableReference hname v
  rw [readingOf?, hr, Option.bind_some, evaluate_of_reference? env hreference]

end

/-- A value in references to one custom property after the other. -/
def referring (xs : List Crossing) (v : Value) : Value :=
  xs.foldl (fun v x => variableReference x.varName v) v

section

variable {env : String → Option Reading} {xs : List Crossing}
  (hnames : ∀ x ∈ xs, ∀ c ∈ x.varName.toList, isVariableChar c = true)
include hnames

/-- References to custom properties that are not set, or all set to the same, keep what a value reads as. -/
theorem readingOf?_referring_of_inserted {v : Value} (hv : InsertedAsRendered v)
    (h : ∀ x ∈ xs, env x.varName = none ∨ env x.varName = readingOf? env v) :
    readingOf? env (referring xs v) = readingOf? env v := by
  induction xs generalizing v with
  | nil => rfl
  | cons x xs ih =>
      obtain ⟨hx, hxs⟩ := List.forall_mem_cons.mp hnames
      obtain ⟨hset, hsets⟩ := List.forall_mem_cons.mp h
      have hfirst : readingOf? env (variableReference x.varName v) = readingOf? env v := by
        rw [readingOf?_variableReference hx, hv, ← readingOf?]
        rcases hset with hnone | hsame
        · rw [hnone, Option.none_or]
        · rw [hsame, Option.or_self]
      rw [referring, List.foldl_cons, ← referring,
        ih hxs (insertedAsRendered_variableReference _ _) (hfirst.symm ▸ hsets), hfirst]

/-- While no custom property is set, what a value reads as depends on how it has been put in. -/
theorem readingOf?_referring_unset {x : Crossing} (hx : x ∈ xs) (v : Value) (h : ∀ y ∈ xs, env y.varName = none) :
    readingOf? env (referring xs v) = (inserted? v).bind (evaluate env) := by
  cases xs with
  | nil => cases hx
  | cons y ys =>
      obtain ⟨hy, hys⟩ := List.forall_mem_cons.mp hnames
      obtain ⟨hset, hsets⟩ := List.forall_mem_cons.mp h
      rw [referring, List.foldl_cons, ← referring,
        readingOf?_referring_of_inserted hys (insertedAsRendered_variableReference _ _) fun x hx => .inl (hsets x hx),
        readingOf?_variableReference hy, hset, Option.none_or]

/-- A custom property that alone is set shows through the references to the others. -/
theorem readingOf?_referring_set {x : Crossing} (hx : x ∈ xs) (v : Value) {r : Reading} (hset : env x.varName = some r)
    (h : ∀ y ∈ xs, y.varName ≠ x.varName → env y.varName = none) : readingOf? env (referring xs v) = some r := by
  induction xs generalizing v with
  | nil => cases hx
  | cons y ys ih =>
      obtain ⟨hy, hys⟩ := List.forall_mem_cons.mp hnames
      obtain ⟨hother, hothers⟩ := List.forall_mem_cons.mp h
      rw [referring, List.foldl_cons, ← referring]
      by_cases hsame : y.varName = x.varName
      · have hfirst : readingOf? env (variableReference y.varName v) = some r := by
          rw [readingOf?_variableReference hy, hsame, hset, Option.some_or]
        rw [readingOf?_referring_of_inserted hys (insertedAsRendered_variableReference _ _), hfirst]
        intro z hz
        by_cases hz' : z.varName = x.varName
        · exact .inr (by rw [hz', hset, hfirst])
        · exact .inl (hothers z hz hz')
      · refine ih hys ?_ _ hothers
        exact (List.mem_cons.mp hx).resolve_left fun heq => hsame (heq ▸ rfl)

end

/-! ## What crossings leave of a property -/

/-- The value that holds when no condition does. -/
def resting : Option Value → Value
  | some (.obj o) => if Object.isConditional o then (Object.get? o Key.default).getD .null else .obj o
  | some v => v
  | none => .null

theorem baseValue_eq (styles : Object) (key : Key) : baseValue styles key = resting (styles.get? key) := rfl

/-- The value that holds under a condition. -/
def conditional? (old : Option Value) (key : Key) : Option Value :=
  match old with
  | some (.obj o) => Object.get? o key
  | _ => none

/-- What has become of a property: its value refers to custom properties, and the other entries stay. -/
structure RefersTo (xs : List Crossing) (old new : Option Value) : Prop where
  resting : resting new = referring xs (resting old)
  conditional : ∀ key, key ≠ Key.default → conditional? new key = conditional? old key

theorem refersTo_variableReference (x : Crossing) {old : Option Value} (h : ∀ o, old ≠ some (.obj o)) :
    RefersTo [x] old (some (variableReference x.varName (old.getD .null))) := by
  have hplain : resting old = old.getD .null := by
    unfold Lowering.resting
    split
    · next o => exact absurd rfl (h o)
    · rfl
    · rfl
  constructor
  · rw [hplain]
    cases old.getD .null <;> rfl
  · intro key _
    have hold : conditional? old key = none := by
      unfold conditional?
      split
      · next o => exact absurd rfl (h o)
      · rfl
    rw [hold]
    cases old.getD .null <;> rfl

theorem refersTo_crossValue (x : Crossing) {old : Option Value} (h : NoBody old) :
    RefersTo [x] old (some (crossValue x.varName old)) := by
  by_cases hobject : ∃ o, old = some (.obj o)
  · obtain ⟨o, rfl⟩ := hobject
    have hmap := h o rfl
    have hset := Object.isConditional_set hmap Key.isCondition_default
      (variableReference x.varName ((Object.get? o Key.default).getD .null))
    rw [crossValue, if_pos hmap]
    constructor
    · rw [resting, if_pos hset, Object.get?_set_self, resting, if_pos hmap]
      rfl
    · exact fun key hkey => Object.get?_set_of_ne _ _ (Ne.symm hkey)
  · have hplain : ∀ o, old ≠ some (.obj o) := fun o ho => hobject ⟨o, ho⟩
    have hvalue : crossValue x.varName old = variableReference x.varName (old.getD .null) := by
      unfold crossValue
      split
      · next o => exact absurd rfl (hplain o)
      · rfl
    rw [hvalue]
    exact refersTo_variableReference x hplain

theorem refersTo_foldl (xs : List Crossing) {old : Option Value} (h : NoBody old) :
    RefersTo xs old (xs.foldl (fun old x => some (crossValue x.varName old)) old) := by
  induction xs generalizing old with
  | nil => exact ⟨rfl, fun _ _ => rfl⟩
  | cons x xs ih =>
      have hfirst := refersTo_crossValue x h
      have hrest := ih (noBody_crossValue x.varName old)
      constructor
      · rw [List.foldl_cons, hrest.resting, hfirst.resting]
        rfl
      · intro key hkey
        rw [List.foldl_cons, hrest.conditional key hkey, hfirst.conditional key hkey]

/-! ## The values of a component -/

/-- What the value of a property reads as when custom properties are set and no condition of the property holds. -/
def reads (env : String → Option Reading) (c : Component) (property : String) : Option Reading :=
  readingOf? env (baseValue c.styles (.name property))

/-- While no custom property is set that a component refers to because of the pass, a property reads as before. -/
def KeepsResting (arena : Arena) (c c' : Component) (property : String) : Prop :=
  ∀ env, (∀ x ∈ crossings arena c, env x.varName = none) → reads env c' property = reads env c property

/-- A value of a component that has been led over a custom property of another one. -/
structure Bridged (arena after : Arena) (c c' : Component) (x : Crossing) : Prop where
  defined : ∃ target, after.get? x.target = some target ∧
    target.styles.get? (.name x.varName) = some (.obj [(Key.default, .null), (.name x.pseudo, x.value)])
  active : ∀ env r, env x.varName = some r →
    (∀ y ∈ crossings arena c, y.varName ≠ x.varName → env y.varName = none) → reads env c' x.property = some r
  conditional : ∀ key, key ≠ Key.default →
    conditional? (c'.styles.get? (.name x.property)) key = conditional? (c.styles.get? (.name x.property)) key

theorem mem_crossingsAt {arena : Arena} {c : Component} {x : Crossing} (hx : x ∈ crossings arena c) :
    x ∈ crossingsAt arena c x.property :=
  List.mem_filter.mpr ⟨hx, beq_iff_eq.mpr rfl⟩

/-- The custom properties over which values are led are different, new, and names that can be referred to. -/
structure Fresh (arena : Arena) : Prop where
  distinct : ((definitions arena).map (·.varName)).Nodup
  undeclared : Undeclared arena
  named : ∀ i ∈ definitions arena, ∀ c ∈ i.varName.toList, isVariableChar c = true

theorem fresh_iff (arena : Arena) :
    Fresh arena ↔ ((definitions arena).map (·.varName)).Nodup ∧ Undeclared arena ∧
      ∀ i ∈ definitions arena, ∀ c ∈ i.varName.toList, isVariableChar c = true :=
  ⟨fun h => ⟨h.distinct, h.undeclared, h.named⟩, fun h => ⟨h.1, h.2.1, h.2.2⟩⟩

instance (arena : Arena) : Decidable (Fresh arena) :=
  -- the characters of a name are looked through, not all characters there are
  let _ (i : VariableInjection) : Decidable (∀ c ∈ i.varName.toList, isVariableChar c = true) :=
    List.decidableBAll _ _
  decidable_of_iff' _ (fresh_iff arena)

section

variable {settings : Settings} {s s' : Session Arena} (hnames : s.store.names.Nodup) (hnamed : Named s.store)
  (hkeys : s.store.All DistinctKeys) (hfresh : Fresh s.store) (hrun : (ancestor.run settings).run s = (.ok ⟨⟩, s'))
  {name : String} {c c' : Component} (hc : s.store.get? name = some c)
include hnames hkeys hfresh hrun hc

/-- What has become of a property from which values have crossed over. -/
theorem refersTo_run_ancestor (hc' : s'.store.get? name = some c') {x : Crossing} (hx : x ∈ crossings s.store c)
    (hbody : NoBody (c.styles.get? (.name x.property))) :
    RefersTo (crossingsAt s.store c x.property) (c.styles.get? (.name x.property))
      (c'.styles.get? (.name x.property)) := by
  obtain ⟨d, hd, hstyles⟩ := styles_run_ancestor hnames hkeys hrun hc
  cases hd.symm.trans hc'
  have hown : ∀ i ∈ definitionsIn name s.store, i.varName ≠ x.property := by
    intro i hi
    obtain ⟨hi, htarget⟩ := List.mem_filter.mp hi
    exact fun heq => (hfresh.undeclared i hi c (beq_iff_eq.mp htarget ▸ hc)).2 x hx heq.symm
  rw [hstyles, get?_foldl_defined_of_ne hown, get?_crossedStyles _ (hkeys.of_get? hc) hbody]
  exact refersTo_foldl _ hbody

include hnamed

theorem defined_run_ancestor {x : Crossing} (hx : x ∈ crossings s.store c) :
    ∃ target, s'.store.get? x.target = some target ∧
      target.styles.get? (.name x.varName) = some (.obj [(Key.default, .null), (.name x.pseudo, x.value)]) := by
  obtain ⟨target, hleads⟩ := exists_leads hnamed hx
  obtain ⟨target', htarget', hstyles⟩ := styles_run_ancestor hnames hkeys hrun hleads.found
  have hmem := mem_definitions hc hx
  obtain ⟨hbase, hcrossed⟩ := hfresh.undeclared _ hmem target hleads.found
  refine ⟨target', htarget', ?_⟩
  have hin : x.toVariableInjection ∈ definitionsIn x.target s.store :=
    List.mem_filter.mpr ⟨hmem, beq_iff_eq.mpr rfl⟩
  have hdistinct : ((definitionsIn x.target s.store).map (·.varName)).Nodup :=
    hfresh.distinct.sublist (List.filter_sublist.map _)
  rw [hstyles, get?_foldl_defined_of_mem hdistinct hin
    (get?_crossedStyles_eq_none _ (hkeys.of_get? hleads.found) hbase hcrossed)]
  have hpseudo : Key.default ≠ .name x.pseudo := by
    intro heq
    have hbranch := hleads.pseudo
    rw [← heq] at hbranch
    cases hbranch
  simp [newEntry, Object.set, hpseudo]

/-- A value that has crossed over is led over its custom property. -/
theorem bridged_run_ancestor (hc' : s'.store.get? name = some c') {x : Crossing} (hx : x ∈ crossings s.store c)
    (hbody : NoBody (c.styles.get? (.name x.property))) : Bridged s.store s'.store c c' x := by
  have hrefers := refersTo_run_ancestor hnames hkeys hfresh hrun hc hc' hx hbody
  constructor
  case defined => exact defined_run_ancestor hnames hnamed hkeys hfresh hrun hc hx
  case conditional => exact hrefers.conditional
  case active =>
    intro env r hset hothers
    rw [reads, baseValue_eq, hrefers.resting]
    refine readingOf?_referring_set (fun y hy => ?_) (mem_crossingsAt hx) _ hset fun y hy => ?_
    · exact hfresh.named _ (mem_definitions hc (List.mem_of_mem_filter hy))
    · exact hothers y (List.mem_of_mem_filter hy)

omit hnamed in
/-- The earlier value is what a property reads as if it has been put in as it is rendered. -/
theorem keepsResting_run_ancestor_iff (hc' : s'.store.get? name = some c') {x : Crossing}
    (hx : x ∈ crossings s.store c) (hbody : NoBody (c.styles.get? (.name x.property))) :
    KeepsResting s.store c c' x.property ↔ InsertedAsRendered (baseValue c.styles (.name x.property)) := by
  have hrefers := refersTo_run_ancestor hnames hkeys hfresh hrun hc hc' hx hbody
  have hunset : ∀ env, (∀ y ∈ crossings s.store c, env y.varName = none) →
      reads env c' x.property = (inserted? (baseValue c.styles (.name x.property))).bind (evaluate env) := by
    intro env hnone
    rw [reads, baseValue_eq, hrefers.resting]
    refine readingOf?_referring_unset (fun y hy => ?_) (mem_crossingsAt hx) _ fun y hy => ?_
    · exact hfresh.named _ (mem_definitions hc (List.mem_of_mem_filter hy))
    · exact hnone y (List.mem_of_mem_filter hy)
  constructor
  · intro hkeeps
    rw [insertedAsRendered_iff, ← hunset _ fun _ _ => rfl]
    exact hkeeps _ fun _ _ => rfl
  · intro hinserted env hnone
    rw [hunset env hnone, hinserted]
    rfl

end

/--
The last pass leads every plain value of a selector for a component inside another one in a pseudo state over a
custom property of the other one.  While none of them is set the property reads as before exactly if its earlier
value has been put into the reference as it is rendered on its own.
-/
theorem ancestor_keepsResting_iff (settings : Settings) {s : Session Arena} (hnames : s.store.names.Nodup)
    (hnamed : Named s.store) (hkeys : s.store.All DistinctKeys) (hfresh : Fresh s.store) :
    ∃ s', (ancestor.run settings).run s = (.ok ⟨⟩, s') ∧
      ∀ name c, s.store.get? name = some c → ∃ c', s'.store.get? name = some c' ∧
        ∀ x ∈ crossings s.store c, NoBody (c.styles.get? (.name x.property)) →
          Bridged s.store s'.store c c' x ∧
          (KeepsResting s.store c c' x.property ↔ InsertedAsRendered (baseValue c.styles (.name x.property))) := by
  obtain ⟨s', hrun⟩ := exists_run_ancestor settings hnames hkeys hfresh.undeclared
  refine ⟨s', hrun, fun name c hc => ?_⟩
  obtain ⟨c', hc', -⟩ := styles_run_ancestor hnames hkeys hrun hc
  refine ⟨c', hc', fun x hx hbody => ⟨?_, ?_⟩⟩
  · exact bridged_run_ancestor hnames hnamed hkeys hfresh hrun hc hc' hx hbody
  · exact keepsResting_run_ancestor_iff hnames hkeys hfresh hrun hc hc' hx hbody

/-- A title with a color that is another one while the card around it is hovered. -/
def titleInCard (color : Value) : Component :=
  (tagged "Title" "title"
    [(.name "color", color), (.name "$\x7bCard\x7d:hover &", .obj [(.name "color", .text "red")])]).2

/-- The title and its card. -/
def cardWithTitle (color : Value) : Arena :=
  [tagged "Card" "card" [], ("Title", titleInCard color)]

/-- The color of the title goes over a custom property of the card. -/
def titleColor : Crossing where
  target := "Card"
  varName := "--title-color-on-card-hover"
  pseudo := ":hover"
  value := .text "red"
  source := "Title"
  property := "color"

/-- A title that is black stays so unless its card is hovered. -/
theorem ancestor_keepsResting_blackTitle :
    ∃ s', (ancestor.run {}).run { store := cardWithTitle (.text "black") } = (.ok ⟨⟩, s') ∧
      ∃ c', s'.store.get? "Title" = some c' ∧
        Bridged (cardWithTitle (.text "black")) s'.store (titleInCard (.text "black")) c' titleColor ∧
        KeepsResting (cardWithTitle (.text "black")) (titleInCard (.text "black")) c' "color" := by
  obtain ⟨s', hrun, h⟩ := ancestor_keepsResting_iff {} (s := { store := cardWithTitle (.text "black") }) (by decide)
    (named_of_forall (by decide)) (all_distinctKeys (by decide)) (by decide)
  obtain ⟨c', hc', hcrossings⟩ := h "Title" _ rfl
  obtain ⟨hbridged, hkeeps⟩ := hcrossings titleColor (List.mem_singleton.mpr rfl) nofun
  exact ⟨s', hrun, c', hc', hbridged, hkeeps.mpr rfl⟩

/-- A truth value is put in with a capital, and reads as another text even if the card is not hovered. -/
theorem not_keepsResting_trueTitle :
    Fresh (cardWithTitle (.bool true)) ∧
    ∃ s', (ancestor.run {}).run { store := cardWithTitle (.bool true) } = (.ok ⟨⟩, s') ∧
      ∃ c', s'.store.get? "Title" = some c' ∧
        (c'.styles.get? (.name "color")).bind Value.text? = some "var(--title-color-on-card-hover, True)" ∧
        ¬ KeepsResting (cardWithTitle (.bool true)) (titleInCard (.bool true)) c' "color" := by
  have hnames : (cardWithTitle (.bool true)).names.Nodup := by decide
  have hkeys : (cardWithTitle (.bool true)).All DistinctKeys := all_distinctKeys (by decide)
  have hfresh : Fresh (cardWithTitle (.bool true)) := by decide
  have htitle : Table.get? (cardWithTitle (.bool true)) "Title" = some (titleInCard (.bool true)) := rfl
  obtain ⟨s', hrun⟩ :=
    exists_run_ancestor {} (s := { store := cardWithTitle (.bool true) }) hnames hkeys hfresh.undeclared
  obtain ⟨c', hc', hstyles⟩ := styles_run_ancestor hnames hkeys hrun htitle
  refine ⟨hfresh, s', hrun, c', hc', ?_, ?_⟩
  · rw [hstyles]
    decide
  · intro hkeeps
    have hcrosses : titleColor ∈ crossings (cardWithTitle (.bool true)) (titleInCard (.bool true)) :=
      List.mem_singleton.mpr rfl
    have hinserted := (keepsResting_run_ancestor_iff hnames hkeys hfresh hrun htitle hc' hcrosses nofun).mp hkeeps
    exact not_insertedAsRendered_bool true hinserted

end Restyle.Lowering
