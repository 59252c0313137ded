import Restyle.Proofs.Leftovers

/-!
# Values outside of all conditions

Other entries fall back to the value that a property has where no condition holds.  Lowering can change this
value only where it writes a body into the styles: for raised weight, and for components inside others in a
pseudo state.  A body that is written this way can bring further selectors of these two kinds along, so what is
written are the properties that their bodies name at any depth.  A property that none of them names is calm: its
value stays while bodies are written, values are put under conditions, and selectors are removed.
-/

namespace Restyle.Style

/-! ## Keys at any depth -/

mutual

/-- Whether the object that a value is, or an object inside of it, has a key. -/
def Value.mentions (key : Key) : Value → Bool
  | .obj entries => Object.mentions key entries
  | _ => false

/-- Whether an object, or an object inside of it, has a key. -/
def Object.mentions (key : Key) : Object → Bool
  | [] => false
  | (k, value) :: rest => k == key || value.mentions key || Object.mentions key rest

end

namespace Object

theorem mentions_eq_false_iff (key : Key) (o : Object) :
    mentions key o = false ↔ ∀ entry ∈ o, entry.1 ≠ key ∧ entry.2.mentions key = false := by
  induction o with
  | nil => exact iff_of_true rfl (List.forall_mem_nil _)
  | cons entry o ih =>
      obtain ⟨k, value⟩ := entry
      rw [mentions, Bool.or_eq_false_iff, Bool.or_eq_false_iff, ih, beq_eq_false_iff_ne, List.forall_mem_cons]

variable {property : Key}

theorem mentions_of_sublist {o o' : Object} (h : mentions property o = false) (hsub : ∀ entry ∈ o', entry ∈ o) :
    mentions property o' = false :=
  (mentions_eq_false_iff _ _).mpr fun entry hentry => (mentions_eq_false_iff _ _).mp h entry (hsub entry hentry)

theorem mentions_of_get? {o : Object} (h : mentions property o = false) {key : Key} {value : Value}
    (hget : o.get? key = some value) : value.mentions property = false :=
  ((mentions_eq_false_iff _ _).mp h _ (Lowering.mem_of_get? hget)).2

theorem mentions_set {o : Object} (h : mentions property o = false) {key : Key} (hkey : key ≠ property)
    {value : Value} (hvalue : value.mentions property = false) : mentions property (o.set key value) = false := by
  rw [mentions_eq_false_iff] at h ⊢
  intro entry hentry
  rcases Lowering.mem_set hentry with hold | rfl
  · exact h entry hold
  · exact ⟨hkey, hvalue⟩

end Object

theorem Value.mentions_of_not_isObject (key : Key) {value : Value} (h : value.isObject = false) :
    value.mentions key = false := by
  cases value with
  | obj entries => cases h
  | _ => rfl

mutual

/-- Merging brings no key along that neither side has. -/
theorem Object.mentions_merge {property : Key} {target : Object} (htarget : target.mentions property = false) :
    (source : Object) → source.mentions property = false → (target.merge source).mentions property = false
  | [], _ => by rwa [Object.merge_nil]
  | (key, value) :: rest, h => by
      obtain ⟨⟨hkey, hvalue⟩, hrest⟩ := List.forall_mem_cons.mp ((Object.mentions_eq_false_iff _ _).mp h)
      rw [Object.merge_cons]
      refine Object.mentions_merge (Object.mentions_set htarget hkey ?_) rest
        ((Object.mentions_eq_false_iff _ _).mpr hrest)
      exact mentions_mergeValue (fun old hold => Object.mentions_of_get? htarget hold) value hvalue

theorem mentions_mergeValue {property : Key} {old : Option Value}
    (hold : ∀ value, old = some value → value.mentions property = false) :
    (value : Value) → value.mentions property = false → (mergeValue old value).mentions property = false
  | .obj source, h => by
      unfold mergeValue
      split
      · split
        · exact h
        · exact Object.mentions_merge (hold _ rfl) source h
      · exact h
  | .null, h | .bool _, h | .int _, h | .float _, h | .text _, h | .js _, h | .block _, h | .list _, h => h

end

end Restyle.Style

namespace Restyle.Lowering

open Restyle.Style (Key Value Object)
open Work (Keeps)

/-! ## Standing values -/

/-- The value that a property has outside of all conditions, if it is there and is no object. -/
def standing? (styles : Object) (property : Key) : Option Value :=
  (some (baseValue styles property)).filter fun value => !value.isNull && !value.isObject

theorem standing?_congr {styles styles' : Object} {property : Key}
    (h : styles'.get? property = styles.get? property) : standing? styles' property = standing? styles property := by
  rw [standing?, baseValue, h, standing?, baseValue]

theorem standing?_set_of_ne (styles : Object) {key property : Key} (h : key ≠ property) (value : Value) :
    standing? (styles.set key value) property = standing? styles property :=
  standing?_congr (Object.get?_set_of_ne styles value h)

theorem standing?_of_none {styles : Object} {property : Key} (h : styles.get? property = none) :
    standing? styles property = none := by
  rw [standing?, baseValue, h]
  rfl

theorem standing?_of_body {styles body : Object} {property : Key} (h : styles.get? property = some (.obj body))
    (hbody : body.isConditional = false) : standing? styles property = none := by
  rw [standing?, baseValue, h]
  simp [hbody, Value.isObject]

theorem baseValue_of_map {styles map : Object} {property : Key} (h : styles.get? property = some (.obj map))
    (hmap : map.isConditional = true) :
    baseValue styles property = (map.get? Key.default).getD .null := by
  rw [baseValue, h]
  exact if_pos hmap

/-- The conditional map that the value of a property becomes part of. -/
def conditionsOf : Option Value → Object
  | some (.obj o) => if Object.isConditional o then o else [(Key.default, .obj o)]
  | other => [(Key.default, other.getD .null)]

theorem isConditional_conditionsOf (value? : Option Value) : (conditionsOf value?).isConditional = true := by
  have hnew : ∀ value : Value, Object.isConditional [(Key.default, value)] = true := by
    intro value
    simp [Object.isConditional, Object.has, Object.get?_cons, Key.isCondition_default]
  unfold conditionsOf
  split
  · split
    · assumption
    · exact hnew _
  · exact hnew _

theorem get?_default_conditionsOf (styles : Object) (key : Key) :
    (Object.get? (conditionsOf (styles.get? key)) Key.default).getD .null = baseValue styles key := by
  unfold conditionsOf baseValue
  split
  · next o ho =>
      rw [ho]
      dsimp only
      split <;> rfl
  · next hother =>
      cases h : styles.get? key with
      | none => rfl
      | some value =>
          cases value with
          | obj o => exact absurd h (hother o)
          | _ => rfl

/-- A value under a condition lets the value outside of all conditions stand. -/
theorem standing?_withCondition (styles : Object) {key condition : Key} (hcondition : condition.isBranch = true)
    (value : Value) (property : Key) :
    standing? (styles.set key (.obj ((conditionsOf (styles.get? key)).set condition value))) property =
      standing? styles property := by
  by_cases hkey : key = property
  · subst hkey
    have hself : conditionsOf (some (.obj ((conditionsOf (styles.get? key)).set condition value))) =
        (conditionsOf (styles.get? key)).set condition value :=
      if_pos (Object.isConditional_set (isConditional_conditionsOf _) (Key.isCondition_of_isBranch hcondition) value)
    have hbase : baseValue (styles.set key (.obj ((conditionsOf (styles.get? key)).set condition value))) key =
        baseValue styles key := by
      rw [← get?_default_conditionsOf, Object.get?_set_self, hself,
        Object.get?_set_of_ne _ _ (Key.ne_default_of_isBranch hcondition), get?_default_conditionsOf]
    rw [standing?, hbase, standing?]
  · exact standing?_set_of_ne styles hkey _

/-- Setting a condition makes no conditional map, and spoils none. -/
theorem isConditional_set_branch (o : Object) {condition : Key} (hcondition : condition.isBranch = true)
    (value : Value) : (o.set condition value).isConditional = o.isConditional := by
  have hne := Key.ne_default_of_isBranch hcondition
  refine Bool.eq_iff_iff.mpr ⟨fun h => ?_, fun h => ?_⟩
  case refine_2 => exact Object.isConditional_set h (Key.isCondition_of_isBranch hcondition) value
  obtain ⟨hconditions, hdefault⟩ := (Object.isConditional_iff _).mp h
  have hkeys : ∀ key ∈ o.keys, key ∈ (o.set condition value).keys := by
    intro key hkey
    rw [Object.keys_set]
    split
    · exact hkey
    · exact List.mem_append_left _ hkey
  refine (Object.isConditional_iff _).mpr ⟨fun key hkey => hconditions key (hkeys key hkey), ?_⟩
  rw [← Object.has_iff_mem_keys, Object.has, Object.get?_set_of_ne _ _ hne] at hdefault
  rwa [← Object.has_iff_mem_keys]

/-! ## Properties that no written body names -/

/-- Whether lowering writes the body of a selector into the styles that it stands in. -/
def isWritten (selector : String) : Bool :=
  (raised? (Text.strip selector)).isSome || (ancestor? (Text.strip selector)).isSome

/-- No selector whose body is written into the styles names a property, be it inside of its body. -/
def Undisturbed (styles : Object) (property : Key) : Prop :=
  ∀ entry ∈ styles, entry.1.name?.any isWritten = true → entry.2.mentions property = false

instance (styles : Object) (property : Key) : Decidable (Undisturbed styles property) :=
  inferInstanceAs (Decidable (∀ entry ∈ styles, _ → _))

/-- The body of a written selector does not name a property that is undisturbed. -/
theorem Undisturbed.mentions_body {styles body : Object} {property : Key} (h : Undisturbed styles property)
    {selector : String} (hmem : (Key.name selector, Value.obj body) ∈ styles) (hwritten : isWritten selector = true) :
    body.mentions property = false := by
  refine h _ hmem ?_
  show Option.any isWritten (some selector) = true
  rwa [Option.any_some]

/-- The keys of styles are distinct, and a property has a certain value outside of all conditions. -/
structure Rests (property : Key) (value? : Option Value) (styles : Object) : Prop where
  distinct : styles.keys.Nodup
  standing : standing? styles property = value?

/-- A value that no written body names. -/
structure Calm (property : Key) (value? : Option Value) (styles : Object) : Prop
    extends Rests property value? styles where
  undisturbed : Undisturbed styles property

section

variable {property : Key} {value? : Option Value} {styles : Object}

theorem Calm.set (h : Calm property value? styles) (key : Key) {value : Value}
    (hstanding : standing? (styles.set key value) property = standing? styles property)
    (hvalue : key.name?.any isWritten = true → value.mentions property = false) :
    Calm property value? (styles.set key value) where
  distinct := Object.nodup_keys_set h.distinct key value
  standing := hstanding.trans h.standing
  undisturbed := by
    intro entry hentry hwritten
    rcases mem_set hentry with hold | rfl
    · exact h.undisturbed entry hold hwritten
    · exact hvalue hwritten

/-- What a value under a written key becomes part of does not name the property. -/
theorem Calm.mentions_conditionsOf (h : Calm property value? styles) (hproperty : property.isProperty = true)
    {key : Key} (hwritten : key.name?.any isWritten = true) :
    Object.mentions property (conditionsOf (styles.get? key)) = false := by
  have hdefault : Key.default ≠ property := (Key.ne_of_isProperty hproperty Key.not_isProperty_default).symm
  have hnew : ∀ value : Value, value.mentions property = false →
      Object.mentions property [(Key.default, value)] = false := by
    intro value hvalue
    rw [Object.mentions, hvalue, beq_false_of_ne hdefault]
    rfl
  cases hget : styles.get? key with
  | none => exact hnew .null rfl
  | some value =>
      have hvalue : value.mentions property = false := h.undisturbed _ (mem_of_get? hget) hwritten
      unfold conditionsOf
      split
      · next o ho =>
          cases ho
          split
          · exact hvalue
          · exact hnew _ hvalue
      · exact hnew value hvalue

/-- A plain value under a condition leaves everything calm. -/
theorem Calm.withCondition (h : Calm property value? styles) (hproperty : property.isProperty = true)
    {condition : Key} (hcondition : condition.isBranch = true) (key : Key) {value : Value}
    (hvalue : value.isObject = false) :
    Calm property value? (styles.set key (.obj ((conditionsOf (styles.get? key)).set condition value))) := by
  have hne : condition ≠ property :=
    (Key.ne_of_isProperty hproperty (Key.not_isProperty_of_isBranch hcondition)).symm
  refine h.set key (standing?_withCondition styles hcondition value property) fun hwritten => ?_
  exact Object.mentions_set (h.mentions_conditionsOf hproperty hwritten) hne
    (Value.mentions_of_not_isObject property hvalue)

/-! ### Removed selectors -/

theorem get?_erase_of_ne (styles : Object) {key other : Key} (h : key ≠ other) :
    (Object.erase styles key).get? other = styles.get? other := by
  induction styles with
  | nil => rfl
  | cons entry styles ih =>
      obtain ⟨k, v⟩ := entry
      rw [Object.erase, Object.get?_cons]
      split
      · next hk => rw [if_neg (hk ▸ h)]
      · rw [Object.get?_cons, ih]

theorem get?_erase_self (h : styles.keys.Nodup) (key : Key) : (Object.erase styles key).get? key = none := by
  have hfresh : key ∉ (Object.erase styles key).keys := by
    rw [Object.keys_erase]
    exact h.not_mem_erase
  exact (Object.get?_eq_none_iff _ _).mpr hfresh

/-- Selectors that are removed take no standing value with them. -/
theorem Rests.eraseAll (h : Rests property value? styles) {selectors : List String}
    (hselectors : ∀ selector ∈ selectors, Key.name selector = property → value? = none) :
    Rests property value? (eraseAll styles selectors) := by
  unfold Lowering.eraseAll
  induction selectors generalizing styles with
  | nil => exact h
  | cons selector selectors ih =>
      obtain ⟨hselector, hrest⟩ := List.forall_mem_cons.mp hselectors
      refine ih ⟨?_, ?_⟩ hrest
      · rw [Object.keys_erase]
        exact h.distinct.erase _
      · by_cases hname : Key.name selector = property
        · rw [hselector hname, ← hname, standing?_of_none (get?_erase_self h.distinct _)]
        · rw [standing?_congr (get?_erase_of_ne styles hname), h.standing]

theorem mem_of_mem_eraseAll {selectors : List String} {entry : Key × Value}
    (h : entry ∈ eraseAll styles selectors) : entry ∈ styles := by
  unfold eraseAll at h
  induction selectors generalizing styles with
  | nil => exact h
  | cons selector selectors ih => exact mem_erase (ih h)

theorem Calm.eraseAll (h : Calm property value? styles) {selectors : List String}
    (hselectors : ∀ selector ∈ selectors, Key.name selector = property → value? = none) :
    Calm property value? (eraseAll styles selectors) where
  toRests := h.toRests.eraseAll hselectors
  undisturbed := fun entry hentry => h.undisturbed entry (mem_of_mem_eraseAll hentry)

theorem isConditional_of_mem_rawSelectors {selector : String} {body : Object}
    (h : (selector, body) ∈ rawSelectors styles) : body.isConditional = false := by
  obtain ⟨⟨key, value⟩, -, hentry⟩ := List.mem_filterMap.mp h
  dsimp only at hentry
  split at hentry
  · next hraw =>
      split at hentry
      · cases hentry
        simp only [isRawSelector, Bool.and_eq_true, Bool.not_eq_true'] at hraw
        exact hraw.1.1
      · cases hentry
  · cases hentry

/-- A selector is no property with a standing value. -/
theorem Rests.eq_none_of_raw (h : Rests property value? styles) {selector : String}
    (hselector : selector ∈ (rawSelectors styles).map (·.1)) (hname : Key.name selector = property) :
    value? = none := by
  obtain ⟨⟨_, body⟩, hmem, rfl⟩ := List.mem_map.mp hselector
  have hget := Object.get?_of_mem h.distinct (mem_of_mem_rawSelectors hmem)
  rw [← h.standing, ← hname]
  exact standing?_of_body hget (isConditional_of_mem_rawSelectors hmem)

end

/-! ## Bodies that are written -/

theorem isBranch_siblingBefore (pseudo : String) : (Key.siblingBefore pseudo).isBranch = true := rfl

theorem isBranch_of_raised? {text pseudo : String} (h : raised? text = some (some pseudo)) :
    (Key.name pseudo).isBranch = true := by
  unfold raised? at h
  simp only [Option.bind_eq_bind] at h
  split at h
  on_goal 1 =>
    -- a class stands ahead of the signs
    obtain ⟨_, -, h⟩ := Option.bind_eq_some_iff.mp h
  all_goals
    obtain ⟨cs, -, h⟩ := Option.bind_eq_some_iff.mp h
    obtain ⟨rest, -, h⟩ := Option.bind_eq_some_iff.mp h
    split at h
    · cases h
    · split at h
      · next hpseudo =>
          cases h
          exact isBranch_of_pseudo? hpseudo
      · cases h

theorem isBranch_of_ancestor? {text name pseudo : String} (h : ancestor? text = some (name, pseudo)) :
    (Key.name pseudo).isBranch = true := by
  unfold ancestor? at h
  simp only [Option.bind_eq_bind, Option.bind_eq_some_iff] at h
  obtain ⟨⟨_, rest⟩, -, ⟨_, rest'⟩, hpseudo, _, -, h⟩ := h
  split at h
  · cases h
    exact isBranch_of_pseudo? hpseudo
  · cases h

theorem isObject_variableReference (name : String) (value : Value) :
    (variableReference name value).isObject = false := by
  cases value <;> rfl

section

variable {property : Key} {value? : Option Value} {styles : Object}

mutual

theorem mentions_nestedBodies (key : Key) : (value : Value) → value.mentions property = false →
    ∀ body ∈ nestedBodies key value, body.mentions property = false
  | .obj o, h, body, hbody => by
      rw [nestedBodies] at hbody
      split at hbody
      · cases hbody
      · rcases List.mem_cons.mp hbody with rfl | hbody
        · exact h
        · exact mentions_nestedBodiesIn key o h body hbody
  | .null, _, _, hbody | .bool _, _, _, hbody | .int _, _, _, hbody | .float _, _, _, hbody
  | .text _, _, _, hbody | .js _, _, _, hbody | .block _, _, _, hbody | .list _, _, _, hbody => nomatch hbody

theorem mentions_nestedBodiesIn (key : Key) : (o : Object) → o.mentions property = false →
    ∀ body ∈ nestedBodiesIn key o, body.mentions property = false
  | [], _, _, hbody => nomatch hbody
  | (_, value) :: rest, h, body, hbody => by
      rw [Object.mentions, Bool.or_eq_false_iff, Bool.or_eq_false_iff] at h
      rw [nestedBodiesIn] at hbody
      split at hbody
      · exact mentions_nestedBodies key value h.1.2 body hbody
      · exact mentions_nestedBodiesIn key rest h.2 body hbody

end

theorem mentions_entriesAround (key : Key) {before after : Object} (hbefore : before.mentions property = false)
    (hafter : after.mentions property = false) :
    Object.mentions property (entriesAround key before after) = false := by
  rw [Object.mentions_eq_false_iff] at hbefore hafter ⊢
  intro entry hentry
  rcases List.mem_append.mp hentry with hentry | hentry
  · exact hbefore entry ((List.takeWhile_sublist _).subset hentry)
  · exact hafter entry ((List.dropWhile_sublist _).subset hentry)

theorem mentions_absorb? (key : Key) {row : List Object} (hrow : ∀ body ∈ row, body.mentions property = false)
    {body settled : Object} (hbody : body.mentions property = false) (h : absorb? key body row = some settled) :
    settled.mentions property = false := by
  induction row generalizing body settled with
  | nil =>
      cases h
      exact hbody
  | cons inner deeper ih =>
      obtain ⟨hinner, hdeeper⟩ := List.forall_mem_cons.mp hrow
      simp only [absorb?, Option.bind_eq_bind, Option.bind_eq_some_iff] at h
      obtain ⟨brought, hbrought, h⟩ := h
      split at h
      · cases h
        have haround := mentions_entriesAround key hinner (ih hdeeper hinner hbrought)
        refine Object.mentions_merge hbody _ (Object.mentions_of_sublist haround fun entry hentry => ?_)
        exact (List.mem_filter.mp hentry).1
      · cases h

/-- What is read of a body names no property that the body does not name. -/
theorem mentions_readEntries? {selector : String} {body entries : Object} (hbody : body.mentions property = false)
    (h : readEntries? styles selector body = some entries) : entries.mentions property = false := by
  unfold readEntries? at h
  dsimp only at h
  split at h
  · next own inner hown hinner =>
      split at h
      · cases h
        exact hbody
      · obtain ⟨settled, hsettled, rfl⟩ := Option.map_eq_some_iff.mp h
        have hinner' : Object.mentions property inner = false := Object.mentions_of_get? hbody hinner
        refine mentions_entriesAround _ hbody (mentions_absorb? _ (fun found hfound => ?_) hbody hsettled)
        rcases List.mem_cons.mp hfound with rfl | hfound
        · exact hinner'
        · exact mentions_nestedBodiesIn _ inner hinner' found hfound
  · cases h
    exact hbody

theorem mentions_raisedValue (hdefault : Key.default ≠ property) {existing : Option Value}
    (hexisting : ∀ old, existing = some old → old.mentions property = false) {value : Value}
    (hvalue : value.mentions property = false) : (raisedValue existing value).mentions property = false := by
  unfold raisedValue
  split
  · next v =>
      split
      · exact Object.mentions_merge (hexisting _ rfl) v hvalue
      · next old _ =>
          split
          · exact Object.mentions_set hvalue hdefault (hexisting old rfl)
          · exact hvalue
      · exact hvalue
  · split
    · next e =>
        split
        · exact Object.mentions_set (hexisting (.obj e) rfl) hdefault hvalue
        · exact hvalue
    · exact hvalue

theorem raiseEntry_pseudo (styles : Object) (pseudo : String) (key : Key) {value : Value}
    (hvalue : value.isObject = false) : raiseEntry (some pseudo) styles key value =
      styles.set key (.obj ((conditionsOf (styles.get? key)).set (.name pseudo) value)) := by
  unfold raiseEntry
  rw [hvalue]
  rfl

/-- An entry with raised weight leaves alone what neither its key nor its value names. -/
theorem Calm.raiseEntry (h : Calm property value? styles) (hproperty : property.isProperty = true)
    {pseudo : Option String} (hpseudo : ∀ p, pseudo = some p → (Key.name p).isBranch = true) {key : Key}
    (hkey : key ≠ property) {value : Value} (hvalue : value.mentions property = false) :
    Calm property value? (raiseEntry pseudo styles key value) := by
  by_cases hplain : ∃ p, pseudo = some p ∧ value.isObject = false
  · obtain ⟨p, rfl, hobject⟩ := hplain
    rw [raiseEntry_pseudo styles p key hobject]
    exact h.withCondition hproperty (hpseudo p rfl) key hobject
  · have hset : Lowering.raiseEntry pseudo styles key value =
        styles.set key (raisedValue (styles.get? key) value) := by
      unfold Lowering.raiseEntry
      dsimp only
      split
      · next p hobject => exact absurd ⟨p, rfl, hobject⟩ hplain
      · rfl
    rw [hset]
    refine h.set key (standing?_set_of_ne styles hkey _) fun hwritten => ?_
    refine mentions_raisedValue (Key.ne_of_isProperty hproperty Key.not_isProperty_default).symm ?_ hvalue
    exact fun old hold => h.undisturbed _ (mem_of_get? hold) hwritten

theorem Calm.raise (h : Calm property value? styles) (hproperty : property.isProperty = true)
    {pseudo : Option String} (hpseudo : ∀ p, pseudo = some p → (Key.name p).isBranch = true) {entries : Object}
    (hentries : entries.mentions property = false) :
    Calm property value?
      (entries.foldl (fun styles entry => Lowering.raiseEntry pseudo styles entry.1 entry.2) styles) := by
  induction entries generalizing styles with
  | nil => exact h
  | cons entry entries ih =>
      rw [Object.mentions_eq_false_iff, List.forall_mem_cons, ← Object.mentions_eq_false_iff] at hentries
      obtain ⟨⟨hkey, hvalue⟩, hrest⟩ := hentries
      exact ih (h.raiseEntry hproperty hpseudo hkey hvalue) hrest

theorem set_conditionsOf (existing : Option Value) (condition : Key) (value : Value) :
    (match existing with
    | some (.obj o) =>
      if Object.isConditional o then Object.set o condition value
      else Object.set [(Key.default, .obj o)] condition value
    | other => Object.set [(Key.default, other.getD .null)] condition value) =
      (conditionsOf existing).set condition value := by
  unfold conditionsOf
  split
  · split <;> rfl
  · rfl

/-- Values behind a marker let all values outside of conditions stand. -/
theorem Calm.addMarkerValues (hproperty : property.isProperty = true) (selector : String) (body : Object)
    {l : Lowered} (h : Calm property value? l.component.styles) :
    Calm property value? (addMarkerValues selector body l).component.styles := by
  fun_induction Lowering.addMarkerValues selector body l with
  | case1 l => exact h
  | case2 key value rest l _ ih => exact ih h
  | case3 key value rest l hplain condition existing entry ih =>
      refine ih ?_
      have hvalue : value.isObject = false := by simp at hplain; exact hplain.2
      have hentry : entry = (conditionsOf existing).set condition value := set_conditionsOf existing condition value
      show Calm property value? (l.component.styles.set key (.obj entry))
      rw [hentry]
      exact h.withCondition hproperty (isBranch_siblingBefore _) key hvalue

/-- Values that go through custom properties leave alone what the body does not name. -/
theorem Calm.bridgeEntries (hproperty : property.isProperty = true) (parent : Component) (pseudo selector : String)
    {body : Object} (hbody : body.mentions property = false) {l : Lowered}
    (h : Calm property value? l.component.styles) :
    Calm property value? (bridgeEntries parent pseudo selector body l).component.styles := by
  have hdefault : Key.default ≠ property := (Key.ne_of_isProperty hproperty Key.not_isProperty_default).symm
  have hreference : ∀ name value, (variableReference name value).mentions property = false := fun name value =>
    Value.mentions_of_not_isObject property (isObject_variableReference name value)
  fun_induction Lowering.bridgeEntries parent pseudo selector body l with
  | case1 l => exact h
  | case2 value rest l name _ c varName entry c' c'' ih =>
      rw [Object.mentions_eq_false_iff, List.forall_mem_cons, ← Object.mentions_eq_false_iff] at hbody
      refine ih hbody.2 (h.set (.name name) (standing?_set_of_ne _ hbody.1.1 _) fun hwritten => ?_)
      dsimp only [entry]
      split
      · next o hget =>
          split
          · exact Object.mentions_set (h.undisturbed _ (mem_of_get? hget) hwritten) hdefault (hreference _ _)
          · exact hreference _ _
      · exact hreference _ _
  | case3 l key value rest _ ih =>
      rw [Object.mentions_eq_false_iff, List.forall_mem_cons, ← Object.mentions_eq_false_iff] at hbody
      exact ih hbody.2 h

end

end Restyle.Lowering
