import Restyle.Proofs.Collision
import Restyle.Proofs.Growth

/-!
# Nested style objects as maps

While a rule is converted, its style object holds plain values under the keys of properties, and objects
under the keys of pseudo-elements and conditions.  Such an object is read as a map from paths of blocks and
properties to plain values.  Merging overrides one such map by another; folding the conditions into the
properties keeps the values outside of conditions and directly below one, and drops all blocks below a
condition.
-/

namespace Restyle.Style

/-! ## Kinds of keys -/

namespace Key

/-- The key of a property: no pseudo-element, no condition and not the default of a map. -/
def isProperty (key : Key) : Bool :=
  !key.isPseudoElement && !key.isCondition

/-- The key of a condition under which a property may have a value, the default aside. -/
def isBranch (key : Key) : Bool :=
  key.isCondition && key != Key.default

/-- The key of a block of properties. -/
def opensBlock (key : Key) : Bool :=
  key.isPseudoElement || key.isBranch

theorem not_isCondition_of_isPseudoElement {key : Key} (h : key.isPseudoElement = true) :
    key.isCondition = false := by
  cases key with
  | computed code => cases h
  | name s =>
      obtain ⟨rest, hrest⟩ := Option.isSome_iff_exists.mp h
      have hs : s.toList = ':' :: ':' :: rest := Text.after?_eq_some hrest
      have hdefault : s ≠ "default" := by
        rintro rfl
        exact absurd hs (by simp)
      have hpseudo : isPseudoClass (.name s) = false := by
        simp only [isPseudoClass, Bool.and_eq_false_iff, Bool.not_eq_false']
        exact .inr h
      have hat : isConditionAtRule (.name s) = false := by
        simp [isConditionAtRule, isConditionAtRuleText, Text.hasLead, Text.startsWith, hs, Text.after?]
      simp [isCondition, hdefault, hpseudo, hat]

theorem isBranch_default : isBranch Key.default = false := by
  simp [isBranch]

theorem isCondition_default : isCondition Key.default = true := rfl

theorem ne_default_of_isBranch {key : Key} (h : key.isBranch = true) : key ≠ Key.default := by
  rintro rfl
  cases isBranch_default.symm.trans h

theorem isCondition_of_isBranch {key : Key} (h : key.isBranch = true) : key.isCondition = true :=
  (Bool.and_eq_true_iff.mp h).1

theorem not_isBranch_of_isPseudoElement {key : Key} (h : key.isPseudoElement = true) :
    key.isBranch = false := by
  rw [isBranch, not_isCondition_of_isPseudoElement h, Bool.false_and]

theorem not_opensBlock_of_isProperty {key : Key} (h : key.isProperty = true) :
    key.opensBlock = false := by
  obtain ⟨helement, hcondition⟩ := Bool.and_eq_true_iff.mp h
  rw [Bool.not_eq_true'] at helement hcondition
  rw [opensBlock, isBranch, helement, hcondition, Bool.false_and, Bool.or_false]

theorem not_opensBlock_default : opensBlock Key.default = false := by
  rw [opensBlock, isBranch_default, Bool.or_false]
  rfl

theorem not_isProperty_default : isProperty Key.default = false := rfl

theorem not_isProperty_of_isPseudoElement {key : Key} (h : key.isPseudoElement = true) :
    key.isProperty = false := by
  rw [isProperty, h]
  rfl

theorem not_isProperty_of_isCondition {key : Key} (h : key.isCondition = true) :
    key.isProperty = false := by
  rw [isProperty, h, Bool.not_true, Bool.and_false]

theorem not_isProperty_of_isBranch {key : Key} (h : key.isBranch = true) : key.isProperty = false :=
  not_isProperty_of_isCondition (isCondition_of_isBranch h)

theorem ne_of_isProperty {key other : Key} (h : key.isProperty = true) (hother : other.isProperty = false) :
    key ≠ other := by
  rintro rfl
  cases h.symm.trans hother

/-- Every key is that of a property, of a pseudo-element, or of a condition. -/
theorem kind (key : Key) :
    key.isProperty = true ∨ key.isPseudoElement = true ∨ key.isCondition = true := by
  cases helement : key.isPseudoElement with
  | true => exact .inr (.inl rfl)
  | false =>
      cases hcondition : key.isCondition with
      | true => exact .inr (.inr rfl)
      | false => exact .inl (by rw [isProperty, helement, hcondition]; rfl)

end Key

/-! ## Reading along a path -/

theorem Value.eq_obj {value : Value} (h : value.isObject = true) : ∃ inner, value = .obj inner := by
  cases value with
  | obj inner => exact ⟨inner, rfl⟩
  | _ => cases h

namespace Object

theorem get?_eq_none_iff (o : Object) (key : Key) : o.get? key = none ↔ key ∉ o.keys := by
  rw [← has_iff_mem_keys, has, Bool.not_eq_true, Option.isSome_eq_false_iff, Option.isNone_iff_eq_none]

theorem nodup_keys_set {o : Object} (h : o.keys.Nodup) (key : Key) (value : Value) :
    (o.set key value).keys.Nodup := by
  rw [keys_set]
  split
  · exact h
  · next hnew =>
      refine List.nodup_append.mpr ⟨h, List.pairwise_singleton _ key, ?_⟩
      intro a ha b hb hab
      cases List.mem_singleton.mp hb
      exact hnew (hab ▸ ha)

theorem nodup_keys_merge (source : Object) {target : Object} (h : target.keys.Nodup) :
    (target.merge source).keys.Nodup := by
  induction source generalizing target with
  | nil => rwa [merge_nil]
  | cons entry source ih =>
      obtain ⟨key, value⟩ := entry
      rw [merge_cons]
      exact ih (nodup_keys_set h key _)

theorem get?_set_eq_some {o : Object} {key k : Key} {value v : Value}
    (h : (o.set key value).get? k = some v) : (key = k ∧ v = value) ∨ o.get? k = some v := by
  by_cases hk : key = k
  · subst hk
    rw [get?_set_self] at h
    exact .inl ⟨rfl, (Option.some.inj h).symm⟩
  · rw [get?_set_of_ne o value hk] at h
    exact .inr h

/-- After a merge a key of the source has its value there, merged into the one it had. -/
theorem get?_merge {source : Object} (h : source.keys.Nodup) (target : Object) (key : Key) :
    (target.merge source).get? key =
      match source.get? key with
      | some value => some (mergeValue (target.get? key) value)
      | none => target.get? key := by
  induction source generalizing target with
  | nil => rw [merge_nil, get?_nil]
  | cons entry source ih =>
      obtain ⟨k, v⟩ := entry
      obtain ⟨hfresh, hrest⟩ := List.nodup_cons.mp h
      rw [merge_cons, ih hrest, get?_cons]
      by_cases hk : k = key
      · subst hk
        have hnone : get? source k = none := (get?_eq_none_iff source k).mpr hfresh
        rw [hnone, if_pos rfl]
        exact get?_set_self ..
      · rw [if_neg hk, get?_set_of_ne target _ hk]

/-- The object at the end of a path of blocks. -/
def within? (o : Object) : List Key → Option Object
  | [] => some o
  | key :: path =>
    match o.get? key with
    | some (.obj inner) => within? inner path
    | _ => none

/-- The value of a key that is no object. -/
def leaf? (o : Object) (key : Key) : Option Value :=
  (o.get? key).filter fun value => !value.isObject

/-- The plain value of a property inside of the blocks along a path. -/
def plain? (o : Object) (path : List Key) (property : Key) : Option Value :=
  (o.within? path).bind fun inner => inner.leaf? property

theorem plain?_nil (o : Object) (property : Key) : o.plain? [] property = o.leaf? property := rfl

theorem within?_cons_obj {o inner : Object} {key : Key} (h : o.get? key = some (.obj inner))
    (path : List Key) : o.within? (key :: path) = inner.within? path := by
  rw [within?, h]

theorem within?_cons_none {o : Object} {key : Key} (h : ∀ inner, o.get? key ≠ some (.obj inner))
    (path : List Key) : o.within? (key :: path) = none := by
  rw [within?]
  split
  · next inner hinner => exact absurd hinner (h inner)
  · rfl

theorem plain?_cons_obj {o inner : Object} {key : Key} (h : o.get? key = some (.obj inner))
    (path : List Key) (property : Key) : o.plain? (key :: path) property = inner.plain? path property := by
  rw [plain?, within?_cons_obj h, plain?]

theorem plain?_cons_none {o : Object} {key : Key} (h : ∀ inner, o.get? key ≠ some (.obj inner))
    (path : List Key) (property : Key) : o.plain? (key :: path) property = none := by
  rw [plain?, within?_cons_none h, Option.bind_none]

theorem leaf?_of_get? {o : Object} {key : Key} {value : Value} (h : o.get? key = some value)
    (hvalue : value.isObject = false) : o.leaf? key = some value := by
  rw [leaf?, h, Option.filter_some, hvalue]
  rfl

theorem leaf?_of_obj {o inner : Object} {key : Key} (h : o.get? key = some (.obj inner)) :
    o.leaf? key = none := by
  rw [leaf?, h]
  rfl

theorem leaf?_of_none {o : Object} {key : Key} (h : o.get? key = none) : o.leaf? key = none := by
  rw [leaf?, h]
  rfl

theorem get?_of_leaf? {o : Object} {key : Key} {value : Value} (h : o.leaf? key = some value) :
    o.get? key = some value ∧ value.isObject = false := by
  obtain ⟨hget, hvalue⟩ := Option.filter_eq_some_iff.mp h
  exact ⟨hget, by simpa using hvalue⟩

end Object

/-! ## Raw objects -/

/--
An object in which every key occurs once, properties have plain values, and pseudo-elements and
conditions have such objects again.
-/
inductive Raw : Object → Prop where
  | intro {o : Object} :
      o.keys.Nodup →
      (∀ key value, o.get? key = some value → value.isObject = false → key.isProperty = true) →
      (∀ key inner, o.get? key = some (.obj inner) → key.opensBlock = true) →
      (∀ key inner, o.get? key = some (.obj inner) → Raw inner) → Raw o

namespace Raw

variable {o target source : Object}

theorem nodup (h : Raw o) : o.keys.Nodup := by
  cases h with
  | intro hnodup => exact hnodup

theorem isProperty (h : Raw o) {key : Key} {value : Value} (hget : o.get? key = some value)
    (hvalue : value.isObject = false) : key.isProperty = true := by
  cases h with
  | intro _ hleaf => exact hleaf key value hget hvalue

theorem opensBlock (h : Raw o) {key : Key} {inner : Object} (hget : o.get? key = some (.obj inner)) :
    key.opensBlock = true := by
  cases h with
  | intro _ _ hblock => exact hblock key inner hget

theorem inner (h : Raw o) {key : Key} {inner : Object} (hget : o.get? key = some (.obj inner)) :
    Raw inner := by
  cases h with
  | intro _ _ _ hinner => exact hinner key inner hget

theorem nil : Raw [] :=
  .intro List.nodup_nil nofun nofun nofun

/-- A property has no object. -/
theorem ne_obj (h : Raw o) {key : Key} (hkey : key.isProperty = true) (inner : Object) :
    o.get? key ≠ some (.obj inner) := by
  intro hget
  cases (Key.not_opensBlock_of_isProperty hkey).symm.trans (h.opensBlock hget)

/-- A block has an object, if it is there at all. -/
theorem eq_obj (h : Raw o) {key : Key} (hkey : key.opensBlock = true) {value : Value}
    (hget : o.get? key = some value) : ∃ inner, value = .obj inner := by
  cases hvalue : value.isObject with
  | true => exact Value.eq_obj hvalue
  | false =>
      have hproperty := h.isProperty hget hvalue
      cases (Key.not_opensBlock_of_isProperty hproperty).symm.trans hkey

theorem leaf?_of_opensBlock (h : Raw o) {key : Key} (hkey : key.opensBlock = true) :
    o.leaf? key = none := by
  cases hleaf : o.leaf? key with
  | none => rfl
  | some value =>
      obtain ⟨hget, hvalue⟩ := Object.get?_of_leaf? hleaf
      obtain ⟨inner, rfl⟩ := h.eq_obj hkey hget
      cases hvalue

theorem get?_default (h : Raw o) : o.get? Key.default = none := by
  cases hget : o.get? Key.default with
  | none => rfl
  | some value =>
      cases hvalue : value.isObject with
      | false => cases Key.not_isProperty_default.symm.trans (h.isProperty hget hvalue)
      | true =>
          obtain ⟨inner, rfl⟩ := Value.eq_obj hvalue
          cases Key.not_opensBlock_default.symm.trans (h.opensBlock hget)

theorem not_isConditional (h : Raw o) : Object.isConditional o = false := by
  rw [Object.isConditional, Object.has, h.get?_default, Option.isSome_none, Bool.and_false]

theorem set_leaf (h : Raw o) {key : Key} (hkey : key.isProperty = true) {value : Value}
    (hvalue : value.isObject = false) : Raw (o.set key value) := by
  refine .intro (Object.nodup_keys_set h.nodup key value) ?_ ?_ ?_
  · intro k v hget hv
    rcases Object.get?_set_eq_some hget with ⟨rfl, -⟩ | hold
    · exact hkey
    · exact h.isProperty hold hv
  · intro k inner hget
    rcases Object.get?_set_eq_some hget with ⟨-, rfl⟩ | hold
    · cases hvalue
    · exact h.opensBlock hold
  · intro k inner hget
    rcases Object.get?_set_eq_some hget with ⟨-, rfl⟩ | hold
    · cases hvalue
    · exact h.inner hold

theorem set_block (h : Raw o) {key : Key} (hkey : key.opensBlock = true) {inner : Object}
    (hinner : Raw inner) : Raw (o.set key (.obj inner)) := by
  refine .intro (Object.nodup_keys_set h.nodup key _) ?_ ?_ ?_
  · intro k v hget hv
    rcases Object.get?_set_eq_some hget with ⟨-, rfl⟩ | hold
    · cases hv
    · exact h.isProperty hold hv
  · intro k other hget
    rcases Object.get?_set_eq_some hget with ⟨rfl, -⟩ | hold
    · exact hkey
    · exact h.opensBlock hold
  · intro k other hget
    rcases Object.get?_set_eq_some hget with ⟨-, heq⟩ | hold
    · cases heq
      exact hinner
    · exact h.inner hold

theorem mergeValue_leaf (old : Option Value) {value : Value} (h : value.isObject = false) :
    mergeValue old value = value := by
  cases value with
  | obj inner => cases h
  | _ => simp [mergeValue]

/-- The value of a key after a merge, given the values it had. -/
inductive Merged (target source : Object) (key : Key) : Option Value → Prop where
  | kept : source.get? key = none → Merged target source key (target.get? key)
  | plain {value : Value} :
      source.get? key = some value → value.isObject = false → Merged target source key (some value)
  | opened {inner : Object} :
      source.get? key = some (.obj inner) → (∀ old, target.get? key ≠ some (.obj old)) →
      Merged target source key (some (.obj inner))
  | joined {inner old : Object} :
      source.get? key = some (.obj inner) → target.get? key = some (.obj old) →
      Merged target source key (some (.obj (old.merge inner)))

theorem merged (hsource : Raw source) (target : Object) (key : Key) :
    Merged target source key ((target.merge source).get? key) := by
  rw [Object.get?_merge hsource.nodup]
  cases hkey : source.get? key with
  | none => exact .kept hkey
  | some v =>
      dsimp only
      cases hobject : v.isObject with
      | false =>
          rw [mergeValue_leaf _ hobject]
          exact .plain hkey hobject
      | true =>
          obtain ⟨inner, rfl⟩ := Value.eq_obj hobject
          by_cases hold : ∃ old, target.get? key = some (.obj old)
          · obtain ⟨old, hold⟩ := hold
            have hjoin : mergeValue (target.get? key) (.obj inner) = .obj (Object.merge old inner) := by
              simp [mergeValue, hold, (hsource.inner hkey).not_isConditional]
            rw [hjoin]
            exact .joined hkey hold
          · have hnot : ∀ old, target.get? key ≠ some (.obj old) := fun old h => hold ⟨old, h⟩
            have hopen : mergeValue (target.get? key) (.obj inner) = .obj inner := by
              rw [mergeValue]
              exact hnot
            rw [hopen]
            exact .opened hkey hnot

/-- A merge of raw objects is raw. -/
theorem merge (htarget : Raw target) (hsource : Raw source) : Raw (target.merge source) := by
  have hraw := hsource
  induction hsource generalizing target with
  | @intro source hnodup hleaf hblock hinner ih =>
      refine .intro (Object.nodup_keys_merge source htarget.nodup) ?_ ?_ ?_
      · intro key value hget hvalue
        have hcases := hraw.merged target key
        rw [hget] at hcases
        generalize hresult : some value = result at hcases
        cases hcases with
        | kept => exact htarget.isProperty hresult.symm hvalue
        | plain hkey =>
            cases hresult
            exact hleaf key _ hkey hvalue
        | opened =>
            cases hresult
            cases hvalue
        | joined =>
            cases hresult
            cases hvalue
      · intro key inner hget
        have hcases := hraw.merged target key
        rw [hget] at hcases
        generalize hresult : some (Value.obj inner) = result at hcases
        cases hcases with
        | kept => exact htarget.opensBlock hresult.symm
        | plain _ hvalue =>
            cases hresult
            cases hvalue
        | opened hkey => exact hblock key _ hkey
        | joined hkey => exact hblock key _ hkey
      · intro key inner hget
        have hcases := hraw.merged target key
        rw [hget] at hcases
        generalize hresult : some (Value.obj inner) = result at hcases
        cases hcases with
        | kept => exact htarget.inner hresult.symm
        | plain _ hvalue =>
            cases hresult
            cases hvalue
        | opened hkey =>
            cases hresult
            exact hinner key _ hkey
        | joined hkey hold =>
            cases hresult
            exact ih key _ hkey (htarget.inner hold) (hinner key _ hkey)

/-- After a merge of raw objects the plain values of the source win. -/
theorem plain?_merge (htarget : Raw target) (hsource : Raw source) (path : List Key) (property : Key) :
    (target.merge source).plain? path property =
      (source.plain? path property).or (target.plain? path property) := by
  induction path generalizing target source with
  | nil =>
      rw [Object.plain?_nil, Object.plain?_nil, Object.plain?_nil]
      have hcases := hsource.merged target property
      generalize hresult : (target.merge source).get? property = result at hcases
      cases hcases with
      | kept hkey => rw [Object.leaf?_of_none hkey, Option.none_or, Object.leaf?, hresult, Object.leaf?]
      | plain hkey hvalue =>
          rw [Object.leaf?_of_get? hkey hvalue, Object.leaf?_of_get? hresult hvalue, Option.some_or]
      | opened hkey | joined hkey =>
          have hblock := hsource.opensBlock hkey
          rw [Object.leaf?_of_obj hresult, Object.leaf?_of_obj hkey, htarget.leaf?_of_opensBlock hblock,
            Option.none_or]
  | cons key path ih =>
      have hcases := hsource.merged target key
      generalize hresult : (target.merge source).get? key = result at hcases
      cases hcases with
      | kept hkey =>
          have hnone : ∀ inner, source.get? key ≠ some (.obj inner) := by simp [hkey]
          rw [Object.plain?_cons_none hnone, Option.none_or]
          simp only [Object.plain?, Object.within?, hresult]
      | plain hkey hvalue =>
          have hproperty := hsource.isProperty hkey hvalue
          rw [Object.plain?_cons_none ((htarget.merge hsource).ne_obj hproperty),
            Object.plain?_cons_none (hsource.ne_obj hproperty),
            Object.plain?_cons_none (htarget.ne_obj hproperty), Option.none_or]
      | opened hkey hnot =>
          rw [Object.plain?_cons_obj hresult, Object.plain?_cons_obj hkey,
            Object.plain?_cons_none hnot, Option.or_none]
      | joined hkey hold =>
          rw [Object.plain?_cons_obj hresult, Object.plain?_cons_obj hkey, Object.plain?_cons_obj hold,
            ih (htarget.inner hold) (hsource.inner hkey)]

/-- After a merge of raw objects there are the blocks of both. -/
theorem within?_merge (htarget : Raw target) (hsource : Raw source) (path : List Key) :
    ((target.merge source).within? path).isSome =
      ((source.within? path).isSome || (target.within? path).isSome) := by
  induction path generalizing target source with
  | nil => rfl
  | cons key path ih =>
      have hcases := hsource.merged target key
      generalize hresult : (target.merge source).get? key = result at hcases
      cases hcases with
      | kept hkey =>
          have hnone : ∀ inner, source.get? key ≠ some (.obj inner) := by simp [hkey]
          rw [Object.within?_cons_none hnone, Option.isSome_none, Bool.false_or]
          simp only [Object.within?, hresult]
      | plain hkey hvalue =>
          have hproperty := hsource.isProperty hkey hvalue
          rw [Object.within?_cons_none ((htarget.merge hsource).ne_obj hproperty),
            Object.within?_cons_none (hsource.ne_obj hproperty),
            Object.within?_cons_none (htarget.ne_obj hproperty), Option.isSome_none, Bool.or_self]
      | opened hkey hnot =>
          rw [Object.within?_cons_obj hresult, Object.within?_cons_obj hkey,
            Object.within?_cons_none hnot, Option.isSome_none, Bool.or_false]
      | joined hkey hold =>
          rw [Object.within?_cons_obj hresult, Object.within?_cons_obj hkey, Object.within?_cons_obj hold,
            ih (htarget.inner hold) (hsource.inner hkey)]

/-- Setting a property changes its plain value at the top and nothing else. -/
theorem plain?_set_leaf (h : Raw o) {key : Key} (hkey : key.isProperty = true) {value : Value}
    (hvalue : value.isObject = false) (path : List Key) (property : Key) :
    (o.set key value).plain? path property =
      if path = [] ∧ property = key then some value else o.plain? path property := by
  cases path with
  | nil =>
      rw [Object.plain?_nil, Object.plain?_nil]
      by_cases hp : property = key
      · subst hp
        rw [if_pos ⟨rfl, rfl⟩]
        exact Object.leaf?_of_get? (Object.get?_set_self ..) hvalue
      · rw [if_neg (fun hboth => hp hboth.2), Object.leaf?, Object.get?_set_of_ne o value (Ne.symm hp),
          Object.leaf?]
  | cons k path =>
      rw [if_neg (fun hboth => nomatch hboth.1)]
      by_cases hk : key = k
      · subst hk
        rw [Object.plain?_cons_none ((h.set_leaf hkey hvalue).ne_obj hkey),
          Object.plain?_cons_none (h.ne_obj hkey)]
      · simp only [Object.plain?, Object.within?, Object.get?_set_of_ne o value hk]

theorem within?_set_leaf (h : Raw o) {key : Key} (hkey : key.isProperty = true) {value : Value}
    (hvalue : value.isObject = false) (path : List Key) :
    ((o.set key value).within? path).isSome = (o.within? path).isSome := by
  cases path with
  | nil => rfl
  | cons k path =>
      by_cases hk : key = k
      · subst hk
        rw [Object.within?_cons_none ((h.set_leaf hkey hvalue).ne_obj hkey),
          Object.within?_cons_none (h.ne_obj hkey)]
      · simp only [Object.within?, Object.get?_set_of_ne o value hk]

end Raw

/-! ## Merging at a path -/

/-- The values of an object as they are contributed: a value for a property inside of blocks. -/
structure Contribution where
  path : List Key
  property : Key
  value : Value

namespace Contribution

/-- A contribution inside of further blocks. -/
def inside (around : List Key) (c : Contribution) : Contribution :=
  { c with path := around ++ c.path }

/-- The last value that is contributed to a property inside of blocks. -/
def last (cs : List Contribution) (path : List Key) (property : Key) : Option Value :=
  (cs.reverse.find? fun c => c.path = path ∧ c.property = property).map (·.value)

theorem last_append (cs ds : List Contribution) (path : List Key) (property : Key) :
    last (cs ++ ds) path property = (last ds path property).or (last cs path property) := by
  rw [last, List.reverse_append, List.find?_append, Option.map_or]
  rfl

theorem last_singleton (c : Contribution) (path : List Key) (property : Key) :
    last [c] path property = if c.path = path ∧ c.property = property then some c.value else none := by
  by_cases h : c.path = path ∧ c.property = property <;> simp [last, h]

/-- Contributions inside of further blocks are found there. -/
theorem last_inside (around : List Key) (cs : List Contribution) (path : List Key) (property : Key) :
    last (cs.map (inside around)) (around ++ path) property = last cs path property := by
  have hmatch : (fun c : Contribution => decide (c.path = around ++ path ∧ c.property = property)) ∘
      inside around = fun c => decide (c.path = path ∧ c.property = property) := by
    funext c
    exact decide_eq_decide.mpr (by simp [inside])
  rw [last, ← List.map_reverse, List.find?_map, hmatch, Option.map_map, last]
  rfl

theorem last_inside_of_not_isPrefix {around path : List Key} (h : ¬ around <+: path)
    (cs : List Contribution) (property : Key) : last (cs.map (inside around)) path property = none := by
  rw [last, Option.map_eq_none_iff, List.find?_eq_none]
  intro c hc hmatch
  obtain ⟨d, -, rfl⟩ := List.mem_map.mp (List.mem_reverse.mp hc)
  exact h ⟨d.path, (of_decide_eq_true hmatch).1⟩

end Contribution

/-- A raw object with given contributions and blocks. -/
structure Represents (o : Object) (cs : List Contribution) (blocks : List (List Key)) : Prop where
  raw : Raw o
  plain : ∀ path property, o.plain? path property = Contribution.last cs path property
  opens : ∀ path, (o.within? path).isSome = true ↔ ∃ block ∈ blocks, path <+: block

theorem isPrefix_append_iff {α : Type} {path around block : List α} :
    path <+: around ++ block ↔ path <+: around ∨ ∃ rest, path = around ++ rest ∧ rest <+: block := by
  induction around generalizing path with
  | nil =>
      constructor
      · exact fun h => .inr ⟨path, rfl, h⟩
      · rintro (h | ⟨rest, rfl, h⟩)
        · rw [List.prefix_nil.mp h]
          exact List.nil_prefix
        · exact h
  | cons a around ih =>
      cases path with
      | nil => exact iff_of_true List.nil_prefix (.inl List.nil_prefix)
      | cons b path =>
          rw [List.cons_append, List.cons_prefix_cons, List.cons_prefix_cons, ih]
          constructor
          · rintro ⟨rfl, h | ⟨rest, rfl, h⟩⟩
            · exact .inl ⟨rfl, h⟩
            · exact .inr ⟨rest, rfl, h⟩
          · rintro (⟨rfl, h⟩ | ⟨rest, heq, h⟩)
            · exact ⟨rfl, .inl h⟩
            · obtain ⟨rfl, rfl⟩ := List.cons.inj heq
              exact ⟨rfl, .inr ⟨rest, rfl, h⟩⟩

theorem represents_nil : Represents [] [] [[]] where
  raw := Raw.nil
  plain := by
    intro path property
    cases path <;> rfl
  opens := by
    intro path
    cases path with
    | nil => exact iff_of_true rfl ⟨[], List.mem_singleton.mpr rfl, List.nil_prefix⟩
    | cons key path =>
        refine iff_of_false Bool.false_ne_true ?_
        rintro ⟨block, hblock, hprefix⟩
        cases List.mem_singleton.mp hblock
        cases List.prefix_nil.mp hprefix

theorem Represents.set_leaf {o : Object} {cs : List Contribution} {blocks : List (List Key)}
    (h : Represents o cs blocks) {key : Key} (hkey : key.isProperty = true) {value : Value}
    (hvalue : value.isObject = false) :
    Represents (o.set key value) (cs ++ [⟨[], key, value⟩]) blocks where
  raw := h.raw.set_leaf hkey hvalue
  plain := by
    intro path property
    rw [h.raw.plain?_set_leaf hkey hvalue, h.plain, Contribution.last_append,
      Contribution.last_singleton]
    by_cases hmatch : path = [] ∧ property = key
    · rw [if_pos hmatch, if_pos ⟨hmatch.1.symm, hmatch.2.symm⟩, Option.some_or]
    · rw [if_neg hmatch, if_neg (fun hboth => hmatch ⟨hboth.1.symm, hboth.2.symm⟩), Option.none_or]
  opens := by
    intro path
    rw [h.raw.within?_set_leaf hkey hvalue, h.opens]

/-- An object that has been merged into another one at the end of a path. -/
structure Put (path : List Key) (target source o : Object) : Prop where
  raw : Raw o
  plain : ∀ rest property, o.plain? (path ++ rest) property =
    (source.plain? rest property).or (target.plain? (path ++ rest) property)
  frame : ∀ other property, ¬ path <+: other → o.plain? other property = target.plain? other property
  opens : ∀ other, (o.within? other).isSome = true ↔
    (target.within? other).isSome = true ∨ other <+: path ∨
      ∃ rest, other = path ++ rest ∧ (source.within? rest).isSome = true

/-- What is below a key of a raw object: the object there, or an empty one. -/
theorem Raw.exists_inner {target : Object} (h : Raw target) {key : Key} (hkey : key.opensBlock = true)
    (path : List Key) (source : Object) :
    ∃ inner, Raw inner ∧
      target.mergeAt (key :: path) source =
        (inner.mergeAt path source).map (fun o => target.set key (.obj o)) ∧
      (∀ rest property, target.plain? (key :: rest) property = inner.plain? rest property) ∧
      ∀ rest, (inner.within? rest).isSome = true ↔
        (target.within? (key :: rest)).isSome = true ∨ rest = [] := by
  cases hget : target.get? key with
  | none =>
      have hnone : ∀ inner, target.get? key ≠ some (.obj inner) := by simp [hget]
      refine ⟨[], Raw.nil, mergeAt_missing hget path source, fun rest property => ?_, fun rest => ?_⟩
      · rw [Object.plain?_cons_none hnone]
        cases rest <;> rfl
      · rw [Object.within?_cons_none hnone]
        cases rest with
        | nil => exact iff_of_true rfl (.inr rfl)
        | cons k rest => exact iff_of_false Bool.false_ne_true (by simp)
  | some value =>
      obtain ⟨inner, rfl⟩ := h.eq_obj hkey hget
      refine ⟨inner, h.inner hget, mergeAt_object hget path source, fun rest property => ?_,
        fun rest => ?_⟩
      · exact Object.plain?_cons_obj hget rest property
      · rw [Object.within?_cons_obj hget]
        refine ⟨.inl, ?_⟩
        rintro (h | rfl)
        · exact h
        · rfl

/-- A raw object can be merged into another one at the end of every path of blocks. -/
theorem Raw.exists_put {target source : Object} (htarget : Raw target) (hsource : Raw source)
    {path : List Key} (hpath : ∀ key ∈ path, key.opensBlock = true) :
    ∃ o, target.mergeAt path source = .ok o ∧ Put path target source o := by
  induction path generalizing target with
  | nil =>
      refine ⟨target.merge source, rfl, htarget.merge hsource, htarget.plain?_merge hsource,
        fun other _ hnot => absurd List.nil_prefix hnot, fun other => ?_⟩
      rw [htarget.within?_merge hsource, Bool.or_eq_true]
      constructor
      · rintro (h | h)
        · exact .inr (.inr ⟨other, rfl, h⟩)
        · exact .inl h
      · rintro (h | h | ⟨rest, rfl, h⟩)
        · exact .inr h
        · rw [List.prefix_nil.mp h]
          exact .inl rfl
        · exact .inl h
  | cons key path ih =>
      have hkey := hpath key List.mem_cons_self
      obtain ⟨inner, hinner, hmerge, hplain, hwithin⟩ := htarget.exists_inner hkey path source
      obtain ⟨o, ho, hput⟩ := ih hinner fun k hk => hpath k (List.mem_cons_of_mem key hk)
      have hself : (target.set key (.obj o)).get? key = some (.obj o) := Object.get?_set_self ..
      refine ⟨target.set key (.obj o), by rw [hmerge, ho]; rfl, htarget.set_block hkey hput.raw,
        fun rest property => ?_, fun other property hnot => ?_, fun other => ?_⟩
      · rw [List.cons_append, Object.plain?_cons_obj hself, hput.plain, hplain]
      · cases other with
        | nil =>
            rw [Object.plain?_nil, Object.plain?_nil]
            by_cases hp : key = property
            · subst hp
              rw [Object.leaf?_of_obj hself, htarget.leaf?_of_opensBlock hkey]
            · rw [Object.leaf?, Object.get?_set_of_ne target _ hp, Object.leaf?]
        | cons k other =>
            by_cases hk : key = k
            · subst hk
              rw [Object.plain?_cons_obj hself, hplain]
              exact hput.frame other property fun h => hnot (List.cons_prefix_cons.mpr ⟨rfl, h⟩)
            · simp only [Object.plain?, Object.within?, Object.get?_set_of_ne target _ hk]
      · cases other with
        | nil => exact iff_of_true rfl (.inl rfl)
        | cons k other =>
            by_cases hk : key = k
            · subst hk
              rw [Object.within?_cons_obj hself, hput.opens, hwithin, List.cons_prefix_cons]
              simp only [true_and, List.cons_append, List.cons.injEq]
              constructor
              · rintro ((h | rfl) | h | h)
                · exact .inl h
                · exact .inr (.inl List.nil_prefix)
                · exact .inr (.inl h)
                · exact .inr (.inr h)
              · rintro (h | h | h)
                · exact .inl (.inl h)
                · exact .inr (.inl h)
                · exact .inr (.inr h)
            · have hframe : (target.set key (.obj o)).within? (k :: other) = target.within? (k :: other) := by
                simp only [Object.within?, Object.get?_set_of_ne target _ hk]
              rw [hframe, List.cons_prefix_cons]
              refine ⟨.inl, ?_⟩
              rintro (h | ⟨rfl, -⟩ | ⟨rest, heq, -⟩)
              · exact h
              · exact absurd rfl hk
              · exact absurd (List.cons.inj heq).1.symm hk

/-- Contributions that are put at the end of a path come after all others. -/
theorem Represents.exists_mergeAt {target source : Object} {cs ds : List Contribution}
    {blocks further : List (List Key)} (htarget : Represents target cs blocks)
    (hsource : Represents source ds further) {path : List Key}
    (hpath : ∀ key ∈ path, key.opensBlock = true) (hfurther : [] ∈ further) :
    ∃ o, target.mergeAt path source = .ok o ∧
      Represents o (cs ++ ds.map (Contribution.inside path)) (blocks ++ further.map (path ++ ·)) := by
  obtain ⟨o, ho, hput⟩ := htarget.raw.exists_put hsource.raw hpath
  refine ⟨o, ho, hput.raw, fun other property => ?_, fun other => ?_⟩
  · rw [Contribution.last_append]
    by_cases hprefix : path <+: other
    · obtain ⟨rest, rfl⟩ := hprefix
      rw [hput.plain, Contribution.last_inside, hsource.plain, htarget.plain]
    · rw [hput.frame other property hprefix, Contribution.last_inside_of_not_isPrefix hprefix,
        Option.none_or, htarget.plain]
  · simp only [hput.opens, htarget.opens, hsource.opens, List.mem_append, List.mem_map]
    constructor
    · rintro (⟨block, hmem, h⟩ | h | ⟨rest, rfl, block, hmem, h⟩)
      · exact ⟨block, .inl hmem, h⟩
      · exact ⟨path, .inr ⟨[], hfurther, List.append_nil path⟩, h⟩
      · exact ⟨path ++ block, .inr ⟨block, hmem, rfl⟩, (List.prefix_append_right_inj path).mpr h⟩
    · rintro ⟨block, hmem | ⟨block, hmem, rfl⟩, h⟩
      · exact .inl ⟨block, hmem, h⟩
      · rcases isPrefix_append_iff.mp h with hbefore | ⟨rest, rfl, hrest⟩
        · exact .inr (.inl hbefore)
        · exact .inr (.inr ⟨rest, rfl, block, hmem, hrest⟩)

end Restyle.Style
