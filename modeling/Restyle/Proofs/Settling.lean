import Restyle.Proofs.Leftovers
import Restyle.Proofs.Variants

/-!
# Folded objects stay as they are

Folding removes every block under a condition: what a folded object still nests stands below keys that are
no conditions.  So folding it again finds nothing to fold.  The conditional maps that folding makes hold plain
values as long as the object keeps its parts apart: its own maps hold plain values, `default` is only a key of
such maps, and no key has a nested object as well as a plain value under a condition.
-/

namespace Restyle.Style

/-! ## Objects that can be folded -/

/-- An object in which no key occurs twice, and in no object inside of it either. -/
inductive Distinct : Object → Prop where
  | nil : Distinct []
  | leaf {key : Key} {value : Value} {o : Object} :
      value.isObject = false → key ∉ o.keys → Distinct o → Distinct ((key, value) :: o)
  | nested {key : Key} {inner o : Object} :
      Distinct inner → key ∉ o.keys → Distinct o → Distinct ((key, .obj inner) :: o)

theorem Distinct.nodup {o : Object} (h : Distinct o) : o.keys.Nodup := by
  cases h with
  | nil => exact List.nodup_nil
  | leaf _ hkey hrest => exact List.nodup_cons.mpr ⟨hkey, hrest.nodup⟩
  | nested _ hkey hrest => exact List.nodup_cons.mpr ⟨hkey, hrest.nodup⟩

/-- Whether a block of an object that is folded gives a key a plain value. -/
def Object.foldsLeaf (o : Object) (key : Key) : Bool :=
  o.any fun (condition, value) =>
    match value with
    | .obj block => isConditionBlock condition block && (Object.leaf? block key).isSome
    | _ => false

/--
An object that keeps its parts apart, as all objects inside of it do: a conditional map in it has plain values
only, `default` is only a key of conditional maps, and a key with a nested object gets no plain value under a
condition.
-/
inductive Orderly : Object → Prop where
  | intro {o : Object} :
      (∀ key map, (key, .obj map) ∈ o → Object.isConditional map = true →
        ∀ entry ∈ map, entry.2.isObject = false) →
      (Key.default ∈ o.keys → o.isConditional = true) →
      (∀ key inner, (key, .obj inner) ∈ o → Object.isConditional inner = false → o.foldsLeaf key = false) →
      (∀ key inner, (key, .obj inner) ∈ o → Orderly inner) → Orderly o

namespace Orderly

variable {o : Object}

/-- An object without `default` and without conditional maps in it. -/
theorem of_separate (hdefault : Key.default ∉ o.keys)
    (hleaf : ∀ entry ∈ o, entry.2.isObject = true → o.foldsLeaf entry.1 = false)
    (hinner : ∀ entry ∈ o, ∀ inner, entry.2 = .obj inner →
      Object.isConditional inner = false ∧ Orderly inner) : Orderly o := by
  constructor
  · exact fun key map hmem hmap => nomatch hmap.symm.trans (hinner _ hmem map rfl).1
  · exact fun hmem => absurd hmem hdefault
  · exact fun key inner hmem _ => hleaf _ hmem rfl
  · exact fun key inner hmem => (hinner _ hmem inner rfl).2

theorem plain (h : Orderly o) {key : Key} {map : Object} (hmem : (key, .obj map) ∈ o)
    (hmap : map.isConditional = true) : ∀ entry ∈ map, entry.2.isObject = false := by
  cases h with
  | intro hplain => exact hplain key map hmem hmap

theorem isConditional (h : Orderly o) (hdefault : Key.default ∈ o.keys) : o.isConditional = true := by
  cases h with
  | intro _ hmap => exact hmap hdefault

theorem foldsLeaf_eq_false (h : Orderly o) {key : Key} {inner : Object} (hmem : (key, .obj inner) ∈ o)
    (hinner : inner.isConditional = false) : o.foldsLeaf key = false := by
  cases h with
  | intro _ _ hleaf => exact hleaf key inner hmem hinner

theorem inner (h : Orderly o) {key : Key} {inner : Object} (hmem : (key, .obj inner) ∈ o) :
    Orderly inner := by
  cases h with
  | intro _ _ _ hinner => exact hinner key inner hmem

end Orderly

/-- A conditional map with distinct keys and plain values. -/
structure Shallow (map : Object) : Prop where
  conditional : map.isConditional = true
  nodup : map.keys.Nodup
  plain : ∀ key inner, map.get? key ≠ some (.obj inner)

theorem Shallow.set {map : Object} (h : Shallow map) {key : Key} (hkey : key.isCondition = true)
    {value : Value} (hvalue : value.isObject = false) : Shallow (Object.set map key value) := by
  constructor
  · exact Object.isConditional_set h.conditional hkey value
  · exact Object.nodup_keys_set h.nodup key value
  · intro k inner hget
    rcases Object.get?_set_eq_some hget with ⟨-, rfl⟩ | hold
    · cases hvalue
    · exact h.plain k inner hold

theorem shallow_default {value : Value} (hvalue : value.isObject = false) :
    Shallow [(Key.default, value)] := by
  constructor
  · exact Object.isConditional_default value
  · exact List.pairwise_singleton _ _
  · intro key inner hget
    rw [Object.get?_cons, Object.get?_nil] at hget
    split at hget
    · cases hget
      cases hvalue
    · cases hget

/-! ## One entry at a time -/

theorem isBranch_of_isConditionBlock {key : Key} {entries : Object}
    (h : isConditionBlock key entries = true) : key.isBranch = true ∧ entries.isConditional = false := by
  simp only [isConditionBlock, Bool.and_eq_true, Bool.not_eq_true'] at h
  refine ⟨?_, h.2⟩
  rw [Key.isBranch, h.1.2, h.1.1]
  rfl

/-- An object at a key is a block that is folded, a conditional map, or nested below a key of its own. -/
theorem isConditionBlock_cases (key : Key) (entries : Object) :
    isConditionBlock key entries = true ∨ entries.isConditional = true ∨
      entries.isConditional = false ∧ key.isBranch = false := by
  cases hmap : Object.isConditional entries with
  | true => exact .inr (.inl rfl)
  | false =>
      cases hkey : key.isBranch with
      | false => exact .inr (.inr ⟨rfl, rfl⟩)
      | true =>
          refine .inl ?_
          simp [isConditionBlock, Key.ne_default_of_isBranch hkey, Key.isCondition_of_isBranch hkey, hmap]

theorem flattenFrom_map (result : Object) (key : Key) {map : Object} (hmap : map.isConditional = true)
    (o : Object) : flattenFrom result ((key, .obj map) :: o) = flattenFrom (setMap result key map) o := by
  have hblock : isConditionBlock key map = false := by
    rw [isConditionBlock, hmap, Bool.not_true, Bool.and_false]
  rw [flattenFrom, if_neg (Bool.eq_false_iff.mp hblock), if_pos hmap]

theorem flattenFrom_nested (result : Object) {key : Key} (hkey : key.isBranch = false) {inner : Object}
    (hinner : inner.isConditional = false) (o : Object) :
    flattenFrom result ((key, .obj inner) :: o) =
      ((flattenFrom (setNested result key (flatten inner).1) o).1,
        (flatten inner).2 ++ (flattenFrom (setNested result key (flatten inner).1) o).2) := by
  have hblock : isConditionBlock key inner = false := by
    refine Bool.eq_false_iff.mpr fun h => ?_
    cases hkey.symm.trans (isBranch_of_isConditionBlock h).1
  rw [flattenFrom, if_neg (Bool.eq_false_iff.mp hblock), if_neg (Bool.eq_false_iff.mp hinner), flattenValue,
    flatten]

/-- A value under a condition is put into a conditional map, the one that is there or a new one. -/
theorem exists_setCondition (result : Object) (property : Key) {condition : Key}
    (hcondition : condition.isCondition = true) (value : Value) :
    ∃ map : Object, setCondition result property condition value = result.set property (.obj map) ∧
      map.isConditional = true ∧
      (value.isObject = false → (∀ old, result.get? property = some (.obj old) → Shallow old) →
        Shallow map) := by
  have hnew : ∀ plain : Value, Object.isConditional (Object.set [(Key.default, plain)] condition value) = true :=
    fun plain => Object.isConditional_set (Object.isConditional_default plain) hcondition value
  cases hget : result.get? property with
  | none =>
      refine ⟨_, by rw [setCondition, hget], hnew .null, fun hvalue _ => ?_⟩
      exact (shallow_default rfl).set hcondition hvalue
  | some old =>
      cases hobject : old.isObject with
      | false =>
          refine ⟨Object.set [(Key.default, old)] condition value, ?_, hnew old, fun hvalue _ => ?_⟩
          · rw [setCondition, hget]
            cases old with
            | obj map => cases hobject
            | _ => rfl
          · exact (shallow_default hobject).set hcondition hvalue
      | true =>
          obtain ⟨inner, rfl⟩ := Value.eq_obj hobject
          cases hmap : Object.isConditional inner with
          | true =>
              refine ⟨Object.set inner condition value, ?_, Object.isConditional_set hmap hcondition value,
                fun hvalue hold => (hold inner rfl).set hcondition hvalue⟩
              rw [setCondition, hget]
              exact if_pos hmap
          | false =>
              refine ⟨Object.set [(Key.default, .obj inner)] condition value, ?_, hnew _, fun _ hold => ?_⟩
              · rw [setCondition, hget]
                exact if_neg (Bool.eq_false_iff.mp hmap)
              · cases hmap.symm.trans (hold inner rfl).conditional

/-- What every plain value of a block keeps when it is folded is kept by the whole block. -/
theorem foldBlock_keeps {P : Object → Prop} {condition : Key} {entries : Object}
    (hstep : ∀ entry ∈ entries, entry.2.isObject = false →
      ∀ result, P result → P (setCondition result entry.1 condition entry.2))
    {result : Object} (h : P result) : P (foldBlock condition result entries).1 := by
  induction entries generalizing result with
  | nil => exact h
  | cons entry entries ih =>
      obtain ⟨property, value⟩ := entry
      obtain ⟨hfirst, hrest⟩ := List.forall_mem_cons.mp hstep
      cases hobject : value.isObject with
      | false =>
          rw [foldBlock_leaf condition result property hobject]
          exact ih hrest (hfirst hobject result h)
      | true =>
          obtain ⟨inner, rfl⟩ := Value.eq_obj hobject
          rw [foldBlock_block]
          exact ih hrest h

/-! ## Folded objects -/

/-- An object without a block under a condition, outside of conditional maps. -/
inductive OneLevel : Object → Prop where
  | intro {o : Object} :
      o.keys.Nodup →
      (∀ key inner, o.get? key = some (.obj inner) → Object.isConditional inner = false →
        key.isBranch = false) →
      (∀ key inner, o.get? key = some (.obj inner) → Object.isConditional inner = false → OneLevel inner) →
      OneLevel o

namespace OneLevel

variable {o : Object}

theorem nodup (h : OneLevel o) : o.keys.Nodup := by
  cases h with
  | intro hnodup => exact hnodup

theorem not_isBranch (h : OneLevel o) {key : Key} {inner : Object} (hget : o.get? key = some (.obj inner))
    (hinner : inner.isConditional = false) : key.isBranch = false := by
  cases h with
  | intro _ hkey => exact hkey key inner hget hinner

theorem inner (h : OneLevel o) {key : Key} {inner : Object} (hget : o.get? key = some (.obj inner))
    (hinner : inner.isConditional = false) : OneLevel inner := by
  cases h with
  | intro _ _ hnested => exact hnested key inner hget hinner

theorem nil : OneLevel [] :=
  .intro List.nodup_nil nofun nofun

theorem set (h : OneLevel o) {key : Key} {value : Value}
    (hvalue : ∀ inner, value = .obj inner → Object.isConditional inner = false →
      key.isBranch = false ∧ OneLevel inner) : OneLevel (o.set key value) := by
  constructor
  · exact Object.nodup_keys_set h.nodup key value
  · intro k inner hget hinner
    rcases Object.get?_set_eq_some hget with ⟨rfl, rfl⟩ | hold
    · exact (hvalue inner rfl hinner).1
    · exact h.not_isBranch hold hinner
  · intro k inner hget hinner
    rcases Object.get?_set_eq_some hget with ⟨rfl, rfl⟩ | hold
    · exact (hvalue inner rfl hinner).2
    · exact h.inner hold hinner

theorem set_leaf (h : OneLevel o) (key : Key) {value : Value} (hvalue : value.isObject = false) :
    OneLevel (o.set key value) := by
  apply h.set
  rintro inner rfl
  cases hvalue

theorem set_map (h : OneLevel o) (key : Key) {map : Object} (hmap : map.isConditional = true) :
    OneLevel (o.set key (.obj map)) := by
  apply h.set
  rintro inner heq hinner
  cases heq
  cases hmap.symm.trans hinner

/-- A folded object may be merged into a conditional map with plain values. -/
theorem merge_shallow (h : OneLevel o) {map : Object} (hmap : Shallow map) : OneLevel (map.merge o) := by
  have hread : ∀ {key : Key} {inner : Object}, (map.merge o).get? key = some (.obj inner) →
      o.get? key = some (.obj inner) := by
    intro key inner hget
    rw [Object.get?_merge h.nodup] at hget
    cases hsource : o.get? key with
    | none =>
        rw [hsource] at hget
        exact absurd hget (hmap.plain key inner)
    | some value =>
        rw [hsource] at hget
        have hvalue : mergeValue (map.get? key) value = value := by
          cases value with
          | obj source =>
              rw [mergeValue]
              exact hmap.plain key
          | _ => simp [mergeValue]
        dsimp only at hget
        rwa [hvalue] at hget
  constructor
  · exact Object.nodup_keys_merge o hmap.nodup
  · exact fun key inner hget hinner => h.not_isBranch (hread hget) hinner
  · exact fun key inner hget hinner => h.inner (hread hget) hinner

end OneLevel

/-- Folding goes through entries without a change if no block is to be folded and nested objects stay. -/
theorem flattenFrom_of_entries {o : Object} (hnodup : o.keys.Nodup)
    (hentries : ∀ key inner, (key, .obj inner) ∈ o → Object.isConditional inner = false →
      key.isBranch = false ∧ flatten inner = (inner, []))
    (result : Object) (hfresh : ∀ key ∈ o.keys, key ∉ result.keys) :
    flattenFrom result o = (result ++ o, []) := by
  induction o generalizing result with
  | nil => rw [flattenFrom, List.append_nil]
  | cons entry o ih =>
      obtain ⟨key, value⟩ := entry
      obtain ⟨hkey, hrest⟩ := List.nodup_cons.mp hnodup
      have hnew : key ∉ result.keys := hfresh key List.mem_cons_self
      have hnone : result.get? key = none := (Object.get?_eq_none_iff result key).mpr hnew
      have hnext : flattenFrom (result ++ [(key, value)]) o = (result ++ (key, value) :: o, []) := by
        rw [ih hrest fun k inner hmem => hentries k inner (List.mem_cons_of_mem _ hmem), List.append_assoc]
        · rfl
        · intro k hk hmem
          rw [Object.keys, List.map_append] at hmem
          rcases List.mem_append.mp hmem with hmem | hmem
          · exact hfresh k (List.mem_cons_of_mem key hk) hmem
          · cases List.mem_singleton.mp hmem
            exact hkey hk
      rw [← Object.set_of_not_mem hnew value] at hnext
      cases hobject : value.isObject with
      | false =>
          rw [flattenFrom_leaf result key hobject, setPlain, hnone]
          exact hnext
      | true =>
          obtain ⟨inner, rfl⟩ := Value.eq_obj hobject
          cases hmap : Object.isConditional inner with
          | true =>
              rw [flattenFrom_map result key hmap, setMap, hnone]
              exact hnext
          | false =>
              obtain ⟨hbranch, hinner⟩ := hentries key inner List.mem_cons_self hmap
              rw [flattenFrom_nested result hbranch hmap, hinner, setNested, hnone]
              dsimp only
              rw [hnext]
              rfl

/-- Folding goes through a folded object without a change. -/
theorem flattenFrom_of_oneLevel {o : Object} (h : OneLevel o) (result : Object)
    (hfresh : ∀ key ∈ o.keys, key ∉ result.keys) : flattenFrom result o = (result ++ o, []) := by
  induction h generalizing result with
  | @intro o hnodup hbranch _ ih =>
      refine flattenFrom_of_entries hnodup (fun key inner hmem hmap => ?_) result hfresh
      have hget := Object.get?_of_mem hnodup hmem
      exact ⟨hbranch key inner hget hmap, ih key inner hget hmap [] fun _ _ => List.not_mem_nil⟩

/-! ## Folding makes folded objects -/

/--
What the keys that still have to be folded have in the result: a conditional map of plain values, if
anything, and this only if a block has given the key such a value.
-/
def Awaits (touched : Key → Prop) (result rest : Object) : Prop :=
  ∀ key ∈ rest.keys, ∀ value, result.get? key = some value →
    touched key ∧ ∃ map : Object, value = .obj map ∧ Shallow map

namespace Awaits

variable {touched : Key → Prop} {result rest : Object}

theorem nil (touched : Key → Prop) (rest : Object) : Awaits touched [] rest :=
  fun _ _ _ hget => nomatch hget

theorem tail {key : Key} {value : Value} (h : Awaits touched result ((key, value) :: rest)) :
    Awaits touched result rest :=
  fun k hk => h k (List.mem_cons_of_mem key hk)

theorem set_of_not_mem (h : Awaits touched result rest) {key : Key} (hkey : key ∉ rest.keys) (value : Value) :
    Awaits touched (result.set key value) rest := by
  intro k hk v hget
  rcases Object.get?_set_eq_some hget with ⟨rfl, -⟩ | hold
  · exact absurd hk hkey
  · exact h k hk v hold

theorem setCondition (h : Awaits touched result rest) {property condition : Key}
    (hcondition : condition.isCondition = true) (hproperty : touched property) {value : Value}
    (hvalue : value.isObject = false) :
    Awaits touched (setCondition result property condition value) rest := by
  obtain ⟨map, heq, -, hshallow⟩ := exists_setCondition result property hcondition value
  rw [heq]
  intro k hk v hget
  rcases Object.get?_set_eq_some hget with ⟨rfl, rfl⟩ | hold
  · refine ⟨hproperty, map, rfl, hshallow hvalue fun old hold => ?_⟩
    obtain ⟨-, _, heq, hold⟩ := h _ hk _ hold
    cases heq
    exact hold
  · exact h k hk v hold

/-- Folding a block keeps to it, if the block gives plain values to touched keys only. -/
theorem foldBlock (h : Awaits touched result rest) {condition : Key} (hcondition : condition.isCondition = true)
    {entries : Object} (hentries : ∀ entry ∈ entries, entry.2.isObject = false → touched entry.1) :
    Awaits touched (foldBlock condition result entries).1 rest := by
  apply foldBlock_keeps (P := fun folded => Awaits touched folded rest) _ h
  intro entry hentry hvalue folded hfolded
  exact hfolded.setCondition hcondition (hentries entry hentry hvalue) hvalue

end Awaits

theorem OneLevel.setCondition {result : Object} (h : OneLevel result) {condition : Key}
    (hcondition : condition.isCondition = true) (property : Key) (value : Value) :
    OneLevel (setCondition result property condition value) := by
  obtain ⟨map, heq, hmap, -⟩ := exists_setCondition result property hcondition value
  rw [heq]
  exact h.set_map property hmap

theorem oneLevel_flattenFrom {o : Object} (h : Distinct o) {result : Object} (hresult : OneLevel result)
    (hawaits : Awaits (fun _ => True) result o) : OneLevel (flattenFrom result o).1 := by
  induction h generalizing result with
  | nil => rwa [flattenFrom]
  | @leaf key value o hvalue hkey _ ih =>
      rw [flattenFrom_leaf result key hvalue, setPlain]
      split
      · next map hget =>
          obtain ⟨-, _, heq, hmap⟩ := hawaits key List.mem_cons_self _ hget
          cases heq
          rw [if_pos hmap.conditional]
          apply ih
          · exact hresult.set_map key (Object.isConditional_set hmap.conditional Key.isCondition_default value)
          · exact hawaits.tail.set_of_not_mem hkey _
      · exact ih (hresult.set_leaf key hvalue) (hawaits.tail.set_of_not_mem hkey _)
  | @nested key inner o _ hkey _ ihinner ih =>
      rcases isConditionBlock_cases key inner with hblock | hmap | ⟨hplain, hbranch⟩
      · obtain ⟨hbranch, hplain⟩ := isBranch_of_isConditionBlock hblock
        have hcondition := Key.isCondition_of_isBranch hbranch
        rw [flattenFrom_branch result hbranch hplain]
        apply ih
        · exact foldBlock_keeps (fun _ _ _ _ hold => hold.setCondition hcondition _ _) hresult
        · exact hawaits.tail.foldBlock hcondition fun _ _ _ => trivial
      · rw [flattenFrom_map result key hmap, setMap]
        apply ih _ (hawaits.tail.set_of_not_mem hkey _)
        apply hresult.set_map
        split
        · exact hmap
        · split
          · exact hmap
          · split
            · exact Object.isConditional_set hmap Key.isCondition_default _
            · exact hmap
      · have hflat : OneLevel (flatten inner).1 := ihinner .nil (.nil _ inner)
        rw [flattenFrom_nested result hbranch hplain, setNested]
        split
        · next map hget =>
            obtain ⟨-, _, heq, hshallow⟩ := hawaits key List.mem_cons_self _ hget
            cases heq
            apply ih _ (hawaits.tail.set_of_not_mem hkey _)
            apply hresult.set
            intro merged heq _
            cases heq
            exact ⟨hbranch, hflat.merge_shallow hshallow⟩
        · apply ih _ (hawaits.tail.set_of_not_mem hkey _)
          apply hresult.set
          intro nested heq _
          cases heq
          exact ⟨hbranch, hflat⟩

/-- Folding an object leaves no block under a condition outside of conditional maps. -/
theorem oneLevel_flatten {o : Object} (h : Distinct o) : OneLevel (flatten o).1 :=
  oneLevel_flattenFrom h .nil (.nil _ o)

/-! ## Conditional maps of plain values -/

theorem hasNestedConditionals_eq_false_iff (o : Object) :
    hasNestedConditionals o = false ↔ ∀ entry ∈ o, nestsConditionals entry.2 = false := by
  induction o with
  | nil => exact iff_of_true rfl nofun
  | cons entry o ih =>
      obtain ⟨key, value⟩ := entry
      rw [hasNestedConditionals, Bool.or_eq_false_iff, ih, List.forall_mem_cons]

theorem Shallow.nestsConditionals {map : Object} (h : Shallow map) : nestsConditionals (.obj map) = false := by
  rw [Style.nestsConditionals, if_pos h.conditional, List.any_eq_false]
  rintro ⟨key, value⟩ hmem hvalue
  obtain ⟨inner, rfl⟩ := Value.eq_obj hvalue
  exact h.plain key inner (Object.get?_of_mem h.nodup hmem)

theorem Orderly.shallow {o map : Object} (h : Orderly o) {key : Key} (hmem : (key, .obj map) ∈ o)
    (hmap : map.isConditional = true) (hdistinct : Distinct map) : Shallow map := by
  constructor
  · exact hmap
  · exact hdistinct.nodup
  · intro k inner hget
    cases h.plain hmem hmap _ (Lowering.mem_of_get? hget)

theorem Object.mem_keys_set {o : Object} {key : Key} {value : Value} {k : Key}
    (h : k ∈ (o.set key value).keys) : k ∈ o.keys ∨ k = key := by
  rw [keys_set] at h
  split at h
  · exact .inl h
  · exact (List.mem_append.mp h).imp_right List.mem_singleton.mp

theorem mem_keys_foldBlock {condition : Key} (hcondition : condition.isCondition = true)
    {entries result : Object} {key : Key} (h : key ∈ (foldBlock condition result entries).1.keys) :
    key ∈ result.keys ∨ key ∈ entries.keys := by
  revert h
  apply foldBlock_keeps (P := fun folded => key ∈ folded.keys → key ∈ result.keys ∨ key ∈ entries.keys)
  · rintro ⟨property, value⟩ hentry _ folded hfolded hkey
    obtain ⟨map, heq, -, -⟩ := exists_setCondition folded property hcondition value
    rw [heq] at hkey
    rcases Object.mem_keys_set hkey with hold | rfl
    · exact hfolded hold
    · exact .inr (List.mem_map.mpr ⟨(key, value), hentry, rfl⟩)
  · exact .inl

/-- The keys of a folded object are those of the object and of its blocks. -/
theorem mem_keys_flattenFrom {o result : Object} {key : Key} (h : key ∈ (flattenFrom result o).1.keys) :
    key ∈ result.keys ∨ key ∈ o.keys ∨
      ∃ condition block, (condition, .obj block) ∈ o ∧ Object.isConditional block = false ∧
        key ∈ Object.keys block := by
  induction o generalizing result with
  | nil => exact .inl h
  | cons entry o ih =>
      obtain ⟨k, value⟩ := entry
      have hstep : ∀ {next : Object}, key ∈ (flattenFrom next o).1.keys →
          (key ∈ next.keys → key ∈ result.keys ∨ key = k ∨
            ∃ block, value = .obj block ∧ Object.isConditional block = false ∧ key ∈ Object.keys block) →
          key ∈ result.keys ∨ key ∈ Object.keys ((k, value) :: o) ∨
            ∃ condition block, (condition, .obj block) ∈ (k, value) :: o ∧
              Object.isConditional block = false ∧ key ∈ Object.keys block := by
        intro next hnext hkeys
        rcases ih hnext with hkey | hrest | ⟨condition, block, hmem, hblock⟩
        · rcases hkeys hkey with hold | rfl | ⟨block, rfl, hblock⟩
          · exact .inl hold
          · exact .inr (.inl List.mem_cons_self)
          · exact .inr (.inr ⟨k, block, List.mem_cons_self, hblock⟩)
        · exact .inr (.inl (List.mem_cons_of_mem k hrest))
        · exact .inr (.inr ⟨condition, block, List.mem_cons_of_mem _ hmem, hblock⟩)
      have hset : ∀ {next : Value}, key ∈ (result.set k next).keys → key ∈ result.keys ∨ key = k ∨
          ∃ block, value = .obj block ∧ Object.isConditional block = false ∧ key ∈ Object.keys block :=
        fun hkey => (Object.mem_keys_set hkey).imp_right .inl
      cases hobject : value.isObject with
      | false =>
          rw [flattenFrom_leaf result k hobject] at h
          apply hstep h
          rw [setPlain]
          split
          · split <;> exact hset
          · exact hset
      | true =>
          obtain ⟨inner, rfl⟩ := Value.eq_obj hobject
          rcases isConditionBlock_cases k inner with hblock | hmap | ⟨hplain, hbranch⟩
          · obtain ⟨hbranch, hplain⟩ := isBranch_of_isConditionBlock hblock
            rw [flattenFrom_branch result hbranch hplain] at h
            apply hstep h
            intro hkey
            exact (mem_keys_foldBlock (Key.isCondition_of_isBranch hbranch) hkey).imp_right
              fun hmem => .inr ⟨inner, rfl, hplain, hmem⟩
          · rw [flattenFrom_map result k hmap] at h
            exact hstep h hset
          · rw [flattenFrom_nested result hbranch hplain] at h
            apply hstep h
            rw [setNested]
            split <;> exact hset

/-- Folding makes no conditional map of an orderly object that is none. -/
theorem Orderly.not_isConditional_flatten {o : Object} (h : Orderly o) (ho : o.isConditional = false) :
    (flatten o).1.isConditional = false := by
  refine Bool.eq_false_iff.mpr fun hflat => ?_
  rcases mem_keys_flattenFrom ((Object.isConditional_iff _).mp hflat).2 with hnil | hkey | hblock
  · cases hnil
  · cases ho.symm.trans (h.isConditional hkey)
  · obtain ⟨condition, block, hmem, hplain, hkey⟩ := hblock
    cases hplain.symm.trans ((h.inner hmem).isConditional hkey)

/--
What a result has while an object is folded into it: conditional maps of plain values, and nested objects
without other maps, the latter only at keys that no block of the object gives a plain value.
-/
def Settled (whole result : Object) : Prop :=
  ∀ key inner, result.get? key = some (.obj inner) →
    Shallow inner ∨ whole.foldsLeaf key = false ∧ Object.isConditional inner = false ∧
      hasNestedConditionals inner = false

namespace Settled

variable {whole result : Object}

theorem nil (whole : Object) : Settled whole [] :=
  nofun

theorem set (h : Settled whole result) {key : Key} {value : Value}
    (hvalue : ∀ inner, value = .obj inner → Shallow inner ∨ whole.foldsLeaf key = false ∧
      Object.isConditional inner = false ∧ hasNestedConditionals inner = false) :
    Settled whole (result.set key value) := by
  intro k inner hget
  rcases Object.get?_set_eq_some hget with ⟨rfl, rfl⟩ | hold
  · exact hvalue inner rfl
  · exact h k inner hold

theorem set_leaf (h : Settled whole result) (key : Key) {value : Value} (hvalue : value.isObject = false) :
    Settled whole (result.set key value) := by
  apply h.set
  rintro inner rfl
  cases hvalue

theorem set_shallow (h : Settled whole result) (key : Key) {map : Object} (hmap : Shallow map) :
    Settled whole (result.set key (.obj map)) := by
  apply h.set
  rintro inner heq
  cases heq
  exact .inl hmap

/-- A block finds no nested object at a key to which it gives a plain value. -/
theorem setCondition (h : Settled whole result) {property condition : Key}
    (hcondition : condition.isCondition = true) (hproperty : whole.foldsLeaf property = true) {value : Value}
    (hvalue : value.isObject = false) : Settled whole (setCondition result property condition value) := by
  obtain ⟨map, heq, -, hshallow⟩ := exists_setCondition result property hcondition value
  rw [heq]
  apply h.set_shallow
  apply hshallow hvalue
  intro old hold
  rcases h property old hold with hold | ⟨hleaf, -⟩
  · exact hold
  · cases hleaf.symm.trans hproperty

theorem hasNestedConditionals (h : Settled whole result) (hnodup : result.keys.Nodup) :
    hasNestedConditionals result = false := by
  rw [hasNestedConditionals_eq_false_iff]
  rintro ⟨key, value⟩ hmem
  cases value with
  | obj inner =>
      rcases h key inner (Object.get?_of_mem hnodup hmem) with hshallow | ⟨-, hplain, hinner⟩
      · exact hshallow.nestsConditionals
      · rw [nestsConditionals, if_neg (Bool.eq_false_iff.mp hplain)]
        exact hinner
  | _ => rw [nestsConditionals]; exact nofun

end Settled

theorem Object.foldsLeaf_of_mem {o block : Object} {condition : Key} (hmem : (condition, .obj block) ∈ o)
    (hblock : isConditionBlock condition block = true) (hnodup : block.keys.Nodup) :
    ∀ entry ∈ block, entry.2.isObject = false → o.foldsLeaf entry.1 = true := by
  rintro ⟨key, value⟩ hentry hvalue
  refine List.any_eq_true.mpr ⟨_, hmem, ?_⟩
  simp [hblock, leaf?_of_get? (get?_of_mem hnodup hentry) hvalue]

theorem settled_flattenFrom {rest : Object} (h : Distinct rest) {whole : Object} (hwhole : Orderly whole)
    (hrest : ∀ entry ∈ rest, entry ∈ whole) {result : Object} (hresult : Settled whole result)
    (hawaits : Awaits (fun key => whole.foldsLeaf key = true) result rest) :
    Settled whole (flattenFrom result rest).1 := by
  induction h generalizing whole result with
  | nil => rwa [flattenFrom]
  | @leaf key value o hvalue hkey _ ih =>
      obtain ⟨-, hrest⟩ := List.forall_mem_cons.mp hrest
      rw [flattenFrom_leaf result key hvalue, setPlain]
      split
      · next map hget =>
          obtain ⟨-, _, heq, hmap⟩ := hawaits key List.mem_cons_self _ hget
          cases heq
          rw [if_pos hmap.conditional]
          apply ih hwhole hrest _ (hawaits.tail.set_of_not_mem hkey _)
          exact hresult.set_shallow key (hmap.set Key.isCondition_default hvalue)
      · exact ih hwhole hrest (hresult.set_leaf key hvalue) (hawaits.tail.set_of_not_mem hkey _)
  | @nested key inner o hinner hkey _ ihinner ih =>
      obtain ⟨hmem, hrest⟩ := List.forall_mem_cons.mp hrest
      have horderly : Orderly inner := hwhole.inner hmem
      rcases isConditionBlock_cases key inner with hblock | hmap | ⟨hplain, hbranch⟩
      · obtain ⟨hbranch, hplain⟩ := isBranch_of_isConditionBlock hblock
        have hcondition := Key.isCondition_of_isBranch hbranch
        have hleaves := Object.foldsLeaf_of_mem hmem hblock hinner.nodup
        rw [flattenFrom_branch result hbranch hplain]
        apply ih hwhole hrest
        · apply foldBlock_keeps _ hresult
          intro entry hentry hvalue folded hfolded
          exact hfolded.setCondition hcondition (hleaves entry hentry hvalue) hvalue
        · exact hawaits.tail.foldBlock hcondition hleaves
      · have hshallow := hwhole.shallow hmem hmap hinner
        rw [flattenFrom_map result key hmap, setMap]
        apply ih hwhole hrest _ (hawaits.tail.set_of_not_mem hkey _)
        apply hresult.set_shallow
        split
        · exact hshallow
        · next old hget =>
            obtain ⟨-, map, rfl, hold⟩ := hawaits key List.mem_cons_self _ hget
            rw [Value.isConditional, if_pos hold.conditional]
            exact hshallow
      · have hleaf : whole.foldsLeaf key = false := hwhole.foldsLeaf_eq_false hmem hplain
        have hnone : result.get? key = none := by
          cases hget : result.get? key with
          | none => rfl
          | some value => cases hleaf.symm.trans (hawaits key List.mem_cons_self value hget).1
        have hflat : Settled inner (flatten inner).1 :=
          ihinner horderly (fun _ hentry => hentry) (.nil inner) (.nil _ inner)
        rw [flattenFrom_nested result hbranch hplain, setNested, hnone]
        apply ih hwhole hrest _ (hawaits.tail.set_of_not_mem hkey _)
        apply hresult.set
        intro nested heq
        cases heq
        refine .inr ⟨hleaf, horderly.not_isConditional_flatten hplain, ?_⟩
        exact hflat.hasNestedConditionals (nodup_keys_flattenFrom List.nodup_nil)

/--
Folding settles an object: folding it again gives the same entries in the same order and drops nothing.  The
conditional maps of a folded object hold plain values if the object is orderly.
-/
theorem flatten_settles {o : Object} (h : Distinct o) :
    flatten (flatten o).1 = ((flatten o).1, []) ∧
      (Orderly o → hasNestedConditionals (flatten o).1 = false) := by
  constructor
  · exact flattenFrom_of_oneLevel (oneLevel_flatten h) [] fun _ _ => List.not_mem_nil
  · intro horderly
    have hflat := settled_flattenFrom h horderly (fun _ hentry => hentry) (.nil o) (.nil _ o)
    exact hflat.hasNestedConditionals (nodup_keys_flattenFrom List.nodup_nil)

/-- A color that changes under the pointer, with a block in there that is dropped, and a pseudo-element. -/
def hoveredBox : Object :=
  [(.name "color", .text "red"),
    (.name ":hover", .obj [(.name "color", .text "blue"), (.name ":focus", .obj [(.name "color", .text "green")])]),
    (.name "::before", .obj [(.name ":focus", .obj [(.name "content", .text "none")])])]

theorem flatten_settles_hoveredBox :
    Distinct hoveredBox ∧ Orderly hoveredBox ∧ (flatten hoveredBox).2 = [":hover :focus"] ∧
      flatten (flatten hoveredBox).1 = ((flatten hoveredBox).1, []) ∧
      hasNestedConditionals (flatten hoveredBox).1 = false := by
  have hleaf : ∀ (name text : String), Distinct [(.name name, .text text)] :=
    fun name text => .leaf rfl List.not_mem_nil .nil
  have hdistinct : Distinct hoveredBox := by
    apply Distinct.leaf rfl (by decide)
    apply Distinct.nested _ (by decide)
    · exact .nested (.nested (hleaf _ _) (by decide) .nil) (by decide) .nil
    · exact .leaf rfl (by decide) (.nested (hleaf _ _) (by decide) .nil)
  have hgreen : Orderly [(.name "color", .text "green")] :=
    .of_separate (by decide) (by decide) (by simp)
  have hnone : Orderly [(.name "content", .text "none")] :=
    .of_separate (by decide) (by decide) (by simp)
  have hhover : Orderly
      [(.name "color", .text "blue"), (.name ":focus", .obj [(.name "color", .text "green")])] :=
    .of_separate (by decide) (by decide) (by simpa using ⟨by decide, hgreen⟩)
  have hbefore : Orderly [(.name ":focus", .obj [(.name "content", .text "none")])] :=
    .of_separate (by decide) (by decide) (by simpa using ⟨by decide, hnone⟩)
  have horderly : Orderly hoveredBox :=
    .of_separate (by decide) (by decide) (by simpa [hoveredBox] using ⟨⟨by decide, hhover⟩, by decide, hbefore⟩)
  have hsettles := flatten_settles hdistinct
  exact ⟨hdistinct, horderly, by decide, hsettles.1, hsettles.2 horderly⟩

end Restyle.Style
