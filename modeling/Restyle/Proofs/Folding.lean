import Restyle.Proofs.Nested

/-!
# Conditions folded into properties

Folding a raw object gives every property a table: its plain value, if there is one, and a value for each
condition whose block sets it.  Pseudo-elements keep their objects, folded in turn.  Blocks below a
condition are dropped, and the places of exactly these blocks are returned.
-/

namespace Restyle.Style

/-! ## Tables of properties -/

namespace Object

theorem isConditional_iff (o : Object) :
    o.isConditional = true ↔ (∀ key ∈ o.keys, key.isCondition = true) ∧ Key.default ∈ o.keys := by
  rw [isConditional, Bool.and_eq_true, has_iff_mem_keys, List.all_eq_true]
  refine and_congr_left fun _ => ?_
  simp [keys]

theorem isConditional_default (value : Value) : isConditional [(Key.default, value)] = true := by
  rw [isConditional_iff]
  refine ⟨fun key hkey => ?_, List.mem_singleton.mpr rfl⟩
  cases List.mem_singleton.mp hkey
  exact Key.isCondition_default

theorem isConditional_set {o : Object} (h : o.isConditional = true) {key : Key}
    (hkey : key.isCondition = true) (value : Value) : (o.set key value).isConditional = true := by
  rw [isConditional_iff] at h ⊢
  rw [keys_set]
  split
  · exact h
  · refine ⟨fun k hk => ?_, List.mem_append_left _ h.2⟩
    rcases List.mem_append.mp hk with hk | hk
    · exact h.1 k hk
    · cases List.mem_singleton.mp hk
      exact hkey

end Object

/-- The value for a condition, where the default stands for no condition. -/
def choose : Option Value → Key → Option Value
  | some (.obj o), condition => if Object.isConditional o then Object.get? o condition else none
  | some value, condition => if condition = Key.default then some value else none
  | none, _ => none

/-- The value that a property of an object has under a condition. -/
def Object.choice? (o : Object) (property condition : Key) : Option Value :=
  choose (o.get? property) condition

theorem choose_conditional {o : Object} (h : o.isConditional = true) (condition : Key) :
    choose (some (.obj o)) condition = o.get? condition := by
  rw [choose, if_pos h]

theorem choose_plain {value : Value} (h : value.isObject = false) (condition : Key) :
    choose (some value) condition = if condition = Key.default then some value else none := by
  cases value with
  | obj o => cases h
  | _ => rfl

theorem choice?_set_of_ne (o : Object) {property other : Key} (h : property ≠ other) (value : Value)
    (condition : Key) : (o.set property value).choice? other condition = o.choice? other condition := by
  rw [Object.choice?, Object.get?_set_of_ne o value h, Object.choice?]

theorem choice?_set_self (o : Object) (property : Key) (value : Value) (condition : Key) :
    (o.set property value).choice? property condition = choose (some value) condition := by
  rw [Object.choice?, Object.get?_set_self]

/-- If a key of an object has an object, it is a conditional map. -/
def TabularAt (o : Object) (key : Key) : Prop :=
  ∀ map, o.get? key = some (.obj map) → Object.isConditional map = true

/-- Every property of an object has a plain value or a conditional map. -/
def Tabular (o : Object) : Prop :=
  ∀ property map, property.isProperty = true → o.get? property = some (.obj map) →
    Object.isConditional map = true

theorem Tabular.at {o : Object} (h : Tabular o) {property : Key} (hproperty : property.isProperty = true) :
    TabularAt o property :=
  fun map => h property map hproperty

theorem tabular_nil : Tabular [] :=
  nofun

theorem Tabular.set {o : Object} (h : Tabular o) (key : Key) (value : Value)
    (hvalue : ∀ map, value = .obj map → key.isProperty = true → Object.isConditional map = true) :
    Tabular (o.set key value) := by
  intro property map hproperty hget
  rcases Object.get?_set_eq_some hget with ⟨rfl, rfl⟩ | hold
  · exact hvalue map rfl hproperty
  · exact h property map hproperty hold

/-! ## Single steps -/

section

variable {result : Object} {property condition : Key}

/-- A property gets its value under a condition in a map that keeps all its other values. -/
theorem setCondition_eq (hresult : TabularAt result property) (condition : Key) (value : Value) :
    ∃ map, setCondition result property condition value =
        result.set property (.obj (Object.set map condition value)) ∧
      Object.isConditional map = true ∧
      ∀ key, Object.get? map key =
        if key = Key.default then some ((result.choice? property Key.default).getD .null)
        else result.choice? property key := by
  have hread : ∀ (plain : Value) (key : Key), Object.get? [(Key.default, plain)] key =
      if key = Key.default then some plain else none := by
    intro plain key
    rw [Object.get?_cons, Object.get?_nil]
    by_cases hkey : key = Key.default
    · rw [if_pos hkey, if_pos hkey.symm]
    · rw [if_neg hkey, if_neg (Ne.symm hkey)]
  cases hget : result.get? property with
  | none =>
      refine ⟨[(Key.default, .null)], by rw [setCondition, hget], Object.isConditional_default _, fun key => ?_⟩
      rw [hread]
      simp only [Object.choice?, hget, choose, Option.getD_none]
  | some old =>
      cases hobject : old.isObject with
      | true =>
          obtain ⟨map, rfl⟩ := Value.eq_obj hobject
          have hmap := hresult map hget
          refine ⟨map, by rw [setCondition, hget]; exact if_pos hmap, hmap, fun key => ?_⟩
          simp only [Object.choice?, hget, choose_conditional hmap]
          by_cases hkey : key = Key.default
          · subst hkey
            obtain ⟨value, hvalue⟩ := Option.isSome_iff_exists.mp
              ((Object.has_iff_mem_keys map Key.default).mpr ((Object.isConditional_iff map).mp hmap).2)
            rw [if_pos rfl, hvalue, Option.getD_some]
          · rw [if_neg hkey]
      | false =>
          refine ⟨[(Key.default, old)], ?_, Object.isConditional_default _, fun key => ?_⟩
          · rw [setCondition, hget]
            cases old with
            | obj map => cases hobject
            | _ => rfl
          · rw [hread]
            simp only [Object.choice?, hget, choose_plain hobject, if_pos, Option.getD_some]
            by_cases hkey : key = Key.default <;> simp [hkey]

theorem tabular_setCondition (hresult : Tabular result) (hproperty : property.isProperty = true)
    (hcondition : condition.isBranch = true) (value : Value) :
    Tabular (setCondition result property condition value) := by
  obtain ⟨map, heq, hmap, -⟩ := setCondition_eq (hresult.at hproperty) condition value
  rw [heq]
  refine hresult.set property _ fun other hother _ => ?_
  cases hother
  exact Object.isConditional_set hmap (Key.isCondition_of_isBranch hcondition) value

/-- A value under a condition leaves the plain value alone; without one, there is a null. -/
theorem choice?_setCondition (hresult : TabularAt result property) (hcondition : condition.isBranch = true)
    (value : Value) (other key : Key) :
    (setCondition result property condition value).choice? other key =
      if other = property then
        if key = condition then some value
        else if key = Key.default then some ((result.choice? property Key.default).getD .null)
        else result.choice? property key
      else result.choice? other key := by
  obtain ⟨map, heq, hmap, hget⟩ := setCondition_eq hresult condition value
  rw [heq]
  by_cases hother : other = property
  · subst hother
    have hconditional := Object.isConditional_set hmap (Key.isCondition_of_isBranch hcondition) value
    rw [if_pos rfl, choice?_set_self, choose_conditional hconditional]
    by_cases hkey : key = condition
    · subst hkey
      rw [if_pos rfl, Object.get?_set_self]
    · rw [if_neg hkey, Object.get?_set_of_ne map value (Ne.symm hkey), hget]
  · rw [if_neg hother, choice?_set_of_ne _ (Ne.symm hother)]

theorem get?_setCondition_of_ne (result : Object) {property other : Key} (h : property ≠ other)
    (condition : Key) (value : Value) :
    (setCondition result property condition value).get? other = result.get? other := by
  unfold setCondition
  split
  · split <;> exact Object.get?_set_of_ne _ _ h
  · exact Object.get?_set_of_ne _ _ h
  · exact Object.get?_set_of_ne _ _ h

/-- A plain value takes the place of the default in a conditional map. -/
theorem setPlain_eq (hresult : TabularAt result property) {value : Value} (hvalue : value.isObject = false) :
    ∃ new, setPlain result property value = result.set property new ∧
      (∀ map, new = .obj map → Object.isConditional map = true) ∧
      ∀ key, choose (some new) key =
        if key = Key.default then some value else result.choice? property key := by
  cases hget : result.get? property with
  | none =>
      refine ⟨value, by rw [setPlain, hget], fun map hmap => ?_, fun key => ?_⟩
      · subst hmap
        cases hvalue
      · rw [choose_plain hvalue, Object.choice?, hget]
        rfl
  | some old =>
      cases hobject : old.isObject with
      | true =>
          obtain ⟨map, rfl⟩ := Value.eq_obj hobject
          have hmap := hresult map hget
          have hset := Object.isConditional_set hmap Key.isCondition_default value
          refine ⟨.obj (Object.set map Key.default value), ?_, fun other hother => ?_, fun key => ?_⟩
          · rw [setPlain, hget]
            exact if_pos hmap
          · cases hother
            exact hset
          · rw [choose_conditional hset, Object.choice?, hget, choose_conditional hmap]
            by_cases hkey : key = Key.default
            · rw [if_pos hkey, hkey, Object.get?_set_self]
            · rw [if_neg hkey, Object.get?_set_of_ne map value (Ne.symm hkey)]
      | false =>
          refine ⟨value, ?_, fun map hmap => ?_, fun key => ?_⟩
          · rw [setPlain, hget]
            cases old with
            | obj map => cases hobject
            | _ => rfl
          · subst hmap
            cases hvalue
          · rw [choose_plain hvalue, Object.choice?, hget, choose_plain hobject]
            by_cases hkey : key = Key.default <;> simp [hkey]

end

/-! ## Raw objects, entry by entry -/

theorem Object.leaf?_cons (k : Key) (v : Value) (o : Object) (key : Key) :
    Object.leaf? ((k, v) :: o) key =
      if k = key then if v.isObject then none else some v else o.leaf? key := by
  rw [Object.leaf?, Object.get?_cons]
  by_cases hk : k = key
  · cases hv : v.isObject <;> simp [hk, hv, Option.filter_some]
  · rw [if_neg hk, if_neg hk, Object.leaf?]

theorem Raw.tail {key : Key} {value : Value} {o : Object} (h : Raw ((key, value) :: o)) :
    Raw o ∧ o.get? key = none := by
  obtain ⟨hfresh, hnodup⟩ := List.nodup_cons.mp h.nodup
  have hnone : o.get? key = none := (Object.get?_eq_none_iff o key).mpr hfresh
  have hget : ∀ {k v}, o.get? k = some v → Object.get? ((key, value) :: o) k = some v := by
    intro k v hv
    have hne : key ≠ k := by
      rintro rfl
      cases hnone.symm.trans hv
    rw [Object.get?_cons, if_neg hne, hv]
  exact ⟨.intro hnodup (fun k v hv => h.isProperty (hget hv)) (fun k inner hv => h.opensBlock (hget hv))
    fun k inner hv => h.inner (hget hv), hnone⟩

/--
The entries of a raw object one after the other: each is a plain value of a property, the block of a
condition, or the block of a pseudo-element.
-/
inductive Rows : Object → Prop where
  | nil : Rows []
  | leaf {key : Key} {value : Value} {o : Object} :
      key.isProperty = true → value.isObject = false → o.get? key = none → Rows o →
      Rows ((key, value) :: o)
  | branch {key : Key} {inner o : Object} :
      key.isBranch = true → Rows inner → o.get? key = none → Rows o → Rows ((key, .obj inner) :: o)
  | element {key : Key} {inner o : Object} :
      key.isPseudoElement = true → Rows inner → o.get? key = none → Rows o →
      Rows ((key, .obj inner) :: o)

theorem Raw.rows {o : Object} (h : Raw o) : Rows o := by
  match o, h with
  | [], _ => exact .nil
  | (key, value) :: o, h =>
      obtain ⟨hrest, hnone⟩ := h.tail
      have hself : Object.get? ((key, value) :: o) key = some value := by
        rw [Object.get?_cons, if_pos rfl]
      cases hobject : value.isObject with
      | false => exact .leaf (h.isProperty hself hobject) hobject hnone hrest.rows
      | true =>
          match value, hobject with
          | .obj inner, _ =>
              rcases Bool.or_eq_true_iff.mp (h.opensBlock hself) with helement | hbranch
              · exact .element helement (h.inner hself).rows hnone hrest.rows
              · exact .branch hbranch (h.inner hself).rows hnone hrest.rows
  termination_by sizeOf o

/-! ## The block of a condition -/

theorem foldBlock_leaf (condition : Key) (result : Object) (property : Key) {value : Value}
    (h : value.isObject = false) (o : Object) :
    foldBlock condition result ((property, value) :: o) =
      foldBlock condition (setCondition result property condition value) o := by
  cases value with
  | obj inner => cases h
  | _ => rw [foldBlock]; exact nofun

theorem foldBlock_block (condition : Key) (result : Object) (property : Key) (inner o : Object) :
    foldBlock condition result ((property, .obj inner) :: o) =
      ((foldBlock condition result o).1,
        (condition.text ++ " " ++ property.text) :: (foldBlock condition result o).2) := by
  rw [foldBlock]

/-- What folding a block into a result changes: the values of its properties under the condition. -/
structure FoldsBlock (condition : Key) (entries result folded : Object) : Prop where
  tabular : Tabular folded
  under : ∀ property, property.isProperty = true →
    folded.choice? property condition =
      (entries.leaf? property).or (result.choice? property condition)
  base : ∀ property, property.isProperty = true →
    folded.choice? property Key.default =
      (result.choice? property Key.default).or ((entries.leaf? property).map fun _ => .null)
  other : ∀ property key, property.isProperty = true → key ≠ condition → key ≠ Key.default →
    folded.choice? property key = result.choice? property key
  frame : ∀ key, key.isProperty = false → folded.get? key = result.get? key

theorem foldsBlock {condition : Key} (hcondition : condition.isBranch = true) {entries result : Object}
    (hentries : Rows entries) (hresult : Tabular result) :
    FoldsBlock condition entries result (foldBlock condition result entries).1 := by
  have hdefault := Key.ne_default_of_isBranch hcondition
  induction hentries generalizing result with
  | nil =>
      exact ⟨hresult, fun _ _ => rfl, fun _ _ => (Option.or_none ..).symm, fun _ _ _ _ _ => rfl,
        fun _ _ => rfl⟩
  | @leaf k v o hk hv hnone _ ih =>
      rw [foldBlock_leaf condition result k hv]
      have hrest := ih (tabular_setCondition hresult hk hcondition v)
      have hstep := choice?_setCondition (hresult.at hk) hcondition v
      have hfresh : o.leaf? k = none := Object.leaf?_of_none hnone
      refine ⟨hrest.tabular, fun p hp => ?_, fun p hp => ?_, fun p key hp hkey hdef => ?_, fun key hkey => ?_⟩
      · rw [hrest.under p hp, hstep, Object.leaf?_cons]
        by_cases hpk : p = k
        · subst hpk
          simp [hfresh, hv]
        · simp [hpk, Ne.symm hpk]
      · rw [hrest.base p hp, hstep, Object.leaf?_cons]
        by_cases hpk : p = k
        · subst hpk
          cases result.choice? p Key.default <;> simp [hfresh, hv, Ne.symm hdefault]
        · simp [hpk, Ne.symm hpk]
      · rw [hrest.other p key hp hkey hdef, hstep]
        by_cases hpk : p = k
        · subst hpk
          simp [hkey, hdef]
        · simp [hpk]
      · have hne : k ≠ key := by
          rintro rfl
          cases hk.symm.trans hkey
        rw [hrest.frame key hkey, get?_setCondition_of_ne result hne]
  | @branch k inner o hk _ _ _ _ ih | @element k inner o hk _ _ _ _ ih =>
      rw [foldBlock_block]
      have hrest := ih hresult
      have hopens : k.opensBlock = true := by
        rw [Key.opensBlock, hk]
        simp
      have hleaf : ∀ p, p.isProperty = true → Object.leaf? ((k, .obj inner) :: o) p = o.leaf? p := by
        intro p hp
        have hne : k ≠ p := by
          rintro rfl
          cases (Key.not_opensBlock_of_isProperty hp).symm.trans hopens
        rw [Object.leaf?_cons, if_neg hne]
      refine ⟨hrest.tabular, fun p hp => ?_, fun p hp => ?_, hrest.other, hrest.frame⟩
      · rw [hrest.under p hp, hleaf p hp]
      · rw [hrest.base p hp, hleaf p hp]

/-- The places that folding a block drops are those of the blocks in it. -/
theorem mem_dropped_foldBlock {condition : Key} {entries : Object} (hentries : Rows entries)
    (result : Object) (place : String) :
    place ∈ (foldBlock condition result entries).2 ↔
      ∃ key inner, entries.get? key = some (.obj inner) ∧
        place = condition.text ++ " " ++ key.text := by
  induction hentries generalizing result with
  | nil => simp [foldBlock]
  | @leaf k v o _ hv hnone _ ih =>
      rw [foldBlock_leaf condition result k hv, ih]
      refine exists_congr fun key => exists_congr fun inner => and_congr_left fun _ => ?_
      rw [Object.get?_cons]
      by_cases hk : k = key
      · subst hk
        rw [if_pos rfl, hnone]
        refine iff_of_false nofun ?_
        rintro h
        cases h
        cases hv
      · rw [if_neg hk]
  | @branch k v o _ _ hnone _ _ ih | @element k v o _ _ hnone _ _ ih =>
      rw [foldBlock_block, List.mem_cons, ih]
      constructor
      · rintro (rfl | ⟨key, inner, hget, rfl⟩)
        · exact ⟨k, v, by rw [Object.get?_cons, if_pos rfl], rfl⟩
        · have hne : k ≠ key := by
            rintro rfl
            cases hnone.symm.trans hget
          exact ⟨key, inner, by rw [Object.get?_cons, if_neg hne, hget], rfl⟩
      · rintro ⟨key, inner, hget, rfl⟩
        rw [Object.get?_cons] at hget
        by_cases hk : k = key
        · subst hk
          exact .inl rfl
        · rw [if_neg hk] at hget
          exact .inr ⟨key, inner, hget, rfl⟩

/-! ## Whole objects -/

theorem Rows.get?_default {o : Object} (h : Rows o) : o.get? Key.default = none := by
  induction h with
  | nil => rfl
  | @leaf key _ o hkey _ _ _ ih =>
      have hne : key ≠ Key.default := by
        rintro rfl
        cases Key.not_isProperty_default.symm.trans hkey
      rw [Object.get?_cons, if_neg hne, ih]
  | branch hkey _ _ _ _ ih => rw [Object.get?_cons, if_neg (Key.ne_default_of_isBranch hkey), ih]
  | @element key _ o hkey _ _ _ _ ih =>
      have hne : key ≠ Key.default := by
        rintro rfl
        cases hkey
      rw [Object.get?_cons, if_neg hne, ih]

theorem Rows.not_isConditional {o : Object} (h : Rows o) : Object.isConditional o = false := by
  rw [Object.isConditional, Object.has, h.get?_default, Option.isSome_none, Bool.and_false]

theorem flattenFrom_leaf (result : Object) (key : Key) {value : Value} (h : value.isObject = false)
    (o : Object) :
    flattenFrom result ((key, value) :: o) = flattenFrom (setPlain result key value) o := by
  cases value with
  | obj inner => cases h
  | _ => rw [flattenFrom]; exact nofun

theorem flattenFrom_branch (result : Object) {key : Key} (hkey : key.isBranch = true) {inner : Object}
    (hinner : Object.isConditional inner = false) (o : Object) :
    flattenFrom result ((key, .obj inner) :: o) =
      ((flattenFrom (foldBlock key result inner).1 o).1,
        (foldBlock key result inner).2 ++ (flattenFrom (foldBlock key result inner).1 o).2) := by
  have hblock : isConditionBlock key inner = true := by
    simp [isConditionBlock, Key.ne_default_of_isBranch hkey, Key.isCondition_of_isBranch hkey, hinner]
  rw [flattenFrom, if_pos hblock]

theorem flattenFrom_element (result : Object) {key : Key} (hkey : key.isPseudoElement = true)
    {inner : Object} (hinner : Object.isConditional inner = false) (o : Object) :
    flattenFrom result ((key, .obj inner) :: o) =
      ((flattenFrom (setNested result key (flatten inner).1) o).1,
        (flatten inner).2 ++ (flattenFrom (setNested result key (flatten inner).1) o).2) := by
  have hblock : isConditionBlock key inner = false := by
    simp [isConditionBlock, Key.not_isCondition_of_isPseudoElement hkey]
  rw [flattenFrom, if_neg (by simp [hblock]), if_neg (by simp [hinner]), flattenValue, flatten]

/-- Some condition of an object has a block with a plain value for a property. -/
def Object.branches (o : Object) (property : Key) : Bool :=
  o.any fun (key, value) =>
    match value with
    | .obj inner => key.isBranch && (Object.leaf? inner property).isSome
    | _ => false

theorem Object.plain?_cons_of_ne {k c : Key} (h : k ≠ c) (v : Value) (o : Object) (path : List Key)
    (property : Key) :
    Object.plain? ((k, v) :: o) (c :: path) property = o.plain? (c :: path) property := by
  simp only [Object.plain?, Object.within?, Object.get?_cons, if_neg h]

theorem Object.plain?_cons_self (k : Key) (inner o : Object) (path : List Key) (property : Key) :
    Object.plain? ((k, .obj inner) :: o) (k :: path) property = inner.plain? path property :=
  Object.plain?_cons_obj (by rw [Object.get?_cons, if_pos rfl]) path property

theorem Object.plain?_of_get?_none {o : Object} {key : Key} (h : o.get? key = none) (path : List Key)
    (property : Key) : o.plain? (key :: path) property = none :=
  Object.plain?_cons_none (by simp [h]) path property

/-- What folding an object into a result changes. -/
structure Folds (o result folded : Object) : Prop where
  tabular : Tabular folded
  /-- Under a condition, a property has the value in the block of the condition. -/
  under : ∀ property condition, property.isProperty = true → condition.isBranch = true →
    folded.choice? property condition =
      (o.plain? [condition] property).or (result.choice? property condition)
  /-- Without a condition, a property has its plain value, or a null if there are others. -/
  base : ∀ property, property.isProperty = true →
    folded.choice? property Key.default =
      (o.plain? [] property).or ((result.choice? property Key.default).or
        (if o.branches property then some .null else none))
  /-- A pseudo-element has its object, folded. -/
  element : ∀ key, key.isPseudoElement = true →
    folded.get? key =
      match o.get? key with
      | some (.obj inner) => some (.obj (flatten inner).1)
      | _ => result.get? key
  /-- There are no other keys. -/
  condition : ∀ key, key.isCondition = true → folded.get? key = result.get? key

theorem Folds.leaf {k : Key} {v : Value} {o result folded : Object} (hk : k.isProperty = true)
    (hv : v.isObject = false) (hnone : o.get? k = none) (hresult : Tabular result)
    (h : Folds o (setPlain result k v) folded) : Folds ((k, v) :: o) result folded := by
  obtain ⟨new, heq, -, hchoose⟩ := setPlain_eq (hresult.at hk) hv
  rw [heq] at h
  refine ⟨h.tabular, fun p c hp hc => ?_, fun p hp => ?_, fun e he => ?_, fun c hc => ?_⟩
  · have hkc : k ≠ c := Key.ne_of_isProperty hk (Key.not_isProperty_of_isBranch hc)
    rw [h.under p c hp hc, Object.plain?_cons_of_ne hkc]
    congr 1
    by_cases hpk : p = k
    · subst hpk
      rw [choice?_set_self, hchoose, if_neg (Key.ne_default_of_isBranch hc)]
    · rw [choice?_set_of_ne _ (Ne.symm hpk)]
  · have hbranches : Object.branches ((k, v) :: o) p = o.branches p := by
      cases v with
      | obj inner => cases hv
      | _ => rfl
    rw [h.base p hp, Object.plain?_nil, Object.plain?_nil, Object.leaf?_cons, hbranches]
    by_cases hpk : p = k
    · subst hpk
      rw [choice?_set_self, hchoose, if_pos rfl, Object.leaf?_of_none hnone]
      simp [hv]
    · rw [choice?_set_of_ne _ (Ne.symm hpk), if_neg (Ne.symm hpk)]
  · have hke : k ≠ e := Key.ne_of_isProperty hk (Key.not_isProperty_of_isPseudoElement he)
    rw [h.element e he, Object.get?_cons, if_neg hke, Object.get?_set_of_ne _ _ hke]
  · have hkc : k ≠ c := Key.ne_of_isProperty hk (Key.not_isProperty_of_isCondition hc)
    rw [h.condition c hc, Object.get?_set_of_ne _ _ hkc]

theorem Folds.branch {k : Key} {inner o result folded : Object} (hk : k.isBranch = true)
    (hinner : Rows inner) (hnone : o.get? k = none) (hresult : Tabular result)
    (h : Folds o (foldBlock k result inner).1 folded) : Folds ((k, .obj inner) :: o) result folded := by
  have hfold := foldsBlock hk hinner hresult
  refine ⟨h.tabular, fun p c hp hc => ?_, fun p hp => ?_, fun e he => ?_, fun c hc => ?_⟩
  · rw [h.under p c hp hc]
    by_cases hkc : k = c
    · subst hkc
      rw [Object.plain?_of_get?_none hnone, Option.none_or, hfold.under p hp,
        Object.plain?_cons_self, Object.plain?_nil]
    · rw [Object.plain?_cons_of_ne hkc,
        hfold.other p c hp (Ne.symm hkc) (Key.ne_default_of_isBranch hc)]
  · have hbranches : Object.branches ((k, .obj inner) :: o) p =
        ((inner.leaf? p).isSome || o.branches p) := by
      simp [Object.branches, hk]
    have hkp : k ≠ p := (Key.ne_of_isProperty hp (Key.not_isProperty_of_isBranch hk)).symm
    rw [h.base p hp, hfold.base p hp, Object.plain?_nil, Object.plain?_nil, Object.leaf?_cons,
      if_neg hkp, hbranches]
    cases inner.leaf? p <;> cases result.choice? p Key.default <;> simp
  · have hke : k ≠ e := by
      rintro rfl
      cases (Key.not_isBranch_of_isPseudoElement he).symm.trans hk
    rw [h.element e he, Object.get?_cons, if_neg hke,
      hfold.frame e (Key.not_isProperty_of_isPseudoElement he)]
  · rw [h.condition c hc, hfold.frame c (Key.not_isProperty_of_isCondition hc)]

theorem Folds.inElement {k : Key} {inner o result folded : Object} (hk : k.isPseudoElement = true)
    (hnone : o.get? k = none)
    (h : Folds o (result.set k (.obj (flatten inner).1)) folded) :
    Folds ((k, .obj inner) :: o) result folded := by
  have hproperty : ∀ p, p.isProperty = true → k ≠ p := fun p hp =>
    (Key.ne_of_isProperty hp (Key.not_isProperty_of_isPseudoElement hk)).symm
  have hcondition : ∀ c, c.isCondition = true → k ≠ c := by
    rintro c hc rfl
    cases (Key.not_isCondition_of_isPseudoElement hk).symm.trans hc
  refine ⟨h.tabular, fun p c hp hc => ?_, fun p hp => ?_, fun e he => ?_, fun c hc => ?_⟩
  · rw [h.under p c hp hc, Object.plain?_cons_of_ne (hcondition c (Key.isCondition_of_isBranch hc)),
      choice?_set_of_ne _ (hproperty p hp)]
  · have hbranches : Object.branches ((k, .obj inner) :: o) p = o.branches p := by
      simp [Object.branches, Key.not_isBranch_of_isPseudoElement hk]
    rw [h.base p hp, Object.plain?_nil, Object.plain?_nil, Object.leaf?_cons,
      if_neg (hproperty p hp), choice?_set_of_ne _ (hproperty p hp), hbranches]
  · rw [h.element e he, Object.get?_cons]
    by_cases hke : k = e
    · subst hke
      rw [if_pos rfl, hnone, Object.get?_set_self]
    · rw [if_neg hke, Object.get?_set_of_ne _ _ hke]
  · rw [h.condition c hc, Object.get?_set_of_ne _ _ (hcondition c hc)]

/-- Folding gives every property its table and keeps the pseudo-elements. -/
theorem folds {o result : Object} (ho : Rows o) (hresult : Tabular result)
    (hfresh : ∀ key, key.isPseudoElement = true → (o.get? key).isSome = true → result.get? key = none) :
    Folds o result (flattenFrom result o).1 := by
  induction ho generalizing result with
  | nil =>
      refine ⟨hresult, fun _ _ _ _ => rfl, fun _ _ => ?_, fun _ _ => rfl, fun _ _ => rfl⟩
      exact (Option.or_none ..).symm
  | @leaf k v o hk hv hnone _ ih =>
      rw [flattenFrom_leaf result k hv]
      refine .leaf hk hv hnone hresult ?_
      obtain ⟨new, heq, hnew, -⟩ := setPlain_eq (hresult.at hk) hv
      rw [heq]
      refine ih (hresult.set k new fun map hmap _ => hnew map hmap) fun e he hsome => ?_
      have hke : k ≠ e := Key.ne_of_isProperty hk (Key.not_isProperty_of_isPseudoElement he)
      rw [Object.get?_set_of_ne _ _ hke]
      exact hfresh e he (by rw [Object.get?_cons, if_neg hke]; exact hsome)
  | @branch k inner o hk hinner hnone _ _ ih =>
      rw [flattenFrom_branch result hk hinner.not_isConditional]
      have hfold := foldsBlock hk hinner hresult
      refine .branch hk hinner hnone hresult (ih hfold.tabular fun e he hsome => ?_)
      have hke : k ≠ e := by
        rintro rfl
        cases (Key.not_isBranch_of_isPseudoElement he).symm.trans hk
      rw [hfold.frame e (Key.not_isProperty_of_isPseudoElement he)]
      exact hfresh e he (by rw [Object.get?_cons, if_neg hke]; exact hsome)
  | @element k inner o hk hinner hnone _ _ ih =>
      rw [flattenFrom_element result hk hinner.not_isConditional]
      have hmissing : result.get? k = none :=
        hfresh k hk (by rw [Object.get?_cons, if_pos rfl]; rfl)
      have hset : setNested result k (flatten inner).1 = result.set k (.obj (flatten inner).1) := by
        rw [setNested, hmissing]
      rw [hset]
      refine .inElement hk hnone (ih (hresult.set k _ fun _ _ hkp => ?_) fun e he hsome => ?_)
      · cases (Key.not_isProperty_of_isPseudoElement hk).symm.trans hkp
      · have hke : k ≠ e := by
          rintro rfl
          rw [hnone] at hsome
          cases hsome
        rw [Object.get?_set_of_ne _ _ hke]
        exact hfresh e he (by rw [Object.get?_cons, if_neg hke]; exact hsome)


/-! ## Folded objects -/

theorem Object.branches_iff {o : Object} (h : Rows o) (property : Key) :
    o.branches property = true ↔
      ∃ condition : Key, condition.isBranch = true ∧ (o.plain? [condition] property).isSome = true := by
  induction h with
  | nil => exact iff_of_false Bool.false_ne_true nofun
  | @leaf k v o hk hv _ _ ih =>
      have hbranches : Object.branches ((k, v) :: o) property = o.branches property := by
        cases v with
        | obj inner => cases hv
        | _ => rfl
      rw [hbranches, ih]
      refine exists_congr fun c => and_congr_right fun hc => ?_
      rw [Object.plain?_cons_of_ne (Key.ne_of_isProperty hk (Key.not_isProperty_of_isBranch hc))]
  | @branch k inner o hk _ hnone _ _ ih =>
      have hbranches : Object.branches ((k, .obj inner) :: o) property =
          ((inner.leaf? property).isSome || o.branches property) := by
        simp [Object.branches, hk]
      rw [hbranches, Bool.or_eq_true, ih]
      constructor
      · rintro (h | ⟨c, hc, h⟩)
        · exact ⟨k, hk, by rwa [Object.plain?_cons_self, Object.plain?_nil]⟩
        · refine ⟨c, hc, ?_⟩
          have hne : k ≠ c := by
            rintro rfl
            rw [Object.plain?_of_get?_none hnone] at h
            cases h
          rwa [Object.plain?_cons_of_ne hne]
      · rintro ⟨c, hc, h⟩
        by_cases hkc : k = c
        · subst hkc
          rw [Object.plain?_cons_self, Object.plain?_nil] at h
          exact .inl h
        · rw [Object.plain?_cons_of_ne hkc] at h
          exact .inr ⟨c, hc, h⟩
  | @element k inner o hk _ _ _ _ ih =>
      have hbranches : Object.branches ((k, .obj inner) :: o) property = o.branches property := by
        simp [Object.branches, Key.not_isBranch_of_isPseudoElement hk]
      rw [hbranches, ih]
      refine exists_congr fun c => and_congr_right fun hc => ?_
      have hne : k ≠ c := by
        rintro rfl
        cases (Key.not_isBranch_of_isPseudoElement hk).symm.trans hc
      rw [Object.plain?_cons_of_ne hne]

/--
The value that an object holds for a property under a condition, the default standing for none, inside of
the nested objects along a path.  The conditional map of a property is no nested object.
-/
def Object.held? (o : Object) : List Key → Key → Key → Option Value
  | [], property, condition => o.choice? property condition
  | key :: path, property, condition =>
    match o.get? key with
    | some (.obj inner) =>
      if Object.isConditional inner then none else Object.held? inner path property condition
    | _ => none

/-- What a folded object holds, in terms of the object it comes from. -/
structure Folded (o styles : Object) : Prop where
  base : ∀ elements property value, (∀ key ∈ elements, key.isPseudoElement = true) →
    (styles.held? elements property Key.default = some value ↔
      o.plain? elements property = some value ∨
        o.plain? elements property = none ∧ value = .null ∧
          ∃ condition : Key, condition.isBranch = true ∧
            (o.plain? (elements ++ [condition]) property).isSome = true)
  under : ∀ elements property condition, (∀ key ∈ elements, key.isPseudoElement = true) →
    condition.isBranch = true →
      styles.held? elements property condition = o.plain? (elements ++ [condition]) property
  only : ∀ path property condition value, styles.held? path property condition = some value →
    (∀ key ∈ path, key.isPseudoElement = true) ∧
      (condition = Key.default ∨ condition.isBranch = true)

theorem Raw.plain?_eq_none {o : Object} (h : Raw o) {property : Key} (hp : property.isProperty = false)
    (path : List Key) : o.plain? path property = none := by
  induction path generalizing o with
  | nil =>
      rw [Object.plain?_nil]
      cases hleaf : o.leaf? property with
      | none => rfl
      | some value =>
          obtain ⟨hget, hvalue⟩ := Object.get?_of_leaf? hleaf
          cases hp.symm.trans (h.isProperty hget hvalue)
  | cons key path ih =>
      by_cases hget : ∃ inner, o.get? key = some (.obj inner)
      · obtain ⟨inner, hget⟩ := hget
        rw [Object.plain?_cons_obj hget, ih (h.inner hget)]
      · exact Object.plain?_cons_none (fun inner hinner => hget ⟨inner, hinner⟩) path property

section

variable {o : Object}

theorem folds_flatten (h : Raw o) : Folds o [] (flatten o).1 :=
  folds h.rows tabular_nil fun _ _ _ => rfl

theorem not_isConditional_flatten (h : Raw o) : Object.isConditional (flatten o).1 = false := by
  have hdefault := (folds_flatten h).condition Key.default Key.isCondition_default
  rw [Object.isConditional, Object.has, hdefault, Object.get?_nil, Option.isSome_none, Bool.and_false]

/-- A folded object has no values of its own but those of properties. -/
theorem choice?_flatten_of_not_isProperty (h : Raw o) {property : Key} (hp : property.isProperty = false)
    (condition : Key) : (flatten o).1.choice? property condition = none := by
  rw [Object.choice?]
  rcases property.kind with hproperty | helement | hcondition
  · cases hp.symm.trans hproperty
  · rw [(folds_flatten h).element property helement]
    cases hget : o.get? property with
    | none => rfl
    | some value =>
        have hopens : property.opensBlock = true := by rw [Key.opensBlock, helement, Bool.true_or]
        obtain ⟨inner, rfl⟩ := h.eq_obj hopens hget
        rw [choose, if_neg (by simp [not_isConditional_flatten (h.inner hget)])]
  · rw [(folds_flatten h).condition property hcondition]
    rfl

/-- Inside of a pseudo-element a folded object holds what the object there holds when it is folded. -/
theorem held?_flatten_cons (h : Raw o) (key : Key) (path : List Key) (property condition : Key) :
    (flatten o).1.held? (key :: path) property condition =
      if key.isPseudoElement then
        (o.within? [key]).bind fun inner => (flatten inner).1.held? path property condition
      else none := by
  have hfolds := folds_flatten h
  rw [Object.held?]
  by_cases helement : key.isPseudoElement = true
  · rw [if_pos helement, hfolds.element key helement]
    cases hget : o.get? key with
    | none => simp [Object.within?, hget]
    | some value =>
        have hopens : key.opensBlock = true := by rw [Key.opensBlock, helement, Bool.true_or]
        obtain ⟨inner, rfl⟩ := h.eq_obj hopens hget
        simp [Object.within?, hget, not_isConditional_flatten (h.inner hget)]
  · rw [if_neg helement]
    rcases key.kind with hproperty | hother | hcondition
    · split
      · next inner hget => rw [if_pos (hfolds.tabular key inner hproperty hget)]
      · rfl
    · exact absurd hother helement
    · rw [hfolds.condition key hcondition]
      rfl

end

theorem Tabular.condition_of_choice? {o : Object} (h : Tabular o) {property condition : Key} {value : Value}
    (hp : property.isProperty = true) (hchoice : o.choice? property condition = some value) :
    condition = Key.default ∨ condition.isBranch = true := by
  by_cases hdefault : condition = Key.default
  · exact .inl hdefault
  · refine .inr ?_
    rw [Object.choice?] at hchoice
    cases hget : o.get? property with
    | none =>
        rw [hget] at hchoice
        cases hchoice
    | some old =>
        rw [hget] at hchoice
        cases hobject : old.isObject with
        | false =>
            rw [choose_plain hobject, if_neg hdefault] at hchoice
            cases hchoice
        | true =>
            obtain ⟨map, rfl⟩ := Value.eq_obj hobject
            have hmap := h property map hp hget
            rw [choose_conditional hmap] at hchoice
            have hmem : condition ∈ Object.keys map :=
              (Object.has_iff_mem_keys map condition).mp (by rw [Object.has, hchoice]; rfl)
            have hcondition := ((Object.isConditional_iff map).mp hmap).1 condition hmem
            rw [Key.isBranch, hcondition, Bool.true_and]
            exact bne_iff_ne.mpr hdefault

/-- Folding keeps the values outside of conditions and directly below one, and nothing else. -/
theorem folded {o : Object} (h : Raw o) : Folded o (flatten o).1 where
  base := by
    intro elements property value helements
    induction elements generalizing o with
    | nil =>
        simp only [Object.held?, List.nil_append]
        cases hp : property.isProperty with
        | false =>
            rw [choice?_flatten_of_not_isProperty h hp, h.plain?_eq_none hp]
            refine iff_of_false nofun ?_
            rintro (hvalue | ⟨-, -, c, -, hsome⟩)
            · cases hvalue
            · rw [h.plain?_eq_none hp] at hsome
              cases hsome
        | true =>
            rw [(folds_flatten h).base property hp, ← Object.branches_iff h.rows]
            cases o.plain? [] property <;> cases o.branches property <;>
              simp [Object.choice?, choose, eq_comm]
    | cons key elements ih =>
        have hkey := helements key List.mem_cons_self
        rw [held?_flatten_cons h, if_pos hkey]
        by_cases hget : ∃ inner, o.get? key = some (.obj inner)
        · obtain ⟨inner, hget⟩ := hget
          rw [Object.within?_cons_obj hget, Object.plain?_cons_obj hget]
          simp only [List.cons_append, Object.plain?_cons_obj hget]
          exact ih (h.inner hget) fun k hk => helements k (List.mem_cons_of_mem key hk)
        · have hnone : ∀ inner, o.get? key ≠ some (.obj inner) := fun inner hi => hget ⟨inner, hi⟩
          rw [Object.within?_cons_none hnone, Object.plain?_cons_none hnone]
          simp [Object.plain?_cons_none hnone]
  under := by
    intro elements property condition helements hcondition
    induction elements generalizing o with
    | nil =>
        rw [Object.held?, List.nil_append]
        cases hp : property.isProperty with
        | false => rw [choice?_flatten_of_not_isProperty h hp, h.plain?_eq_none hp]
        | true =>
            rw [(folds_flatten h).under property condition hp hcondition]
            exact Option.or_none
    | cons key elements ih =>
        have hkey := helements key List.mem_cons_self
        rw [held?_flatten_cons h, if_pos hkey, List.cons_append]
        by_cases hget : ∃ inner, o.get? key = some (.obj inner)
        · obtain ⟨inner, hget⟩ := hget
          rw [Object.within?_cons_obj hget, Object.plain?_cons_obj hget]
          exact ih (h.inner hget) fun k hk => helements k (List.mem_cons_of_mem key hk)
        · have hnone : ∀ inner, o.get? key ≠ some (.obj inner) := fun inner hi => hget ⟨inner, hi⟩
          rw [Object.within?_cons_none hnone, Object.plain?_cons_none hnone]
          rfl
  only := by
    intro path property condition value hheld
    induction path generalizing o with
    | nil =>
        rw [Object.held?] at hheld
        refine ⟨nofun, ?_⟩
        cases hp : property.isProperty with
        | false =>
            rw [choice?_flatten_of_not_isProperty h hp] at hheld
            cases hheld
        | true => exact (folds_flatten h).tabular.condition_of_choice? hp hheld
    | cons key path ih =>
        rw [held?_flatten_cons h] at hheld
        split at hheld
        · next hkey =>
            obtain ⟨inner, hinner, hheld⟩ := Option.bind_eq_some_iff.mp hheld
            have hget : o.get? key = some (.obj inner) := by
              rw [Object.within?] at hinner
              split at hinner
              · next hget =>
                  cases hinner
                  exact hget
              · cases hinner
            obtain ⟨helements, hcondition⟩ := ih (h.inner hget) hheld
            exact ⟨List.forall_mem_cons.mpr ⟨hkey, helements⟩, hcondition⟩
        · cases hheld

/-! ## Dropped blocks -/

theorem Object.within?_cons_of_ne {k key : Key} (h : k ≠ key) (v : Value) (o : Object) (path : List Key) :
    Object.within? ((k, v) :: o) (key :: path) = o.within? (key :: path) := by
  simp only [Object.within?, Object.get?_cons, if_neg h]

theorem Object.within?_cons_self (k : Key) (inner o : Object) (path : List Key) :
    Object.within? ((k, .obj inner) :: o) (k :: path) = inner.within? path :=
  Object.within?_cons_obj (by rw [Object.get?_cons, if_pos rfl]) path

/-- A block stands directly below a condition, which stands inside of pseudo-elements. -/
def Object.Nests (o : Object) (condition key : Key) : Prop :=
  condition.isBranch = true ∧ ∃ elements : List Key,
    (∀ k ∈ elements, k.isPseudoElement = true) ∧
      (o.within? (elements ++ [condition, key])).isSome = true

theorem Object.not_nests_nil (condition key : Key) : ¬ Object.Nests [] condition key := by
  rintro ⟨-, elements, -, hwithin⟩
  cases elements <;> cases hwithin

theorem Object.nests_leaf_iff {k : Key} (hk : k.isProperty = true) (v : Value) (o : Object)
    (condition key : Key) : Object.Nests ((k, v) :: o) condition key ↔ o.Nests condition key := by
  refine and_congr_right fun hcondition => exists_congr fun elements => and_congr_right fun helements => ?_
  cases elements with
  | nil =>
      have hne := Key.ne_of_isProperty hk (Key.not_isProperty_of_isBranch hcondition)
      rw [List.nil_append, Object.within?_cons_of_ne hne]
  | cons e elements =>
      have hne := Key.ne_of_isProperty hk
        (Key.not_isProperty_of_isPseudoElement (helements e List.mem_cons_self))
      rw [List.cons_append, Object.within?_cons_of_ne hne]

theorem Object.nests_branch_iff {k : Key} (hk : k.isBranch = true) (inner : Object) {o : Object}
    (hnone : o.get? k = none) (condition key : Key) :
    Object.Nests ((k, .obj inner) :: o) condition key ↔
      (k = condition ∧ (Object.within? inner [key]).isSome = true) ∨ o.Nests condition key := by
  constructor
  · rintro ⟨hcondition, elements, helements, hwithin⟩
    cases elements with
    | nil =>
        by_cases hkc : k = condition
        · subst hkc
          rw [List.nil_append, Object.within?_cons_self] at hwithin
          exact .inl ⟨rfl, hwithin⟩
        · rw [List.nil_append, Object.within?_cons_of_ne hkc] at hwithin
          exact .inr ⟨hcondition, [], nofun, hwithin⟩
    | cons e elements =>
        have hne : k ≠ e := by
          rintro rfl
          cases (Key.not_isBranch_of_isPseudoElement (helements k List.mem_cons_self)).symm.trans hk
        rw [List.cons_append, Object.within?_cons_of_ne hne] at hwithin
        exact .inr ⟨hcondition, e :: elements, helements, hwithin⟩
  · rintro (⟨rfl, hwithin⟩ | ⟨hcondition, elements, helements, hwithin⟩)
    · exact ⟨hk, [], nofun, by rwa [List.nil_append, Object.within?_cons_self]⟩
    · refine ⟨hcondition, elements, helements, ?_⟩
      cases elements with
      | nil =>
          have hne : k ≠ condition := by
            rintro rfl
            rw [List.nil_append, Object.within?_cons_none (by simp [hnone])] at hwithin
            cases hwithin
          rwa [List.nil_append, Object.within?_cons_of_ne hne]
      | cons e elements =>
          have hne : k ≠ e := by
            rintro rfl
            cases (Key.not_isBranch_of_isPseudoElement (helements k List.mem_cons_self)).symm.trans hk
          rwa [List.cons_append, Object.within?_cons_of_ne hne]

theorem Object.nests_element_iff {k : Key} (hk : k.isPseudoElement = true) (inner : Object) {o : Object}
    (hnone : o.get? k = none) (condition key : Key) :
    Object.Nests ((k, .obj inner) :: o) condition key ↔
      Object.Nests inner condition key ∨ o.Nests condition key := by
  have hbranch : ∀ {c : Key}, c.isBranch = true → k ≠ c := by
    rintro c hc rfl
    cases (Key.not_isBranch_of_isPseudoElement hk).symm.trans hc
  constructor
  · rintro ⟨hcondition, elements, helements, hwithin⟩
    cases elements with
    | nil =>
        rw [List.nil_append, Object.within?_cons_of_ne (hbranch hcondition)] at hwithin
        exact .inr ⟨hcondition, [], nofun, hwithin⟩
    | cons e elements =>
        have hrest : ∀ x ∈ elements, x.isPseudoElement = true :=
          fun x hx => helements x (List.mem_cons_of_mem e hx)
        by_cases hke : k = e
        · subst hke
          rw [List.cons_append, Object.within?_cons_self] at hwithin
          exact .inl ⟨hcondition, elements, hrest, hwithin⟩
        · rw [List.cons_append, Object.within?_cons_of_ne hke] at hwithin
          exact .inr ⟨hcondition, e :: elements, helements, hwithin⟩
  · rintro (⟨hcondition, elements, helements, hwithin⟩ | ⟨hcondition, elements, helements, hwithin⟩)
    · exact ⟨hcondition, k :: elements, List.forall_mem_cons.mpr ⟨hk, helements⟩,
        by rwa [List.cons_append, Object.within?_cons_self]⟩
    · refine ⟨hcondition, elements, helements, ?_⟩
      cases elements with
      | nil => rwa [List.nil_append, Object.within?_cons_of_ne (hbranch hcondition)]
      | cons e elements =>
          have hne : k ≠ e := by
            rintro rfl
            rw [List.cons_append, Object.within?_cons_none (by simp [hnone])] at hwithin
            cases hwithin
          rwa [List.cons_append, Object.within?_cons_of_ne hne]

/-- The places that folding drops are those of the blocks below a condition. -/
theorem mem_dropped_flattenFrom {o : Object} (ho : Rows o) (result : Object) (place : String) :
    place ∈ (flattenFrom result o).2 ↔
      ∃ condition key, o.Nests condition key ∧ place = condition.text ++ " " ++ key.text := by
  induction ho generalizing result with
  | nil =>
      rw [flattenFrom]
      refine iff_of_false List.not_mem_nil ?_
      rintro ⟨condition, key, hnests, -⟩
      exact Object.not_nests_nil condition key hnests
  | leaf hk hv _ _ ih =>
      rw [flattenFrom_leaf result _ hv, ih]
      simp only [Object.nests_leaf_iff hk]
  | @branch k inner o hk hinner hnone _ _ ih =>
      rw [flattenFrom_branch result hk hinner.not_isConditional, List.mem_append,
        mem_dropped_foldBlock hinner, ih]
      simp only [Object.nests_branch_iff hk inner hnone]
      have hblock : ∀ key, (Object.within? inner [key]).isSome = true ↔
          ∃ block, Object.get? inner key = some (.obj block) := by
        intro key
        rw [Object.within?]
        split
        · next block hget => exact iff_of_true rfl ⟨block, hget⟩
        · next hnot =>
            refine iff_of_false Bool.false_ne_true ?_
            rintro ⟨block, hget⟩
            exact hnot block hget
      constructor
      · rintro (⟨key, block, hget, rfl⟩ | ⟨condition, key, hnests, rfl⟩)
        · exact ⟨k, key, .inl ⟨rfl, (hblock key).mpr ⟨block, hget⟩⟩, rfl⟩
        · exact ⟨condition, key, .inr hnests, rfl⟩
      · rintro ⟨condition, key, ⟨rfl, hwithin⟩ | hnests, rfl⟩
        · obtain ⟨block, hget⟩ := (hblock key).mp hwithin
          exact .inl ⟨key, block, hget, rfl⟩
        · exact .inr ⟨condition, key, hnests, rfl⟩
  | @element k inner o hk hinner hnone _ ihinner ih =>
      rw [flattenFrom_element result hk hinner.not_isConditional, List.mem_append, flatten, ihinner, ih]
      simp only [Object.nests_element_iff hk inner hnone, or_and_right, exists_or]

theorem mem_dropped_flatten {o : Object} (h : Raw o) (place : String) :
    place ∈ (flatten o).2 ↔
      ∃ condition key, o.Nests condition key ∧ place = condition.text ++ " " ++ key.text :=
  mem_dropped_flattenFrom h.rows [] place

end Restyle.Style
