import Restyle.Proofs.Losses
import Restyle.Proofs.Variants

/-!
# The last word on a property in the block of a condition

While the blocks of a rule are merged, several of them may have something to say about a property under a
condition.  What counts is what is said last; objects are no plain values, and a map that a block holds for
one of its properties is dropped when the block is folded into its properties.
-/

namespace Restyle.Style

/-! ## One property of any object -/

section

variable {property condition : Key}

theorem choice?_setCondition_of_ne {result : Object} (hresult : TabularAt result property)
    {key : Key} (hkey : key.isBranch = true) (value : Value) (other : Key) (hcondition : condition ≠ Key.default)
    (h : other ≠ property ∨ key ≠ condition) :
    (setCondition result other key value).choice? property condition = result.choice? property condition := by
  by_cases hother : other = property
  · subst hother
    rw [choice?_setCondition hresult hkey, if_pos rfl, if_neg (Ne.symm (h.resolve_left (· rfl))),
      if_neg hcondition]
  · rw [Object.choice?, get?_setCondition_of_ne result hother, Object.choice?]

theorem tabularAt_setCondition {result : Object} (hresult : TabularAt result property) {key : Key}
    (hkey : key.isBranch = true) (value : Value) (other : Key) :
    TabularAt (setCondition result other key value) property := by
  intro map hmap
  by_cases hother : other = property
  · subst hother
    obtain ⟨new, heq, hnew, -⟩ := setCondition_eq hresult key value
    rw [heq, Object.get?_set_self] at hmap
    cases hmap
    exact Object.isConditional_set hnew (Key.isCondition_of_isBranch hkey) value
  · rw [get?_setCondition_of_ne result hother] at hmap
    exact hresult map hmap

/-- Of one property, folding a block changes only the value under the condition of the block. -/
theorem foldBlock_at {key : Key} (hkey : key.isBranch = true) (hcondition : condition ≠ Key.default)
    {block : Object} (hblock : key = condition → block.keys.Nodup) {result : Object}
    (hresult : TabularAt result property) :
    TabularAt (foldBlock key result block).1 property ∧
      (foldBlock key result block).1.choice? property condition =
        if key = condition then (block.leaf? property).or (result.choice? property condition)
        else result.choice? property condition := by
  induction block generalizing result with
  | nil =>
      refine ⟨hresult, ?_⟩
      split <;> rfl
  | cons entry block ih =>
      obtain ⟨other, value⟩ := entry
      have hrest : key = condition → other ∉ Object.keys block ∧ (Object.keys block).Nodup := fun h =>
        List.nodup_cons.mp (hblock h)
      cases hvalue : value.isObject with
      | true =>
          obtain ⟨inner, rfl⟩ := Value.eq_obj hvalue
          rw [foldBlock_block]
          obtain ⟨htabular, hchoice⟩ := ih (fun h => (hrest h).2) hresult
          refine ⟨htabular, hchoice.trans ?_⟩
          split
          · next h =>
              rw [Object.leaf?_cons]
              split
              · next hother =>
                  -- The key of the object is no key of the rest.
                  subst hother
                  rw [Object.leaf?_of_none ((Object.get?_eq_none_iff _ _).mpr (hrest h).1)]
              · rfl
          · rfl
      | false =>
          rw [foldBlock_leaf key result other hvalue]
          obtain ⟨htabular, hchoice⟩ :=
            ih (fun h => (hrest h).2) (tabularAt_setCondition hresult hkey value other)
          refine ⟨htabular, hchoice.trans ?_⟩
          split
          · next h =>
              subst h
              rw [Object.leaf?_cons]
              by_cases hother : other = property
              · subst hother
                rw [Object.leaf?_of_none ((Object.get?_eq_none_iff _ _).mpr (hrest rfl).1), if_pos rfl,
                  choice?_setCondition hresult hkey, if_pos rfl, if_pos rfl, hvalue]
                rfl
              · rw [if_neg hother, choice?_setCondition_of_ne hresult hkey value other hcondition (.inl hother)]
          · next h => exact choice?_setCondition_of_ne hresult hkey value other hcondition (.inr h)

/-- An entry with another key than a property changes nothing of it, unless it is the block of a condition. -/
theorem get?_property_of_ne {result : Object} {key : Key} (hkey : key ≠ property) :
    (∀ value, (setPlain result key value).get? property = result.get? property) ∧
      (∀ map, (setMap result key map).get? property = result.get? property) ∧
      ∀ nested, (setNested result key nested).get? property = result.get? property := by
  refine ⟨fun value => ?_, fun map => Object.get?_set_of_ne _ _ hkey, fun nested => ?_⟩
  · unfold setPlain
    split
    · split <;> exact Object.get?_set_of_ne _ _ hkey
    · exact Object.get?_set_of_ne _ _ hkey
  · unfold setNested
    split <;> exact Object.get?_set_of_ne _ _ hkey

theorem leaf?_of_conditional {map : Object} (hmap : Object.isConditional map = true)
    (hproperty : property.isProperty = true) : map.leaf? property = none := by
  refine Object.leaf?_of_none ((Object.get?_eq_none_iff _ _).mpr fun hmem => ?_)
  exact Key.ne_of_isProperty hproperty
    (Key.not_isProperty_of_isCondition (((Object.isConditional_iff map).mp hmap).1 property hmem)) rfl

/-- What folding an entry changes of the value that a property has under a condition. -/
theorem exists_flattenFrom_cons {key : Key} {value : Value} (hproperty : property.isProperty = true)
    (hcondition : condition.isBranch = true)
    (hblock : ∀ block, key = condition → value = .obj block → (Object.keys block).Nodup)
    (hfree : key = property → value.isObject = false) {result : Object} (hresult : TabularAt result property)
    (o : Object) :
    ∃ next, (flattenFrom result ((key, value) :: o)).1 = (flattenFrom next o).1 ∧ TabularAt next property ∧
      next.choice? property condition =
        (Object.plain? [(key, value)] [condition] property).or (result.choice? property condition) := by
  have hdefault := Key.ne_default_of_isBranch hcondition
  have hother : key ≠ condition → Object.plain? [(key, value)] [condition] property = none := fun h =>
    Object.plain?_of_get?_none (by rw [Object.get?_cons, if_neg h, Object.get?_nil]) _ _
  have hsame : ∀ {next : Object}, next.get? property = result.get? property →
      Object.plain? [(key, value)] [condition] property = none → TabularAt next property ∧
        next.choice? property condition =
          (Object.plain? [(key, value)] [condition] property).or (result.choice? property condition) := by
    intro next hget hnone
    refine ⟨fun map hmap => hresult map (hget.symm.trans hmap), ?_⟩
    rw [hnone, Option.none_or, Object.choice?, hget, Object.choice?]
  cases hvalue : value.isObject with
  | false =>
      have hnone : Object.plain? [(key, value)] [condition] property = none := by
        refine Object.plain?_cons_none (fun inner h => ?_) _ _
        rw [Object.get?_cons] at h
        split at h <;> cases h
        cases hvalue
      refine ⟨_, congrArg Prod.fst (flattenFrom_leaf result key hvalue o), ?_⟩
      by_cases hkey : key = property
      · subst hkey
        obtain ⟨new, heq, hnew, hchoose⟩ := setPlain_eq hresult hvalue
        rw [heq]
        refine ⟨fun map hmap => hnew map (Option.some.inj ((Object.get?_set_self ..).symm.trans hmap)), ?_⟩
        rw [choice?_set_self, hchoose, if_neg hdefault, hnone, Option.none_or]
      · exact hsame ((get?_property_of_ne hkey).1 value) hnone
  | true =>
      obtain ⟨inner, rfl⟩ := Value.eq_obj hvalue
      have hkey : key ≠ property := fun h => Bool.false_ne_true ((hfree h).symm.trans hvalue)
      have hself : key = condition → Object.get? [(key, .obj inner)] condition = some (.obj inner) := fun h => by
        rw [Object.get?_cons, if_pos h]
      rcases isConditionBlock_cases key inner with hcases | hmap | ⟨hmap, hbranch⟩
      · obtain ⟨hbranch, hinner⟩ := isBranch_of_isConditionBlock hcases
        obtain ⟨htabular, hchoice⟩ := foldBlock_at hbranch hdefault (fun h => hblock inner h rfl) hresult
        refine ⟨(foldBlock key result inner).1, by rw [flattenFrom_branch result hbranch hinner], htabular, ?_⟩
        rw [hchoice]
        split
        · next h => rw [Object.plain?_cons_obj (hself h), Object.plain?_nil]
        · next h => rw [hother h, Option.none_or]
      · refine ⟨_, congrArg Prod.fst (flattenFrom_map result key hmap o), ?_⟩
        refine hsame ((get?_property_of_ne hkey).2.1 inner) ?_
        by_cases h : key = condition
        · rw [Object.plain?_cons_obj (hself h), Object.plain?_nil, leaf?_of_conditional hmap hproperty]
        · exact hother h
      · refine ⟨setNested result key (flatten inner).1, by rw [flattenFrom_nested result hbranch hmap], ?_⟩
        refine hsame ((get?_property_of_ne hkey).2.2 _) (hother ?_)
        rintro rfl
        cases hbranch.symm.trans hcondition

/--
If a property has no object of its own, its value under a condition is the plain one in the block of the
condition, whatever else the object holds.
-/
theorem choice?_flattenFrom {o result : Object} (hproperty : property.isProperty = true)
    (hcondition : condition.isBranch = true) (hnodup : o.keys.Nodup)
    (hblock : ∀ block, o.get? condition = some (.obj block) → (Object.keys block).Nodup)
    (hfree : ∀ inner, o.get? property ≠ some (.obj inner)) (hresult : TabularAt result property) :
    (flattenFrom result o).1.choice? property condition =
      (o.plain? [condition] property).or (result.choice? property condition) := by
  match o with
  | [] => rfl
  | (key, value) :: o =>
    obtain ⟨hfresh, hrest⟩ := List.nodup_cons.mp hnodup
    have hnone : Object.get? o key = none := (Object.get?_eq_none_iff o key).mpr hfresh
    have hself : Object.get? ((key, value) :: o) key = some value := by rw [Object.get?_cons, if_pos rfl]
    have htail : ∀ {k v}, Object.get? o k = some v → Object.get? ((key, value) :: o) k = some v := by
      intro k v hv
      rw [Object.get?_cons, if_neg, hv]
      rintro rfl
      cases hnone.symm.trans hv
    have hplain : key = property → value.isObject = false := by
      rintro rfl
      cases value with
      | obj inner => exact absurd hself (hfree inner)
      | _ => rfl
    have hhead : ∀ block, key = condition → value = .obj block → (Object.keys block).Nodup := by
      rintro block rfl rfl
      exact hblock block hself
    obtain ⟨next, hnext, htabular, hchoice⟩ :=
      exists_flattenFrom_cons hproperty hcondition hhead hplain hresult o
    rw [hnext, choice?_flattenFrom hproperty hcondition hrest (fun block h => hblock block (htail h))
      (fun inner h => hfree inner (htail h)) htabular, hchoice, ← Option.or_assoc]
    refine congrArg (Option.or · _) ?_
    by_cases hkey : key = condition
    · subst hkey
      rw [Object.plain?_of_get?_none hnone, Option.none_or]
      simp only [Object.plain?, Object.within?, Object.get?_cons, if_pos]
    · rw [Object.plain?_cons_of_ne hkey, Object.plain?_cons_of_ne hkey,
        Object.plain?_of_get?_none (Object.get?_nil condition), Option.or_none]

theorem choice?_flatten {o : Object} (hproperty : property.isProperty = true)
    (hcondition : condition.isBranch = true) (hnodup : o.keys.Nodup)
    (hblock : ∀ block, o.get? condition = some (.obj block) → (Object.keys block).Nodup)
    (hfree : ∀ inner, o.get? property ≠ some (.obj inner)) :
    (flatten o).1.choice? property condition = o.plain? [condition] property :=
  (choice?_flattenFrom hproperty hcondition hnodup hblock hfree (tabular_nil.at hproperty)).trans
    (Option.or_none ..)

end

/-! ## Merging blocks -/

/-- An object without a key that occurs twice, as are the objects directly in it. -/
structure Tidy (o : Object) : Prop where
  nodup : o.keys.Nodup
  inner : ∀ key inner, o.get? key = some (.obj inner) → (Object.keys inner).Nodup

theorem exists_of_mergeValue {old : Option Value} {value : Value} {inner : Object}
    (h : mergeValue old value = .obj inner) :
    ∃ source, value = .obj source ∧
      (inner = source ∨ ∃ target, old = some (.obj target) ∧ inner = Object.merge target source) := by
  unfold mergeValue at h
  split at h
  · next source =>
      refine ⟨source, rfl, ?_⟩
      split at h
      · next target =>
          split at h <;> cases h
          · exact .inl rfl
          · exact .inr ⟨target, rfl, rfl⟩
      · cases h
        exact .inl rfl
  · next hplain => exact absurd h (hplain inner)

theorem isObject_mergeValue (old : Option Value) (value : Value) :
    (mergeValue old value).isObject = value.isObject := by
  cases hvalue : value.isObject with
  | false => rw [Raw.mergeValue_leaf old hvalue, hvalue]
  | true =>
      obtain ⟨source, rfl⟩ := Value.eq_obj hvalue
      unfold mergeValue
      split
      · split <;> rfl
      · rfl

theorem exists_of_map_eq_ok {ε α β : Type} {x : Except ε α} {g : α → β} {b : β} (h : x.map g = .ok b) :
    ∃ a, x = .ok a ∧ g a = b := by
  cases x with
  | error e => cases h
  | ok a => exact ⟨a, rfl, Except.ok.inj h⟩

/-- Merging along a path changes the object of the first key, unless there is nothing to merge into a plain value. -/
theorem mergeAt_cons_cases {o o' source : Object} {key : Key} {path : List Key}
    (h : o.mergeAt (key :: path) source = .ok o') :
    (∃ inner changed : Object, (o.get? key = some (.obj inner) ∨ o.get? key = none ∧ inner = []) ∧
      inner.mergeAt path source = .ok changed ∧ o' = o.set key (.obj changed)) ∨
    (∃ value, o.get? key = some value ∧ value.isObject = false) ∧ path = [] ∧ source = [] ∧ o' = o := by
  cases hget : o.get? key with
  | none =>
      rw [mergeAt_missing hget] at h
      obtain ⟨changed, hchanged, rfl⟩ := exists_of_map_eq_ok h
      exact .inl ⟨[], changed, .inr ⟨rfl, rfl⟩, hchanged, rfl⟩
  | some value =>
      cases hvalue : value.isObject with
      | true =>
          obtain ⟨inner, rfl⟩ := Value.eq_obj hvalue
          rw [mergeAt_object hget] at h
          obtain ⟨changed, hchanged, rfl⟩ := exists_of_map_eq_ok h
          exact .inl ⟨inner, changed, .inl rfl, hchanged, rfl⟩
      | false =>
          rw [mergeAt_leaf hget hvalue] at h
          split at h
          · next hpath =>
              cases source with
              | nil =>
                  cases h
                  exact .inr ⟨⟨value, rfl, hvalue⟩, List.isEmpty_iff.mp hpath, rfl, rfl⟩
              | cons entry source => cases h
          · cases h

theorem nodup_keys_mergeAt {o o' source : Object} {path : List Key} (ho : o.keys.Nodup)
    (h : o.mergeAt path source = .ok o') : o'.keys.Nodup := by
  cases path with
  | nil =>
      cases h
      exact Object.nodup_keys_merge source ho
  | cons key path =>
      rcases mergeAt_cons_cases h with ⟨inner, changed, -, -, rfl⟩ | ⟨-, -, -, rfl⟩
      · exact Object.nodup_keys_set ho key _
      · exact ho

namespace Tidy

variable {o o' source : Object}

theorem nil : Tidy [] :=
  ⟨List.nodup_nil, fun _ _ h => nomatch h⟩

theorem set (h : Tidy o) (key : Key) {value : Value}
    (hvalue : ∀ inner, value = .obj inner → (Object.keys inner).Nodup) : Tidy (o.set key value) := by
  refine ⟨Object.nodup_keys_set h.nodup key value, fun k inner hget => ?_⟩
  rcases Object.get?_set_eq_some hget with ⟨-, heq⟩ | hold
  · exact hvalue inner heq.symm
  · exact h.inner k inner hold

theorem merge (h : Tidy o) (hsource : Tidy source) : Tidy (o.merge source) := by
  refine ⟨Object.nodup_keys_merge source h.nodup, fun key inner hget => ?_⟩
  rw [Object.get?_merge hsource.nodup] at hget
  split at hget
  · next value hvalue =>
      obtain ⟨entries, rfl, rfl | ⟨target, htarget, rfl⟩⟩ := exists_of_mergeValue (Option.some.inj hget)
      · exact hsource.inner key _ hvalue
      · exact Object.nodup_keys_merge entries (h.inner key target htarget)
  · exact h.inner key inner hget

theorem mergeAt (ho : Tidy o) (hsource : Tidy source) {path : List Key} (h : o.mergeAt path source = .ok o') :
    Tidy o' := by
  cases path with
  | nil =>
      cases h
      exact ho.merge hsource
  | cons key path =>
      rcases mergeAt_cons_cases h with ⟨inner, changed, hinner, hchanged, rfl⟩ | ⟨-, -, -, rfl⟩
      · refine ho.set key fun _ heq => ?_
        cases heq
        refine nodup_keys_mergeAt ?_ hchanged
        rcases hinner with hget | ⟨-, rfl⟩
        · exact ho.inner key inner hget
        · exact List.nodup_nil
      · exact ho

end Tidy

/-- The plain value that is there after something has been said; an object is no plain value. -/
def hear (before : Option Value) : Option Value → Option Value
  | none => before
  | some value => if value.isObject then none else some value

theorem hear_hear (before first next : Option Value) : hear (hear before first) next = hear before (next.or first) := by
  cases next <;> rfl

theorem leaf?_eq_hear (o : Object) (property : Key) : o.leaf? property = hear none (o.get? property) := by
  rw [Object.leaf?]
  cases o.get? property with
  | none => rfl
  | some value => cases hvalue : value.isObject <;> simp [hear, hvalue]

section

variable {o o' source : Object} {property condition : Key}

theorem leaf?_merge (hsource : source.keys.Nodup) (o : Object) (property : Key) :
    (o.merge source).leaf? property = hear (o.leaf? property) (source.get? property) := by
  rw [leaf?_eq_hear, Object.get?_merge hsource, leaf?_eq_hear]
  cases source.get? property with
  | none => rfl
  | some value =>
      dsimp only [hear]
      rw [isObject_mergeValue]
      cases hvalue : value.isObject with
      | true => rfl
      | false => rw [Raw.mergeValue_leaf _ hvalue]

/-- What is merged along a path says something about a property only if the path is empty. -/
theorem leaf?_mergeAt (hsource : source.keys.Nodup) {path : List Key} (h : o.mergeAt path source = .ok o')
    (property : Key) :
    o'.leaf? property = hear (o.leaf? property) (if path = [] then source.get? property else none) := by
  cases path with
  | nil =>
      cases h
      exact leaf?_merge hsource o property
  | cons key path =>
      rw [if_neg (List.cons_ne_nil _ _)]
      rcases mergeAt_cons_cases h with ⟨inner, changed, hinner, -, rfl⟩ | ⟨-, -, -, rfl⟩
      · by_cases hkey : key = property
        · subst hkey
          have hbefore : o.leaf? key = none := by
            rcases hinner with hget | ⟨hget, -⟩
            · exact Object.leaf?_of_obj hget
            · exact Object.leaf?_of_none hget
          rw [Object.leaf?_of_obj (Object.get?_set_self ..), hbefore]
          rfl
        · rw [Object.leaf?, Object.get?_set_of_ne _ _ hkey, ← Object.leaf?]
          rfl
      · rfl

theorem mem_keys_mergeAt {path : List Key} (h : o.mergeAt path source = .ok o') (hmem : property ∈ o.keys) :
    property ∈ o'.keys := by
  have hset : ∀ {o : Object} (key : Key) (value : Value), property ∈ o.keys → property ∈ (o.set key value).keys := by
    intro o key value hmem
    rw [Object.keys_set]
    split
    · exact hmem
    · exact List.mem_append_left _ hmem
  cases path with
  | nil =>
      cases h
      induction source generalizing o with
      | nil => rwa [Object.merge_nil]
      | cons entry source ih =>
          obtain ⟨key, value⟩ := entry
          rw [Object.merge_cons]
          exact ih (hset key _ hmem)
  | cons key path =>
      rcases mergeAt_cons_cases h with ⟨inner, changed, -, -, rfl⟩ | ⟨-, -, -, rfl⟩
      · exact hset key _ hmem
      · exact hmem

/-- The plain value of a property in an object. -/
def Value.leafIn (property : Key) : Value → Option Value
  | .obj inner => Object.leaf? inner property
  | _ => none

theorem plain?_eq_leafIn (o : Object) (condition property : Key) :
    o.plain? [condition] property = (o.get? condition).bind (Value.leafIn property) := by
  cases hget : o.get? condition with
  | none => exact Object.plain?_of_get?_none hget _ _
  | some value =>
      cases hvalue : value.isObject with
      | true =>
          obtain ⟨block, rfl⟩ := Value.eq_obj hvalue
          exact Object.plain?_cons_obj hget _ _
      | false =>
          rw [Object.plain?_cons_none fun inner h => ?_]
          · cases value <;> first | rfl | cases hvalue
          · cases hget.symm.trans h
            cases hvalue

/--
What is said about a property by a value that takes the place of a block.  When it takes the place of all of
the block, it is as if it said that the property has an object.
-/
def Value.tells (property : Key) : Value → Option Value
  | .obj inner => if Object.isConditional inner then some (.obj []) else Object.get? inner property
  | _ => some (.obj [])

/-- What an object that is merged along a path says about a property in the block of a condition. -/
def saidAt (condition property : Key) (path : List Key) (o : Object) : Option Value :=
  if path = [condition] then o.get? property
  else if path = [] then (o.get? condition).bind (Value.tells property)
  else none

theorem leafIn_mergeValue (hproperty : property.isProperty = true) (old : Option Value) {value : Value}
    (hvalue : ∀ block, value = .obj block → (Object.keys block).Nodup) :
    (mergeValue old value).leafIn property = hear (old.bind (Value.leafIn property)) (value.tells property) := by
  cases hobject : value.isObject with
  | false =>
      rw [Raw.mergeValue_leaf old hobject]
      cases value <;> first | rfl | cases hobject
  | true =>
      obtain ⟨block, rfl⟩ := Value.eq_obj hobject
      rw [Value.tells]
      split
      · next hmap =>
          obtain ⟨source, hsource, hresult⟩ : ∃ source, mergeValue old (.obj block) = .obj source ∧ source = block := by
            unfold mergeValue
            split <;> simp [hmap]
          rw [hsource, hresult]
          exact leaf?_of_conditional hmap hproperty
      · next hmap =>
          unfold mergeValue
          split
          · next target =>
              rw [if_neg hmap]
              exact leaf?_merge (hvalue block rfl) target property
          · next hold =>
              have hnone : old.bind (Value.leafIn property) = none := by
                cases old with
                | none => rfl
                | some old => cases old <;> first | rfl | exact absurd rfl (hold _)
              rw [hnone]
              exact leaf?_eq_hear block property

theorem plain?_mergeAt (hproperty : property.isProperty = true) (hsource : Tidy source) {path : List Key}
    (h : o.mergeAt path source = .ok o') (condition : Key) :
    o'.plain? [condition] property =
      hear (o.plain? [condition] property) (saidAt condition property path source) := by
  unfold saidAt
  cases path with
  | nil =>
      have hmerged := Object.get?_merge hsource.nodup o condition
      cases h
      rw [if_neg (List.cons_ne_nil _ _).symm, if_pos rfl, plain?_eq_leafIn, hmerged, plain?_eq_leafIn]
      cases hsaid : source.get? condition with
      | none => rfl
      | some value =>
          exact leafIn_mergeValue hproperty _ fun block hvalue => hsource.inner condition block (hvalue ▸ hsaid)
  | cons key path =>
      rcases mergeAt_cons_cases h with ⟨inner, changed, hinner, hchanged, rfl⟩ | ⟨-, rfl, rfl, rfl⟩
      · by_cases hkey : key = condition
        · subst hkey
          have hbefore : o.plain? [key] property = inner.leaf? property := by
            rcases hinner with hget | ⟨hget, rfl⟩
            · rw [Object.plain?_cons_obj hget, Object.plain?_nil]
            · rw [Object.plain?_of_get?_none hget]
              rfl
          rw [Object.plain?_cons_obj (Object.get?_set_self ..), Object.plain?_nil,
            leaf?_mergeAt hsource.nodup hchanged, hbefore]
          simp
        · have hsame : (o.set key (.obj changed)).plain? [condition] property = o.plain? [condition] property := by
            simp only [Object.plain?, Object.within?, Object.get?_set_of_ne _ _ hkey]
          rw [hsame, if_neg (by simp [hkey]), if_neg (List.cons_ne_nil _ _)]
          rfl
      · split <;> rfl

/-- The block of a condition has something for a property. -/
def Object.HasUnder (o : Object) (condition property : Key) : Prop :=
  ∃ block, o.get? condition = some (.obj block) ∧ property ∈ Object.keys block

/-- A block that has something for a property still has it after a merge that says nothing about it. -/
theorem hasUnder_mergeAt (hsource : Tidy source) {path : List Key} (h : o.mergeAt path source = .ok o')
    (hsilent : saidAt condition property path source = none) (hhas : o.HasUnder condition property) :
    o'.HasUnder condition property := by
  obtain ⟨block, hblock, hmem⟩ := hhas
  cases path with
  | nil =>
      have hmerged := Object.get?_merge hsource.nodup o condition
      cases h
      rw [saidAt, if_neg (List.cons_ne_nil _ _).symm, if_pos rfl] at hsilent
      cases hsaid : source.get? condition with
      | none =>
          rw [hsaid] at hmerged
          exact ⟨block, hmerged.trans hblock, hmem⟩
      | some value =>
          rw [hsaid] at hsilent hmerged
          rw [Option.bind_some, Value.tells.eq_def] at hsilent
          split at hsilent
          · next entries =>
              split at hsilent
              · cases hsilent
              · next hmap =>
                  dsimp only at hmerged
                  rw [hblock, mergeValue, if_neg hmap] at hmerged
                  have hmergeAt : Object.mergeAt block [] entries = .ok (Object.merge block entries) := rfl
                  exact ⟨_, hmerged, mem_keys_mergeAt hmergeAt hmem⟩
          · cases hsilent
  | cons key path =>
      rcases mergeAt_cons_cases h with ⟨inner, changed, hinner, hchanged, rfl⟩ | ⟨-, -, -, rfl⟩
      · by_cases hkey : key = condition
        · subst hkey
          rcases hinner with hget | ⟨hget, -⟩
          · cases hblock.symm.trans hget
            exact ⟨changed, Object.get?_set_self .., mem_keys_mergeAt hchanged hmem⟩
          · cases hblock.symm.trans hget
        · exact ⟨block, (Object.get?_set_of_ne _ _ hkey).trans hblock, hmem⟩
      · exact ⟨block, hblock, hmem⟩

end

/-! ## What declarations say -/

/-- What a change of an object says about a property, it says whatever the object. -/
structure Change (g : Object → Object) : Prop where
  tells : ∀ o property before, hear before ((g o).get? property) =
    hear (hear before (o.get? property)) ((g []).get? property)
  grows : ∀ o property, property ∈ o.keys → property ∈ (g o).keys
  tidy : ∀ o, Tidy o → Tidy (g o)

namespace Change

variable {f g : Object → Object}

theorem leaf? (h : Change g) (o : Object) (property : Key) :
    (g o).leaf? property = hear (o.leaf? property) ((g []).get? property) := by
  rw [leaf?_eq_hear, h.tells, leaf?_eq_hear]

theorem id : Change fun o => o :=
  ⟨fun _ _ _ => rfl, fun _ _ h => h, fun _ h => h⟩

theorem set (key : Key) {value : Value} (hvalue : ∀ inner, value = .obj inner → (Object.keys inner).Nodup) :
    Change fun o => o.set key value := by
  refine ⟨fun o property before => ?_, fun o property hmem => ?_, fun o h => h.set key hvalue⟩
  · by_cases hkey : key = property
    · subst hkey
      rw [Object.get?_set_self, Object.get?_set_self]
      rfl
    · rw [Object.get?_set_of_ne _ _ hkey, Object.get?_set_of_ne _ _ hkey]
      rfl
  · rw [Object.keys_set]
    split
    · exact hmem
    · exact List.mem_append_left _ hmem

theorem merge {styles : Object} (hstyles : Tidy styles) : Change fun o => o.merge styles := by
  refine ⟨fun o property before => ?_, fun o property hmem => ?_, fun o h => h.merge hstyles⟩
  · rw [Object.get?_merge hstyles.nodup, Object.get?_merge hstyles.nodup]
    cases styles.get? property with
    | none => rfl
    | some value =>
        dsimp only [hear]
        rw [isObject_mergeValue, isObject_mergeValue]
        cases hvalue : value.isObject with
        | true => rfl
        | false => rw [Raw.mergeValue_leaf _ hvalue, Raw.mergeValue_leaf _ hvalue]
  · exact mem_keys_mergeAt (show o.mergeAt [] styles = .ok (o.merge styles) from rfl) hmem

theorem comp (hg : Change g) (hf : Change f) : Change fun o => g (f o) := by
  refine ⟨fun o property before => ?_, fun o property h => hg.grows _ _ (hf.grows _ _ h),
    fun o h => hg.tidy _ (hf.tidy _ h)⟩
  rw [hg.tells, hf.tells, hg.tells (f [])]

theorem setAll {entries : List (Key × Value)} (h : ∀ entry ∈ entries, entry.2.isObject = false) :
    Change fun o => entries.foldl (fun o entry => o.set entry.1 entry.2) o := by
  induction entries with
  | nil => exact .id
  | cons entry entries ih =>
      obtain ⟨hentry, hrest⟩ := List.forall_mem_cons.mp h
      refine (ih hrest).comp (.set entry.1 fun inner hinner => ?_)
      rw [hinner] at hentry
      cases hentry

end Change

/-- Work on objects that makes the same change of all of them, or breaks off for all of them. -/
def Uniform (work : Object → Work Unit Object) : Prop :=
  (∃ fault, ∀ o s, ((work o).run s).1 = .error fault) ∨
    ∃ g, Change g ∧ ∀ o s, ((work o).run s).1 = .ok (g o)

namespace Uniform

theorem pure {g : Object → Object} (h : Change g) : Uniform fun o => Pure.pure (g o) :=
  .inr ⟨g, h, fun _ _ => rfl⟩

theorem bind {work next : Object → Work Unit Object} (hw : Uniform work) (hn : Uniform next) :
    Uniform fun o => work o >>= next := by
  rcases hw with ⟨fault, hw⟩ | ⟨f, hf, hw⟩
  · refine .inl ⟨fault, fun o s => ?_⟩
    have hrun := hw o s
    rw [Work.run_bind]
    cases h : (work o).run s with
    | mk r s' =>
        rw [h] at hrun
        cases hrun
        rfl
  · have hstep : ∀ o s, ∃ s', ((work o >>= next).run s).1 = ((next (f o)).run s').1 := by
      intro o s
      have hrun := hw o s
      cases h : (work o).run s with
      | mk r s' =>
          rw [h] at hrun
          cases hrun
          exact ⟨s', by rw [Work.run_bind_ok _ h]⟩
    rcases hn with ⟨fault, hn⟩ | ⟨g, hg, hn⟩
    · refine .inl ⟨fault, fun o s => ?_⟩
      obtain ⟨s', h⟩ := hstep o s
      rw [h, hn]
    · refine .inr ⟨_, hg.comp hf, fun o s => ?_⟩
      obtain ⟨s', h⟩ := hstep o s
      rw [h, hn]

/-- Work that asks for something first, the answer to which is the same in all states. -/
theorem ask {α : Type} {fetch : Work Unit α} (hfetch : Work.Constant fetch) {next : α → Object → Work Unit Object}
    (hn : ∀ a, (∃ s s', fetch.run s = (.ok a, s')) → Uniform (next a)) :
    Uniform fun o => fetch >>= fun a => next a o := by
  cases h : fetch.run { store := () } with
  | mk r s₀ =>
      have hsame : ∀ s, (fetch.run s).1 = r := fun s => (hfetch.run_fst_eq s _).trans (congrArg Prod.fst h)
      cases r with
      | error fault =>
          refine .inl ⟨fault, fun o s => ?_⟩
          have hrun := hsame s
          rw [Work.run_bind]
          cases h : fetch.run s with
          | mk r s' =>
              rw [h] at hrun
              cases hrun
              rfl
      | ok a =>
          have hstep : ∀ o s, ∃ s', ((fetch >>= fun a => next a o).run s).1 = ((next a o).run s').1 := by
            intro o s
            have hrun := hsame s
            cases h : fetch.run s with
            | mk r s' =>
                rw [h] at hrun
                cases hrun
                exact ⟨s', by rw [Work.run_bind_ok _ h]⟩
          rcases hn a ⟨_, _, h⟩ with ⟨fault, hn⟩ | ⟨g, hg, hn⟩
          · refine .inl ⟨fault, fun o s => ?_⟩
            obtain ⟨s', h⟩ := hstep o s
            rw [h, hn]
          · refine .inr ⟨g, hg, fun o s => ?_⟩
            obtain ⟨s', h⟩ := hstep o s
            rw [h, hn]

theorem foldlM {α : Type} {f : Object → α → Work Unit Object} (xs : List α) (h : ∀ x ∈ xs, Uniform fun o => f o x) :
    Uniform fun o => xs.foldlM f o := by
  induction xs with
  | nil => exact .pure .id
  | cons x xs ih =>
      obtain ⟨hx, hrest⟩ := List.forall_mem_cons.mp h
      simp only [List.foldlM_cons]
      exact hx.bind (ih hrest)

end Uniform

theorem isObject_partOf (value : Value) : (partOf value).isObject = false := by
  cases value with
  | bool b => cases b <;> rfl
  | _ => rfl

theorem isObject_joinParts {parts : List Value} (h : ∀ part ∈ parts, part.isObject = false) :
    (joinParts parts).isObject = false := by
  unfold joinParts
  split
  · rfl
  · next part hpart =>
      have hmem : part ∈ parts.filter fun p => !isEmptyText p := hpart ▸ List.mem_singleton.mpr rfl
      exact h part (List.mem_filter.mp hmem).1
  · split <;> rfl

namespace Answers

variable (a : Answers)

/-- What slots give has no key twice. -/
def Tidy : Prop :=
  ∀ request value other styles, a.slot request = .ok (.given value other styles) →
    Style.Tidy styles ∧ ∀ inner, value = .obj inner → (Object.keys inner).Nodup

theorem isObject_of_resolvePieces {base : SlotRequest} {pieces : List Css.Slot.Piece} {s s' : Session Unit}
    {parts : List Value} (h : (resolvePieces a.resolver base pieces).run s = (.ok (some parts), s')) :
    ∀ part ∈ parts, part.isObject = false := by
  induction pieces generalizing s parts with
  | nil =>
      cases h
      exact nofun
  | cons piece pieces ih =>
      cases piece with
      | text cs =>
          rw [resolvePieces] at h
          obtain ⟨rest, s₁, hrest, h⟩ := Work.run_bind_eq_ok h
          cases rest with
          | none => cases h
          | some rest =>
              cases h
              exact List.forall_mem_cons.mpr ⟨rfl, ih hrest⟩
      | slot index written =>
          rw [resolvePieces] at h
          obtain ⟨answer, s₁, -, h⟩ := Work.run_bind_eq_ok h
          rcases answer with _ | ⟨value, other, styles⟩
          · cases h
          · obtain ⟨rest, s₂, hrest, h⟩ := Work.run_bind_eq_ok h
            cases rest with
            | none => cases h
            | some rest =>
                cases h
                exact List.forall_mem_cons.mpr ⟨isObject_partOf value, ih hrest⟩

theorem constant_splice (text : String) (base : SlotRequest) : Work.Constant (splice a.resolver text base) :=
  alike_splice text base fun request _ => a.constant_slot request

theorem isObject_of_splice {text : String} {base : SlotRequest} {s s' : Session Unit} {value : Value}
    (h : (splice a.resolver text base).run s = (.ok (some value), s')) : value.isObject = false := by
  unfold splice at h
  obtain ⟨parts, s₁, hparts, h⟩ := Work.run_bind_eq_ok h
  cases parts with
  | none => cases h
  | some parts =>
      have hjoined := isObject_joinParts (a.isObject_of_resolvePieces hparts)
      dsimp only at h
      split at h
      · cases h
        exact isObject_normalizeValue _ _
      · cases h
        exact hjoined

variable {a} (ha : a.Tidy)

theorem uniform_addLonghand (base : SlotRequest) (part : String × String) :
    Uniform fun o => addLonghand a.resolver base o part := by
  unfold addLonghand
  by_cases hslot : Css.Slot.present part.2 = true
  · simp only [hslot, if_true]
    refine .ask (a.constant_splice _ _) fun value => ?_
    rintro ⟨s, s', hrun⟩
    cases value with
    | none => exact .pure .id
    | some value =>
        refine .pure (.set _ fun inner hinner => ?_)
        have hvalue := a.isObject_of_splice hrun
        rw [hinner] at hvalue
        cases hvalue
  · simp only [hslot, Bool.false_eq_true, if_false]
    refine .pure (.set _ fun inner hinner => ?_)
    have hvalue := isObject_normalizeValue part.1 part.2
    rw [hinner] at hvalue
    cases hvalue

include ha in
theorem uniform_setDynamic (scope : Scope) (property value : String) :
    Uniform fun o => setDynamic a.resolver scope o property value := by
  unfold setDynamic
  by_cases hwhole : Css.Slot.isWhole value = true
  · simp only [hwhole, if_true]
    refine .ask (a.constant_slot _) fun answer => ?_
    rintro ⟨s, s', hrun⟩
    rcases answer with _ | ⟨value, other, styles⟩
    · exact .pure .id
    · rw [run_slot] at hrun
      exact .pure (.set _ (ha _ _ _ _ (congrArg Prod.fst hrun)).2)
  · simp only [hwhole, Bool.false_eq_true, if_false]
    cases expandShorthand property value with
    | some expansion =>
        simp only [spliceLonghands_eq_foldlM]
        exact .foldlM _ fun part _ => uniform_addLonghand _ part
    | none =>
        refine .ask (a.constant_splice _ _) fun value => ?_
        rintro ⟨s, s', hrun⟩
        cases value with
        | none => exact .pure .id
        | some value =>
            refine .pure (.set _ fun inner hinner => ?_)
            have hvalue := a.isObject_of_splice hrun
            rw [hinner] at hvalue
            cases hvalue

include ha in
/-- A declaration makes the same change of all objects. -/
theorem uniform_convertDeclaration (scope : Scope) (d : Css.Declaration) :
    Uniform fun o => convertDeclaration a.resolver scope o d := by
  cases hname : d.property.isEmpty with
  | true =>
      unfold convertDeclaration
      by_cases hblock : d.isBlockSlot = true
      · simp only [hname, hblock, if_true]
        refine .ask (a.constant_slot _) fun answer => ?_
        rintro ⟨s, s', hrun⟩
        rcases answer with _ | ⟨value, other, styles⟩
        · exact .pure .id
        · rw [run_slot] at hrun
          exact .pure (.merge (ha _ _ _ _ (congrArg Prod.fst hrun)).1)
      · simp only [hname, hblock, if_true, Bool.false_eq_true, if_false]
        exact .pure .id
  | false =>
      cases hfixed : Css.Slot.present d.property with
      | true =>
          unfold convertDeclaration
          simp only [hname, hfixed, Bool.false_eq_true, if_false, if_true]
          exact .inr ⟨_, .id, fun o s => rfl⟩
      | false =>
          simp only [convertDeclaration_named hname hfixed]
          refine .ask ?_ fun _ _ => ?_
          · split
            · exact .mark Work.oblivious_whatever _
            · exact .pure _
          · unfold setValue
            split
            · exact uniform_setDynamic ha scope _ _
            · simp only [setStatic_eq_foldl]
              exact .pure (.setAll (isObject_of_mem_staticEntries _ _))

end Answers

/-! ## Slots in the block of a condition -/

theorem getLast?_filterMap_cons {α β : Type} (word : α → Option β) (x : α) (xs : List α) :
    ((x :: xs).filterMap word).getLast? = (xs.filterMap word).getLast?.or (word x) := by
  cases hx : word x with
  | none => rw [List.filterMap_cons_none hx, Option.or_none]
  | some value =>
      rw [List.filterMap_cons_some hx, List.getLast?_cons]
      cases (xs.filterMap word).getLast? <;> rfl

/-- After a loop each turn of which says something, there is what has been said last. -/
theorem hear_foldlM {α : Type} {f : Object → α → Except Fault Object} (view : Object → Option Value)
    (word : α → Option Value) {P : Object → Prop} {xs : List α}
    (hstep : ∀ x ∈ xs, ∀ o o', P o → f o x = .ok o' → P o' ∧ view o' = hear (view o) (word x))
    {o o' : Object} (ho : P o) (h : xs.foldlM f o = .ok o') :
    P o' ∧ view o' = hear (view o) (xs.filterMap word).getLast? := by
  induction xs generalizing o with
  | nil =>
      cases h
      exact ⟨ho, rfl⟩
  | cons x xs ih =>
      obtain ⟨hx, hrest⟩ := List.forall_mem_cons.mp hstep
      rw [List.foldlM_cons] at h
      cases hturn : f o x with
      | error fault =>
          rw [hturn] at h
          cases h
      | ok next =>
          rw [hturn] at h
          obtain ⟨hnext, hview⟩ := hx o next ho hturn
          obtain ⟨hlast, hlastView⟩ := ih hrest hnext h
          exact ⟨hlast, by rw [hlastView, hview, hear_hear, getLast?_filterMap_cons]⟩

/-- What each turn of a loop keeps holds after it. -/
theorem holds_foldlM {α : Type} {f : Object → α → Except Fault Object} {P : Object → Prop} {xs : List α}
    (hstep : ∀ x ∈ xs, ∀ o o', P o → f o x = .ok o' → P o') {o o' : Object} (ho : P o)
    (h : xs.foldlM f o = .ok o') : P o' :=
  (hear_foldlM (fun _ => none) (fun _ => none) (fun x hx o o' ho hf => ⟨hstep x hx o o' ho hf, rfl⟩) ho h).1

namespace Answers

variable (a : Answers)

/-- What a declaration says about a property. -/
def declared (scope : Scope) (property : Key) (d : Css.Declaration) : Option Value :=
  (a.declarations scope [d]).toOption.bind fun o => o.get? property

/-- What a block says about a property of the object that it is merged into. -/
def toldBeside (property : Key) (block : Css.Rule × Scope × List Key) : Option Value :=
  if block.2.2 = [] then (a.rule block.2.1 block.1).toOption.bind fun o => o.get? property else none

/-- What a block says about a property in the block of a condition. -/
def toldUnder (condition property : Key) (block : Css.Rule × Scope × List Key) : Option Value :=
  (a.rule block.2.1 block.1).toOption.bind (saidAt condition property block.2.2)

variable {a} (ha : a.Tidy)

include ha in
theorem run_convertDeclaration (scope : Scope) (d : Css.Declaration) (o : Object) (s : Session Unit) :
    ((convertDeclaration a.resolver scope o d).run s).1 = Work.result (convertDeclaration a.resolver scope o d) := by
  rcases uniform_convertDeclaration ha scope d with ⟨fault, h⟩ | ⟨g, -, h⟩
  · exact (h o s).trans (h o _).symm
  · exact (h o s).trans (h o _).symm

include ha in
theorem declarations_eq_foldlM (scope : Scope) (ds : List Css.Declaration) (o : Object) :
    Work.result (ds.foldlM (convertDeclaration a.resolver scope) o) =
      ds.foldlM (fun o d => Work.result (convertDeclaration a.resolver scope o d)) o :=
  run_foldlM_fst ds (fun d _ o s => run_convertDeclaration ha scope d o s) o _

include ha in
/-- A declaration leaves what it says, in addition to what was there. -/
theorem step_declaration {scope : Scope} {d : Css.Declaration} {o o' : Object}
    (h : Work.result (convertDeclaration a.resolver scope o d) = .ok o') :
    (Style.Tidy o → Style.Tidy o') ∧ (∀ property ∈ o.keys, property ∈ o'.keys) ∧
      ∀ property, o'.leaf? property = hear (o.leaf? property) (a.declared scope property d) := by
  rcases uniform_convertDeclaration ha scope d with ⟨fault, hd⟩ | ⟨g, hg, hd⟩
  · cases (hd o _).symm.trans h
  · cases (hd o _).symm.trans h
    refine ⟨hg.tidy o, hg.grows o, fun property => ?_⟩
    have halone : a.declarations scope [d] = .ok (g []) := by
      rw [declarations, declarations_eq_foldlM ha, List.foldlM_cons]
      rw [show Work.result (convertDeclaration a.resolver scope [] d) = _ from hd [] _]
      rfl
    rw [hg.leaf?, declared, halone]
    rfl

include ha in
theorem tidy_declarations {scope : Scope} {ds : List Css.Declaration} {o o' : Object} (ho : Style.Tidy o)
    (h : Work.result (ds.foldlM (convertDeclaration a.resolver scope) o) = .ok o') : Style.Tidy o' := by
  rw [declarations_eq_foldlM ha] at h
  exact holds_foldlM (fun _ _ _ _ ho hd => (step_declaration ha hd).1 ho) ho h

include ha in
/-- The object of a rule has no key twice. -/
theorem tidy_rule {rule : Css.Rule} {scope : Scope} {o : Object} (h : a.rule scope rule = .ok o) : Style.Tidy o := by
  induction rule using Css.Rule.induction generalizing scope o with
  | step rule ih =>
      rw [rule_eq] at h
      cases hstart : a.declarations scope rule.declarations with
      | error fault =>
          rw [hstart] at h
          cases h
      | ok start =>
          rw [hstart] at h
          refine holds_foldlM (fun block hblock o o' ho hadd => ?_) (tidy_declarations ha .nil hstart) h
          obtain ⟨child, inner, path⟩ := block
          cases hbody : a.rule inner child with
          | error fault =>
              rw [add, hbody] at hadd
              cases hadd
          | ok body =>
              rw [add, hbody] at hadd
              exact ho.mergeAt (ih child (a.mem_nested_of_mem_blocks hblock) hbody) hadd

theorem isBranch_of_mem_blocks {nested : List Css.Rule} {child : Css.Rule} {condition : String}
    (h : (child, { conditions := [condition] }, [.name condition]) ∈ a.blocks {} nested) :
    (Key.name condition).isBranch = true := by
  obtain ⟨rule, -, hblock⟩ := List.mem_flatMap.mp h
  unfold blocksFor at hblock
  split at hblock
  · cases hblock
  · obtain ⟨block, hmem, heq⟩ := List.mem_map.mp hblock
    cases heq
    unfold blocksOf at hmem
    split at hmem
    · next paths hpaths =>
        obtain ⟨path, hpath, heq⟩ := List.mem_map.mp hmem
        obtain ⟨henter, hkeys⟩ := Prod.mk.inj heq
        obtain ⟨key, rfl, hkey⟩ := List.map_eq_singleton_iff.mp hkeys
        cases hkey
        rcases key_of_nestedPaths? hpaths hpath condition List.mem_cons_self with helement | ⟨his, hdefault⟩
        · rw [Scope.enter, if_pos helement] at henter
          cases henter
        · rw [Key.isBranch, his, Bool.true_and, bne_iff_ne]
          exact fun h => hdefault (Key.name.inj h)
    · split at hmem
      · cases hmem
      · cases List.mem_singleton.mp hmem

include ha in
/-- A block leaves what it says in the block of a condition, in addition to what was there. -/
theorem step_block {property : Key} (hproperty : property.isProperty = true) (condition : Key)
    {block : Css.Rule × Scope × List Key} {o o' : Object} (ho : Style.Tidy o) (h : a.add o block = .ok o') :
    Style.Tidy o' ∧ o'.plain? [condition] property =
        hear (o.plain? [condition] property) (a.toldUnder condition property block) ∧
      (a.toldUnder condition property block = none → o.HasUnder condition property →
        o'.HasUnder condition property) := by
  obtain ⟨child, scope, path⟩ := block
  cases hbody : a.rule scope child with
  | error fault =>
      rw [add, hbody] at h
      cases h
  | ok body =>
      have htidy := tidy_rule ha hbody
      rw [add, hbody] at h
      rw [toldUnder, hbody]
      exact ⟨ho.mergeAt htidy h, plain?_mergeAt hproperty htidy h condition, hasUnder_mergeAt htidy h⟩

include ha in
/-- A block leaves what it says beside what was there. -/
theorem step_beside (property : Key) {block : Css.Rule × Scope × List Key} {o o' : Object}
    (ho : Style.Tidy o) (h : a.add o block = .ok o') :
    Style.Tidy o' ∧ (property ∈ o.keys → property ∈ o'.keys) ∧
      o'.leaf? property = hear (o.leaf? property) (a.toldBeside property block) := by
  obtain ⟨child, scope, path⟩ := block
  cases hbody : a.rule scope child with
  | error fault =>
      rw [add, hbody] at h
      cases h
  | ok body =>
      have htidy := tidy_rule ha hbody
      rw [add, hbody] at h
      refine ⟨ho.mergeAt htidy h, mem_keys_mergeAt h, ?_⟩
      rw [leaf?_mergeAt htidy.nodup h, toldBeside, hbody]
      rfl

end Answers

/-! ## A slot in the block of a condition -/

/-- A slot in block position, in the block of one condition directly below the root. -/
structure Spot (a : Answers) (root : Css.Rule) (condition : String) where
  child : Css.Rule
  /-- The blocks that are merged before that of the condition, and those after it. -/
  earlier : List (Css.Rule × Scope × List Key)
  later : List (Css.Rule × Scope × List Key)
  before : List Css.Declaration
  slot : Css.Declaration
  after : List Css.Declaration
  blocks_eq : a.blocks {} root.nested =
    earlier ++ (child, { conditions := [condition] }, [.name condition]) :: later
  declarations_eq : child.declarations = before ++ slot :: after
  isBlockSlot : slot.isBlockSlot = true

namespace Spot

variable {a : Answers} {root : Css.Rule} {condition : String} (spot : Spot a root condition)

/-- The request for the slot. -/
def request : SlotRequest :=
  wholeRequest { conditions := [condition] } "" spot.slot.value

/-- What is said about a property in the block of the condition, after the slot and before the block ends. -/
def inside (property : Key) : List Value :=
  spot.after.filterMap (a.declared { conditions := [condition] } property) ++
    (a.blocks { conditions := [condition] } spot.child.nested).filterMap (a.toldBeside property)

/-- What is said about a property under the condition after the slot. -/
def words (property : Key) : List Value :=
  spot.inside property ++ spot.later.filterMap (a.toldUnder (.name condition) property)

include spot in
theorem isBranch : (Key.name condition).isBranch = true :=
  Answers.isBranch_of_mem_blocks (spot.blocks_eq ▸ List.mem_append_right _ List.mem_cons_self)

variable {spot} {property : Key} {map styles raw body : Object} {value : Value} {other : Option String}

section

variable (ha : a.Tidy) (hslot : a.slot spot.request = .ok (.given value other styles))
  (hmap : styles.get? property = some (.obj map))

include hslot in
theorem result_slot (o : Object) :
    Work.result (convertDeclaration a.resolver { conditions := [condition] } o spot.slot) = .ok (o.merge styles) := by
  have hempty : spot.slot.property.isEmpty = true := (Bool.and_eq_true_iff.mp spot.isBlockSlot).1
  have hrun := (a.run_slot spot.request { store := () }).trans (congrArg (·, _) hslot)
  unfold convertDeclaration
  rw [if_pos hempty, if_pos spot.isBlockSlot]
  exact congrArg Prod.fst (Work.run_bind_ok _ hrun)

include ha hslot hmap in
/-- In the body of the block, a property for which the slot gives a map has what is said after the slot. -/
theorem leaf?_body (h : a.rule { conditions := [condition] } spot.child = .ok body) :
    property ∈ body.keys ∧ body.leaf? property = hear none (spot.inside property).getLast? := by
  rw [Answers.rule_eq, Answers.declarations, spot.declarations_eq, Answers.declarations_eq_foldlM ha] at h
  obtain ⟨own, hown, hblocks⟩ := exists_of_bind_eq_ok h
  obtain ⟨start, merged, hstart, hmerged, hafter⟩ := foldlM_ok_of_mem hown
  rw [result_slot hslot] at hmerged
  cases hmerged
  have hstyles := (ha _ _ _ _ hslot).1
  have htidy : Tidy start := by
    rw [← Answers.declarations_eq_foldlM ha] at hstart
    exact Answers.tidy_declarations ha .nil hstart
  have hwritten : property ∈ styles.keys := by
    rw [← Object.has_iff_mem_keys, Object.has, hmap]
    rfl
  have hget : (start.merge styles).get? property = some (mergeValue (start.get? property) (.obj map)) := by
    rw [Object.get?_merge hstyles.nodup, hmap]
  have hmem : property ∈ (start.merge styles).keys := (Object.mem_keys_merge ..).mpr (.inr hwritten)
  have hnone : (start.merge styles).leaf? property = none := by
    obtain ⟨inner, hinner⟩ := Value.eq_obj (isObject_mergeValue (start.get? property) (.obj map))
    exact Object.leaf?_of_obj (hget.trans (congrArg some hinner))
  obtain ⟨⟨hdeclared, hkeys⟩, hleaf⟩ := hear_foldlM (P := fun o => Tidy o ∧ property ∈ o.keys)
    (fun o => o.leaf? property) (a.declared { conditions := [condition] } property)
    (fun d _ o o' ho hd => by
      obtain ⟨h₁, h₂, h₃⟩ := Answers.step_declaration ha hd
      exact ⟨⟨h₁ ho.1, h₂ _ ho.2⟩, h₃ property⟩)
    ⟨htidy.merge hstyles, hmem⟩ hafter
  obtain ⟨⟨-, hkeys⟩, hbody⟩ := hear_foldlM (P := fun o => Tidy o ∧ property ∈ o.keys)
    (fun o => o.leaf? property) (a.toldBeside property)
    (fun block _ o o' ho hadd => by
      obtain ⟨h₁, h₂, h₃⟩ := Answers.step_beside ha property ho.1 hadd
      exact ⟨⟨h₁, h₂ ho.2⟩, h₃⟩)
    ⟨hdeclared, hkeys⟩ hblocks
  refine ⟨hkeys, ?_⟩
  rw [hbody, hleaf, hnone, hear_hear, inside, List.getLast?_append]

include ha hslot hmap in
/-- Under the condition, a property for which the slot gives a map has what is said after the slot. -/
theorem plain?_raw (hproperty : property.isProperty = true) (h : a.rule {} root = .ok raw) :
    Tidy raw ∧ raw.plain? [.name condition] property = hear none (spot.words property).getLast? ∧
      (spot.words property = [] → raw.HasUnder (.name condition) property) := by
  have htidy := Answers.tidy_rule ha h
  rw [Answers.rule_eq, spot.blocks_eq] at h
  obtain ⟨own, hown, hblocks⟩ := exists_of_bind_eq_ok h
  obtain ⟨first, second, hfirst, hsecond, hlater⟩ := foldlM_ok_of_mem hblocks
  have hfirstTidy : Tidy first :=
    holds_foldlM (fun _ _ _ _ ho hadd => (Answers.step_beside ha property ho hadd).1)
      (Answers.tidy_declarations ha .nil hown) hfirst
  obtain ⟨body, hbody, hmerge⟩ := exists_of_bind_eq_ok hsecond
  obtain ⟨hkeys, hleaf⟩ := leaf?_body ha hslot hmap hbody
  have hbodyTidy := Answers.tidy_rule ha hbody
  have hplain : second.plain? [.name condition] property = body.leaf? property ∧
      second.HasUnder (.name condition) property := by
    rcases mergeAt_cons_cases hmerge with ⟨inner, changed, -, hchanged, rfl⟩ | ⟨-, -, rfl, -⟩
    · refine ⟨?_, changed, Object.get?_set_self .., ?_⟩
      · obtain ⟨said, hsaid⟩ := Option.isSome_iff_exists.mp ((body.has_iff_mem_keys property).mpr hkeys)
        rw [Object.plain?_cons_obj (Object.get?_set_self ..), Object.plain?_nil,
          leaf?_mergeAt hbodyTidy.nodup hchanged, if_pos rfl, leaf?_eq_hear body, hsaid]
        rfl
      · cases hchanged
        exact (Object.mem_keys_merge body inner property).mpr (.inr hkeys)
    · cases hkeys
  obtain ⟨-, hraw⟩ := hear_foldlM (P := Tidy) (fun o => o.plain? [.name condition] property)
    (a.toldUnder (.name condition) property)
    (fun block _ o o' ho hadd => by
      obtain ⟨h₁, h₂, -⟩ := Answers.step_block ha hproperty (.name condition) ho hadd
      exact ⟨h₁, h₂⟩)
    (hfirstTidy.mergeAt hbodyTidy hmerge) hlater
  refine ⟨htidy, ?_, fun hwords => ?_⟩
  · rw [hraw, hplain.1, hleaf, hear_hear, words, List.getLast?_append]
  · have hsilent := List.filterMap_eq_nil_iff.mp (List.append_eq_nil_iff.mp hwords).2
    refine (holds_foldlM (P := fun o => Tidy o ∧ o.HasUnder (.name condition) property)
      (fun block hblock o o' ho hadd => ?_) ⟨hfirstTidy.mergeAt hbodyTidy hmerge, hplain.2⟩ hlater).2
    obtain ⟨htidy', -, hunder⟩ := Answers.step_block ha hproperty (.name condition) ho.1 hadd
    exact ⟨htidy', hunder (hsilent block hblock) ho.2⟩

/-- A property that has something but no plain value in the block of a condition is dropped from there. -/
theorem mem_dropped_of_hasUnder {o : Object} {condition property : Key} (hcondition : condition.isBranch = true)
    (hproperty : property.isProperty = true) (hhas : o.HasUnder condition property)
    (hnone : o.plain? [condition] property = none) :
    condition.text ++ " " ++ property.text ∈ (flatten o).2 := by
  obtain ⟨block, hblock, hmem⟩ := hhas
  have hmap : Object.isConditional block = false := by
    refine Bool.eq_false_iff.mpr fun hmap => ?_
    have hkey := ((Object.isConditional_iff block).mp hmap).1 property hmem
    exact Key.ne_of_isProperty hproperty (Key.not_isProperty_of_isCondition hkey) rfl
  obtain ⟨value, hvalue⟩ := Option.isSome_iff_exists.mp ((Object.has_iff_mem_keys block property).mpr hmem)
  rw [Object.plain?_cons_obj hblock, Object.plain?_nil] at hnone
  cases hobject : value.isObject with
  | false => cases hnone.symm.trans (Object.leaf?_of_get? hvalue hobject)
  | true =>
      obtain ⟨inner, rfl⟩ := Value.eq_obj hobject
      refine mem_dropped_of_mem (Lowering.mem_of_get? hblock) (fun result rest => ?_) []
      rw [flattenFrom_branch result hcondition hmap]
      exact List.mem_append_left _ (mem_dropped_foldBlock_of_mem (Lowering.mem_of_get? hvalue) result)

include ha hslot hmap in
/--
Under the condition, a property for which the slot gives a map has the plain value that is said last after the
slot.  If nothing is said after it, the map is dropped.
-/
theorem choice?_convert (hproperty : property.isProperty = true) (h : a.rule {} root = .ok raw)
    (hfree : ∀ inner, raw.get? property ≠ some (.obj inner)) :
    (flatten raw).1.choice? property (.name condition) = hear none (spot.words property).getLast? ∧
      (spot.words property = [] → condition ++ " " ++ property.text ∈ (flatten raw).2) := by
  obtain ⟨htidy, hplain, hhas⟩ := plain?_raw ha hslot hmap hproperty h
  refine ⟨?_, fun hwords => ?_⟩
  · rw [← hplain]
    exact choice?_flatten hproperty spot.isBranch htidy.nodup (htidy.inner _) hfree
  · refine mem_dropped_of_hasUnder spot.isBranch hproperty (hhas hwords) ?_
    rw [hplain, hwords]
    rfl

end

end Spot

end Restyle.Style
