import Restyle.Proofs.Settling

/-!
# Renamed keys

Merging and folding look at a key in two ways only: they compare it with other keys, and they ask whether it
is a condition or the default.  A renaming that respects both carries every object that is merged or folded to
the one that the renamed objects give.  A raw selector may so be read as the key of a pseudo-element, and what
is known about objects with pseudo-elements holds for objects with raw selectors too.
-/

namespace Restyle.Style

/-- A change of keys that keeps different keys apart, and conditions as well as the default what they are. -/
structure Renaming where
  apply : Key → Key
  injective : Function.Injective apply
  isCondition : ∀ key, (apply key).isCondition = key.isCondition
  default : apply Key.default = Key.default

namespace Renaming

variable (φ : Renaming)

theorem eq_iff {key other : Key} : φ.apply key = φ.apply other ↔ key = other :=
  φ.injective.eq_iff

theorem eq_default_iff {key : Key} : φ.apply key = Key.default ↔ key = Key.default := by
  constructor
  · exact fun h => φ.eq_iff.mp (h.trans φ.default.symm)
  · rintro rfl
    exact φ.default

theorem isBranch (key : Key) : (φ.apply key).isBranch = key.isBranch := by
  have hdefault : (φ.apply key != Key.default) = (key != Key.default) := by
    rw [bne, bne, Bool.beq_eq_decide_eq, Bool.beq_eq_decide_eq, decide_eq_decide.mpr φ.eq_default_iff]
  rw [Key.isBranch, Key.isBranch, φ.isCondition, hdefault]

end Renaming

mutual

/-- A value with the keys of the objects in it renamed. -/
def Value.rename (φ : Renaming) : Value → Value
  | .obj entries => .obj (Object.rename φ entries)
  | value => value

/-- An object with its keys renamed, and those of the objects in it. -/
def Object.rename (φ : Renaming) : Object → Object
  | [] => []
  | (key, value) :: rest => (φ.apply key, value.rename φ) :: Object.rename φ rest

end

variable (φ : Renaming)

/-! ## Reading and setting -/

@[simp] theorem Value.rename_obj (o : Object) : (Value.obj o).rename φ = .obj (Object.rename φ o) := by
  rw [Value.rename]

@[simp] theorem Value.isObject_rename (value : Value) : (value.rename φ).isObject = value.isObject := by
  cases value <;> rfl

theorem Value.rename_of_leaf {value : Value} (h : value.isObject = false) : value.rename φ = value := by
  cases value with
  | obj o => cases h
  | _ => rfl

/-- A value that is no object comes from itself alone. -/
theorem Value.rename_eq_iff {value leaf : Value} (h : leaf.isObject = false) :
    value.rename φ = leaf ↔ value = leaf := by
  constructor
  · rintro rfl
    rw [Value.isObject_rename] at h
    exact (Value.rename_of_leaf φ h).symm
  · rintro rfl
    exact Value.rename_of_leaf φ h

namespace Object

@[simp] theorem rename_nil : rename φ [] = [] := rfl

@[simp] theorem rename_cons (key : Key) (value : Value) (o : Object) :
    rename φ ((key, value) :: o) = (φ.apply key, value.rename φ) :: rename φ o := rfl

theorem get?_rename (o : Object) (key : Key) :
    (o.rename φ).get? (φ.apply key) = (o.get? key).map (Value.rename φ) := by
  induction o with
  | nil => rfl
  | cons entry o ih =>
      obtain ⟨k, v⟩ := entry
      rw [rename_cons, get?_cons, get?_cons, ih]
      by_cases hk : k = key
      · rw [if_pos hk, if_pos (φ.eq_iff.mpr hk), Option.map_some]
      · rw [if_neg hk, if_neg fun h => hk (φ.eq_iff.mp h)]

theorem rename_set (o : Object) (key : Key) (value : Value) :
    (o.set key value).rename φ = (o.rename φ).set (φ.apply key) (value.rename φ) := by
  induction o with
  | nil => rfl
  | cons entry o ih =>
      obtain ⟨k, v⟩ := entry
      rw [rename_cons, set, set]
      by_cases hk : k = key
      · rw [if_pos hk, if_pos (φ.eq_iff.mpr hk), rename_cons]
      · rw [if_neg hk, if_neg fun h => hk (φ.eq_iff.mp h), rename_cons, ih]

theorem get?_default_rename (o : Object) :
    (o.rename φ).get? Key.default = (o.get? Key.default).map (Value.rename φ) := by
  rw [← get?_rename, φ.default]

theorem all_isCondition_rename (o : Object) :
    ((o.rename φ).all fun (key, _) => key.isCondition) = o.all fun (key, _) => key.isCondition := by
  induction o with
  | nil => rfl
  | cons entry o ih =>
      obtain ⟨key, value⟩ := entry
      rw [rename_cons, List.all_cons, List.all_cons, ih]
      exact congrArg (· && _) (φ.isCondition key)

@[simp] theorem isConditional_rename (o : Object) : (o.rename φ).isConditional = o.isConditional := by
  rw [isConditional, isConditional, all_isCondition_rename, has, has, get?_default_rename, Option.isSome_map]

@[simp] theorem isConditional_value_rename (value : Value) :
    (value.rename φ).isConditional = value.isConditional := by
  cases value with
  | obj o => exact isConditional_rename φ o
  | _ => rfl

end Object

/-! ## Merging -/

mutual

theorem rename_merge (target : Object) :
    ∀ source : Object, (target.merge source).rename φ = (target.rename φ).merge (source.rename φ)
  | [] => by rw [Object.rename_nil, Object.merge_nil, Object.merge_nil]
  | (key, value) :: source => by
      rw [Object.rename_cons, Object.merge_cons, Object.merge_cons, rename_merge _ source, Object.rename_set,
        rename_mergeValue _ value, Object.get?_rename]

theorem rename_mergeValue (old : Option Value) :
    ∀ value : Value, (mergeValue old value).rename φ =
      mergeValue (old.map (Value.rename φ)) (value.rename φ)
  | .obj source => by
      rcases old with _ | old
      · simp [mergeValue]
      · cases old with
        | obj target =>
            simp only [mergeValue, Option.map_some, Value.rename_obj, Object.isConditional_rename]
            split
            · rfl
            · rw [Value.rename_obj, rename_merge target source]
        | _ => simp [mergeValue, Value.rename]
  | .null | .bool _ | .int _ | .float _ | .text _ | .js _ | .block _ | .list _ => by
      simp [mergeValue, Value.rename]

end

theorem mergeIntoLeaf_rename (source : Object) : mergeIntoLeaf (source.rename φ) = mergeIntoLeaf source := by
  cases source with
  | nil => rfl
  | cons entry source =>
      obtain ⟨key, value⟩ := entry
      rw [Object.rename_cons, mergeIntoLeaf, mergeIntoLeaf, Value.isObject_rename]

/-- Merging at a path succeeds or fails after a renaming just as before. -/
theorem mergeAt_rename (target : Object) (path : List Key) (source : Object) :
    (target.rename φ).mergeAt (path.map φ.apply) (source.rename φ) =
      (target.mergeAt path source).map (Object.rename φ) := by
  induction path generalizing target with
  | nil =>
      rw [List.map_nil, Object.mergeAt, Object.mergeAt, ← rename_merge]
      rfl
  | cons key path ih =>
      have hinner : ∀ inner : Object,
          ((inner.rename φ).mergeAt (path.map φ.apply) (source.rename φ) >>= fun o =>
            pure ((target.rename φ).set (φ.apply key) (.obj o))) =
          (inner.mergeAt path source >>= fun o => pure (target.set key (.obj o))).map (Object.rename φ) := by
        intro inner
        rw [ih]
        cases inner.mergeAt path source with
        | error fault => rfl
        | ok o =>
            show Except.ok _ = Except.ok _
            rw [Object.rename_set, Value.rename_obj]
      rw [List.map_cons, Object.mergeAt, Object.mergeAt, Object.get?_rename]
      rcases target.get? key with _ | value
      · exact hinner []
      · cases value with
        | obj inner => exact hinner inner
        | _ =>
            simp only [Option.map_some, Value.rename, List.isEmpty_map, mergeIntoLeaf_rename]
            split
            · cases mergeIntoLeaf source <;> rfl
            · rfl

/-! ## Folding -/

theorem rename_default (value : Value) :
    Object.rename φ [(Key.default, value)] = [(Key.default, value.rename φ)] := by
  rw [Object.rename_cons, φ.default, Object.rename_nil]

theorem rename_setCondition (result : Object) (property condition : Key) (value : Value) :
    (setCondition result property condition value).rename φ =
      setCondition (result.rename φ) (φ.apply property) (φ.apply condition) (value.rename φ) := by
  unfold setCondition
  rw [Object.get?_rename]
  rcases result.get? property with _ | old
  · simp only [Option.map_none, Object.rename_set, rename_default, Value.rename]
  · cases old with
    | obj o =>
        simp only [Option.map_some, Value.rename_obj, Object.isConditional_rename]
        split
        · simp only [Object.rename_set, Value.rename_obj]
        · simp only [Object.rename_set, Value.rename_obj, rename_default]
    | _ => simp only [Option.map_some, Object.rename_set, rename_default, Value.rename]

theorem rename_foldBlock (condition : Key) (result entries : Object) :
    (foldBlock condition result entries).1.rename φ =
      (foldBlock (φ.apply condition) (result.rename φ) (entries.rename φ)).1 := by
  induction entries generalizing result with
  | nil => rfl
  | cons entry entries ih =>
      obtain ⟨property, value⟩ := entry
      cases hvalue : value.isObject with
      | true =>
          obtain ⟨inner, rfl⟩ := Value.eq_obj hvalue
          rw [Object.rename_cons, Value.rename_obj, foldBlock_block, foldBlock_block, ih]
      | false =>
          have hrenamed : (value.rename φ).isObject = false := by rw [Value.isObject_rename, hvalue]
          rw [Object.rename_cons, foldBlock_leaf _ _ _ hvalue, foldBlock_leaf _ _ _ hrenamed, ih,
            rename_setCondition]

theorem rename_setMap (result : Object) (key : Key) (map : Object) :
    (setMap result key map).rename φ = setMap (result.rename φ) (φ.apply key) (map.rename φ) := by
  unfold setMap
  rw [Object.rename_set, Object.get?_rename, Value.rename_obj]
  congr 2
  rcases result.get? key with _ | existing
  · rfl
  · simp only [Option.map_some, Object.isConditional_value_rename, Object.get?_default_rename]
    split
    · rfl
    · rcases Object.get? map Key.default with _ | value
      · rfl
      · cases value with
        | null =>
            simp only [Option.map_some, Value.rename, Object.rename_set, φ.default]
        | _ => rfl

theorem rename_setPlain (result : Object) (key : Key) (value : Value) :
    (setPlain result key value).rename φ =
      setPlain (result.rename φ) (φ.apply key) (value.rename φ) := by
  unfold setPlain
  rw [Object.get?_rename]
  rcases result.get? key with _ | old
  · exact Object.rename_set φ result key value
  · cases old with
    | obj o =>
        simp only [Option.map_some, Value.rename_obj, Object.isConditional_rename]
        split
        · simp only [Object.rename_set, Value.rename_obj, φ.default]
        · exact Object.rename_set φ result key value
    | _ => exact Object.rename_set φ result key value

theorem rename_setNested (result : Object) (key : Key) (nested : Object) :
    (setNested result key nested).rename φ =
      setNested (result.rename φ) (φ.apply key) (nested.rename φ) := by
  unfold setNested
  rw [Object.get?_rename]
  rcases result.get? key with _ | old
  · exact Object.rename_set φ result key _
  · cases old with
    | obj o => simp only [Option.map_some, Value.rename_obj, Object.rename_set, rename_merge]
    | _ => exact Object.rename_set φ result key _

/-- Folding the renamed object renames the folded one. -/
theorem rename_flattenFrom (result o : Object) :
    (flattenFrom result o).1.rename φ = (flattenFrom (result.rename φ) (o.rename φ)).1 := by
  match o with
  | [] => rw [Object.rename_nil, flattenFrom, flattenFrom]
  | (key, value) :: o =>
      cases hvalue : value.isObject with
      | false =>
          have hrenamed : (value.rename φ).isObject = false := by rw [Value.isObject_rename, hvalue]
          rw [Object.rename_cons, flattenFrom_leaf _ _ hvalue, flattenFrom_leaf _ _ hrenamed,
            rename_flattenFrom _ o, rename_setPlain]
      | true =>
          obtain ⟨inner, rfl⟩ := Value.eq_obj hvalue
          rw [Object.rename_cons, Value.rename_obj]
          rcases isConditionBlock_cases key inner with hblock | hmap | ⟨hmap, hkey⟩
          · obtain ⟨hkey, hinner⟩ := isBranch_of_isConditionBlock hblock
            rw [flattenFrom_branch _ hkey hinner,
              flattenFrom_branch _ ((φ.isBranch key).trans hkey)
                ((Object.isConditional_rename φ inner).trans hinner)]
            dsimp only
            rw [rename_flattenFrom _ o, rename_foldBlock]
          · rw [flattenFrom_map _ _ hmap, flattenFrom_map _ _ ((Object.isConditional_rename φ inner).trans hmap),
              rename_flattenFrom _ o, rename_setMap]
          · rw [flattenFrom_nested _ hkey hmap,
              flattenFrom_nested _ ((φ.isBranch key).trans hkey)
                ((Object.isConditional_rename φ inner).trans hmap)]
            have hinner : (flatten inner).1.rename φ = (flatten (Object.rename φ inner)).1 :=
              rename_flattenFrom [] inner
            dsimp only
            rw [rename_flattenFrom _ o, rename_setNested, hinner]
  termination_by sizeOf o

theorem rename_flatten (o : Object) : (flatten o).1.rename φ = (flatten (o.rename φ)).1 :=
  rename_flattenFrom φ [] o

/-! ## Values that are held -/

theorem choice?_rename (o : Object) (property condition : Key) :
    (o.rename φ).choice? (φ.apply property) (φ.apply condition) =
      (o.choice? property condition).map (Value.rename φ) := by
  rw [Object.choice?, Object.choice?, Object.get?_rename]
  rcases o.get? property with _ | old
  · rfl
  · cases old with
    | obj map =>
        simp only [Option.map_some, Value.rename_obj, choose, Object.isConditional_rename]
        split
        · exact Object.get?_rename φ map condition
        · rfl
    | _ =>
        simp only [Option.map_some, Value.rename, choose, φ.eq_default_iff]
        split <;> rfl

theorem held?_rename (o : Object) (path : List Key) (property condition : Key) :
    (o.rename φ).held? (path.map φ.apply) (φ.apply property) (φ.apply condition) =
      (o.held? path property condition).map (Value.rename φ) := by
  induction path generalizing o with
  | nil => exact choice?_rename φ o property condition
  | cons key path ih =>
      rw [List.map_cons, Object.held?, Object.held?, Object.get?_rename]
      rcases o.get? key with _ | old
      · rfl
      · cases old with
        | obj inner =>
            simp only [Option.map_some, Value.rename_obj, Object.isConditional_rename]
            split
            · rfl
            · exact ih inner
        | _ => rfl

/-! ## Blocks that are found -/

theorem within?_rename (o : Object) (path : List Key) :
    (o.rename φ).within? (path.map φ.apply) = (o.within? path).map (Object.rename φ) := by
  induction path generalizing o with
  | nil => rfl
  | cons key path ih =>
      rw [List.map_cons, Object.within?, Object.within?, Object.get?_rename]
      rcases o.get? key with _ | value
      · rfl
      · cases value with
        | obj inner => exact ih inner
        | _ => rfl

/-! ## Contributions up to renaming -/

namespace Contribution

variable (φ : Renaming)

/-- A contribution with its keys renamed. -/
def rename (c : Contribution) : Contribution :=
  ⟨c.path.map φ.apply, φ.apply c.property, c.value⟩

theorem last_rename (cs : List Contribution) (path : List Key) (property : Key) :
    last (cs.map (rename φ)) (path.map φ.apply) (φ.apply property) = last cs path property := by
  have hmatch : (fun c : Contribution => decide (c.path = path.map φ.apply ∧ c.property = φ.apply property)) ∘
      rename φ = fun c => decide (c.path = path ∧ c.property = property) := by
    funext c
    refine decide_eq_decide.mpr (and_congr ?_ φ.eq_iff)
    exact (List.map_injective_iff.mpr φ.injective).eq_iff
  rw [last, ← List.map_reverse, List.find?_map, hmatch, Option.map_map]
  rfl

theorem map_rename_inside (around : List Key) (cs : List Contribution) :
    (cs.map (inside around)).map (rename φ) =
      (cs.map (rename φ)).map (inside (around.map φ.apply)) := by
  rw [List.map_map, List.map_map]
  refine List.map_congr_left fun c _ => ?_
  simp [rename, inside]

/-- The last value for a property is that of a contribution. -/
theorem exists_of_last {cs : List Contribution} {path : List Key} {property : Key} {value : Value}
    (h : last cs path property = some value) :
    ∃ c ∈ cs, c.path = path ∧ c.property = property ∧ c.value = value := by
  obtain ⟨c, hfind, hvalue⟩ := Option.map_eq_some_iff.mp h
  have hmatch := List.find?_some hfind
  obtain ⟨hpath, hproperty⟩ := of_decide_eq_true hmatch
  exact ⟨c, List.mem_reverse.mp (List.mem_of_find?_eq_some hfind), hpath, hproperty, hvalue⟩

end Contribution

/-- An object that represents contributions and blocks when all keys are renamed. -/
def RepresentsAs (φ : Renaming) (o : Object) (cs : List Contribution) (blocks : List (List Key)) : Prop :=
  Represents (o.rename φ) (cs.map (Contribution.rename φ)) (blocks.map (List.map φ.apply))

namespace RepresentsAs

variable {φ : Renaming} {o body : Object} {cs ds : List Contribution} {blocks further : List (List Key)}

theorem nil : RepresentsAs φ [] [] [[]] :=
  represents_nil

theorem set_entries (h : RepresentsAs φ o cs blocks) {entries : List (Key × Value)}
    (hentries : ∀ entry ∈ entries, (φ.apply entry.1).isProperty = true ∧ entry.2.isObject = false) :
    RepresentsAs φ (entries.foldl (fun o entry => o.set entry.1 entry.2) o)
      (cs ++ entries.map fun entry => ⟨[], entry.1, entry.2⟩) blocks := by
  induction entries generalizing o cs with
  | nil => rwa [List.map_nil, List.append_nil]
  | cons entry entries ih =>
      obtain ⟨hentry, hrest⟩ := List.forall_mem_cons.mp hentries
      have hset : RepresentsAs φ (o.set entry.1 entry.2) (cs ++ [⟨[], entry.1, entry.2⟩]) blocks := by
        rw [RepresentsAs, Object.rename_set, Value.rename_of_leaf φ hentry.2, List.map_append]
        exact Represents.set_leaf h hentry.1 hentry.2
      have hall := ih hset hrest
      rwa [List.append_assoc] at hall

theorem exists_mergeAt (h : RepresentsAs φ o cs blocks) (hbody : RepresentsAs φ body ds further)
    {path : List Key} (hpath : ∀ key ∈ path, (φ.apply key).opensBlock = true) (hfurther : [] ∈ further) :
    ∃ o', o.mergeAt path body = .ok o' ∧
      RepresentsAs φ o' (cs ++ ds.map (Contribution.inside path)) (blocks ++ further.map (path ++ ·)) := by
  obtain ⟨merged, hmerged, hrepresents⟩ :=
    Represents.exists_mergeAt h hbody (List.forall_mem_map.mpr hpath) (List.mem_map_of_mem hfurther)
  rw [mergeAt_rename] at hmerged
  cases hmerge : o.mergeAt path body with
  | error fault =>
      rw [hmerge] at hmerged
      cases hmerged
  | ok o' =>
      rw [hmerge] at hmerged
      cases hmerged
      refine ⟨o', rfl, ?_⟩
      have hblocks : (further.map (path ++ ·)).map (List.map φ.apply) =
          (further.map (List.map φ.apply)).map (path.map φ.apply ++ ·) := by
        rw [List.map_map, List.map_map]
        exact List.map_congr_left fun block _ => List.map_append
      rw [RepresentsAs, List.map_append, List.map_append, Contribution.map_rename_inside, hblocks]
      exact hrepresents

end RepresentsAs

/-! ## Blocks read as pseudo-elements -/

/-- A key with those of some blocks made keys of pseudo-elements, apart from the pseudo-elements there are. -/
def Key.elevated (opened : Key → Bool) : Key → Key
  | .name s =>
    if (Key.name s).isPseudoElement then .name ("::+" ++ s)
    else if (Key.name s).isProperty && opened (.name s) then .name ("::-" ++ s)
    else .name s
  | .computed code => .computed code

/-- What becomes of a key. -/
inductive Key.Elevates (opened : Key → Bool) : Key → Key → Prop where
  | element {s : String} : (Key.name s).isPseudoElement = true →
      Elevates opened (.name s) (.name ("::+" ++ s))
  | block {s : String} : (Key.name s).isProperty = true → opened (.name s) = true →
      Elevates opened (.name s) (.name ("::-" ++ s))
  | kept {key : Key} : key.isPseudoElement = false → (key.isProperty = true → opened key = false) →
      Elevates opened key key

namespace Key

variable (opened : Key → Bool)

theorem elevates (key : Key) : Elevates opened key (elevated opened key) := by
  cases key with
  | computed code => exact .kept rfl nofun
  | name s =>
      rw [elevated]
      split
      · next helement => exact .element helement
      · next helement =>
          split
          · next hblock => exact .block (Bool.and_eq_true_iff.mp hblock).1 (Bool.and_eq_true_iff.mp hblock).2
          · next hblock =>
              refine .kept (Bool.eq_false_iff.mpr helement) fun hproperty => ?_
              rwa [hproperty, Bool.true_and, Bool.not_eq_true] at hblock

theorem isPseudoElement_append (lead s : String) : isPseudoElement (.name ("::" ++ lead ++ s)) = true := by
  rw [isPseudoElement, Text.hasLead, Text.startsWith, String.append_assoc, String.toList_append,
    Text.after?_append]
  rfl

variable {opened}

theorem Elevates.injective {a b key : Key} (ha : Elevates opened a key) (hb : Elevates opened b key) :
    a = b := by
  have hlists : ∀ {s t u v : String}, Key.name (s ++ t) = Key.name (u ++ v) →
      s.toList ++ t.toList = u.toList ++ v.toList := by
    intro s t u v h
    have h := congrArg String.toList (Key.name.inj h)
    rwa [String.toList_append, String.toList_append] at h
  generalize hkey : key = other at hb
  cases ha with
  | @element s hs =>
      cases hb with
      | @element t ht => exact congrArg Key.name (String.toList_inj.mp (by simpa using hlists hkey))
      | block => exact absurd (hlists hkey) (by simp)
      | kept ht => cases (hkey ▸ isPseudoElement_append "+" s).symm.trans ht
  | @block s hs =>
      cases hb with
      | element => exact absurd (hlists hkey) (by simp)
      | @block t ht => exact congrArg Key.name (String.toList_inj.mp (by simpa using hlists hkey))
      | kept ht => cases (hkey ▸ isPseudoElement_append "-" s).symm.trans ht
  | kept hs =>
      cases hb with
      | @element t ht => cases (hkey ▸ hs).symm.trans (isPseudoElement_append "+" t)
      | @block t ht => cases (hkey ▸ hs).symm.trans (isPseudoElement_append "-" t)
      | kept ht => exact hkey

theorem Elevates.isCondition {key other : Key} (h : Elevates opened key other) :
    other.isCondition = key.isCondition := by
  cases h with
  | element helement =>
      exact (not_isCondition_of_isPseudoElement (isPseudoElement_append "+" _)).trans
        (not_isCondition_of_isPseudoElement helement).symm
  | block hproperty =>
      refine (not_isCondition_of_isPseudoElement (isPseudoElement_append "-" _)).trans ?_
      cases hcondition : Key.isCondition _ with
      | false => rfl
      | true => cases (not_isProperty_of_isCondition hcondition).symm.trans hproperty
  | kept => rfl

end Key

/-- The renaming that reads blocks under the keys of properties as pseudo-elements. -/
def Renaming.elements (opened : Key → Bool) : Renaming where
  apply := Key.elevated opened
  injective a b h := (Key.elevates opened a).injective (h ▸ Key.elevates opened b)
  isCondition key := (Key.elevates opened key).isCondition
  default := rfl

namespace Renaming

variable {opened : Key → Bool} {key : Key}

theorem elements_of_isProperty (hproperty : key.isProperty = true) (hopened : opened key = false) :
    (elements opened).apply key = key := by
  have helevates := Key.elevates opened key
  show Key.elevated opened key = key
  generalize Key.elevated opened key = renamed at helevates
  cases helevates with
  | element helement => cases (Key.not_isProperty_of_isPseudoElement helement).symm.trans hproperty
  | block _ hblock => cases hopened.symm.trans hblock
  | kept => rfl

theorem opensBlock_elements (hdefault : key ≠ Key.default) (hopened : opened key = true) :
    ((elements opened).apply key).opensBlock = true := by
  have helevates := Key.elevates opened key
  show (Key.elevated opened key).opensBlock = true
  generalize Key.elevated opened key = renamed at helevates
  cases helevates with
  | element => exact Bool.or_eq_true_iff.mpr (.inl (Key.isPseudoElement_append "+" _))
  | block => exact Bool.or_eq_true_iff.mpr (.inl (Key.isPseudoElement_append "-" _))
  | kept helement hblock =>
      rcases key.kind with hproperty | hother | hcondition
      · cases (hblock hproperty).symm.trans hopened
      · cases helement.symm.trans hother
      · refine Bool.or_eq_true_iff.mpr (.inr ?_)
        exact Bool.and_eq_true_iff.mpr ⟨hcondition, bne_iff_ne.mpr hdefault⟩

end Renaming

end Restyle.Style
