import Restyle.Proofs.Raising

/-!
# What a merge gives

A merged object has the keys of the target, then the new ones of the source.  Under a key of the source both values
are merged in turn if they are objects and that of the source is no conditional map; otherwise the value of the
source is taken.  This determines the merged object at every depth, and merging the same source again finds
nothing to change, although a conditional map of the target may have become an ordinary object.
-/

namespace Restyle.Style

/-! ## Objects with distinct keys -/

/-- Induction over an object with distinct keys and the objects inside of it. -/
theorem Distinct.nestedInduction {motive : (o : Object) → Distinct o → Prop}
    (step : ∀ (o : Object) (ho : Distinct o),
      (∀ key inner (hget : o.get? key = some (.obj inner)), motive inner (ho.of_get? hget)) → motive o ho)
    {o : Object} (h : Distinct o) : motive o h := by
  refine step o h ?_
  induction h with
  | nil =>
      intro key inner hget
      cases hget
  | leaf hvalue _ _ ih =>
      intro key inner hget
      have htail := hget
      rw [Object.get?_cons] at htail
      split at htail
      · cases htail
        cases hvalue
      · exact ih key inner htail
  | nested hinner _ _ ihInner ih =>
      intro key inner hget
      have htail := hget
      rw [Object.get?_cons] at htail
      split at htail
      · cases htail
        exact step _ hinner ihInner
      · exact ih key inner htail

namespace Object

variable {target source : Object}

/-- Setting a key to the value it has changes nothing. -/
theorem set_of_get? {o : Object} {key : Key} {value : Value} (h : o.get? key = some value) :
    o.set key value = o := by
  induction o with
  | nil => cases h
  | cons entry o ih =>
      obtain ⟨k, v⟩ := entry
      rw [get?_cons] at h
      rw [set]
      split
      · next heq =>
          rw [if_pos heq] at h
          cases h
          rfl
      · next hne =>
          rw [if_neg hne] at h
          rw [ih h]

/-- Objects with the same distinct keys in the same order and the same values are the same. -/
theorem eq_of_get? {o p : Object} (hkeys : o.keys = p.keys) (hnodup : o.keys.Nodup)
    (hget : ∀ key, o.get? key = p.get? key) : o = p := by
  induction o generalizing p with
  | nil =>
      cases p with
      | nil => rfl
      | cons entry p => cases hkeys
  | cons entry o ih =>
      cases p with
      | nil => cases hkeys
      | cons entry' p =>
          obtain ⟨k, v⟩ := entry
          obtain ⟨k', v'⟩ := entry'
          obtain ⟨rfl, hrest⟩ := List.cons.inj hkeys
          obtain ⟨hfresh, hnodup⟩ := List.nodup_cons.mp hnodup
          have hvalue := hget k
          rw [get?_cons, get?_cons, if_pos rfl, if_pos rfl] at hvalue
          cases hvalue
          have htail : ∀ key, get? o key = get? p key := by
            intro key
            by_cases hk : k = key
            · subst hk
              have hfresh' : k ∉ keys p := by rwa [keys, ← hrest]
              rw [(get?_eq_none_iff o k).mpr hfresh, (get?_eq_none_iff p k).mpr hfresh']
            · have := hget key
              rwa [get?_cons, get?_cons, if_neg hk, if_neg hk] at this
          rw [ih hrest hnodup htail]

/-- A merge keeps the keys in front and appends those that are new. -/
theorem keys_merge_append (h : source.keys.Nodup) (target : Object) :
    (target.merge source).keys = target.keys ++ source.keys.filter fun key => decide (key ∉ target.keys) := by
  induction source generalizing target with
  | nil => exact (List.append_nil _).symm
  | cons entry source ih =>
      obtain ⟨k, v⟩ := entry
      obtain ⟨hfresh, hrest⟩ := List.nodup_cons.mp h
      rw [merge_cons, ih hrest, keys_set, show keys ((k, v) :: source) = k :: keys source from rfl]
      by_cases hk : k ∈ target.keys
      · rw [if_pos hk, List.filter_cons_of_neg (by simpa using hk)]
      · have hsame : (keys source).filter (fun key => decide (key ∉ target.keys ++ [k])) =
            (keys source).filter fun key => decide (key ∉ target.keys) := by
          refine List.filter_congr fun key hkey => decide_eq_decide.mpr ?_
          have hne : key ≠ k := by
            rintro rfl
            exact hfresh hkey
          rw [List.mem_append, List.mem_singleton, or_iff_left hne]
        rw [if_neg hk, List.filter_cons_of_pos (by simpa using hk), hsame, List.append_assoc]
        rfl

/-- A source that changes no value changes nothing. -/
theorem merge_eq_self (h : ∀ entry ∈ source, ∃ value,
    target.get? entry.1 = some value ∧ mergeValue (some value) entry.2 = value) :
    target.merge source = target := by
  induction source with
  | nil => exact merge_nil target
  | cons entry source ih =>
      obtain ⟨k, v⟩ := entry
      obtain ⟨⟨value, hget, hvalue⟩, hrest⟩ := List.forall_mem_cons.mp h
      rw [merge_cons, hget, hvalue, set_of_get? hget, ih hrest]

end Object

/-! ## The merged object -/

/-- Values that are merged in turn: both are objects, and the new one is no conditional map. -/
def Joins (old : Option Value) (value : Value) : Prop :=
  ∃ outer inner, old = some (.obj outer) ∧ value = .obj inner ∧ Object.isConditional inner = false

/--
What merging a source into a target is to give: the keys of the target and then the new ones of the source, the value
of the target for keys that only it has, the merge of both values for keys where these join, and the value of the
source for its other keys.
-/
inductive IsMerge : Object → Object → Object → Prop where
  | intro {target source merged : Object}
      (keys : merged.keys = target.keys ++ source.keys.filter fun key => decide (key ∉ target.keys))
      (kept : ∀ key, source.get? key = none → merged.get? key = target.get? key)
      (replaced : ∀ key value, source.get? key = some value → ¬ Joins (target.get? key) value →
        merged.get? key = some value)
      (nests : ∀ key outer inner, target.get? key = some (.obj outer) → source.get? key = some (.obj inner) →
        Object.isConditional inner = false → ∃ result, merged.get? key = some (.obj result))
      (joined : ∀ key outer inner result, target.get? key = some (.obj outer) →
        source.get? key = some (.obj inner) → Object.isConditional inner = false →
        merged.get? key = some (.obj result) → IsMerge outer inner result) :
      IsMerge target source merged

theorem mergeValue_joined {outer inner : Object} (h : inner.isConditional = false) :
    mergeValue (some (.obj outer)) (.obj inner) = .obj (outer.merge inner) := by
  simp [mergeValue, h]

theorem mergeValue_of_not_joins {old : Option Value} {value : Value} (h : ¬ Joins old value) :
    mergeValue old value = value := by
  cases hobject : value.isObject with
  | false => exact Raw.mergeValue_leaf old hobject
  | true =>
      obtain ⟨inner, rfl⟩ := Value.eq_obj hobject
      cases hmap : Object.isConditional inner with
      | true => exact Regular.mergeValue_table old hmap
      | false =>
          rw [mergeValue]
          rintro outer rfl
          exact h ⟨outer, inner, rfl, rfl, hmap⟩

namespace Distinct

variable {target source : Object}

theorem get?_merge (h : Distinct source) (target : Object) {key : Key} {value : Value}
    (hget : source.get? key = some value) :
    (target.merge source).get? key = some (mergeValue (target.get? key) value) := by
  rw [Object.get?_merge h.nodup, hget]

theorem get?_merge_none (h : Distinct source) (target : Object) {key : Key} (hget : source.get? key = none) :
    (target.merge source).get? key = target.get? key := by
  rw [Object.get?_merge h.nodup, hget]

/-- An object merged into itself stays as it is. -/
theorem merge_self {o : Object} (h : Distinct o) : o.merge o = o := by
  induction h using Distinct.nestedInduction with
  | step o ho ih =>
      refine Object.merge_eq_self fun ⟨key, value⟩ hmem => ?_
      have hget := Object.get?_of_mem ho.nodup hmem
      refine ⟨value, hget, ?_⟩
      by_cases hjoins : Joins (some value) value
      · obtain ⟨outer, inner, hold, rfl, hmap⟩ := hjoins
        rw [mergeValue_joined hmap, ih key inner hget]
      · exact mergeValue_of_not_joins hjoins

/-- Merging a source a second time changes nothing. -/
theorem merge_merge (h : Distinct source) (target : Object) :
    (target.merge source).merge source = target.merge source := by
  induction h using Distinct.nestedInduction generalizing target with
  | step source hsource ih =>
      refine Object.merge_eq_self fun ⟨key, value⟩ hmem => ?_
      have hget := Object.get?_of_mem hsource.nodup hmem
      refine ⟨_, hsource.get?_merge target hget, ?_⟩
      dsimp only
      by_cases hjoins : Joins (target.get? key) value
      · obtain ⟨outer, inner, hold, rfl, hmap⟩ := hjoins
        rw [hold, mergeValue_joined hmap, mergeValue_joined hmap, ih key inner hget]
      · -- the value of the source has been taken, and is merged into itself now
        rw [mergeValue_of_not_joins hjoins]
        by_cases hself : Joins (some value) value
        · obtain ⟨outer, inner, -, rfl, hmap⟩ := hself
          rw [mergeValue_joined hmap, (hsource.of_get? hget).merge_self]
        · exact mergeValue_of_not_joins hself

theorem isMerge_merge (h : Distinct source) (target : Object) : IsMerge target source (target.merge source) := by
  induction h using Distinct.nestedInduction generalizing target with
  | step source hsource ih =>
      have hjoined : ∀ key outer inner, target.get? key = some (.obj outer) → source.get? key = some (.obj inner) →
          Object.isConditional inner = false →
          (target.merge source).get? key = some (.obj (Object.merge outer inner)) := by
        intro key outer inner hold hget hmap
        rw [hsource.get?_merge target hget, hold, mergeValue_joined hmap]
      refine .intro (Object.keys_merge_append hsource.nodup target)
        (fun key hget => hsource.get?_merge_none target hget) (fun key value hget hjoins => ?_)
        (fun key outer inner hold hget hmap => ⟨_, hjoined key outer inner hold hget hmap⟩)
        fun key outer inner result hold hget hmap hresult => ?_
      · rw [hsource.get?_merge target hget, mergeValue_of_not_joins hjoins]
      · rw [hjoined key outer inner hold hget hmap] at hresult
        cases hresult
        exact ih key inner hget outer

end Distinct

/-- There is one object only that a merge is to give. -/
theorem IsMerge.eq_merge {target source merged : Object} (h : IsMerge target source merged)
    (htarget : Distinct target) (hsource : Distinct source) : merged = target.merge source := by
  induction h with
  | @intro target source merged keys kept replaced nests joined ih =>
      have hkeys : merged.keys = (target.merge source).keys := by
        rw [keys, Object.keys_merge_append hsource.nodup]
      refine Object.eq_of_get? hkeys (hkeys ▸ Object.nodup_keys_merge source htarget.nodup) fun key => ?_
      cases hget : source.get? key with
      | none => rw [kept key hget, hsource.get?_merge_none target hget]
      | some value =>
          rw [hsource.get?_merge target hget]
          by_cases hjoins : Joins (target.get? key) value
          · obtain ⟨outer, inner, hold, rfl, hmap⟩ := hjoins
            obtain ⟨result, hresult⟩ := nests key outer inner hold hget hmap
            rw [hresult, hold, mergeValue_joined hmap, ih key outer inner result hold hget hmap hresult
              (htarget.of_get? hold) (hsource.of_get? hget)]
          · rw [replaced key value hget hjoins, mergeValue_of_not_joins hjoins]

/--
For objects with distinct keys at every depth, merging gives the one object with the keys of the target and the new ones
of the source in their order, in which a key of the source has the merge of both values if these are objects and that
of the source is no conditional map, and the value of the source otherwise, at every depth; merging the source again
changes nothing.
-/
theorem merge_right_biased {target source : Object} (htarget : Distinct target) (hsource : Distinct source) :
    (∀ merged, IsMerge target source merged ↔ merged = target.merge source) ∧
      (target.merge source).merge source = target.merge source := by
  refine ⟨fun merged => ⟨fun h => h.eq_merge htarget hsource, ?_⟩, hsource.merge_merge target⟩
  rintro rfl
  exact hsource.isMerge_merge target

/-- A color with a value under the pointer, a margin, and a pseudo-element. -/
def pointedBox : Object :=
  [(.name "color", .obj [(.name "default", .text "red"), (.name ":hover", .text "blue")]),
    (.name "margin", .int 1),
    (.name "::before", .obj [(.name "content", .text "none")])]

/-- A focused color without `default`, an opacity, and a conditional map in the place of a pseudo-element. -/
def focusedBox : Object :=
  [(.name "opacity", .int 0),
    (.name "color", .obj [(.name ":focus", .text "green")]),
    (.name "::before", .obj [(.name "default", .text "red")])]

/-- The colors are merged, the conditional map is taken as it is, and the opacity is the new last key. -/
theorem merge_right_biased_focusedBox :
    Distinct pointedBox ∧ Distinct focusedBox ∧
      (∀ merged, IsMerge pointedBox focusedBox merged ↔ merged =
        [(.name "color", .obj [(.name "default", .text "red"), (.name ":hover", .text "blue"),
            (.name ":focus", .text "green")]),
          (.name "margin", .int 1),
          (.name "::before", .obj [(.name "default", .text "red")]),
          (.name "opacity", .int 0)]) ∧
      (pointedBox.merge focusedBox).merge focusedBox = pointedBox.merge focusedBox := by
  have hleaf : ∀ (name text : String), Distinct [(.name name, .text text)] :=
    fun name text => .leaf rfl List.not_mem_nil .nil
  have hpointed : Distinct pointedBox := by
    refine .nested (.leaf rfl (by decide) (hleaf _ _)) (by decide) (.leaf rfl (by decide) ?_)
    exact .nested (hleaf _ _) (by decide) .nil
  have hfocused : Distinct focusedBox := by
    refine .leaf rfl (by decide) (.nested (hleaf _ _) (by decide) ?_)
    exact .nested (hleaf _ _) (by decide) .nil
  obtain ⟨hmerge, hagain⟩ := merge_right_biased hpointed hfocused
  exact ⟨hpointed, hfocused, hmerge, hagain⟩

end Restyle.Style
