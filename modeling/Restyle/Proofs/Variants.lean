import Restyle.Proofs.Additions
import Restyle.Proofs.Cascade
import Restyle.Proofs.Scoping

/-!
# What variants keep of their branches

Several slots may add branches of the same name.  They end up in one variant, merged into it in the order in
which they come, and there the conditional map of a property counts as one value: a later branch that names
the property puts its own value or its own map in the place of what the variant had.  So of all branches that
name a property the last one decides, and a value of an earlier one is lost unless a later one sets the same
property under the same condition again.
-/

namespace Restyle.Style

/-! ## Merging regular objects -/

namespace Object

theorem mem_keys_merge (source target : Object) (key : Key) :
    key ∈ (target.merge source).keys ↔ key ∈ target.keys ∨ key ∈ source.keys := by
  induction source generalizing target with
  | nil => simp [keys]
  | cons entry source ih =>
      obtain ⟨k, v⟩ := entry
      have hset : key ∈ (target.set k (mergeValue (target.get? k) v)).keys ↔ key ∈ target.keys ∨ key = k := by
        rw [keys_set]
        split
        · next hk => exact ⟨.inl, fun h => h.elim id fun heq => heq ▸ hk⟩
        · simp
      rw [merge_cons, ih, hset, show keys ((k, v) :: source) = k :: keys source from rfl, List.mem_cons,
        or_assoc]

/-- Merging objects that are no conditional maps makes none. -/
theorem isConditional_merge {target source : Object} (htarget : target.isConditional = false)
    (hsource : source.isConditional = false) : (target.merge source).isConditional = false := by
  refine Bool.eq_false_iff.mpr fun hmerge => ?_
  obtain ⟨hconditions, hdefault⟩ := (isConditional_iff _).mp hmerge
  rcases (mem_keys_merge source target _).mp hdefault with hdefault | hdefault
  · refine Bool.eq_false_iff.mp htarget ((isConditional_iff _).mpr ⟨fun key hkey => ?_, hdefault⟩)
    exact hconditions key ((mem_keys_merge source target key).mpr (.inl hkey))
  · refine Bool.eq_false_iff.mp hsource ((isConditional_iff _).mpr ⟨fun key hkey => ?_, hdefault⟩)
    exact hconditions key ((mem_keys_merge source target key).mpr (.inr hkey))

theorem held?_cons_obj {o inner : Object} {key : Key} (h : o.get? key = some (.obj inner)) (path : List Key)
    (property condition : Key) :
    o.held? (key :: path) property condition =
      if inner.isConditional then none else inner.held? path property condition := by
  rw [held?, h]

theorem held?_cons_none {o : Object} {key : Key} (h : ∀ inner, o.get? key ≠ some (.obj inner))
    (path : List Key) (property condition : Key) : o.held? (key :: path) property condition = none := by
  rw [held?]
  split
  · next inner hget => exact absurd hget (h inner)
  · rfl

/-- Whether an object has something of its own for a property inside of the objects along a path. -/
def covers (o : Object) : List Key → Key → Bool
  | [], property => o.has property
  | key :: path, property =>
    match o.get? key with
    | some (.obj inner) => isConditional inner || covers inner path property
    | some _ => true
    | none => false

theorem covers_of_held? {o : Object} {path : List Key} {property condition : Key} {value : Value}
    (h : o.held? path property condition = some value) : o.covers path property = true := by
  induction path generalizing o with
  | nil =>
      rw [held?, choice?] at h
      rw [covers, has]
      cases hget : o.get? property with
      | none =>
          rw [hget] at h
          cases h
      | some v => rfl
  | cons key path ih =>
      rw [held?] at h
      rw [covers]
      split at h
      · next inner hget =>
          split at h
          · cases h
          · simp only [hget, ih h, Bool.or_true]
      · cases h

theorem has_topKey_of_covers {o : Object} {path : List Key} {property : Key}
    (h : o.covers path property = true) : o.has (topKey path property) = true := by
  cases path with
  | nil => exact h
  | cons key path =>
      rw [covers] at h
      show o.has key = true
      rw [has]
      cases hget : o.get? key with
      | none =>
          rw [hget] at h
          cases h
      | some value => rfl

end Object

/--
An object with distinct keys whose values are plain, conditional maps of properties, or again such objects;
the keys with nested objects are not those with conditional maps.
-/
inductive Regular (nests : Key → Bool) : Object → Prop where
  | nil : Regular nests []
  | plain {key : Key} {value : Value} {o : Object} :
      value.isObject = false → key ∉ o.keys → Regular nests o → Regular nests ((key, value) :: o)
  | table {key : Key} {map o : Object} :
      nests key = false → map.isConditional = true → key ∉ o.keys → Regular nests o →
      Regular nests ((key, .obj map) :: o)
  | nested {key : Key} {inner o : Object} :
      nests key = true → inner.isConditional = false → Regular nests inner → key ∉ o.keys →
      Regular nests o → Regular nests ((key, .obj inner) :: o)

namespace Regular

variable {nests : Key → Bool} {o target source : Object}

theorem nodup (h : Regular nests o) : o.keys.Nodup := by
  induction h with
  | nil => exact List.nodup_nil
  | plain _ hfresh _ ih => exact List.nodup_cons.mpr ⟨hfresh, ih⟩
  | table _ _ hfresh _ ih => exact List.nodup_cons.mpr ⟨hfresh, ih⟩
  | nested _ _ _ hfresh _ _ ih => exact List.nodup_cons.mpr ⟨hfresh, ih⟩

/-- An object at a key is the conditional map of a property, or it is regular. -/
theorem of_get? (h : Regular nests o) {key : Key} {inner : Object} (hget : o.get? key = some (.obj inner)) :
    nests key = false ∧ Object.isConditional inner = true ∨
      nests key = true ∧ Object.isConditional inner = false ∧ Regular nests inner := by
  induction h with
  | nil => cases hget
  | plain hvalue _ _ ih =>
      rw [Object.get?_cons] at hget
      split at hget
      · cases hget
        cases hvalue
      · exact ih hget
  | table hkey hmap _ _ ih =>
      rw [Object.get?_cons] at hget
      split at hget
      · next heq =>
          cases hget
          exact .inl ⟨heq ▸ hkey, hmap⟩
      · exact ih hget
  | nested hkey hinner hregular _ _ _ ih =>
      rw [Object.get?_cons] at hget
      split at hget
      · next heq =>
          cases hget
          exact .inr ⟨heq ▸ hkey, hinner, hregular⟩
      · exact ih hget

theorem set (h : Regular nests o) {key : Key} {value : Value}
    (hvalue : ∀ inner, value = .obj inner → nests key = false ∧ Object.isConditional inner = true ∨
      nests key = true ∧ Object.isConditional inner = false ∧ Regular nests inner) :
    Regular nests (o.set key value) := by
  have hcons : ∀ {rest : Object}, key ∉ rest.keys → Regular nests rest →
      Regular nests ((key, value) :: rest) := by
    intro rest hfresh hrest
    cases value with
    | obj inner =>
        rcases hvalue inner rfl with ⟨hkey, hmap⟩ | ⟨hkey, hplain, hinner⟩
        · exact .table hkey hmap hfresh hrest
        · exact .nested hkey hplain hinner hfresh hrest
    | _ => exact .plain rfl hfresh hrest
  have hrest : ∀ {k : Key} {rest : Object}, k ≠ key → k ∉ rest.keys → k ∉ (rest.set key value).keys := by
    intro k rest hne hfresh hmem
    rw [Object.keys_set] at hmem
    split at hmem
    · exact hfresh hmem
    · rcases List.mem_append.mp hmem with hmem | hmem
      · exact hfresh hmem
      · exact hne (List.mem_singleton.mp hmem)
  induction h with
  | nil => exact hcons (List.not_mem_nil) .nil
  | @plain k _ _ hplain hfresh hregular ih =>
      rw [Object.set]
      split
      · next heq =>
          subst heq
          exact hcons hfresh hregular
      · next hne => exact .plain hplain (hrest hne hfresh) ih
  | @table k _ _ hkey hmap hfresh hregular ih =>
      rw [Object.set]
      split
      · next heq =>
          subst heq
          exact hcons hfresh hregular
      · next hne => exact .table hkey hmap (hrest hne hfresh) ih
  | @nested k _ _ hkey hplain hinner hfresh hregular _ ih =>
      rw [Object.set]
      split
      · next heq =>
          subst heq
          exact hcons hfresh hregular
      · next hne => exact .nested hkey hplain hinner (hrest hne hfresh) ih

/-- The conditional map of a property takes the place of what was there. -/
theorem mergeValue_table (old : Option Value) {map : Object} (hmap : map.isConditional = true) :
    mergeValue old (.obj map) = .obj map := by
  unfold mergeValue
  split
  · exact if_pos hmap
  · rfl

/-- A nested object is merged into the one that is at its key, or put there. -/
theorem mergeValue_nested (htarget : Regular nests target) {key : Key} (hkey : nests key = true)
    {inner : Object} (hinner : inner.isConditional = false) :
    (∃ base : Object, target.get? key = some (.obj base) ∧ base.isConditional = false ∧
        Regular nests base ∧ mergeValue (target.get? key) (.obj inner) = .obj (base.merge inner)) ∨
      (∀ base, target.get? key ≠ some (.obj base)) ∧
        mergeValue (target.get? key) (.obj inner) = .obj inner := by
  by_cases hbase : ∃ base, target.get? key = some (.obj base)
  · obtain ⟨base, hbase⟩ := hbase
    rcases htarget.of_get? hbase with ⟨hother, -⟩ | ⟨-, hplain, hregular⟩
    · cases hkey.symm.trans hother
    · refine .inl ⟨base, hbase, hplain, hregular, ?_⟩
      rw [hbase, mergeValue]
      exact if_neg (Bool.eq_false_iff.mp hinner)
  · refine .inr ⟨not_exists.mp hbase, ?_⟩
    unfold mergeValue
    split
    · next base hget => exact absurd ⟨base, hget⟩ hbase
    · rfl

theorem merge (htarget : Regular nests target) (hsource : Regular nests source) :
    Regular nests (target.merge source) := by
  induction hsource generalizing target with
  | nil => rwa [Object.merge_nil]
  | @plain key value _ hvalue _ _ ih =>
      rw [Object.merge_cons]
      refine ih (htarget.set fun inner heq => ?_)
      cases value with
      | obj _ => cases hvalue
      | _ => cases heq
  | @table key map _ hkey hmap _ _ ih =>
      rw [Object.merge_cons]
      refine ih (htarget.set fun inner heq => ?_)
      cases (mergeValue_table _ hmap).symm.trans heq
      exact .inl ⟨hkey, hmap⟩
  | @nested key inner _ hkey hinner hregular _ _ ihinner ih =>
      rw [Object.merge_cons]
      refine ih (htarget.set fun changed heq => .inr ⟨hkey, ?_⟩)
      rcases htarget.mergeValue_nested hkey hinner with ⟨base, -, hplain, hbase, hvalue⟩ | ⟨-, hvalue⟩
      · cases hvalue.symm.trans heq
        exact ⟨Object.isConditional_merge hplain hinner, ihinner hbase⟩
      · cases hvalue.symm.trans heq
        exact ⟨hinner, hregular⟩

/-- What a regular object holds after a merge: what the source has there, if it has something at all. -/
theorem held?_merge (htarget : Regular nests target) (hsource : Regular nests source) (path : List Key)
    (property condition : Key) :
    (target.merge source).held? path property condition =
      if source.covers path property then source.held? path property condition
      else target.held? path property condition := by
  induction path generalizing target source with
  | nil =>
      rw [Object.held?, Object.held?, Object.held?, Object.choice?, Object.choice?, Object.choice?,
        Object.covers, Object.has, Object.get?_merge hsource.nodup]
      cases hget : source.get? property with
      | none => rfl
      | some value =>
          show choose (some (mergeValue (target.get? property) value)) condition = choose (some value) condition
          cases value with
          | obj inner =>
              rcases hsource.of_get? hget with ⟨-, hmap⟩ | ⟨hkey, hinner, -⟩
              · rw [mergeValue_table _ hmap]
              · rcases htarget.mergeValue_nested hkey hinner with ⟨base, -, hplain, -, hvalue⟩ | ⟨-, hvalue⟩
                · have hmerged : Object.isConditional (base.merge inner) = false :=
                    Object.isConditional_merge hplain hinner
                  rw [hvalue, choose, choose, hmerged, hinner]
                  rfl
                · rw [hvalue]
          | _ =>
              rw [mergeValue]
              intro _ h
              cases h
  | cons key path ih =>
      cases hget : source.get? key with
      | none =>
          have hmerged : (target.merge source).get? key = target.get? key := by
            rw [Object.get?_merge hsource.nodup, hget]
          have hcovers : source.covers (key :: path) property = false := by rw [Object.covers, hget]
          rw [hcovers, if_neg Bool.false_ne_true]
          exact Object.held?_congr hmerged condition
      | some value =>
          have hmerged : (target.merge source).get? key = some (mergeValue (target.get? key) value) := by
            rw [Object.get?_merge hsource.nodup, hget]
          cases value with
          | obj inner =>
              have hcovers : source.covers (key :: path) property =
                  (Object.isConditional inner || Object.covers inner path property) := by
                rw [Object.covers, hget]
              rw [hcovers, Object.held?_cons_obj hget]
              rcases hsource.of_get? hget with ⟨-, hmap⟩ | ⟨hkey, hinner, hregular⟩
              · rw [mergeValue_table _ hmap] at hmerged
                rw [Object.held?_cons_obj hmerged, hmap, Bool.true_or, if_pos rfl, if_pos rfl]
              rw [hinner, Bool.false_or, if_neg Bool.false_ne_true]
              rcases htarget.mergeValue_nested hkey hinner with
                ⟨base, hbase, hplain, hbaseRegular, hvalue⟩ | ⟨hnone, hvalue⟩
              · rw [hvalue] at hmerged
                rw [Object.held?_cons_obj hmerged, Object.held?_cons_obj hbase,
                  Object.isConditional_merge hplain hinner, hplain]
                exact ih hbaseRegular hregular
              · rw [hvalue] at hmerged
                rw [Object.held?_cons_obj hmerged, Object.held?_cons_none hnone, hinner,
                  if_neg Bool.false_ne_true]
                cases hheld : Object.held? inner path property condition with
                | none => rw [ite_self]
                | some v => rw [if_pos (Object.covers_of_held? hheld)]
          | _ =>
              have hcovers : source.covers (key :: path) property = true := by rw [Object.covers, hget]
              rw [hcovers, if_pos rfl]
              refine Object.held?_congr ?_ condition
              exact hmerged.trans hget.symm

/-- An object without nested objects is regular if its keys are distinct. -/
theorem of_flat (hkeys : o.keys.Nodup)
    (hflat : ∀ entry ∈ o, entry.2.isObject = true → entry.2.isConditional = true) :
    Regular (fun _ => false) o := by
  induction o with
  | nil => exact .nil
  | cons entry o ih =>
      obtain ⟨key, value⟩ := entry
      obtain ⟨hfresh, hrest⟩ := List.nodup_cons.mp hkeys
      obtain ⟨hvalue, hothers⟩ := List.forall_mem_cons.mp hflat
      cases value with
      | obj map => exact .table rfl (hvalue rfl) hfresh (ih hrest hothers)
      | _ => exact .plain rfl hfresh (ih hrest hothers)

end Regular

/-! ## The styles of branches -/

theorem nodup_keys_foldBlock {condition : Key} {entries result : Object} (h : result.keys.Nodup) :
    (foldBlock condition result entries).1.keys.Nodup := by
  fun_induction foldBlock condition result entries with
  | case1 result => exact h
  | case2 result property inner rest folded dropped heq ih =>
      rw [heq] at ih
      exact ih h
  | case3 result property value rest _ ih =>
      refine ih ?_
      unfold setCondition
      split
      · split <;> exact Object.nodup_keys_set h _ _
      · exact Object.nodup_keys_set h _ _
      · exact Object.nodup_keys_set h _ _

/-- Folding makes objects with distinct keys. -/
theorem nodup_keys_flattenFrom {o result : Object} (h : result.keys.Nodup) :
    (flattenFrom result o).1.keys.Nodup := by
  induction o generalizing result with
  | nil => rwa [flattenFrom]
  | cons entry o ih =>
      obtain ⟨key, value⟩ := entry
      cases value with
      | obj entries =>
          rw [flattenFrom]
          split
          · exact ih (nodup_keys_foldBlock h)
          · split
            · exact ih (Object.nodup_keys_set h _ _)
            · refine ih ?_
              unfold setNested
              split <;> exact Object.nodup_keys_set h _ _
      | _ =>
          rw [flattenFrom]
          · refine ih ?_
            unfold setPlain
            split
            · split <;> exact Object.nodup_keys_set h _ _
            · exact Object.nodup_keys_set h _ _
          · intro _ h
            cases h

end Restyle.Style

namespace Restyle.Interpolation

open Restyle.Style (IsConditionKey Key Object Regular Value)

/-- The styles of a block have distinct keys and no nested objects. -/
theorem regular_blockStyles {css : String} {styles : Object} (h : blockStyles css = .ok (.ok styles)) :
    Regular (fun _ => false) styles := by
  unfold blockStyles at h
  split at h
  · cases h
  split at h
  · cases h
  next rule _ _ =>
  dsimp only at h
  cases hrun : (Style.convert Style.Resolver.none rule).run { store := () } with
  | mk result session =>
      rw [hrun] at h
      cases result with
      | error f => cases h
      | ok converted =>
          dsimp only at h
          split at h
          · cases h
          split at h
          · cases h
          split at h
          · cases h
          next hflat =>
          cases h
          obtain ⟨raw, s, -, hfold⟩ := Work.run_bind_eq_ok hrun
          obtain ⟨-, s', -, hpure⟩ := Work.run_bind_eq_ok hfold
          cases hpure
          refine .of_flat (Style.nodup_keys_flattenFrom List.nodup_nil) fun entry hentry hobject => ?_
          by_contra hnested
          exact hflat (List.any_eq_true.mpr ⟨entry, hentry, by simp [hobject, hnested]⟩)

theorem regular_underCondition {condition : String} (hcondition : IsConditionKey condition)
    {styles out : Object} (hstyles : styles.keys.Nodup) (h : styles.mapM (fun (prop, value) =>
      if value.isObject then none
      else some (prop, Value.obj (Object.set [(Key.default, .null)] (.name condition) value))) = some out) :
    out.keys = styles.keys ∧ Regular (fun _ => false) out := by
  induction styles generalizing out with
  | nil =>
      cases h
      exact ⟨rfl, .nil⟩
  | cons entry styles ih =>
      obtain ⟨prop, value⟩ := entry
      obtain ⟨hfresh, hrest⟩ := List.nodup_cons.mp hstyles
      simp only [List.mapM_cons, Option.bind_eq_bind, Option.bind_eq_some_iff, Option.pure_def] at h
      obtain ⟨first, hfirst, others, hothers, h⟩ := h
      cases h
      obtain ⟨hkeys, hregular⟩ := ih hrest hothers
      split at hfirst
      · cases hfirst
      · cases hfirst
        refine ⟨congrArg (prop :: ·) hkeys, .table rfl ?_ (hkeys ▸ hfresh) hregular⟩
        exact Object.isConditional_set rfl hcondition.1 value

/-- Styles without nested objects have none in a scope of conditions either. -/
theorem regular_scopeStyles? {styles out : Object} {place : Place} (helement : place.inElement = false)
    (hconditions : ∀ key ∈ place.request.scope.conditions, IsConditionKey key)
    (hstyles : Regular (fun _ => false) styles) (h : scopeStyles? styles place = some out) :
    Regular (fun _ => false) out := by
  rw [scopeStyles?_of_inElement helement] at h
  cases hscope : place.request.scope.conditions with
  | nil =>
      rw [hscope] at h
      cases h
      exact hstyles
  | cons condition rest =>
      rw [hscope] at h hconditions
      cases rest with
      | nil => exact (regular_underCondition (hconditions condition List.mem_cons_self) hstyles.nodup h).2
      | cons => cases h

theorem regular_inScope {inner styles : Object} {place : Place} (helement : place.inElement = false)
    (hconditions : ∀ key ∈ place.request.scope.conditions, IsConditionKey key)
    (hinner : Regular (fun _ => false) inner)
    (h : (match scopeStyles? inner place with
      | some out => Except.ok out
      | none => Except.error DiagnosticKind.cssBlockSelector) = .ok styles) :
    Regular (fun _ => false) styles := by
  split at h
  · next hout =>
      cases h
      exact regular_scopeStyles? helement hconditions hinner hout
  · cases h

theorem regular_branchStyles {value : Value} {place : Place} {styles : Object}
    (helement : place.inElement = false)
    (hconditions : ∀ key ∈ place.request.scope.conditions, IsConditionKey key)
    (h : branchStyles value place = .ok (.ok styles)) : Regular (fun _ => false) styles := by
  unfold branchStyles at h
  dsimp only at h
  by_cases hempty : isEmptyBranch value = true
  · rw [if_pos hempty] at h
    cases h
    exact .nil
  rw [if_neg hempty] at h
  split at h
  · split at h
    · next css _ =>
        cases hblock : blockStyles css with
        | error fault =>
            rw [hblock] at h
            cases h
        | ok result =>
            rw [hblock] at h
            cases result with
            | error problem => cases h
            | ok inner =>
                exact regular_inScope helement hconditions (regular_blockStyles hblock) (Except.ok.inj h)
    · cases h
  · split at h
    · cases h
    · refine regular_inScope helement hconditions (.plain ?_ List.not_mem_nil .nil) (Except.ok.inj h)
      exact Style.isObject_normalizeValue _ _

/-- The branches of a test are plain values and conditional maps of properties. -/
theorem regular_of_handled {env : Environment} {c : Classified} {place : Place} {prop : String}
    {compared base : Value} {branches : List Branch}
    (hconditions : ∀ key ∈ place.request.scope.conditions, IsConditionKey key)
    (h : Handled env c place (.variant prop compared base branches)) :
    ∀ b ∈ branches, Regular (fun _ => false) b.styles := by
  have hdecide := (handled_conditional_iff (tag_of_handled_variant h)).mp h
  obtain ⟨⟨-, helement, -⟩, hbranches, -⟩ := decideConditional_eq_variant_iff.mp hdecide
  intro b hb
  obtain ⟨value, -, hvalue⟩ := mem_of_branchesOf hbranches b hb
  exact regular_branchStyles helement hconditions hvalue

end Restyle.Interpolation

namespace Restyle.Component

open Restyle.Interpolation (Branch Classified Decision Environment Handled Place)
open Restyle.Style (IsConditionKey Key Object Regular Value)

/-! ## Branches of one name -/

/-- The variant of a name. -/
def variant? (variants : List Branch) (name : String) : Option Branch :=
  variants.find? (·.name == name)

/-- The value that the variant of a name has for a property under a condition. -/
def variantValue? (variants : List Branch) (name : String) (path : List Key) (property condition : Key) :
    Option Value :=
  (variant? variants name).bind fun v => v.styles.held? path property condition

theorem variant?_addBranch (variants : List Branch) (b : Branch) (name : String) :
    variant? (addBranch variants b) name =
      if b.name = name then
        some (match variant? variants name with
          | some known => { known with styles := known.styles.merge b.styles }
          | none => b)
      else variant? variants name := by
  induction variants with
  | nil =>
      rw [addBranch, variant?, variant?, List.find?_cons, List.find?_nil]
      split
      · next hname => rw [if_pos (beq_iff_eq.mp hname)]
      · next hname => rw [if_neg (ne_of_beq_false hname)]
  | cons known rest ih =>
      rw [addBranch]
      by_cases hknown : known.name = b.name
      · rw [if_pos hknown, variant?, variant?, List.find?_cons, List.find?_cons, ← hknown]
        by_cases hname : known.name = name
        · simp only [hname, beq_self_eq_true, if_pos]
        · simp only [beq_false_of_ne hname, if_neg hname]
      · rw [if_neg hknown, variant?, variant?, List.find?_cons, List.find?_cons]
        by_cases hname : known.name = name
        · have hother : b.name ≠ name := fun heq => hknown (hname.trans heq.symm)
          simp only [hname, beq_self_eq_true, if_neg hother]
        · rw [beq_false_of_ne hname]
          exact ih

/-- Whether a branch of a name has something of its own for a property. -/
def touches (b : Branch) (name : String) (path : List Key) (property : Key) : Bool :=
  b.name == name && b.styles.covers path property

/-- The last branch of a name that has something of its own for a property. -/
def lastTouching? (branches : List Branch) (name : String) (path : List Key) (property : Key) :
    Option Branch :=
  branches.reverse.find? fun b => touches b name path property

theorem lastTouching?_eq_some {branches : List Branch} {name : String} {path : List Key} {property : Key}
    {b : Branch} (h : lastTouching? branches name path property = some b) :
    b ∈ branches ∧ touches b name path property = true := by
  rw [lastTouching?] at h
  have htouches := List.find?_some h
  exact ⟨List.mem_reverse.mp (List.mem_of_find?_eq_some h), htouches⟩

section

variable {nests : Key → Bool}

theorem regular_addBranch {variants : List Branch} {b : Branch}
    (hvariants : ∀ v ∈ variants, Regular nests v.styles) (hb : Regular nests b.styles) :
    ∀ v ∈ addBranch variants b, Regular nests v.styles := by
  intro v hv
  rcases mem_addBranch hv with hv | rfl | ⟨known, hknown, rfl⟩
  · exact hvariants v hv
  · exact hb
  · exact (hvariants known hknown).merge hb

/-- A branch decides what its variant has for the properties that it touches, and no others. -/
theorem variantValue?_addBranch {variants : List Branch} {b : Branch}
    (hvariants : ∀ v ∈ variants, Regular nests v.styles) (hb : Regular nests b.styles) (name : String)
    (path : List Key) (property condition : Key) :
    variantValue? (addBranch variants b) name path property condition =
      if touches b name path property then b.styles.held? path property condition
      else variantValue? variants name path property condition := by
  rw [variantValue?, variant?_addBranch, touches]
  by_cases hname : b.name = name
  · rw [if_pos hname, beq_iff_eq.mpr hname, Bool.true_and, Option.bind_some, variantValue?]
    cases hknown : variant? variants name with
    | none =>
        cases hheld : b.styles.held? path property condition with
        | none => simp only [Option.bind_none, ite_self]
        | some value => rw [if_pos (Object.covers_of_held? hheld)]
    | some known => exact (hvariants known (List.mem_of_find?_eq_some hknown)).held?_merge hb _ _ _
  · rw [if_neg hname, beq_false_of_ne hname, Bool.false_and, if_neg Bool.false_ne_true]
    rfl

/-- The last branch that touches a property decides what the variant has for it in the end. -/
theorem variantValue?_foldl_addBranch {branches variants : List Branch}
    (hvariants : ∀ v ∈ variants, Regular nests v.styles)
    (hbranches : ∀ b ∈ branches, Regular nests b.styles) (name : String) (path : List Key)
    (property condition : Key) :
    variantValue? (branches.foldl addBranch variants) name path property condition =
      match lastTouching? branches name path property with
      | some b => b.styles.held? path property condition
      | none => variantValue? variants name path property condition := by
  induction branches generalizing variants with
  | nil => rfl
  | cons b branches ih =>
      have hb := hbranches b List.mem_cons_self
      have hrest := fun d hd => hbranches d (List.mem_cons_of_mem _ hd)
      rw [List.foldl_cons, ih (regular_addBranch hvariants hb) hrest, lastTouching?, lastTouching?,
        List.reverse_cons, List.find?_append, List.find?_singleton, variantValue?_addBranch hvariants hb]
      cases branches.reverse.find? fun b => touches b name path property with
      | some d => rfl
      | none => cases touches b name path property <;> rfl

end

/-! ## Sequences of decisions -/

/-- A decision on a slot, with what it is about. -/
structure Step where
  decision : Decision
  classified : Classified
  place : Place

/-- A component after decisions, one after the other. -/
def recordAll (c : Component) (steps : List Step) : Component :=
  steps.foldl (fun c step => (c.record step.decision step.classified step.place).component) c

/-- The branches that decisions add, in order. -/
def addedBranches (steps : List Step) : List Branch :=
  steps.flatMap fun step => branchesOf step.decision

theorem variants_recordAll (c : Component) (steps : List Step) :
    (c.recordAll steps).variants = (addedBranches steps).foldl addBranch c.variants := by
  induction steps generalizing c with
  | nil => rfl
  | cons step steps ih =>
      rw [addedBranches, List.flatMap_cons, List.foldl_append,
        ← (record_adds c step.decision step.classified step.place).1]
      exact ih _

/-- A branch sets a property under a condition, the default standing for none. -/
def Sets (b : Branch) (path : List Key) (property condition : Key) (value : Value) : Prop :=
  b.styles.held? path property condition = some value ∧ value.isNull = false

/-- A later branch of the same name sets a property under a condition again. -/
def SetAgain (b : Branch) (later : List Branch) (path : List Key) (property condition : Key) : Prop :=
  ∃ d ∈ later, d.name = b.name ∧ ∃ value, Sets d path property condition value

/-- Every value of a branch is in the variant of its name in the end, unless a later branch sets it again. -/
def KeepsBranches (c : Component) (steps : List Step) : Prop :=
  ∀ before b later, addedBranches steps = before ++ b :: later →
    ∀ path property condition value, Sets b path property condition value →
      variantValue? (c.recordAll steps).variants b.name path property condition = some value ∨
        SetAgain b later path property condition

/-- What a handler has decided on a slot under conditions that a conditional map can hold. -/
structure Step.Given (env : Environment) (step : Step) : Prop where
  conditions : ∀ key ∈ step.place.request.scope.conditions, IsConditionKey key
  handled : Handled env step.classified step.place step.decision

/-- The branches that handlers give are plain values and conditional maps of properties. -/
theorem regular_addedBranches {env : Environment} {steps : List Step} (h : ∀ step ∈ steps, step.Given env) :
    ∀ b ∈ addedBranches steps, Regular (fun _ => false) b.styles := by
  intro b hb
  obtain ⟨step, hstep, hb⟩ := List.mem_flatMap.mp hb
  obtain ⟨hconditions, hhandled⟩ := h step hstep
  cases hdecision : step.decision with
  | variant prop compared base branches =>
      rw [hdecision] at hhandled hb
      exact Interpolation.regular_of_handled hconditions hhandled b hb
  | _ =>
      rw [hdecision] at hb
      cases hb

/--
No branch is lost exactly if each property that a later branch of the same name touches is set again, under
each condition under which it was set.  The branches that handlers give are of the form that this takes.
-/
theorem keepsBranches_iff {nests : Key → Bool} {c : Component} {steps : List Step}
    (hvariants : ∀ v ∈ c.variants, Regular nests v.styles)
    (hbranches : ∀ b ∈ addedBranches steps, Regular nests b.styles) :
    (KeepsBranches c steps ↔
      ∀ before b later, addedBranches steps = before ++ b :: later →
        ∀ path property condition value, Sets b path property condition value →
          (∃ d ∈ later, d.name = b.name ∧ d.styles.covers path property = true) →
            SetAgain b later path property condition) ∧
      ∀ env (others : List Step), (∀ step ∈ others, step.Given env) →
        ∀ b ∈ addedBranches others, Regular (fun _ => false) b.styles := by
  -- the variant has in the end what the last branch that touches the property has, from `b` on
  have hfinal : ∀ before b later, addedBranches steps = before ++ b :: later →
      ∀ path property condition value, Sets b path property condition value →
        variantValue? (c.recordAll steps).variants b.name path property condition =
          ((lastTouching? later b.name path property).getD b).styles.held? path property condition := by
    intro before b later hsplit path property condition value hsets
    have htouches : touches b b.name path property = true := by
      rw [touches, beq_self_eq_true, Object.covers_of_held? hsets.1, Bool.and_self]
    rw [variants_recordAll, variantValue?_foldl_addBranch hvariants hbranches, hsplit, lastTouching?,
      List.reverse_append, List.reverse_cons, List.find?_append, List.find?_append, List.find?_singleton,
      htouches, lastTouching?]
    cases later.reverse.find? fun d => touches d b.name path property <;> rfl
  refine ⟨⟨?_, ?_⟩, fun env others => regular_addedBranches⟩
  · intro h before b later hsplit path property condition value hsets ⟨d, hd, hname, hcovers⟩
    rcases h before b later hsplit path property condition value hsets with hkept | hagain
    · rw [hfinal before b later hsplit path property condition value hsets] at hkept
      cases hlast : lastTouching? later b.name path property with
      | none =>
          refine absurd ?_ (List.find?_eq_none.mp hlast d (List.mem_reverse.mpr hd))
          rw [touches, hname, beq_self_eq_true, hcovers, Bool.and_self]
      | some e =>
          rw [hlast] at hkept
          obtain ⟨he, htouches⟩ := lastTouching?_eq_some hlast
          have hsame := beq_iff_eq.mp (Bool.and_eq_true_iff.mp htouches).1
          exact ⟨e, he, hsame, value, hkept, hsets.2⟩
    · exact hagain
  · intro h before b later hsplit path property condition value hsets
    rw [hfinal before b later hsplit path property condition value hsets]
    cases hlast : lastTouching? later b.name path property with
    | none => exact .inl hsets.1
    | some e =>
        obtain ⟨he, htouches⟩ := lastTouching?_eq_some hlast
        obtain ⟨hsame, hcovers⟩ := Bool.and_eq_true_iff.mp htouches
        exact .inr (h before b later hsplit path property condition value hsets
          ⟨e, he, beq_iff_eq.mp hsame, hcovers⟩)

/-- A test of the prop `active` that gives its branch some styles. -/
def activeTest (styles : Object) : Step where
  decision := .variant "active" .null .null [{ name := "buttonActive", guard := "active", styles }]
  classified := { tag := .conditional, source := "p => p.active && value", path := ["active"] }
  place := blank.placeOf (colorRequest {})

/-- A color, and the opacity while the component is hovered. -/
theorem keepsBranches_otherProperty :
    (∀ b ∈ addedBranches [activeTest [(.name "color", .text "red")],
        activeTest [(.name "opacity", .obj [(Key.default, .null), (.name ":hover", .int 1)])]],
      Regular (fun _ => false) b.styles) ∧
    KeepsBranches blank [activeTest [(.name "color", .text "red")],
      activeTest [(.name "opacity", .obj [(Key.default, .null), (.name ":hover", .int 1)])]] := by
  have hregular : ∀ b ∈ addedBranches [activeTest [(.name "color", .text "red")],
      activeTest [(.name "opacity", .obj [(Key.default, .null), (.name ":hover", .int 1)])]],
      Regular (fun _ => false) b.styles := by
    intro b hb
    rcases List.mem_cons.mp hb with rfl | hb
    · exact .plain rfl List.not_mem_nil .nil
    · cases List.mem_singleton.mp hb
      exact .table rfl (by decide) List.not_mem_nil .nil
  refine ⟨hregular, (keepsBranches_iff (c := blank) nofun hregular).1.mpr ?_⟩
  intro before b later hsplit path property condition value hsets ⟨d, hd, _, hcovers⟩
  have hown := Object.has_topKey_of_covers (Object.covers_of_held? hsets.1)
  have hother := Object.has_topKey_of_covers hcovers
  rw [Object.has_iff_mem_keys] at hown hother
  -- only the second branch comes after another one, and it names another property
  cases before with
  | nil =>
      cases hsplit
      cases List.mem_singleton.mp hd
      have hsame := (List.mem_singleton.mp hown).symm.trans (List.mem_singleton.mp hother)
      exact absurd hsame (by decide)
  | cons first before =>
      cases before with
      | nil =>
          cases hsplit
          cases hd
      | cons second before =>
          have hlength := congrArg List.length hsplit
          simp only [addedBranches, activeTest, branchesOf, List.flatMap_cons, List.flatMap_nil,
            List.length_append, List.length_cons, List.length_nil] at hlength
          omega

/-- The color while the component is hovered takes the place of the color that always holds. -/
theorem not_keepsBranches_hovered :
    ¬ KeepsBranches blank [activeTest [(.name "color", .text "red")],
      activeTest [(.name "color", .obj [(Key.default, .null), (.name ":hover", .text "blue")])]] := by
  intro h
  rcases h [] _ _ rfl [] (.name "color") Key.default (.text "red") ⟨rfl, rfl⟩ with hkept | ⟨d, hd, -, value, hsets⟩
  · cases hkept
  · cases List.mem_singleton.mp hd
    obtain ⟨hheld, hvalue⟩ := hsets
    cases hheld
    cases hvalue

end Restyle.Component
