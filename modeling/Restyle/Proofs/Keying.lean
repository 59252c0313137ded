import Restyle.Proofs.Lending

/-!
# Keys of built components

The styles of a component are folded from the rule of its template.  Folding keeps keys apart as long as no map
among the raw styles has a key twice, and neither the rule nor the decisions that fill its slots bring in such a
map, if the decisions of the adapter do not.  So lowering starts from components all of whose keys are distinct.
-/

namespace Restyle.Style.Tidy

open Restyle.Lowering (DistinctBodies mem_of_get?)

variable {o result : Object}

theorem distinctBodies (h : Tidy o) : DistinctBodies o :=
  fun key body hmem => h.inner key body (Object.get?_of_mem h.nodup hmem)

theorem setCondition (h : Tidy result) (property condition : Key) (value : Value) :
    Tidy (setCondition result property condition value) := by
  have hset : ∀ map : Object, map.keys.Nodup →
      Tidy (result.set property (.obj (Object.set map condition value))) := by
    intro map hmap
    refine h.set property fun _ heq => ?_
    cases heq
    exact Object.nodup_keys_set hmap condition value
  have hdefault : ∀ old : Value, (Object.keys [(Key.default, old)]).Nodup := fun _ => List.nodup_singleton _
  unfold Style.setCondition
  split
  · next inner hget =>
      split
      · exact hset inner (h.inner property inner hget)
      · exact hset _ (hdefault _)
  · exact hset _ (hdefault _)
  · exact hset _ (hdefault _)

theorem foldBlock (h : Tidy result) (condition : Key) (entries : Object) :
    Tidy (foldBlock condition result entries).1 := by
  fun_induction Style.foldBlock condition result entries with
  | case1 result => exact h
  | case2 result property inner rest folded dropped heq ih =>
      rw [heq] at ih
      exact ih h
  | case3 result property value rest _ ih => exact ih (h.setCondition property condition value)

theorem setMap (h : Tidy result) (key : Key) {map : Object} (hmap : map.keys.Nodup) :
    Tidy (setMap result key map) := by
  unfold Style.setMap
  refine h.set key fun _ heq => ?_
  cases heq
  split
  · exact hmap
  · split
    · exact hmap
    · split
      · exact Object.nodup_keys_set hmap _ _
      · exact hmap

theorem setPlain (h : Tidy result) (key : Key) {value : Value} (hvalue : value.isObject = false) :
    Tidy (setPlain result key value) := by
  have hset : Tidy (result.set key value) := h.set key fun _ heq => by
    rw [heq] at hvalue
    cases hvalue
  unfold Style.setPlain
  split
  · next inner hget =>
      split
      · refine h.set key fun _ heq => ?_
        cases heq
        exact Object.nodup_keys_set (h.inner key inner hget) _ _
      · exact hset
  · exact hset

theorem setNested (h : Tidy result) (key : Key) {nested : Object} (hnested : nested.keys.Nodup) :
    Tidy (setNested result key nested) := by
  unfold Style.setNested
  split
  · next inner hget =>
      refine h.set key fun _ heq => ?_
      cases heq
      exact Object.nodup_keys_merge nested (h.inner key inner hget)
  · refine h.set key fun _ heq => ?_
    cases heq
    exact hnested

/-- Folding keeps keys apart; of the object that is folded in, only the maps have to be free of repetitions. -/
theorem flattenFrom (hresult : Tidy result) (ho : DistinctBodies o) : Tidy (flattenFrom result o).1 := by
  induction o generalizing result with
  | nil => rwa [Style.flattenFrom]
  | cons entry o ih =>
      obtain ⟨key, value⟩ := entry
      have hrest : DistinctBodies o := fun k body hmem => ho k body (List.mem_cons_of_mem _ hmem)
      cases hvalue : value.isObject with
      | false =>
          rw [flattenFrom_leaf result key hvalue]
          exact ih (hresult.setPlain key hvalue) hrest
      | true =>
          obtain ⟨inner, rfl⟩ := Value.eq_obj hvalue
          rcases isConditionBlock_cases key inner with hblock | hmap | ⟨hmap, hbranch⟩
          · obtain ⟨hbranch, hinner⟩ := isBranch_of_isConditionBlock hblock
            rw [flattenFrom_branch result hbranch hinner]
            exact ih (hresult.foldBlock key inner) hrest
          · rw [flattenFrom_map result key hmap]
            exact ih (hresult.setMap key (ho key inner List.mem_cons_self)) hrest
          · rw [flattenFrom_nested result hbranch hmap]
            exact ih (hresult.setNested key (nodup_keys_flattenFrom List.nodup_nil)) hrest

theorem flatten (h : Tidy o) : Tidy (flatten o).1 :=
  Tidy.nil.flattenFrom h.distinctBodies

end Restyle.Style.Tidy

namespace Restyle.Component

open Restyle.Lowering (Keyed)

theorem steady_extraStyles : Steady fun c => c.extraStyles = [] :=
  fun _ _ h hnone => h.extraStyles.trans hnone

/-- A component is only built from a template that can be read. -/
theorem exists_template_of_build? {plant : Plant} {d : Module.StyledDeclaration} {c : Component}
    {s s' : Session Workshop} (h : (build? plant d).run s = (.ok (some c), s')) :
    ∃ template, Css.Template.read d.template.segments d.template.expressions = .ok template := by
  obtain ⟨styles, t, hconvert, -, -⟩ := exists_converted_of_build? h
  rw [convertTemplate?_eq] at hconvert
  unfold readTemplate? at hconvert
  split at hconvert
  · cases hconvert
  · next template hread => exact ⟨template, hread⟩

/-- A component that has been built has no key twice, if the adapter decides on no styles with a repeated key. -/
theorem keyed_build? {plant : Plant} (hadapter : plant.env.adapter.Tidy) {d : Module.StyledDeclaration}
    {c : Component} {s s' : Session Workshop} (h : (build? plant d).run s = (.ok (some c), s')) : Keyed c := by
  obtain ⟨template, hread⟩ := exists_template_of_build? h
  obtain ⟨raw, hrule, hstyles, -⟩ := exists_rule_of_build? hread h
  have htidy : Style.Tidy c.styles := hstyles ▸ (Style.Answers.tidy_rule (tidy_answers hadapter _ _) hrule).flatten
  refine ⟨htidy.nodup, htidy.distinctBodies, ?_⟩
  rw [of_build? steady_extraStyles h rfl]
  exact ⟨List.nodup_nil, List.forall_mem_nil _⟩

end Restyle.Component

namespace Restyle.Conversion

open Restyle.Component (Plant)
open Restyle.Lowering (Keyed)

/-- The components of a module have no key twice, if the adapter decides on no styles with a repeated key. -/
theorem keyed_buildComponents {plant : Plant} (hadapter : plant.env.adapter.Tidy)
    {d : Module.Declarations} {excluded : List String} {built : Arena × List String}
    {w w' : Session Component.Workshop} (h : (buildComponents plant d excluded).run w = (.ok built, w')) :
    built.1.All Keyed :=
  all_buildComponents (fun _ _ _ _ _ hbuild => Component.keyed_build? hadapter hbuild) h

end Restyle.Conversion
