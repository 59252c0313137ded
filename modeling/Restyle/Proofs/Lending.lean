import Restyle.Proofs.Backing
import Restyle.Proofs.LastWord
import Restyle.Proofs.Placement

/-!
# Styles that a helper lends to a condition

A helper that stands in the block of a condition may have its styles resolved by the adapter.  The decision
puts the condition around each value that it lends, and so does the block when it is folded: what arrives is a
map in the block of a condition, which has no place in a style object.  So a value that is lent under a
condition is dropped, and the property has there what the rest of the template gives it.
-/

namespace Restyle.Style

/-! ## Sheets of plain declarations -/

/-- A text of plain declarations: no nested rules, no slots and no marks of weight. -/
structure PlainSheet (css : String) (sheet : Css.Rule) : Prop where
  read : Css.parseSheet css = .ok sheet
  flat : sheet.nested = []
  fixed : ∀ d ∈ sheet.declarations, Css.Slot.present d.property = false ∧ Css.Slot.present d.value = false
  unmarked : ∀ d ∈ sheet.declarations, (stripImportant d.value).2 = false

/-- The properties that the declarations of a rule set, each with the value that is set last. -/
def lentBy (sheet : Css.Rule) : Object :=
  (sheet.declarations.flatMap declared).foldl (fun o entry => o.set entry.1 entry.2) []

/-- An object without blocks is folded already. -/
theorem flattenFrom_plain {o : Object} (ho : ∀ entry ∈ o, entry.2.isObject = false) {result : Object}
    (hresult : ∀ entry ∈ result, entry.2.isObject = false) :
    flattenFrom result o = (o.foldl (fun result entry => result.set entry.1 entry.2) result, []) := by
  induction o generalizing result with
  | nil => rfl
  | cons entry o ih =>
      obtain ⟨key, value⟩ := entry
      obtain ⟨hvalue, hrest⟩ := List.forall_mem_cons.mp ho
      have hset : setPlain result key value = result.set key value := by
        unfold setPlain
        split
        · next inner hget =>
            cases hresult _ (Lowering.mem_of_get? hget)
        · rfl
      rw [flattenFrom_leaf result key hvalue, hset, List.foldl_cons]
      exact ih hrest fun entry hentry => (Lowering.mem_set hentry).elim (hresult entry) fun h => h ▸ hvalue

theorem isObject_of_mem_lentBy {sheet : Css.Rule} {entry : Key × Value} (h : entry ∈ lentBy sheet) :
    entry.2.isObject = false := by
  have hfold : ∀ (entries o : Object), (∀ entry ∈ entries, entry.2.isObject = false) →
      (∀ entry ∈ o, entry.2.isObject = false) →
      ∀ entry ∈ entries.foldl (fun o entry => o.set entry.1 entry.2) o, entry.2.isObject = false := by
    intro entries
    induction entries with
    | nil => exact fun o _ ho => ho
    | cons first entries ih =>
        intro o hentries ho
        obtain ⟨hfirst, hrest⟩ := List.forall_mem_cons.mp hentries
        exact ih _ hrest fun entry hentry => (Lowering.mem_set hentry).elim (ho entry) fun h => h ▸ hfirst
  refine hfold _ _ (fun entry hentry => ?_) (List.forall_mem_nil _) entry h
  obtain ⟨d, -, hd⟩ := List.mem_flatMap.mp hentry
  exact isObject_of_mem_declared hd

theorem flatten_lentBy (sheet : Css.Rule) : flatten (lentBy sheet) = (lentBy sheet, []) := by
  have hnodup : (lentBy sheet).keys.Nodup := Object.nodup_keys_foldl_set _ List.nodup_nil
  rw [flatten, flattenFrom_plain (fun _ => isObject_of_mem_lentBy) (List.forall_mem_nil _),
    Object.foldl_set_eq_append hnodup fun _ _ => List.not_mem_nil, List.nil_append]

/-- Plain declarations are set one after the other. -/
theorem run_plainDeclarations {τ : Type} {ds : List Css.Declaration}
    (hfixed : ∀ d ∈ ds, Css.Slot.present d.property = false ∧ Css.Slot.present d.value = false)
    (hunmarked : ∀ d ∈ ds, (stripImportant d.value).2 = false) (r : Resolver τ) (scope : Scope) (o : Object)
    (s : Session τ) :
    (ds.foldlM (convertDeclaration r scope) o).run s =
      (.ok ((ds.flatMap declared).foldl (fun o entry => o.set entry.1 entry.2) o), s) := by
  induction ds generalizing o with
  | nil => rfl
  | cons d ds ih =>
      obtain ⟨⟨hname, hvalue⟩, hfixed⟩ := List.forall_mem_cons.mp hfixed
      obtain ⟨hmark, hunmarked⟩ := List.forall_mem_cons.mp hunmarked
      obtain ⟨marks, hrun, hmarks⟩ := run_convertDeclaration_fixed hname hvalue r scope o s
      cases hmarks hmark
      rw [List.foldlM_cons, Work.run_bind_ok _ hrun, ih hfixed hunmarked, List.flatMap_cons, List.foldl_append]

namespace PlainSheet

variable {css : String} {sheet : Css.Rule}

theorem selector_eq (h : PlainSheet css sheet) : sheet.selector = "&" := by
  have hread := h.read
  unfold Css.parseSheet at hread
  cases htokens : Css.tokenize css with
  | error fault =>
      rw [htokens] at hread
      cases hread
  | ok tokens =>
      rw [htokens] at hread
      exact (Css.stacked_ruleOfTokens hread).2.1

/-- A plain sheet is converted without reports to what it sets. -/
theorem run_convert {τ : Type} (h : PlainSheet css sheet) (r : Resolver τ) (s : Session τ) :
    (convert r sheet).run s = (.ok (lentBy sheet), s) := by
  obtain ⟨selector, declarations, nested, atRules⟩ := sheet
  cases h.flat
  have hrule : (convertRule r {} ⟨selector, declarations, [], atRules⟩).run s =
      (.ok (lentBy ⟨selector, declarations, [], atRules⟩), s) := by
    rw [convertRule, Work.run_bind_ok _ (run_plainDeclarations h.fixed h.unmarked r {} [] s)]
    rfl
  unfold convert
  rw [Work.run_bind_ok _ hrule, flatten_lentBy]
  rfl

theorem blockStyles_eq (h : PlainSheet css sheet) :
    Interpolation.blockStyles css = .ok (.ok (lentBy sheet)) := by
  have hwalk : (sheet.walk.any fun rule => Css.isAtRule rule.selector) = false := by
    have hselector := h.selector_eq
    obtain ⟨selector, declarations, nested, atRules⟩ := sheet
    cases h.flat
    cases hselector
    have hroot : Css.isAtRule "&" = false := by decide
    rw [Css.Rule.walk, Css.Rule.walkAll, List.any_cons, hroot, List.any_nil, Bool.false_or]
  unfold Interpolation.blockStyles
  rw [h.read]
  dsimp only
  rw [hwalk, if_neg Bool.false_ne_true, h.run_convert]
  dsimp only
  rw [List.any_eq_false.mpr ?plain]
  case plain =>
    intro entry hentry
    rw [isObject_of_mem_lentBy hentry]
    exact Bool.false_ne_true
  rfl

end PlainSheet

/-! ## Styles in the scope of a condition -/

/-- A value for one condition and no default. -/
def onlyUnder (condition : String) (value : Value) : Value :=
  .obj (Object.set [(Key.default, .null)] (.name condition) value)

end Restyle.Style

namespace Restyle.Interpolation

open Restyle.Style (Key Object PlainSheet lentBy onlyUnder)

/-- Styles in the scope of one condition are set for this condition alone; there must be no objects among them. -/
theorem scopeStyles?_eq_some_iff {place : Place} (helement : place.inElement = false) {condition : String}
    (hscope : place.request.scope.conditions = [condition]) {styles out : Object} :
    scopeStyles? styles place = some out ↔ (∀ entry ∈ styles, entry.2.isObject = false) ∧
      out = styles.map fun entry => (entry.1, onlyUnder condition entry.2) := by
  rw [scopeStyles?_of_inElement helement, hscope]
  dsimp only
  induction styles generalizing out with
  | nil => exact ⟨fun h => ⟨List.forall_mem_nil _, (Option.some.inj h).symm⟩, fun h => congrArg some h.2.symm⟩
  | cons entry styles ih =>
      rw [List.mapM_cons, List.forall_mem_cons]
      simp only [Option.bind_eq_bind, Option.bind_eq_some_iff, Option.pure_def, ih]
      constructor
      · rintro ⟨first, hfirst, rest, ⟨hplain, rfl⟩, hout⟩
        cases hout
        split at hfirst
        · cases hfirst
        · next hentry =>
            cases hfirst
            exact ⟨⟨Bool.eq_false_iff.mpr hentry, hplain⟩, rfl⟩
      · rintro ⟨⟨hentry, hplain⟩, rfl⟩
        exact ⟨_, if_neg (by rw [hentry]; exact Bool.false_ne_true), _, ⟨hplain, rfl⟩, rfl⟩

theorem tidy_onlyUnder {styles : Object} (hstyles : styles.keys.Nodup) (condition : String) :
    Style.Tidy (styles.map fun entry => (entry.1, onlyUnder condition entry.2)) := by
  refine ⟨?_, fun key inner hget => ?_⟩
  · rw [Object.keys, List.map_map]
    exact hstyles
  · rw [Object.get?_map (f := fun entry => (entry.1, onlyUnder condition entry.2)) fun _ => rfl] at hget
    obtain ⟨value, -, hvalue⟩ := Option.map_eq_some_iff.mp hget
    cases hvalue
    exact Object.nodup_keys_set (o := [(Key.default, .null)]) (List.nodup_singleton _) _ _

/-! ## Decisions without repeated keys -/

/-- What a decision puts into the place of its slot has no key twice. -/
def Decision.Tidy : Decision → Prop
  | .convert (.obj styles) => Style.Tidy styles
  | .variant _ _ (.obj base) _ => (Object.keys base).Nodup
  | _ => True

/-- An adapter whose own decisions have no key twice. -/
structure ProjectAdapter.Tidy (adapter : ProjectAdapter) : Prop where
  handlers : ∀ handler ∈ adapter.handlers, ∀ c place d, handler c place = .decide d → d.Tidy
  fallback : ∀ decide, adapter.fallback = some (.reply decide) → ∀ c place d, decide c place = some d → d.Tidy

/-- An adapter without handlers and without a fallback of its own decides on nothing. -/
theorem ProjectAdapter.Tidy.of_silent {adapter : ProjectAdapter} (hhandlers : adapter.handlers = [])
    (hfallback : adapter.fallback = none) : adapter.Tidy := by
  constructor
  · rw [hhandlers]
    exact List.forall_mem_nil _
  · rw [hfallback]
    exact nofun

theorem unconditional_tidy : Unconditional Decision.Tidy where
  bail _ _ := trivial
  js _ := trivial
  reference _ := trivial
  within {css styles out place} helement hconditions hstyles hout := by
    have hnodup := (regular_blockStyles hstyles).nodup
    cases hscope : place.request.scope.conditions with
    | nil => exact absurd hscope hconditions
    | cons condition rest =>
        cases rest with
        | nil =>
            obtain ⟨-, rfl⟩ := (scopeStyles?_eq_some_iff helement hscope).mp hout
            exact tidy_onlyUnder hnodup condition
        | cons =>
            rw [scopeStyles?_of_inElement helement, hscope] at hout
            cases hout

theorem tidy_decideFallback {env : Environment} (h : env.adapter.Tidy) (c : Classified) (place : Place) :
    (decideFallback env c place).Tidy := by
  have hgiveUp : ∀ withProps, (giveUp c withProps).Tidy := by
    intro withProps
    unfold giveUp
    split <;> trivial
  unfold decideFallback
  split
  · exact hgiveUp _
  · next decide hdecide =>
      have hreply : env.adapter.fallback = some (.reply decide) := by
        cases hfallback : env.adapter.fallback with
        | none =>
            rw [hfallback] at hdecide
            cases hdecide
        | some fallback =>
            rw [hfallback] at hdecide
            exact congrArg some hdecide
      cases hd : decide c place with
      | none => exact hgiveUp true
      | some d => exact h.fallback decide hreply c place d hd

theorem tidy_decideByAdapter {env : Environment} (h : env.adapter.Tidy) {c : Classified} {place : Place} {d : Decision}
    (hd : decideByAdapter env c place = some d) : d.Tidy := by
  obtain ⟨handler, hhandler, hreply⟩ := List.exists_of_findSome?_eq_some hd
  split at hreply
  · cases hreply
  · next d' hdecide =>
      cases hreply
      exact h.handlers handler hhandler c place d hdecide
  · cases hreply
    trivial

theorem tidy_decideConditional {c : Classified} {place : Place} {d : Decision} (h : decideConditional c place = .ok d) :
    d.Tidy := by
  rcases decideConditional_cases h with ⟨_, _, rfl⟩ | ⟨_, _, _, rfl⟩ <;> trivial

theorem tidy_decideProp (c : Classified) (place : Place) : (decideProp c place).Tidy := by
  rcases decideProp_cases c place with ⟨_, _, heq⟩ | ⟨_, heq⟩ <;>
    · rw [heq]
      trivial

theorem gives_tidy_decideByTag (env : Environment) (c : Classified) (place : Place) :
    Gives (fun d? => ∀ d ∈ d?, Decision.Tidy d) (decideByTag env c place) := by
  by_cases htest : c.tag = .conditional
  · intro t d? t' hrun d hd
    cases hd
    exact tidy_decideConditional ((handled_conditional_iff htest).mp ⟨t, t', hrun⟩)
  by_cases hprop : c.tag = .propAccess
  · intro t d? t' hrun d hd
    cases hd
    exact (handled_propAccess_iff hprop).mp ⟨t, t', hrun⟩ ▸ tidy_decideProp c place
  · exact gives_decideByTag unconditional_tidy env place htest hprop fun _ => trivial

/-- Decisions have no key twice, if those of the adapter have none. -/
theorem gives_tidy_decide {env : Environment} (h : env.adapter.Tidy) (c : Classified) (place : Place) :
    Gives Decision.Tidy (decide env c place) := by
  unfold decide
  split
  · next d hd => exact gives_pure (tidy_decideByAdapter h hd)
  · refine (gives_tidy_decideByTag env c place).andThen fun d? hd => gives_pure ?_
    cases d? with
    | none => exact tidy_decideFallback h c place
    | some d => exact hd d rfl

/-! ## Calls that the adapter resolves -/

/-- The question to the adapter for the call of a helper. -/
def callQuery (c : Classified) (source : String) (place : Place) : Adapter.CallQuery :=
  let named (n : Option String) : Option String := n.filter fun s => !s.isEmpty
  { callee := ((named c.importedName).or (named c.helperName)).getD ""
    source
    arguments := c.arguments
    property := place.property? }

/-- The adapter leaves the call of an imported helper to the built-in handler and gives it css to spread. -/
structure Lends (env : Environment) (c : Classified) (place : Place) (css : String) : Prop where
  left : decideByAdapter env c place = none
  helper : c.tag = .helperCall
  called : c.mixinName.filter (fun name => !name.isEmpty) = none
  resolved : ∃ source result, c.importSource.filter (fun source => !source.isEmpty) = some source ∧
    Adapter.answer Adapter.CallResult.ofData? (env.adapter.resolveCall (callQuery c source place)) =
      .ok (some result) ∧ result.usage = .props ∧ result.cssText = some css
  written : css.isEmpty = false

theorem liftM_ok_bind {α : Type} (a : α) (next : α → Deciding Decision) :
    ((liftM (Except.ok a : Except Fault α) : Deciding α) >>= next) = next a :=
  rfl

/-- What a helper lends to a condition is converted to values for the condition alone. -/
theorem Lends.handled {env : Environment} {c : Classified} {place : Place} {css : String} {sheet : Css.Rule}
    (h : Lends env c place css) (hsheet : PlainSheet css sheet) (hblock : place.isBlock = true) {condition : String}
    (hscope : place.request.scope = { conditions := [condition] }) :
    Handled env c place
      (.convert (.obj ((lentBy sheet).map fun entry => (entry.1, onlyUnder condition entry.2)))) := by
  obtain ⟨source, result, hsource, hanswer, husage, htext⟩ := h.resolved
  have hnested : place.isNested = true := by
    rw [Place.isNested, hscope]
    rfl
  have helement : place.inElement = false := by
    rw [Place.inElement, hscope]
    rfl
  have hscoped := (scopeStyles?_eq_some_iff helement (congrArg Style.Scope.conditions hscope)).mpr
    ⟨fun entry (hentry : entry ∈ lentBy sheet) => Style.isObject_of_mem_lentBy hentry, rfl⟩
  have hlent : decideBlockCall place result = do
      Deciding.request result.imports
      return .convert (.obj ((lentBy sheet).map fun entry => (entry.1, onlyUnder condition entry.2))) := by
    have hinside : ¬ (Option.any (fun e : String => !e.isEmpty) none || [condition].isEmpty || "&" != "&") = true := by
      simp
    unfold decideBlockCall
    rw [husage, if_neg (by decide), hnested, if_pos rfl, hscope, if_neg hinside, htext, Option.filter_some, h.written,
      Bool.not_false, if_pos rfl]
    dsimp only
    rw [hsheet.blockStyles_eq, liftM_ok_bind]
    dsimp only
    rw [hscoped]
  let asked : Traces := { queries := [.call (callQuery c source place)] }
  have hasked : (Deciding.askCall env (callQuery c source place)).run {} = (.ok (.ok (some result)), asked) := by
    rw [← hanswer]
    rfl
  let granted : Traces := { asked with imports := asked.imports.extend result.imports }
  have hhelper : (decideHelper env c place).run {} =
      (.ok (.convert (.obj ((lentBy sheet).map fun entry => (entry.1, onlyUnder condition entry.2)))), granted) := by
    unfold decideHelper
    rw [h.called, hsource]
    refine (Work.run_bind_ok _ hasked).trans ?_
    dsimp only
    rw [hblock, if_pos rfl, hlent]
    rfl
  refine ⟨{}, granted, ?_⟩
  unfold decideByTag
  rw [h.helper]
  exact Work.run_bind_ok _ hhelper

end Restyle.Interpolation

namespace Restyle.Component

open Restyle.Interpolation (Lends)
open Restyle.Style (Answers Key Object PlainSheet SlotRequest Spot Value droppedReport flatten lentBy onlyUnder)
open Restyle.Tsx (Node)
open Work (Alike Keeps OnStores)

/-! ## Built components -/

/-- A slot that becomes styles in the place of a declaration is answered by them. -/
theorem slot_answers_convert (plant : Plant) (template : Css.Template Node) (c : Component) {request : SlotRequest}
    {slot : Css.PlacedSlot Node} (hslot : template.slot? request.index = some slot) {styles : Object}
    (h : plant.Handles slot request c (.convert (.obj styles))) (hblock : request.property = "") :
    (plant.answers template c).slot request = .ok (.given .null none styles) := by
  obtain ⟨s', hrun, -⟩ := resolveSlot_records plant template hslot (s := { store := { component := c } }) h
  refine (congrArg Prod.fst hrun).trans (congrArg Except.ok ?_)
  have hplace : (c.placeOf request).isBlock = true := by
    rw [Interpolation.Place.isBlock, placeOf, hblock]
    rfl
  unfold record
  rw [hplace]
  rfl

theorem tidy_reply {d : Interpolation.Decision} (hd : d.Tidy) (c : Component) (classified : Interpolation.Classified)
    (place : Interpolation.Place) {value : Value} {other : Option String} {styles : Object}
    (h : (c.record d classified place).reply = .given value other styles) :
    Style.Tidy styles ∧ ∀ inner, value = .obj inner → (Object.keys inner).Nodup := by
  cases d with
  | convert given =>
      unfold record at h
      dsimp only at h
      split at h
      · split at h
        · cases h
          refine ⟨hd, fun inner hinner => ?_⟩
          cases hinner
        · cases h
      · cases h
        refine ⟨.nil, fun inner hinner => ?_⟩
        cases hinner
        exact hd.nodup
  | reference code =>
      unfold record at h
      dsimp only at h
      split at h <;> cases h
  | variant prop compared base branches =>
      unfold record at h
      dsimp only at h
      split at h
      · cases h
      · cases h
        refine ⟨.nil, fun inner hinner => ?_⟩
        cases hinner
        exact hd
  | dynamic v => cases h
  | bail reason props inline =>
      unfold record recordBail at h
      dsimp only at h
      split at h
      · cases h
      split at h
      · cases h
      · split at h <;> cases h

/-- The slots of a template are answered without repeated keys, if the decisions of the adapter have none. -/
theorem tidy_answers {plant : Plant} (h : plant.env.adapter.Tidy) (template : Css.Template Node) (c : Component) :
    (plant.answers template c).Tidy := by
  intro request value other styles hanswer
  cases hslot : template.slot? request.index with
  | none =>
      have hnone : (plant.answers template c).slot request = .ok .omit := by
        show ((resolveSlot plant template request).run _).1 = _
        unfold resolveSlot
        rw [hslot]
        rfl
      cases hnone.symm.trans hanswer
  | some slot =>
      obtain ⟨d, hrun⟩ := run_resolveSlot plant template request hslot { store := { component := c } }
      cases hdecide : (Interpolation.decide plant.env (plant.classified slot request) (c.placeOf request)).run {} with
      | mk result traces =>
          have hresult : (plant.answers template c).slot request = _ := congrArg Prod.fst hrun
          rw [show (Interpolation.decide plant.env _ _).run _ = _ from hdecide] at hresult
          cases result with
          | error f => cases hresult.symm.trans hanswer
          | ok decision =>
              have hreply := Except.ok.inj (hresult.symm.trans hanswer)
              exact tidy_reply (Interpolation.gives_tidy_decide h _ _ {} decision traces hdecide) c _ _ hreply

/-- The styles that a template is converted to, and the reports of the blocks that they leave out. -/
theorem exists_rule_of_convert {plant : Plant} {template : Css.Template Node} {c : Component}
    {location : Option Location} {s s' : Session Workshop} (hc : Named c s.store ()) {styles : Object}
    (h : (Style.convert (resolverFor plant template location) template.root).run s = (.ok styles, s')) :
    ∃ raw, (plant.answers template c).rule {} template.root = .ok raw ∧ styles = (flatten raw).1 ∧
      ∀ place ∈ (flatten raw).2, droppedReport location place ∈ s'.diagnostics.items := by
  obtain ⟨raw, t, hraw, h⟩ := Work.run_bind_eq_ok h
  have halike : Alike (OnStores (Named c)) (Style.convertRule (resolverFor plant template location) {} template.root)
      (Style.convertRule (plant.answers template c).resolver {} template.root) :=
    Style.alike_convertRule (Work.oblivious_onStores _) (alike_selector plant template c) template.root {}
      fun request _ => alike_slot plant template c request
  have hrule := (halike s { store := (), important := s.important } ⟨hc, rfl⟩).1
  rw [congrArg Prod.fst hraw, ((plant.answers template c).constant_convertRule {} _).run_fst] at hrule
  obtain ⟨d, hreports, hitems⟩ := Style.run_reportDropped location (flatten raw).2 t
  have hrun := (Work.run_bind_ok (fun _ => pure (flatten raw).1) hreports).symm.trans h
  cases hrun
  refine ⟨raw, hrule.symm, rfl, fun place hplace => ?_⟩
  rw [hitems]
  exact List.mem_append_right _ (List.mem_map_of_mem hplace)

theorem exists_rule_of_convertRead {plant : Plant} {parts : Module.TemplateParts} {template : Css.Template Node}
    {styles? : Option Object} {s s' : Session Workshop}
    (h : (convertRead plant parts template).run s = (.ok styles?, s')) :
    ∃ raw, (plant.answers template s.store.component).rule {} template.root = .ok raw ∧
      styles? = some (flatten raw).1 ∧
      ∀ place ∈ (flatten raw).2, droppedReport s.store.component.location place ∈ s'.diagnostics.items := by
  unfold convertRead at h
  obtain ⟨d, hreports⟩ := Work.run_forIn_reports (τ := Workshop)
    (f := fun index _ => do
      Building.report .unclassifiedInterpolation
        [("expression", .str ((parts.expressions[index]?.map Node.text).getD ""))]
      pure (.yield PUnit.unit))
    (template.unplaced parts.expressions.length) (fun _ _ => ⟨_, rfl⟩) s
  rw [Work.run_bind_ok _ hreports, Work.run_bind_ok _ (Building.run_component _)] at h
  obtain ⟨⟨styles, important⟩, t, hconvert, h⟩ := Work.run_bind_eq_ok h
  rw [run_withImportant] at hconvert
  cases hrun : (Style.convert (resolverFor plant template s.store.component.location) template.root).run
      { s with diagnostics := d, important := [] } with
  | mk result t' =>
      rw [hrun] at hconvert
      cases result with
      | error f => cases hconvert
      | ok converted =>
          cases hconvert
          obtain ⟨raw, hrule, hstyles, hitems⟩ := exists_rule_of_convert (named_self _ _) hrun
          obtain ⟨_, t₁, hchange, h⟩ := Work.run_bind_eq_ok h
          obtain ⟨_, t₂, htraces, h⟩ := Work.run_bind_eq_ok h
          cases h
          cases hchange
          refine ⟨raw, hrule, congrArg some hstyles, ?_⟩
          refine Keeps.of_run (P := fun s => ∀ place ∈ _, droppedReport _ place ∈ s.diagnostics.items)
            (Keeps.forIn _ (fun _ _ _ => ?_) _) htraces hitems
          exact fun _ h => h

/-- The styles of a component that has been built, and the reports of the blocks that they leave out. -/
theorem exists_rule_of_build? {plant : Plant} {d : Module.StyledDeclaration} {template : Css.Template Node}
    {c : Component} {s s' : Session Workshop}
    (hread : Css.Template.read d.template.segments d.template.expressions = .ok template)
    (h : (build? plant d).run s = (.ok (some c), s')) :
    ∃ raw, (plant.answers template (started d)).rule {} template.root = .ok raw ∧ c.styles = (flatten raw).1 ∧
      ∀ place ∈ (flatten raw).2, droppedReport (some d.location) place ∈ s'.diagnostics.items := by
  obtain ⟨styles, t, hconvert, rfl, hrest⟩ := exists_converted_of_build? h
  rw [convertTemplate?_eq] at hconvert
  unfold readTemplate? at hconvert
  rw [hread] at hconvert
  obtain ⟨raw, hrule, hstyles, hitems⟩ := exists_rule_of_convertRead hconvert
  cases hstyles
  refine ⟨raw, hrule, hrest (fun s => s.store.component.styles = (flatten raw).1 ∧
    ∀ place ∈ (flatten raw).2, droppedReport (some d.location) place ∈ s.diagnostics.items) ?_ ?_ ⟨rfl, hitems⟩⟩
  · exact fun kind details s hs => ⟨hs.1, fun place hplace => List.mem_append_left _ (hs.2 place hplace)⟩
  · intro f hf s hs
    obtain ⟨_, _, _, _, heq⟩ := hf s.store.component
    refine ⟨?_, hs.2⟩
    show (f s.store.component).styles = _
    rw [heq]
    exact hs.1

/-! ## What arrives -/

/-- A slot of a template calls a helper that the adapter resolves to css. -/
def Plant.Lends (plant : Plant) (template : Css.Template Node) (c : Component) (request : SlotRequest)
    (css : String) : Prop :=
  ∃ slot, template.slot? request.index = some slot ∧
    Interpolation.Lends plant.env (plant.classified slot request) (c.placeOf request) css

theorem get?_lent {sheet : Css.Rule} {property : Key} {value : Value}
    (h : (lentBy sheet).get? property = some value) (condition : String) :
    Object.get? ((lentBy sheet).map fun entry => (entry.1, onlyUnder condition entry.2)) property =
      some (onlyUnder condition value) := by
  rw [Object.get?_map (f := fun entry => (entry.1, onlyUnder condition entry.2)) fun _ => rfl, h]
  rfl

/--
A value that a helper lends to the block of a condition is there in the built component exactly if it is said
again after the slot, as the last word on the property under the condition.  If nothing is said after the slot,
the property has no value under the condition, and the value that was lent is reported as dropped.
-/
theorem lent_kept_iff {plant : Plant} {d : Module.StyledDeclaration} {template : Css.Template Node}
    {c : Component} {s s' : Session Workshop} {condition css : String} {sheet : Css.Rule}
    (hread : Css.Template.read d.template.segments d.template.expressions = .ok template)
    (hbuild : (build? plant d).run s = (.ok (some c), s'))
    (hadapter : plant.env.adapter.Tidy)
    (spot : Spot (plant.answers template (started d)) template.root condition)
    (hlends : plant.Lends template (started d) spot.request css) (hsheet : PlainSheet css sheet)
    {property : Key} {value : Value} (hproperty : property.isProperty = true)
    (hlent : (lentBy sheet).get? property = some value)
    (hfree : ∀ raw inner, (plant.answers template (started d)).rule {} template.root = .ok raw →
      raw.get? property ≠ some (.obj inner)) :
    (c.styles.choice? property (.name condition) = some value ↔ (spot.words property).getLast? = some value) ∧
      (spot.words property = [] → c.styles.choice? property (.name condition) = none ∧
        droppedReport (some d.location) (condition ++ " " ++ property.text) ∈ s'.diagnostics.items) := by
  obtain ⟨slot, hslot, hlends⟩ := hlends
  have hplain : value.isObject = false := Style.isObject_of_mem_lentBy (Lowering.mem_of_get? hlent)
  have hanswer := slot_answers_convert plant template (started d) hslot
    ⟨hlends.left, hlends.handled hsheet rfl rfl⟩ rfl
  obtain ⟨raw, hraw, hstyles, hreports⟩ := exists_rule_of_build? hread hbuild
  obtain ⟨hchoice, hdropped⟩ :=
    Spot.choice?_convert (tidy_answers hadapter _ _) hanswer (get?_lent hlent condition) hproperty hraw
    fun inner => hfree raw inner hraw
  rw [hstyles, hchoice]
  refine ⟨?_, fun hwords => ⟨?_, hreports _ (hdropped hwords)⟩⟩
  · cases hlast : (spot.words property).getLast? with
    | none => exact iff_of_false nofun nofun
    | some word =>
        rw [Style.hear]
        split
        · next hword =>
            refine iff_of_false nofun fun heq => ?_
            cases heq
            cases hword.symm.trans hplain
        · exact Iff.rfl
  · rw [hwords]
    rfl

/-- The adapter resolves calls to styles that make a color red; `ring` is an imported helper. -/
def lendingPlant : Plant where
  env :=
    { adapter :=
        { resolveCall := fun _ =>
            .obj [("usage", .str "props"), ("expr", .str "ring"), ("css_text", .str "color: red;")] }
      around := { imports := { byLocal := [("ring", ⟨"ring", "ring", "./mixins", false⟩)] } } }

/-- A blue box that spreads the helper when the pointer is over it. -/
def hoveredBox : Module.StyledDeclaration :=
  { name := "Box", base := "div", baseIsIntrinsic := true, location := ⟨1, 1⟩
    template := {
      segments := ["color: blue; &:hover \x7b ", "; \x7d"]
      expressions := ["ring()"].filterMap fun code => (Tsx.readExpression code).toOption }
    statement := { kind := .program, start := 0, stop := 0, text := "" } }

/-- The request for the slot of the box. -/
def hoverRequest : SlotRequest :=
  Style.wholeRequest { conditions := [":hover"] } "" (Css.Slot.markText 0)

theorem exists_plainSheet_red : ∃ sheet value, PlainSheet "color: red;" sheet ∧
    (lentBy sheet).get? (.name "color") = some value := by
  have hcheck : ((Css.parseSheet "color: red;").toOption.any fun sheet =>
      sheet.nested.isEmpty && sheet.declarations.all (fun d =>
        !Css.Slot.present d.property && !Css.Slot.present d.value && !(Style.stripImportant d.value).2) &&
      ((lentBy sheet).get? (.name "color")).isSome) = true := by
    decide +kernel
  obtain ⟨sheet, hread, hcheck⟩ := exists_of_any_toOption hcheck
  simp only [Bool.and_eq_true, List.all_eq_true, Bool.not_eq_true', List.isEmpty_iff] at hcheck
  obtain ⟨⟨hflat, hplain⟩, hlent⟩ := hcheck
  obtain ⟨value, hvalue⟩ := Option.isSome_iff_exists.mp hlent
  exact ⟨sheet, value, ⟨hread, hflat, fun d hd => (hplain d hd).1, fun d hd => (hplain d hd).2⟩, hvalue⟩

/-- A slot that stands alone in the only block of a sheet is a spot after which nothing is said. -/
theorem exists_lone_spot (a : Answers) {root child : Css.Rule} {condition : String} {slot : Css.Declaration}
    (hnested : root.nested = [child]) (hflat : child.nested = []) (hselector : Css.Slot.indices child.selector = [])
    (hblocks : Style.blocksOf {} child.selector = [({ conditions := [condition] }, [.name condition])])
    (hdeclarations : child.declarations = [slot]) (hslot : slot.isBlockSlot = true) :
    ∃ spot : Spot a root condition, spot.slot = slot ∧ ∀ property, spot.words property = [] := by
  refine ⟨{ child, earlier := [], later := [], before := [], slot, after := []
            blocks_eq := ?_, declarations_eq := hdeclarations, isBlockSlot := hslot }, rfl, fun property => ?_⟩
  · rw [hnested, Style.Answers.blocks, List.flatMap_singleton, Style.Answers.blocksFor, hselector]
    dsimp only [Style.Answers.fill]
    rw [hblocks]
    rfl
  · show List.filterMap _ [] ++ List.filterMap _ (Style.Answers.blocks _ _ child.nested) ++ [] = []
    rw [hflat]
    rfl

/-- The call of the helper in a slot is answered with css. -/
theorem lends_ring {template : Css.Template Node} {c : Component} {request : SlotRequest}
    {slot : Css.PlacedSlot Node} (hslot : template.slot? request.index = some slot)
    (htag : (lendingPlant.classified slot request).tag = .helperCall)
    (hmixin : (lendingPlant.classified slot request).mixinName = none)
    (hsource : (lendingPlant.classified slot request).importSource = some "./mixins") :
    lendingPlant.Lends template c request "color: red;" := by
  refine ⟨slot, hslot, rfl, htag, ?_, ?_, by decide⟩
  · show Option.filter _ (lendingPlant.classified slot request).mixinName = none
    rw [hmixin]
    rfl
  · refine ⟨"./mixins", { usage := .props, expr := "ring", cssText := some "color: red;" }, ?_, rfl, rfl, rfl⟩
    show Option.filter _ (lendingPlant.classified slot request).importSource = _
    rw [hsource]
    rfl

/-- The box is read and built, and its slot stands alone in the block of the condition, as the call of a helper. -/
theorem exists_spot_hoveredBox : ∃ template c s',
    Css.Template.read hoveredBox.template.segments hoveredBox.template.expressions = .ok template ∧
    (build? lendingPlant hoveredBox).run { store := { component := started hoveredBox } } = (.ok (some c), s') ∧
    (∀ raw inner, (lendingPlant.answers template (started hoveredBox)).rule {} template.root = .ok raw →
      raw.get? (.name "color") ≠ some (.obj inner)) ∧
    ∃ spot : Spot (lendingPlant.answers template (started hoveredBox)) template.root ":hover",
      spot.words (.name "color") = [] ∧
      lendingPlant.Lends template (started hoveredBox) spot.request "color: red;" ∧
      c.styles.choice? (.name "color") (.name ":hover") = none := by
  have hcheck : ((Css.Template.read hoveredBox.template.segments hoveredBox.template.expressions).toOption.any
      fun template =>
        (template.root.nested.length == 1 && template.root.nested.all fun child =>
          decide (Css.Slot.indices child.selector = [] ∧
            Style.blocksOf {} child.selector = [({ conditions := [":hover"] }, [.name ":hover"])] ∧
            child.declarations = [⟨"", Css.Slot.markText 0⟩]) && child.nested.isEmpty) &&
        (((lendingPlant.answers template (started hoveredBox)).rule {} template.root).toOption.all fun raw =>
          (raw.get? (.name "color")).all fun value => !value.isObject) &&
        (template.slot? hoverRequest.index).any fun slot =>
          let classified := lendingPlant.classified slot hoverRequest
          decide (classified.tag = .helperCall ∧ classified.mixinName = none ∧
            classified.importSource = some "./mixins")) = true := by
    decide +kernel
  have hbuilt : ((build? lendingPlant hoveredBox).run
      { store := { component := started hoveredBox } }).1.toOption.any (fun c? => c?.any fun c =>
        (c.styles.choice? (.name "color") (.name ":hover")).isNone) = true := by
    decide +kernel
  obtain ⟨template, hread, hcheck⟩ := exists_of_any_toOption hcheck
  obtain ⟨hcheck, hslot⟩ := Bool.and_eq_true_iff.mp hcheck
  obtain ⟨hcheck, hfree⟩ := Bool.and_eq_true_iff.mp hcheck
  obtain ⟨slot, hslot, hclassified⟩ := (Option.any_eq_true _ _).mp hslot
  obtain ⟨htag, hmixin, hsource⟩ := of_decide_eq_true hclassified
  obtain ⟨spot, hspot, hwords⟩ : ∃ spot : Spot (lendingPlant.answers template (started hoveredBox)) template.root
      ":hover", spot.slot = ⟨"", Css.Slot.markText 0⟩ ∧ ∀ property, spot.words property = [] := by
    obtain ⟨hone, hall⟩ := Bool.and_eq_true_iff.mp hcheck
    obtain ⟨child, hnested⟩ := List.length_eq_one_iff.mp (beq_iff_eq.mp hone)
    rw [hnested, List.all_cons, List.all_nil, Bool.and_true] at hall
    obtain ⟨hchild, hflat⟩ := Bool.and_eq_true_iff.mp hall
    obtain ⟨hselector, hblocks, hdeclarations⟩ := of_decide_eq_true hchild
    exact exists_lone_spot _ hnested (List.isEmpty_iff.mp hflat) hselector hblocks hdeclarations (by decide)
  cases hrun : (build? lendingPlant hoveredBox).run { store := { component := started hoveredBox } } with
  | mk result s' =>
      rw [hrun] at hbuilt
      obtain ⟨c?, rfl, hc⟩ := exists_of_any_toOption hbuilt
      obtain ⟨c, rfl, hlost⟩ := (Option.any_eq_true _ _).mp hc
      refine ⟨template, c, s', hread, rfl, fun raw inner hraw hinner => ?_, spot, hwords _, ?_,
        Option.isNone_iff_eq_none.mp hlost⟩
      · rw [hraw] at hfree
        simp only [Except.toOption, Option.all_some, hinner] at hfree
        cases hfree
      · have hrequest : spot.request = hoverRequest := by rw [Spot.request, hspot, hoverRequest]
        rw [hrequest]
        exact lends_ring hslot htag hmixin hsource

/-- What is lent to the hovered box is dropped and reported. -/
theorem lent_dropped_hoveredBox : ∃ template c s',
    Css.Template.read hoveredBox.template.segments hoveredBox.template.expressions = .ok template ∧
    (build? lendingPlant hoveredBox).run { store := { component := started hoveredBox } } = (.ok (some c), s') ∧
    c.styles.choice? (.name "color") (.name ":hover") = none ∧
    droppedReport (some ⟨1, 1⟩) ":hover color" ∈ s'.diagnostics.items := by
  obtain ⟨template, c, s', hread, hbuild, hfree, spot, hwords, hlends, -⟩ := exists_spot_hoveredBox
  obtain ⟨sheet, value, hsheet, hlent⟩ := exists_plainSheet_red
  have hlost := (lent_kept_iff hread hbuild (.of_silent rfl rfl) spot hlends hsheet (by decide) hlent
    hfree).2 hwords
  exact ⟨template, c, s', hread, hbuild, hlost⟩

/--
Helper styles under a condition survive: each value that a helper lends to the block of a condition is the
value of its property under the condition, and nothing is dropped there.
-/
def Plant.KeepsLent (plant : Plant) (d : Module.StyledDeclaration) (s : Session Workshop) : Prop :=
  ∀ template c s' condition css sheet,
    Css.Template.read d.template.segments d.template.expressions = .ok template →
    (build? plant d).run s = (.ok (some c), s') →
    ∀ spot : Spot (plant.answers template (started d)) template.root condition,
      plant.Lends template (started d) spot.request css → PlainSheet css sheet →
      ∀ property value, (lentBy sheet).get? property = some value →
        c.styles.choice? property (.name condition) = some value ∧
          droppedReport (some d.location) (condition ++ " " ++ property.text) ∉ s'.diagnostics.items

/-- The hovered box does not become red, and the color is reported as dropped. -/
theorem not_keepsLent_hoveredBox :
    ¬ lendingPlant.KeepsLent hoveredBox { store := { component := started hoveredBox } } := by
  intro h
  obtain ⟨template, c, s', hread, hbuild, -, spot, -, hlends, hlost⟩ := exists_spot_hoveredBox
  obtain ⟨sheet, value, hsheet, hlent⟩ := exists_plainSheet_red
  obtain ⟨hkept, -⟩ := h template c s' ":hover" _ sheet hread hbuild spot hlends hsheet _ value hlent
  cases hlost.symm.trans hkept

end Restyle.Component
