import Restyle.Plan.Planner
import Restyle.Proofs.Backing
import Restyle.Proofs.Completion
import Restyle.Proofs.Reading

/-!
# References into the registry

Plans name the entries of the registry by their keys.  A registry in which no two recorded entries have
the same key is the plain sequence of these entries, and then every argument and every rule of a plan
names the entry that its component has recorded.  Where two entries share a key, one is merged into the
other or takes its place.
-/

namespace Restyle.Registry

open Restyle.Component (DynamicEntry)
open Restyle.Style (Object)

/-! ## Collecting entries -/

/-- The entries that mixins and components have recorded, one after the other. -/
def recorded (mixins : Table Object) (arena : Arena) : Except Fault (Table RegistryEntry) := do
  let entries ← arena.values.mapM entriesOf
  return mixins.map (fun (key, o) => (key, RegistryEntry.styles o)) ++ entries.flatten

/-- A registry with further entries. -/
def addAll (r : Registry) (entries : Table RegistryEntry) : Registry :=
  entries.foldl (fun r (key, entry) => r.add key entry) r

theorem ofComponents_eq (mixins : Table Object) (arena : Arena) :
    ofComponents mixins arena = (recorded mixins arena).map (addAll []) := by
  unfold ofComponents recorded
  cases arena.values.mapM entriesOf <;> rfl

theorem add_of_not_mem {r : Registry} {key : String} (h : key ∉ Table.names r)
    (entry : RegistryEntry) : r.add key entry = r ++ [(key, entry)] := by
  have hnone := (Table.get?_eq_none_iff r key).mpr h
  unfold add
  rw [hnone]
  exact Table.set_of_not_mem h entry

theorem nodup_names_add {r : Registry} (h : (Table.names r).Nodup) (key : String)
    (entry : RegistryEntry) : (Table.names (r.add key entry)).Nodup := by
  unfold add
  split <;> exact Table.nodup_names_set h _ _

theorem nodup_names_addAll (entries : Table RegistryEntry) {r : Registry}
    (h : (Table.names r).Nodup) : (Table.names (r.addAll entries)).Nodup := by
  induction entries generalizing r with
  | nil => exact h
  | cons entry entries ih => exact ih (nodup_names_add h entry.1 entry.2)

/-- Entries with keys of their own are added one after the other. -/
theorem addAll_of_nodup (entries : Table RegistryEntry) {r : Registry}
    (h : (Table.names (r ++ entries)).Nodup) : r.addAll entries = r ++ entries := by
  induction entries generalizing r with
  | nil => exact (List.append_nil r).symm
  | cons entry entries ih =>
      obtain ⟨key, entry⟩ := entry
      have hfresh : key ∉ Table.names r := by
        intro hmem
        rw [Table.names, List.map_append] at h
        exact (List.nodup_append.mp h).2.2 key hmem key List.mem_cons_self rfl
      have hsplit : r ++ (key, entry) :: entries = (r ++ [(key, entry)]) ++ entries := by
        rw [List.append_assoc]
        rfl
      rw [hsplit] at h ⊢
      rw [← ih h]
      show addAll (r.add key entry) entries = _
      rw [add_of_not_mem hfresh]

/-- Entries are kept apart exactly when their keys are distinct. -/
theorem addAll_eq_iff (entries : Table RegistryEntry) :
    addAll [] entries = entries ↔ entries.names.Nodup := by
  constructor
  · intro h
    rw [← h]
    exact nodup_names_addAll entries List.nodup_nil
  · exact fun h => addAll_of_nodup (r := []) entries h

/-! ## The entries of a component -/

/-- Every key of a row of properties is that of a style function. -/
theorem key_mem_functions {entries : List DynamicEntry} {functions done : Table StyleFunction}
    (h : entries.foldlM addFunction functions = .ok done) :
    (∀ key ∈ functions.names, key ∈ done.names) ∧ ∀ e ∈ entries, e.key ∈ done.names := by
  induction entries generalizing functions with
  | nil =>
      cases h
      exact ⟨fun _ hkey => hkey, List.forall_mem_nil _⟩
  | cons e entries ih =>
      rw [List.foldlM_cons] at h
      cases he : addFunction functions e with
      | error f =>
          rw [he] at h
          cases h
      | ok next =>
          rw [he] at h
          obtain ⟨hold, hnew⟩ := ih h
          obtain ⟨body, -, rfl⟩ := addFunction_eq_ok he
          have hkept : ∀ key, key = e.key ∨ key ∈ functions.names → key ∈ done.names :=
            fun key hkey => hold key ((Table.mem_names_set _ _ _ _).mpr hkey)
          refine ⟨fun key hkey => hkept key (.inr hkey), fun x hx => ?_⟩
          rcases List.mem_cons.mp hx with rfl | hx
          · exact hkept _ (.inl rfl)
          · exact hnew x hx

/-- What an entry of a component is recorded for. -/
inductive Source where
  /-- The styles that always hold. -/
  | base
  /-- A selector or a rule that names a further entry. -/
  | extra (key : String)
  /-- A value of a prop. -/
  | variant (branch : Interpolation.Branch)
  /-- A value that is computed from a prop. -/
  | function (entry : DynamicEntry)

/-- The key for a source of a component. -/
def Source.key (c : Component) : Source → String
  | .base => c.styleKey
  | .extra key => key
  | .variant branch => branch.name
  | .function entry => entry.key

/-- What a component records for a source: a function for a computed value, styles for all others. -/
inductive Records (c : Component) : Source → RegistryEntry → Prop where
  | base : c.hasBaseEntry = true → Records c .base (.styles c.styles)
  | extra {key : String} {o : Object} :
      c.extraStyles.get? key = some o → Records c (.extra key) (.styles o)
  | variant {branch : Interpolation.Branch} :
      branch ∈ c.variants → branch.styles.isEmpty = false →
      Records c (.variant branch) (.styles branch.styles)
  | function {entry : DynamicEntry} {functions : Table StyleFunction} {f : StyleFunction} :
      functionsOf c.dynamicEntries = .ok functions → functions.get? entry.key = some f →
      Records c (.function entry) (.function f)

theorem entriesOf_eq_ok {c : Component} {entries : Table RegistryEntry} (h : entriesOf c = .ok entries) :
    ∃ functions, functionsOf c.dynamicEntries = .ok functions := by
  cases hfunctions : functionsOf c.dynamicEntries with
  | ok functions => exact ⟨functions, rfl⟩
  | error f =>
      unfold entriesOf at h
      rw [hfunctions] at h
      cases h

/-- What a component records is among its entries. -/
theorem Records.mem {c : Component} {source : Source} {entry : RegistryEntry}
    (h : Records c source entry) {entries : Table RegistryEntry} (hentries : entriesOf c = .ok entries) :
    (source.key c, entry) ∈ entries := by
  obtain ⟨functions, hfunctions⟩ := entriesOf_eq_ok hentries
  unfold entriesOf at hentries
  rw [hfunctions] at hentries
  cases hentries
  have hown : ∀ {base extras : Table RegistryEntry} {x}, x ∈ base ∨ x ∈ extras →
      x ∈ if c.hasSiblingPattern then extras ++ base else base ++ extras := by
    intro base extras x hx
    split
    · exact List.mem_append.mpr hx.symm
    · exact List.mem_append.mpr hx
  simp only [List.mem_append]
  cases h with
  | base hbase =>
      refine .inl (.inl (hown (.inl ?_)))
      rw [if_pos hbase]
      exact List.mem_singleton.mpr rfl
  | extra hextra =>
      refine .inl (.inl (hown (.inr ?_)))
      exact List.mem_map.mpr ⟨_, Table.mem_of_get? hextra, rfl⟩
  | @variant branch hmem hstyles =>
      refine .inl (.inr (List.mem_map.mpr ⟨branch, List.mem_filter.mpr ⟨hmem, ?_⟩, rfl⟩))
      rw [hstyles]
      rfl
  | function hfunctions' hget =>
      cases hfunctions.symm.trans hfunctions'
      exact .inr (List.mem_map.mpr ⟨_, Table.mem_of_get? hget, rfl⟩)

theorem exists_entriesOf {mixins : Table Object} {arena : Arena} {entries : Table RegistryEntry}
    (h : recorded mixins arena = .ok entries) {c : Component} (hc : c ∈ arena.values) :
    ∃ own, entriesOf c = .ok own ∧ ∀ entry ∈ own, entry ∈ entries := by
  unfold recorded at h
  cases hlists : arena.values.mapM entriesOf with
  | error f =>
      rw [hlists] at h
      cases h
  | ok lists =>
      rw [hlists] at h
      cases h
      obtain ⟨own, hmem, hown⟩ := exists_of_mapM_eq_ok hlists hc
      refine ⟨own, hown, fun entry hentry => ?_⟩
      exact List.mem_append_right _ (List.mem_flatten.mpr ⟨own, hmem, hentry⟩)

/-- An entry that a component has recorded for a source is in a registry, under the key for it. -/
def Resolves (r : Registry) (c : Component) (source : Source) : Prop :=
  ∃ entry, Records c source entry ∧ r.get? (source.key c) = some entry

/-- The entries of mixins and components have distinct keys. -/
def DistinctKeys (mixins : Table Object) (arena : Arena) : Prop :=
  ∀ entries, recorded mixins arena = .ok entries → entries.names.Nodup

/-- The registry is the sequence of the recorded entries exactly when their keys are distinct. -/
theorem recorded_eq_iff {mixins : Table Object} {arena : Arena} {r : Registry}
    (h : ofComponents mixins arena = .ok r) :
    recorded mixins arena = .ok r ↔ DistinctKeys mixins arena := by
  rw [ofComponents_eq] at h
  unfold DistinctKeys
  cases hrecorded : recorded mixins arena with
  | error f =>
      rw [hrecorded] at h
      cases h
  | ok entries =>
      rw [hrecorded] at h
      cases h
      constructor
      · intro hsame entries' hentries'
        cases hentries'
        exact (addAll_eq_iff entries).mp (Except.ok.inj hsame).symm
      · intro hdistinct
        rw [(addAll_eq_iff entries).mpr (hdistinct entries rfl)]

/-- Under distinct keys, what a component has recorded is found wherever its entries are. -/
theorem Records.resolves {c : Component} {source : Source} {entry : RegistryEntry}
    (h : Records c source entry) {own : Table RegistryEntry} (hown : entriesOf c = .ok own)
    {r : Registry} (hnodup : (Table.names r).Nodup) (hsub : ∀ entry ∈ own, entry ∈ r) :
    r.Resolves c source :=
  ⟨entry, h, Table.get?_of_mem hnodup (hsub _ (h.mem hown))⟩

end Restyle.Registry

namespace Restyle.Plan

open Restyle.Component (AttributeSelector DynamicEntry)
open Restyle.Registry (DistinctKeys Records Resolves Source)
open Restyle.Style (Object)

/-! ## The arguments of a plan -/

/-- The bases that a component takes over, the farthest first. -/
def flattened (arena : Arena) : Nat → List String → Component → List Component
  | 0, _, _ => []
  | n + 1, seen, c =>
    match localBase? arena c with
    | none => []
    | some base =>
      if seen.contains base.name || base.needsWrapper then []
      else flattened arena n (base.name :: seen) base ++ [base]

/-- The bases that a component takes over, and the component itself. -/
def lineage (arena : Arena) (c : Component) : List Component :=
  flattened arena (arena.length + 1) [c.name] c ++ [c]

/-- What an argument of a plan passes: code from elsewhere, or an entry of a component. -/
inductive Argument where
  | code (expression : String)
  | entry (owner : Component) (source : Source) (guard : Option String)

/-- The expression for an entry of a component. -/
def sourceExpression (b : Basis) (owner : Component) : Source → String
  | .function e => b.stylesName ++ "." ++ e.key ++ "(" ++ e.propName ++ ")"
  | source => b.stylesName ++ "." ++ source.key owner

/-- An argument as it is written. -/
def Argument.written (b : Basis) : Argument → StyleArg
  | .code expression => { expression }
  | .entry owner source guard => { expression := sourceExpression b owner source, guard }

/-- The arguments that a component brings along under all circumstances. -/
def ownArguments (b : Basis) (c : Component) : List Argument :=
  c.mixinRefs.map .code ++ (if c.hasBaseEntry then [.entry c .base none] else []) ++
    (if c.needsDefaultMarker then [.code (b.library ++ ".defaultMarker()")] else [])

/-- The argument for an attribute selector; `none` when a fixed value fails its test. -/
def attributeArgument? (attrs : Table String) (c : Component) (s : AttributeSelector) :
    Option Argument :=
  match (attrs.get? s.attr).bind fixedText? with
  | some value =>
    if attributeMatches s value then some (.entry c (.extra s.styleKey) none) else none
  | none => some (.entry c (.extra s.styleKey) (some (attributeGuard s)))

/-- The arguments of a plan with the entries that they pass. -/
def arguments (b : Basis) (arena : Arena) (p : ComponentPlan) : List Argument :=
  let c := p.component
  (lineage arena c).flatMap (ownArguments b) ++
    c.attributeSelectors.filterMap (attributeArgument? p.staticAttrs c) ++
    c.siblingSelectors.map (fun s => .entry c (.extra s.styleKey) (some s.propName)) ++
    (c.variants.filter fun v => !v.styles.isEmpty).map (fun v => .entry c (.variant v) (some v.guard)) ++
    (firstByKey c.dynamicEntries).map fun e =>
      .entry c (.function e) (if e.fallback.isNull then some (e.propName ++ " != null") else none)

theorem map_ownArguments (b : Basis) (c : Component) :
    (ownArguments b c).map (Argument.written b) = ownArgs b c := by
  unfold ownArguments ownArgs
  simp only [List.map_append, List.map_map]
  congr 1
  · congr 1
    split <;> rfl
  · split <;> rfl

theorem follow_eq (b : Basis) (arena : Arena) (n : Nat) (seen : List String) (r : Resolved) :
    (follow b arena n seen r).inherited =
        (flattened arena n seen r.last).flatMap (ownArgs b) ++ r.inherited ∧
      (follow b arena n seen r).rules =
        (flattened arena n seen r.last).flatMap (·.elementRules) ++ r.rules := by
  induction n generalizing seen r with
  | zero => exact ⟨rfl, rfl⟩
  | succ n ih =>
      rw [follow, flattened]
      cases localBase? arena r.last with
      | none => exact ⟨rfl, rfl⟩
      | some base =>
          dsimp only
          split
          · exact ⟨rfl, rfl⟩
          · obtain ⟨hinherited, hrules⟩ := ih (base.name :: seen) _
            rw [hinherited, hrules]
            simp

theorem map_attributeArgument? (b : Basis) (attrs : Table String) (c : Component)
    (s : AttributeSelector) :
    (attributeArgument? attrs c s).map (Argument.written b) = attributeArg? b attrs s := by
  unfold attributeArgument? attributeArg?
  cases (attrs.get? s.attr).bind fixedText? with
  | none => rfl
  | some value =>
      dsimp only
      split <;> rfl

/-- The arguments of a plan are written in order. -/
theorem styleArgs_planComponent (b : Basis) (arena : Arena) (c : Component) :
    (planComponent b arena c).styleArgs =
      (arguments b arena (planComponent b arena c)).map (Argument.written b) := by
  obtain ⟨hinherited, -⟩ := follow_eq b arena (arena.length + 1) [c.name]
    { last := c, attrs := c.staticAttrs, rules := c.elementRules }
  unfold arguments planComponent lineage
  dsimp only
  rw [hinherited]
  simp only [List.map_append, List.map_flatMap, map_ownArguments, List.map_filterMap,
    map_attributeArgument?, List.map_map, List.flatMap_append, List.flatMap_singleton,
    List.append_nil]
  rfl

/-- The rules of a plan are those of the component and of the bases that it takes over. -/
theorem elementRules_planComponent (b : Basis) (arena : Arena) (c : Component) :
    (planComponent b arena c).elementRules = (lineage arena c).flatMap (·.elementRules) := by
  obtain ⟨-, hrules⟩ := follow_eq b arena (arena.length + 1) [c.name]
    { last := c, attrs := c.staticAttrs, rules := c.elementRules }
  unfold planComponent lineage
  dsimp only
  rw [hrules]
  simp

/-! ## Settled components -/

/-- Settling marks components and changes nothing else of them. -/
theorem settle_frame {b : Basis} {arena : Arena} {c : Component} (h : c ∈ (settle b arena).values) :
    ∃ original ∈ arena.values, ∃ supportsAs needsWrapper,
      c = { original with supportsAs, needsWrapper } := by
  obtain ⟨⟨name, c'⟩, hentry, rfl⟩ := List.mem_map.mp h
  obtain ⟨⟨name', original⟩, hmem, heq⟩ := List.mem_map.mp hentry
  cases heq
  exact ⟨original, List.mem_map_of_mem hmem, _, _, rfl⟩

theorem backed_settle {b : Basis} {arena : Arena} (h : arena.All Component.Backed) {c : Component}
    (hc : c ∈ (settle b arena).values) : c.Backed := by
  obtain ⟨original, hmem, _, _, rfl⟩ := settle_frame hc
  obtain ⟨entry, hentry, rfl⟩ := List.mem_map.mp hmem
  exact h entry hentry

theorem exists_entriesOf_settle {b : Basis} {mixins : Table Object} {arena : Arena} {r : Registry}
    (h : Registry.recorded mixins arena = .ok r) {c : Component} (hc : c ∈ (settle b arena).values) :
    ∃ own, Registry.entriesOf c = .ok own ∧ ∀ entry ∈ own, entry ∈ r := by
  obtain ⟨original, hmem, _, _, rfl⟩ := settle_frame hc
  have horiginal := Registry.exists_entriesOf h hmem
  exact horiginal

theorem mem_planAll {b : Basis} {arena : Arena} {p : ComponentPlan}
    (h : p ∈ (planAll b arena).values) :
    ∃ c ∈ (settle b arena).values, p = planComponent b (settle b arena) c := by
  obtain ⟨⟨name, p'⟩, hentry, rfl⟩ := List.mem_map.mp h
  obtain ⟨⟨name', c⟩, hmem, heq⟩ := List.mem_map.mp hentry
  cases heq
  exact ⟨c, List.mem_map_of_mem hmem, rfl⟩

theorem mem_flattened {arena : Arena} {n : Nat} {seen : List String} {c owner : Component}
    (h : owner ∈ flattened arena n seen c) : owner ∈ arena.values := by
  induction n generalizing seen c with
  | zero => cases h
  | succ n ih =>
      rw [flattened] at h
      cases hbase : localBase? arena c with
      | none =>
          rw [hbase] at h
          cases h
      | some base =>
          rw [hbase] at h
          dsimp only at h
          split at h
          · cases h
          · rcases List.mem_append.mp h with h | h
            · exact ih h
            · cases List.mem_singleton.mp h
              unfold localBase? at hbase
              split at hbase
              · cases hbase
              · exact List.mem_map.mpr ⟨_, Table.mem_of_get? hbase, rfl⟩

theorem mem_lineage {arena : Arena} {c owner : Component} (hc : c ∈ arena.values)
    (h : owner ∈ lineage arena c) : owner ∈ arena.values := by
  rcases List.mem_append.mp h with h | h
  · exact mem_flattened h
  · cases List.mem_singleton.mp h
    exact hc

theorem mem_firstByKey {entries : List DynamicEntry} {e : DynamicEntry}
    (h : e ∈ firstByKey entries) : e ∈ entries := by
  have hloop : ∀ kept : List DynamicEntry, e ∈ entries.foldl
      (fun kept e => if kept.any fun k => k.key == e.key then kept else kept ++ [e]) kept →
      e ∈ kept ∨ e ∈ entries := by
    clear h
    induction entries with
    | nil => exact fun kept h => .inl h
    | cons first rest ih =>
        intro kept h
        rw [List.foldl_cons] at h
        rcases ih _ h with h | h
        · split at h
          · exact .inl h
          · rcases List.mem_append.mp h with h | h
            · exact .inl h
            · exact .inr (List.mem_cons.mpr (.inl (List.mem_singleton.mp h)))
        · exact .inr (List.mem_cons_of_mem _ h)
  rcases hloop [] h with h | h
  · cases h
  · exact h

/-! ## Arguments and rules that are found -/

/-- A backed component has recorded what its selectors and rules name. -/
theorem records_extra {c : Component} (h : c.Backed) {key : String} (hkey : key ∈ c.pointers) :
    ∃ entry, Records c (.extra key) entry := by
  obtain ⟨o, ho⟩ := Table.exists_get?_of_mem_names (h key hkey)
  exact ⟨_, .extra ho⟩

theorem records_base {b : Basis} {c owner : Component} {source : Source} {guard : Option String}
    (h : Argument.entry owner source guard ∈ ownArguments b c) :
    owner = c ∧ ∃ entry, Records c source entry := by
  unfold ownArguments at h
  simp only [List.mem_append, List.mem_map, reduceCtorEq, and_false, exists_false, false_or] at h
  rcases h with h | h
  · split at h
    · next hbase =>
        cases List.mem_singleton.mp h
        exact ⟨rfl, _, .base hbase⟩
    · cases h
  · split at h
    · cases List.mem_singleton.mp h
    · cases h

theorem records_attribute {attrs : Table String} {c owner : Component} (hbacked : c.Backed)
    {s : AttributeSelector} (hs : s ∈ c.attributeSelectors) {source : Source} {guard : Option String}
    (h : attributeArgument? attrs c s = some (.entry owner source guard)) :
    owner = c ∧ ∃ entry, Records c source entry := by
  have hkey : s.styleKey ∈ c.pointers :=
    List.mem_append_left _ (List.mem_append_left _ (List.mem_map_of_mem hs))
  unfold attributeArgument? at h
  split at h
  · split at h
    · cases h
      exact ⟨rfl, records_extra hbacked hkey⟩
    · cases h
  · cases h
    exact ⟨rfl, records_extra hbacked hkey⟩

theorem records_function {c : Component} {own : Table RegistryEntry}
    (hown : Registry.entriesOf c = .ok own) {e : DynamicEntry} (he : e ∈ c.dynamicEntries) :
    ∃ entry, Records c (.function e) entry := by
  obtain ⟨functions, hfunctions⟩ := Registry.entriesOf_eq_ok hown
  have hkey : e.key ∈ functions.names :=
    (Registry.key_mem_functions ((Registry.functionsOf_eq _).symm.trans hfunctions)).2 e he
  obtain ⟨f, hf⟩ := Table.exists_get?_of_mem_names hkey
  exact ⟨_, .function hfunctions hf⟩

/-- The owner of an entry that an argument passes has recorded it. -/
theorem records_of_mem_arguments {b : Basis} {arena : Arena} {p : ComponentPlan}
    (hp : p.component ∈ arena.values) (hbacked : p.component.Backed) {own : Table RegistryEntry}
    (hown : Registry.entriesOf p.component = .ok own) {owner : Component} {source : Source}
    {guard : Option String} (h : Argument.entry owner source guard ∈ arguments b arena p) :
    owner ∈ arena.values ∧ ∃ entry, Records owner source entry := by
  unfold arguments at h
  dsimp only at h
  simp only [List.mem_append, List.mem_flatMap, List.mem_filterMap, List.mem_map] at h
  rcases h with (((⟨c, hc, h⟩ | ⟨s, hs, h⟩) | ⟨s, hs, h⟩) | ⟨v, hv, h⟩) | ⟨e, he, h⟩
  · obtain ⟨rfl, hrecords⟩ := records_base h
    exact ⟨mem_lineage hp hc, hrecords⟩
  · obtain ⟨rfl, hrecords⟩ := records_attribute hbacked hs h
    exact ⟨hp, hrecords⟩
  · cases h
    refine ⟨hp, records_extra hbacked ?_⟩
    exact List.mem_append_left _ (List.mem_append_right _ (List.mem_map_of_mem hs))
  · cases h
    obtain ⟨hmem, hstyles⟩ := List.mem_filter.mp hv
    exact ⟨hp, _, .variant hmem (by simpa using hstyles)⟩
  · cases h
    exact ⟨hp, records_function hown (mem_firstByKey he)⟩

/-- The plans of components and the registry of their styles fit together. -/
structure Sound (b : Basis) (mixins : Table Object) (arena : Arena) (r : Registry) : Prop where
  /-- No entry is merged into another one or takes its place. -/
  separate : Registry.recorded mixins arena = .ok r
  /-- What an argument passes is found as its owner has recorded it. -/
  arguments : ∀ p ∈ (planAll b arena).values, ∀ owner source guard,
    Argument.entry owner source guard ∈ arguments b (settle b arena) p → r.Resolves owner source
  /-- So are the styles that a rule hands to other elements. -/
  rules : ∀ p ∈ (planAll b arena).values, ∀ owner ∈ lineage (settle b arena) p.component,
    ∀ rule ∈ owner.elementRules, r.Resolves owner (.extra rule.styleKey)

/-- With distinct keys, all arguments and rules of the plans of backed components are found. -/
theorem sound_of_distinctKeys {b : Basis} {mixins : Table Object} {arena : Arena} {r : Registry}
    (hbacked : arena.All Component.Backed) (hr : Registry.ofComponents mixins arena = .ok r)
    (hdistinct : DistinctKeys mixins arena) : Sound b mixins arena r := by
  have hseparate := (Registry.recorded_eq_iff hr).mpr hdistinct
  have hnodup := hdistinct r hseparate
  refine ⟨hseparate, fun p hp owner source guard h => ?_, fun p hp owner howner rule hrule => ?_⟩
  · obtain ⟨c, hc, rfl⟩ := mem_planAll hp
    obtain ⟨own, hown, -⟩ := exists_entriesOf_settle hseparate hc
    obtain ⟨hmem, entry, hrecords⟩ :=
      records_of_mem_arguments (p := planComponent b (settle b arena) c) hc
        (backed_settle hbacked hc) hown h
    obtain ⟨theirs, htheirs, hsub⟩ := exists_entriesOf_settle hseparate hmem
    exact hrecords.resolves htheirs hnodup hsub
  · obtain ⟨c, hc, rfl⟩ := mem_planAll hp
    have hmem := mem_lineage (c := c) hc howner
    obtain ⟨entry, hrecords⟩ := records_extra (backed_settle hbacked hmem)
      (List.mem_append_right _ (List.mem_map_of_mem hrule))
    obtain ⟨theirs, htheirs, hsub⟩ := exists_entriesOf_settle hseparate hmem
    exact hrecords.resolves htheirs hnodup hsub

/--
The plans of prepared components pass their own entries and those of the bases that they take over.  The
plans and the registry fit together exactly when no two recorded entries have the same key.
-/
theorem plans_sound_iff {arena : Arena} (hprepared : Conversion.Prepared arena)
    {mixins : Table Object} {r : Registry} (hr : Registry.ofComponents mixins arena = .ok r)
    (b : Basis) :
    (∀ p ∈ (planAll b arena).values,
        p.styleArgs = (arguments b (settle b arena) p).map (Argument.written b) ∧
          p.elementRules = (lineage (settle b arena) p.component).flatMap (·.elementRules)) ∧
      (Sound b mixins arena r ↔ DistinctKeys mixins arena) := by
  refine ⟨fun p hp => ?_, fun hsound => ?_, sound_of_distinctKeys hprepared.backed hr⟩
  · obtain ⟨c, -, rfl⟩ := mem_planAll hp
    exact ⟨styleArgs_planComponent b _ c, elementRules_planComponent b _ c⟩
  · exact (Registry.recorded_eq_iff hr).mp hsound.separate

/-! ## Two modules -/

/-- The prepared components of a module. -/
def preparedArena? (m : Module) : Option Arena :=
  match (Conversion.buildComponents (Conversion.plantOf {} m) (Conversion.declarationsOf m) []).run
      { store := Conversion.emptyWorkshop } with
  | (.ok built, _) =>
    match (Lowering.lowerAll {}).run { store := built.1 } with
    | (.ok _, t) => some t.store
    | (.error _, _) => none
  | (.error _, _) => none

theorem prepared_preparedArena? {m : Module} {arena : Arena} (h : preparedArena? m = some arena) :
    Conversion.Prepared arena := by
  unfold preparedArena? at h
  split at h
  · next built s hbuild =>
      split at h
      · next t hlower =>
          cases h
          exact .lowered hbuild rfl hlower
      · cases h
  · cases h

/-- What holds of the components of a module and of the entries that they have recorded. -/
def holdsOfModule (m : Module) (check : Arena → Table RegistryEntry → Bool) : Bool :=
  match preparedArena? m with
  | none => false
  | some arena =>
    match Registry.recorded [] arena with
    | .ok entries => check arena entries
    | .error _ => false

theorem exists_of_holdsOfModule {m : Module} {check : Arena → Table RegistryEntry → Bool}
    (h : holdsOfModule m check = true) :
    ∃ arena entries, Conversion.Prepared arena ∧ Registry.recorded [] arena = .ok entries ∧
      check arena entries = true := by
  unfold holdsOfModule at h
  split at h
  · cases h
  · next arena harena =>
      split at h
      · next entries hentries =>
          exact ⟨arena, entries, prepared_preparedArena? harena, hentries, h⟩
      · cases h

theorem ofComponents_of_recorded {arena : Arena} {entries : Table RegistryEntry}
    (h : Registry.recorded [] arena = .ok entries) :
    Registry.ofComponents [] arena = .ok (Registry.addAll [] entries) := by
  rw [Registry.ofComponents_eq, h]
  rfl

/-- A component with an attribute and a prop of different names. -/
def separateModule : String :=
  "import styled from \"styled-components\";\n" ++
    "const A = styled.a\x60&[title] \x7b color: red; \x7d width: $\x7bp => p.size\x7d;\x60;\n"

/-- The plans of the component with different names find its two entries. -/
theorem plans_sound_separateModule : ∃ arena r, Conversion.Prepared arena ∧
    Registry.ofComponents [] arena = .ok r ∧ r.names = ["aTitle", "aSize"] ∧ Sound {} [] arena r := by
  have hcheck : holdsOfModule (Module.read separateModule "f.tsx")
      (fun _ entries => decide (entries.names = ["aTitle", "aSize"])) = true := by
    rw [Module.read, Tsx.Source.read_eq_ofChars (show separateModule.toList = _ from
      Text.toList_append_of String.toList_ofList String.toList_ofList)]
    decide +kernel
  obtain ⟨arena, entries, hprepared, hentries, hnames⟩ := exists_of_holdsOfModule hcheck
  have hdistinct : DistinctKeys [] arena := by
    intro other hother
    cases hentries.symm.trans hother
    rw [of_decide_eq_true hnames]
    decide
  have hr := ofComponents_of_recorded hentries
  have hsound := (plans_sound_iff hprepared hr {}).2.mpr hdistinct
  rw [(Registry.addAll_eq_iff entries).mpr (hdistinct entries hentries)] at hr hsound
  exact ⟨arena, entries, hprepared, hr, of_decide_eq_true hnames, hsound⟩

/-- A component with an attribute and a prop of the same name. -/
def clashingModule : String :=
  "import styled from \"styled-components\";\n" ++
    "const A = styled.a\x60&[title] \x7b color: red; \x7d width: $\x7bp => p.title\x7d;\x60;\n"

/-- Some plan has an argument for an attribute whose key is that of a style function. -/
def passesFunction (b : Basis) (arena : Arena) (r : Registry) : Bool :=
  (settle b arena).values.any fun c =>
    c.attributeSelectors.any fun s =>
      (attributeArgument? (planComponent b (settle b arena) c).staticAttrs c s).isSome &&
        match r.get? s.styleKey with
        | some (.function _) => true
        | _ => false

/-- An argument for an attribute that names a style function does not find what it stands for. -/
theorem not_resolves_of_passesFunction {b : Basis} {arena : Arena} {r : Registry}
    (h : passesFunction b arena r = true) :
    ∃ p ∈ (planAll b arena).values, ∃ owner source guard,
      Argument.entry owner source guard ∈ arguments b (settle b arena) p ∧ ¬ r.Resolves owner source := by
  obtain ⟨c, hc, hselector⟩ := List.any_eq_true.mp h
  obtain ⟨s, hs, hboth⟩ := List.any_eq_true.mp hselector
  obtain ⟨harg, hfunction⟩ := Bool.and_eq_true_iff.mp hboth
  obtain ⟨argument, hargument⟩ := Option.isSome_iff_exists.mp harg
  obtain ⟨guard, rfl⟩ : ∃ guard, argument = .entry c (.extra s.styleKey) guard := by
    unfold attributeArgument? at hargument
    split at hargument
    · split at hargument
      · exact ⟨_, (Option.some.inj hargument).symm⟩
      · cases hargument
    · exact ⟨_, (Option.some.inj hargument).symm⟩
  have hp : planComponent b (settle b arena) c ∈ (planAll b arena).values := by
    obtain ⟨entry, hentry, rfl⟩ := List.mem_map.mp hc
    exact List.mem_map.mpr ⟨_, List.mem_map_of_mem hentry, rfl⟩
  refine ⟨_, hp, c, .extra s.styleKey, guard, ?_, ?_⟩
  · have hmem := List.mem_filterMap.mpr ⟨s, hs, hargument⟩
    unfold arguments
    exact List.mem_append_left _ (List.mem_append_left _ (List.mem_append_left _
      (List.mem_append_right _ hmem)))
  · rintro ⟨entry, hrecords, hget⟩
    -- The component has recorded styles, and the registry holds a function.
    cases hrecords
    have hkey : r.get? s.styleKey = some (.styles _) := hget
    rw [hkey] at hfunction
    cases hfunction

/-- The style function for the prop takes the place of the styles for the attribute. -/
theorem not_sound_clashingModule : ∃ arena r, Conversion.Prepared arena ∧
    Registry.ofComponents [] arena = .ok r ∧ ¬ Sound {} [] arena r ∧
    ∃ p ∈ (planAll {} arena).values, ∃ owner source guard,
      Argument.entry owner source guard ∈ arguments {} (settle {} arena) p ∧
        ¬ r.Resolves owner source := by
  have hcheck : holdsOfModule (Module.read clashingModule "f.tsx")
      (fun arena entries => passesFunction {} arena (Registry.addAll [] entries)) = true := by
    rw [Module.read, Tsx.Source.read_eq_ofChars (show clashingModule.toList = _ from
      Text.toList_append_of String.toList_ofList String.toList_ofList)]
    decide +kernel
  obtain ⟨arena, entries, hprepared, hentries, hpasses⟩ := exists_of_holdsOfModule hcheck
  have hmisses := not_resolves_of_passesFunction hpasses
  refine ⟨arena, _, hprepared, ofComponents_of_recorded hentries, fun hsound => ?_, hmisses⟩
  obtain ⟨p, hp, owner, source, guard, hmem, hnot⟩ := hmisses
  exact hnot (hsound.arguments p hp owner source guard hmem)

end Restyle.Plan
