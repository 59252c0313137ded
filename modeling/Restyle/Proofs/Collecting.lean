import Mathlib.Data.List.Nodup
import Restyle.Adapter.Imports

/-!
# Collected imports

The imports of a module are collected in one entry.  Of the names for the module itself the first one counts, and
of the exports that are asked for under one local name the first one too.  So nothing that is asked for is lost
exactly if the requests for a module agree with each other.
-/

namespace Restyle.Adapter

/-- What a local name is to stand for. -/
inductive Meaning where
  | wholeModule
  | exported (name : String)
  deriving DecidableEq, Repr

namespace ImportSpec

/-- The local names of a request, with what they are to stand for. -/
def bindings (spec : ImportSpec) : List (String × Meaning) :=
  (ImportSink.nameOf spec).toList.map (fun name => (name, .wholeModule)) ++
    spec.names.map fun n => (n.binding, .exported n.imported)

theorem mem_bindings_whole {spec : ImportSpec} {name : String} :
    (name, .wholeModule) ∈ spec.bindings ↔ ImportSink.nameOf spec = some name := by
  simp [bindings]

theorem mem_bindings_exported {spec : ImportSpec} {name imported : String} :
    (name, .exported imported) ∈ spec.bindings ↔
      ∃ n ∈ spec.names, n.binding = name ∧ n.imported = imported := by
  simp [bindings]

end ImportSpec

/-- Among items with distinct keys, the one with a given key is found. -/
theorem find?_eq_some_iff_of_nodup {α κ : Type} [DecidableEq κ] {key : α → κ} {items : List α}
    (h : (items.map key).Nodup) {k : κ} {a : α} :
    items.find? (fun b => key b == k) = some a ↔ a ∈ items ∧ key a = k := by
  constructor
  · intro hfind
    exact ⟨List.mem_of_find?_eq_some hfind, by simpa using List.find?_some hfind⟩
  · rintro ⟨hmem, hkey⟩
    have hsome : (items.find? fun b => key b == k).isSome = true := by
      rw [List.find?_isSome]
      exact ⟨a, hmem, beq_iff_eq.mpr hkey⟩
    obtain ⟨b, hfind⟩ := Option.isSome_iff_exists.mp hsome
    have hsame : key b = key a := by
      rw [hkey]
      simpa using List.find?_some hfind
    rw [hfind, List.inj_on_of_nodup_map h (List.mem_of_find?_eq_some hfind) hmem hsame]

namespace ImportSink

/-! ## Names without repetition -/

/-- Of several names with the same binding, the first one is found. -/
theorem find?_addNames (names more : List ImportName) (name : String) :
    (addNames names more).find? (fun n => n.binding == name) =
      (names ++ more).find? fun n => n.binding == name := by
  induction more generalizing names with
  | nil => rw [List.append_nil, addNames, List.foldl_nil]
  | cons n more ih =>
      rw [addNames, List.foldl_cons, ← addNames, ih]
      split
      · next hknown =>
          obtain ⟨known, hmem, heq⟩ := List.any_eq_true.mp hknown
          rw [List.find?_append, List.find?_append, List.find?_cons]
          split
          · next hname =>
              -- The name is bound already, so a name is found before `n`.
              have hfound : (names.find? fun n => n.binding == name).isSome = true := by
                rw [List.find?_isSome]
                exact ⟨known, hmem, beq_iff_eq.mpr ((eq_of_beq heq).trans (eq_of_beq hname))⟩
              obtain ⟨found, hfound⟩ := Option.isSome_iff_exists.mp hfound
              rw [hfound, Option.some_or, Option.some_or]
          · rfl
      · rw [List.append_assoc, List.singleton_append]

theorem nodup_addNames {names : List ImportName} (more : List ImportName)
    (h : (names.map (·.binding)).Nodup) : ((addNames names more).map (·.binding)).Nodup := by
  refine List.foldlRecOn (motive := fun names : List ImportName => (names.map (·.binding)).Nodup) more _ h
    fun found hfound n _ => ?_
  split
  · exact hfound
  · next hnew =>
      rw [List.map_append, List.map_singleton, ← List.concat_eq_append]
      refine hfound.concat fun hmem => hnew ?_
      obtain ⟨known, hknown, heq⟩ := List.mem_map.mp hmem
      exact List.any_eq_true.mpr ⟨known, hknown, beq_iff_eq.mpr heq⟩

/-! ## One more request -/

/-- The entry for a module after a request for it. -/
def merged (spec : ImportSpec) (known : Option ImportSpec) : ImportSpec :=
  { source := spec.source
    names := addNames ((known.map (·.names)).getD []) spec.names
    wholeName := (known.bind (·.wholeName)).or (nameOf spec) }

/-- Any entry after a request. -/
def updated (spec s : ImportSpec) : ImportSpec :=
  if s.source = spec.source then merged spec (some s) else s

@[simp] theorem source_updated (spec s : ImportSpec) : (updated spec s).source = s.source := by
  unfold updated
  split
  · next heq => exact heq.symm
  · rfl

theorem add_of_known {sink : ImportSink} {spec : ImportSpec} (h : spec.source ∈ sink.specs.map (·.source)) :
    sink.add spec = { specs := sink.specs.map (updated spec) } := by
  have hknown : (sink.specs.any fun s => s.source == spec.source) = true := by
    obtain ⟨known, hmem, heq⟩ := List.mem_map.mp h
    exact List.any_eq_true.mpr ⟨known, hmem, beq_iff_eq.mpr heq⟩
  rw [add, if_pos hknown]
  refine congrArg ImportSink.mk (List.map_congr_left fun s _ => ?_)
  unfold updated
  by_cases hs : s.source = spec.source
  · rw [if_pos hs, if_pos (beq_iff_eq.mpr hs), merged, ← hs]
    rfl
  · rw [if_neg hs, if_neg (by simpa using hs)]

theorem add_of_new {sink : ImportSink} {spec : ImportSpec} (h : spec.source ∉ sink.specs.map (·.source)) :
    sink.add spec = { specs := sink.specs ++ [merged spec none] } := by
  have hnew : ¬ (sink.specs.any fun s => s.source == spec.source) = true := by
    intro hknown
    obtain ⟨known, hmem, heq⟩ := List.any_eq_true.mp hknown
    exact h (List.mem_map.mpr ⟨known, hmem, eq_of_beq heq⟩)
  rw [add, if_neg hnew]
  rfl

/-- The entry for a module. -/
def entryFor? (sink : ImportSink) (source : ImportSource) : Option ImportSpec :=
  sink.specs.find? fun s => s.source == source

/-- A request changes the entry for its own module, and no other one. -/
theorem entryFor?_add (sink : ImportSink) (spec : ImportSpec) (source : ImportSource) :
    (sink.add spec).entryFor? source =
      if spec.source = source then some (merged spec (sink.entryFor? source)) else sink.entryFor? source := by
  by_cases hknown : spec.source ∈ sink.specs.map (·.source)
  · have hsources : ((fun s : ImportSpec => s.source == source) ∘ updated spec) = fun s => s.source == source := by
      funext s
      rw [Function.comp_apply, source_updated]
    rw [add_of_known hknown, entryFor?, entryFor?, List.find?_map, hsources]
    cases hfind : sink.specs.find? fun s => s.source == source with
    | none =>
        obtain ⟨known, hmem, heq⟩ := List.mem_map.mp hknown
        rw [if_neg, Option.map_none]
        rintro rfl
        exact List.find?_eq_none.mp hfind known hmem (beq_iff_eq.mpr heq)
    | some s =>
        obtain rfl : s.source = source := by simpa using List.find?_some hfind
        rw [Option.map_some, updated]
        by_cases hs : s.source = spec.source
        · rw [if_pos hs, if_pos hs.symm]
        · rw [if_neg hs, if_neg (Ne.symm hs)]
  · rw [add_of_new hknown, entryFor?, entryFor?, List.find?_append, List.find?_cons, List.find?_nil]
    by_cases hspec : spec.source = source
    · have hnone : (sink.specs.find? fun s => s.source == source) = none := by
        rw [List.find?_eq_none]
        intro s hs heq
        exact hknown (List.mem_map.mpr ⟨s, hs, (eq_of_beq heq).trans hspec.symm⟩)
      rw [hnone, if_pos hspec, merged, beq_iff_eq.mpr hspec]
      rfl
    · rw [if_neg hspec, merged, beq_eq_false_iff_ne.mpr hspec, Option.or_none]

/-! ## Well-formed collections -/

/-- The local names of an entry are distinct, and the name for the module itself is not empty. -/
structure TidyEntry (s : ImportSpec) : Prop where
  distinct : (s.names.map (·.binding)).Nodup
  named : nameOf s = s.wholeName

/-- Every module has one entry, and the entries are tidy. -/
structure Tidy (sink : ImportSink) : Prop where
  sources : (sink.specs.map (·.source)).Nodup
  entries : ∀ s ∈ sink.specs, TidyEntry s

theorem tidyEntry_new (spec : ImportSpec) : TidyEntry (merged spec none) where
  distinct := nodup_addNames spec.names List.nodup_nil
  named := by simp [merged, nameOf, Option.filter_filter]

theorem TidyEntry.updated {s : ImportSpec} (h : TidyEntry s) (spec : ImportSpec) : TidyEntry (updated spec s) := by
  unfold ImportSink.updated
  split
  · refine ⟨nodup_addNames spec.names h.distinct, ?_⟩
    have hnamed := h.named
    unfold nameOf at hnamed
    unfold merged nameOf
    cases hwhole : s.wholeName with
    | none => simp [hwhole, Option.filter_filter]
    | some name =>
        rw [hwhole] at hnamed
        simpa [hwhole] using hnamed
  · exact h

theorem Tidy.add {sink : ImportSink} (h : sink.Tidy) (spec : ImportSpec) : (sink.add spec).Tidy := by
  by_cases hknown : spec.source ∈ sink.specs.map (·.source)
  · rw [add_of_known hknown]
    constructor
    · rw [List.map_map]
      have hsources : ((fun s : ImportSpec => s.source) ∘ ImportSink.updated spec) = fun s => s.source :=
        funext (source_updated spec)
      rw [hsources]
      exact h.sources
    · intro s hs
      obtain ⟨known, hmem, rfl⟩ := List.mem_map.mp hs
      exact (h.entries known hmem).updated spec
  · rw [add_of_new hknown]
    constructor
    · rw [List.map_append, List.map_singleton, ← List.concat_eq_append]
      exact h.sources.concat hknown
    · intro s hs
      rcases List.mem_append.mp hs with hs | hs
      · exact h.entries s hs
      · exact List.mem_singleton.mp hs ▸ tidyEntry_new spec

theorem tidy_extend (requests : List ImportSpec) : (({} : ImportSink).extend requests).Tidy :=
  List.foldlRecOn requests _ ⟨List.nodup_nil, nofun⟩ fun _ hsink spec _ => hsink.add spec

/-! ## What is collected for a module -/

/-- The names that are collected for a module. -/
def namesFor (sink : ImportSink) (source : ImportSource) : List ImportName :=
  ((sink.entryFor? source).map (·.names)).getD []

/-- The name that is collected for a module itself. -/
def wholeFor (sink : ImportSink) (source : ImportSource) : Option String :=
  (sink.entryFor? source).bind (·.wholeName)

/-- The requests for a module. -/
def requestsFor (requests : List ImportSpec) (source : ImportSource) : List ImportSpec :=
  requests.filter fun spec => spec.source == source

theorem requestsFor_cons (spec : ImportSpec) (requests : List ImportSpec) (source : ImportSource) :
    requestsFor (spec :: requests) source =
      if spec.source = source then spec :: requestsFor requests source else requestsFor requests source := by
  simp [requestsFor, List.filter_cons]

theorem mem_requestsFor {requests : List ImportSpec} {source : ImportSource} {spec : ImportSpec} :
    spec ∈ requestsFor requests source ↔ spec ∈ requests ∧ spec.source = source := by
  simp [requestsFor]

theorem extend_cons (sink : ImportSink) (spec : ImportSpec) (requests : List ImportSpec) :
    sink.extend (spec :: requests) = (sink.add spec).extend requests :=
  rfl

/-- The first name that is asked for a module itself is collected. -/
theorem wholeFor_extend (sink : ImportSink) (requests : List ImportSpec) (source : ImportSource) :
    (sink.extend requests).wholeFor source =
      (sink.wholeFor source).or ((requestsFor requests source).findSome? nameOf) := by
  induction requests generalizing sink with
  | nil => exact Option.or_none.symm
  | cons spec requests ih =>
      rw [extend_cons, ih, wholeFor, entryFor?_add, requestsFor_cons]
      split
      · rw [Option.bind_some, merged, Option.or_assoc, List.findSome?_cons, wholeFor]
        cases nameOf spec <;> rfl
      · rfl

/-- Under a local name, the first export that is asked for is collected. -/
theorem find?_namesFor_extend (sink : ImportSink) (requests : List ImportSpec) (source : ImportSource)
    (name : String) :
    ((sink.extend requests).namesFor source).find? (fun n => n.binding == name) =
      (sink.namesFor source ++ (requestsFor requests source).flatMap (·.names)).find?
        fun n => n.binding == name := by
  induction requests generalizing sink with
  | nil =>
      rw [requestsFor, List.filter_nil, List.flatMap_nil, List.append_nil]
      rfl
  | cons spec requests ih =>
      rw [extend_cons, ih, namesFor, entryFor?_add, requestsFor_cons]
      split
      · rw [Option.map_some, Option.getD_some, List.flatMap_cons, ← List.append_assoc, List.find?_append, merged,
          find?_addNames, ← List.find?_append]
        rfl
      · rfl

/-! ## What is bound -/

/-- A local name stands for something in a module, by the entries of a collection. -/
def Binds (sink : ImportSink) (source : ImportSource) (name : String) (meaning : Meaning) : Prop :=
  ∃ s ∈ sink.specs, s.source = source ∧ (name, meaning) ∈ s.bindings

theorem Tidy.binds_iff_exists {sink : ImportSink} (h : sink.Tidy) {source : ImportSource} {name : String}
    {meaning : Meaning} :
    sink.Binds source name meaning ↔ ∃ s, sink.entryFor? source = some s ∧ (name, meaning) ∈ s.bindings := by
  unfold Binds entryFor?
  simp only [find?_eq_some_iff_of_nodup h.sources, and_assoc]

theorem Tidy.binds_whole_iff {sink : ImportSink} (h : sink.Tidy) {source : ImportSource} {name : String} :
    sink.Binds source name .wholeModule ↔ sink.wholeFor source = some name := by
  rw [h.binds_iff_exists, wholeFor, Option.bind_eq_some_iff]
  refine exists_congr fun s => and_congr_right fun hentry => ?_
  rw [ImportSpec.mem_bindings_whole, (h.entries s (List.mem_of_find?_eq_some hentry)).named]

theorem Tidy.binds_exported_iff {sink : ImportSink} (h : sink.Tidy) {source : ImportSource}
    {name imported : String} :
    sink.Binds source name (.exported imported) ↔
      ∃ n, (sink.namesFor source).find? (fun n => n.binding == name) = some n ∧ n.imported = imported := by
  rw [h.binds_iff_exists, namesFor]
  cases hentry : sink.entryFor? source with
  | none => simp
  | some s =>
      have hdistinct := (h.entries s (List.mem_of_find?_eq_some hentry)).distinct
      simp [ImportSpec.mem_bindings_exported, find?_eq_some_iff_of_nodup hdistinct, and_assoc]

/-- The first name that is asked for a module itself is bound to it. -/
theorem binds_whole_extend_iff {requests : List ImportSpec} {source : ImportSource} {name : String} :
    (({} : ImportSink).extend requests).Binds source name .wholeModule ↔
      (requestsFor requests source).findSome? nameOf = some name := by
  rw [(tidy_extend requests).binds_whole_iff, wholeFor_extend]
  exact Iff.rfl

/-- A local name is bound to the first export that is asked for under it. -/
theorem binds_exported_extend_iff {requests : List ImportSpec} {source : ImportSource} {name imported : String} :
    (({} : ImportSink).extend requests).Binds source name (.exported imported) ↔
      ∃ n, ((requestsFor requests source).flatMap (·.names)).find? (fun n => n.binding == name) = some n ∧
        n.imported = imported := by
  rw [(tidy_extend requests).binds_exported_iff, find?_namesFor_extend]
  exact Iff.rfl

/-! ## Requests that agree -/

/-- Every local name of a request is bound to what it asks for. -/
def KeepsAll (requests : List ImportSpec) : Prop :=
  ∀ spec ∈ requests, ∀ b ∈ spec.bindings, (({} : ImportSink).extend requests).Binds spec.source b.1 b.2

/-- Requests for one module name it alike, and ask for one export under one local name. -/
def Agree (requests : List ImportSpec) : Prop :=
  ∀ a ∈ requests, ∀ b ∈ requests, a.source = b.source →
    (∀ name ∈ nameOf a, ∀ name' ∈ nameOf b, name = name') ∧
      ∀ n ∈ a.names, ∀ n' ∈ b.names, n.binding = n'.binding → n.imported = n'.imported

theorem KeepsAll.agree {requests : List ImportSpec} (h : KeepsAll requests) : Agree requests := by
  intro a ha b hb hsource
  constructor
  · intro name hname name' hname'
    have hbound := binds_whole_extend_iff.mp (h a ha _ (ImportSpec.mem_bindings_whole.mpr hname))
    have hbound' := binds_whole_extend_iff.mp (h b hb _ (ImportSpec.mem_bindings_whole.mpr hname'))
    rw [← hsource, hbound] at hbound'
    exact Option.some.inj hbound'
  · intro n hn n' hn' hbinding
    obtain ⟨m, hm, himported⟩ := binds_exported_extend_iff.mp
      (h a ha _ (ImportSpec.mem_bindings_exported.mpr ⟨n, hn, rfl, rfl⟩))
    obtain ⟨m', hm', himported'⟩ := binds_exported_extend_iff.mp
      (h b hb _ (ImportSpec.mem_bindings_exported.mpr ⟨n', hn', rfl, rfl⟩))
    dsimp only at hm hm'
    rw [← hsource, ← hbinding, hm] at hm'
    rw [← himported, ← himported', Option.some.inj hm']

theorem Agree.findSome?_nameOf {requests : List ImportSpec} (h : Agree requests) {spec : ImportSpec}
    (hspec : spec ∈ requests) {name : String} (hname : nameOf spec = some name) :
    (requestsFor requests spec.source).findSome? nameOf = some name := by
  have hsome : ((requestsFor requests spec.source).findSome? nameOf).isSome = true :=
    List.findSome?_isSome_iff.mpr ⟨spec, mem_requestsFor.mpr ⟨hspec, rfl⟩, Option.isSome_of_eq_some hname⟩
  obtain ⟨first, hfirst⟩ := Option.isSome_iff_exists.mp hsome
  obtain ⟨a, ha, hfirst'⟩ := List.exists_of_findSome?_eq_some hfirst
  obtain ⟨hmem, hsource⟩ := mem_requestsFor.mp ha
  rw [hfirst, (h a hmem spec hspec hsource).1 first hfirst' name hname]

theorem Agree.exists_find?_binding {requests : List ImportSpec} (h : Agree requests) {spec : ImportSpec}
    (hspec : spec ∈ requests) {n : ImportName} (hn : n ∈ spec.names) :
    ∃ first, ((requestsFor requests spec.source).flatMap (·.names)).find? (fun m => m.binding == n.binding) =
        some first ∧ first.imported = n.imported := by
  have hmem : n ∈ (requestsFor requests spec.source).flatMap (·.names) :=
    List.mem_flatMap.mpr ⟨spec, mem_requestsFor.mpr ⟨hspec, rfl⟩, hn⟩
  have hsome : (((requestsFor requests spec.source).flatMap (·.names)).find? fun m =>
      m.binding == n.binding).isSome = true :=
    List.find?_isSome.mpr ⟨n, hmem, beq_self_eq_true n.binding⟩
  obtain ⟨first, hfirst⟩ := Option.isSome_iff_exists.mp hsome
  obtain ⟨a, ha, hmem⟩ := List.mem_flatMap.mp (List.mem_of_find?_eq_some hfirst)
  obtain ⟨ha, hsource⟩ := mem_requestsFor.mp ha
  have hsame : first.binding = n.binding := by simpa using List.find?_some hfirst
  exact ⟨first, hfirst, (h a ha spec hspec hsource).2 first hmem n hn hsame⟩

/-- Nothing that is asked for is lost exactly if the requests for one module agree. -/
theorem requested_bound_iff (requests : List ImportSpec) : KeepsAll requests ↔ Agree requests := by
  refine ⟨KeepsAll.agree, ?_⟩
  rintro hagree spec hspec ⟨name, meaning⟩ hb
  cases meaning with
  | wholeModule =>
      exact binds_whole_extend_iff.mpr (hagree.findSome?_nameOf hspec (ImportSpec.mem_bindings_whole.mp hb))
  | exported imported =>
      obtain ⟨n, hn, rfl, rfl⟩ := ImportSpec.mem_bindings_exported.mp hb
      exact binds_exported_extend_iff.mpr (hagree.exists_find?_binding hspec hn)

/-- Two names are asked for one module. -/
def twoNames : List ImportSpec :=
  [ { source := { value := "./tokens" }, wholeName := some "colors" },
    { source := { value := "./tokens" }, wholeName := some "sizes" } ]

/-- The second of two names for one module is lost. -/
theorem not_keepsAll_twoNames :
    (({} : ImportSink).extend twoNames).specs = [{ source := { value := "./tokens" }, wholeName := some "colors" }] ∧
      ¬ KeepsAll twoNames := by
  constructor
  · rfl
  · intro hkeeps
    obtain ⟨s, hs, -, hbound⟩ := hkeeps _ (List.mem_cons_of_mem _ List.mem_cons_self) ("sizes", .wholeModule)
      List.mem_cons_self
    cases List.mem_singleton.mp hs
    exact absurd hbound (by decide)

end ImportSink

end Restyle.Adapter
