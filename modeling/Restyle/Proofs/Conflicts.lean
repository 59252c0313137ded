import Mathlib.Data.List.Forall2
import Restyle.Proofs.Completion
import Restyle.Proofs.Taken

/-!
# Edits in conflict

The edits of a conversion come from the declarations, the elements, the imports and the registry of a module.
They are apart unless an edited element stands in something that another edit takes away as a whole: a
statement, or an attribute of another element.
-/

namespace Restyle.Conversion

open Restyle.Emit (CallSites Change ImportBlock)
open Restyle.Module (Declarations Edit HelperDeclaration Imports Removable)
open Restyle.Tsx (Node)

/-! ## Statements that are taken away -/

namespace StatementEdits

/-- Each statement is taken away by the edit in its place. -/
def Covers (m : Module) (s : StatementEdits) : Prop :=
  List.Forall₂ (Edit.Takes m) s.taken s.edits

theorem covers_empty (m : Module) : Covers m {} := .nil

theorem Covers.append {m : Module} {s t : StatementEdits} (hs : s.Covers m) (ht : t.Covers m) :
    (s.append t).Covers m := List.rel_append hs ht

theorem covers_removal {m : Module} (hm : m.Outline) {n : Node} (hn : Removable m n) :
    (removal m n).Covers m := .cons (hn.takes_deletion hm) .nil

theorem covers_replacement {m : Module} (hm : m.Outline) {n : Node} (hn : Removable m n) (text : String) :
    (replacement n text).Covers m := .cons (hn.takes_replacement hm text) .nil

theorem covers_foldl {m : Module} {ss : List StatementEdits} (h : ∀ s ∈ ss, s.Covers m) {s : StatementEdits}
    (hs : s.Covers m) : (ss.foldl append s).Covers m :=
  List.foldlRecOn (motive := fun s => s.Covers m) ss append hs fun _ ht u hu => ht.append (h u hu)

theorem taken_foldl (ss : List StatementEdits) (s : StatementEdits) :
    (ss.foldl append s).taken = s.taken ++ ss.flatMap (·.taken) := by
  induction ss generalizing s with
  | nil => exact (List.append_nil _).symm
  | cons t ss ih =>
      rw [List.foldl_cons, ih, List.flatMap_cons, ← List.append_assoc]
      rfl

end StatementEdits

namespace Draft

/-- Going through a list gives the result of every item in its place. -/
theorem forall₂_of_mapM_eq_ok {ε α β : Type} {f : α → Except ε β} {xs : List α} {ys : List β}
    (h : xs.mapM f = .ok ys) : List.Forall₂ (fun x y => f x = .ok y) xs ys := by
  induction xs generalizing ys with
  | nil =>
      cases h
      exact .nil
  | cons x xs ih =>
      rw [List.mapM_cons] at h
      cases hx : f x with
      | error e =>
          rw [hx] at h
          cases h
      | ok y =>
          cases hxs : xs.mapM f with
          | error e =>
              rw [hx, hxs] at h
              cases h
          | ok zs =>
              rw [hx, hxs] at h
              cases h
              exact .cons hx (ih hxs)

theorem exists_of_mem_right {α β : Type} {R : α → β → Prop} {xs : List α} {ys : List β}
    (h : List.Forall₂ R xs ys) {y : β} (hy : y ∈ ys) : ∃ x ∈ xs, R x y := by
  induction h with
  | nil => cases hy
  | cons hxy _ ih =>
      rcases List.mem_cons.mp hy with rfl | hy
      · exact ⟨_, List.mem_cons_self, hxy⟩
      · obtain ⟨x, hx, hxy⟩ := ih hy
        exact ⟨x, List.mem_cons_of_mem _ hx, hxy⟩

theorem exists_of_mem_left {α β : Type} {R : α → β → Prop} {xs : List α} {ys : List β}
    (h : List.Forall₂ R xs ys) {x : α} (hx : x ∈ xs) : ∃ y ∈ ys, R x y :=
  exists_of_mem_right (R := fun y x => R x y) h.flip hx

/-- A draft of what a module declares and imports. -/
structure Faithful (d : Draft) : Prop where
  outline : d.source.Outline
  imports : d.imports = Imports.ofModule d.source
  declarations : d.declarations = Declarations.ofModule d.source d.imports.libraryNames
  distinct : d.arena.names.Nodup
  declared : d.Declared

/-! ## Plans that are carried out -/

/-- What carrying out the plan of a component adds to the edits, whatever there is to say about it. -/
def carriedOut (p : Project) (d : Draft) (done : ComponentEdits) (name : String) (plan : ComponentPlan) :
    ComponentEdits :=
  match d.statement? name with
  | none => done
  | some statement =>
    if plan.isInline then
      { done with
        statements := done.statements.append (.removal d.source statement)
        plans := done.plans.set name plan }
    else
      let wrapper := Emit.wrapper (d.wrapperStyle p) plan
      let needs := done.needs.join wrapper.needs
      if wrapper.isReadable then
        { done with
          statements := done.statements.append (.replacement statement wrapper.text)
          plans := done.plans.set name plan
          needs }
      else { done with needs, failed := done.failed ++ [name] }

/-- The edits for the declarations of all components. -/
def components (p : Project) (d : Draft) : ComponentEdits :=
  (d.plans p).foldl (fun done entry => d.carriedOut p done entry.1 entry.2) {}

/-- Only warnings are added to the messages of a session. -/
def Warns (s s' : Session (List Message)) : Prop :=
  ∀ message ∈ s'.store, message ∈ s.store ∨ message.level = .warning

theorem Warns.refl {s s' : Session (List Message)} (h : s'.store = s.store) : Warns s s' :=
  fun _ hmessage => .inl (h ▸ hmessage)

theorem Warns.trans {s s' s'' : Session (List Message)} (h : Warns s s') (h' : Warns s' s'') : Warns s s'' := by
  intro message hmessage
  rcases h' message hmessage with hmem | hlevel
  · exact h message hmem
  · exact .inr hlevel

theorem run_carryOut (p : Project) {d : Draft} (done : ComponentEdits) {name : String} (plan : ComponentPlan)
    (hname : name ∈ d.declarations.styled.map (·.name)) (s : Session (List Message)) :
    ∃ s', (d.carryOut p done name plan).run s = (.ok (d.carriedOut p done name plan), s') ∧ Warns s s' := by
  obtain ⟨statement, hstatement⟩ := exists_statement? hname
  unfold carryOut carriedOut
  rw [hstatement]
  dsimp only
  split
  · exact ⟨s, rfl, .refl rfl⟩
  split
  · exact ⟨s, rfl, .refl rfl⟩
  · refine ⟨_, rfl, fun message hmessage => ?_⟩
    rcases List.mem_append.mp hmessage with hmem | hmem
    · exact .inl hmem
    · cases List.mem_singleton.mp hmem
      exact .inr rfl

theorem run_carryOutAll (p : Project) {d : Draft} (hdeclared : d.Declared) (s : Session (List Message)) :
    ∃ s', (d.carryOutAll p (d.plans p)).run s = (.ok (d.components p), s') ∧ Warns s s' := by
  have hnames : ∀ entry ∈ d.plans p, entry.1 ∈ d.declarations.styled.map (·.name) := by
    intro entry hentry
    refine hdeclared _ ?_
    rw [← names_plans p d]
    exact List.mem_map_of_mem hentry
  unfold carryOutAll components
  generalize d.plans p = plans at hnames
  generalize ({} : ComponentEdits) = done
  induction plans generalizing done s with
  | nil => exact ⟨s, rfl, .refl rfl⟩
  | cons entry plans ih =>
      obtain ⟨s₁, hrun, hwarns⟩ := run_carryOut p done entry.2 (hnames entry List.mem_cons_self) s
      obtain ⟨s₂, hrest, hwarns'⟩ := ih s₁
        (fun e he => hnames e (List.mem_cons_of_mem _ he)) (d.carriedOut p done entry.1 entry.2)
      refine ⟨s₂, ?_, hwarns.trans hwarns'⟩
      rw [List.foldlM_cons, Work.run_bind_ok _ hrun]
      exact hrest

/-! ## The statements of components and helpers -/

section

variable {d : Draft}

/-- The statement of a component makes the declaration of its name. -/
theorem Faithful.makes_statement? (h : d.Faithful) {name : String} {n : Node} (hn : d.statement? name = some n) :
    ∃ c : Module.StyledDeclaration, c.name = name ∧
      Declarations.Makes d.source d.imports.libraryNames n (.styled c) := by
  obtain ⟨c, hfind, rfl⟩ := Option.map_eq_some_iff.mp hn
  have hmem : c ∈ d.declarations.styled := List.mem_reverse.mp (List.mem_of_find?_eq_some hfind)
  rw [h.declarations] at hmem
  exact ⟨c, by simpa using List.find?_some hfind, Declarations.makes_styled hmem⟩

/-- Distinct components have distinct statements. -/
theorem Faithful.statement?_injective (h : d.Faithful) {name name' : String} {n : Node}
    (hn : d.statement? name = some n) (hn' : d.statement? name' = some n) : name = name' := by
  obtain ⟨c, rfl, hc⟩ := h.makes_statement? hn
  obtain ⟨c', rfl, hc'⟩ := h.makes_statement? hn'
  have heq := hc.declared.symm.trans hc'.declared
  cases heq
  rfl

theorem taken_carriedOut (p : Project) (d : Draft) (done : ComponentEdits) (name : String)
    (plan : ComponentPlan) : (d.carriedOut p done name plan).statements.taken = done.statements.taken ∨
      ∃ n, d.statement? name = some n ∧
        (d.carriedOut p done name plan).statements.taken = done.statements.taken ++ [n] := by
  unfold carriedOut
  split
  · exact .inl rfl
  · next n hn =>
      split
      · exact .inr ⟨n, hn, rfl⟩
      dsimp only
      split
      · exact .inr ⟨n, hn, rfl⟩
      · exact .inl rfl

/-- The statements of components are taken away in the order of the plans. -/
theorem taken_components (p : Project) (d : Draft) :
    (d.components p).statements.taken.Sublist (d.arena.names.filterMap d.statement?) := by
  have htaken : ∀ (plans : Table ComponentPlan) (done : ComponentEdits),
      (plans.foldl (fun done entry => d.carriedOut p done entry.1 entry.2) done).statements.taken.Sublist
        (done.statements.taken ++ plans.names.filterMap d.statement?) := by
    intro plans
    induction plans with
    | nil => exact fun done => List.sublist_append_left _ _
    | cons entry plans ih =>
        intro done
        have hnames : Table.names (entry :: plans) = entry.1 :: Table.names plans := rfl
        refine (ih _).trans ?_
        rw [hnames, List.filterMap_cons]
        rcases taken_carriedOut p d done entry.1 entry.2 with heq | ⟨n, hn, heq⟩
        · rw [heq]
          refine List.Sublist.append_left ?_ _
          split
          · exact .refl _
          · exact List.sublist_cons_self _ _
        · rw [heq, hn, List.append_assoc]
          exact .refl _
  rw [← names_plans p d]
  exact htaken (d.plans p) {}

theorem covers_carriedOut (h : d.Faithful) (p : Project) {done : ComponentEdits}
    (hdone : done.statements.Covers d.source) (name : String) (plan : ComponentPlan) :
    (d.carriedOut p done name plan).statements.Covers d.source := by
  unfold carriedOut
  split
  · exact hdone
  · next n hn =>
      obtain ⟨c, -, hmakes⟩ := h.makes_statement? hn
      split
      · exact hdone.append (StatementEdits.covers_removal h.outline hmakes.removable)
      dsimp only
      split
      · exact hdone.append (StatementEdits.covers_replacement h.outline hmakes.removable _)
      · exact hdone

theorem covers_components (h : d.Faithful) (p : Project) :
    (d.components p).statements.Covers d.source :=
  List.foldlRecOn (motive := fun done : ComponentEdits => done.statements.Covers d.source) _ _
    (StatementEdits.covers_empty _) fun _ hdone entry _ => covers_carriedOut h p hdone entry.1 entry.2

theorem animationEdits_cases {p : Project} {h : HelperDeclaration} {s : StatementEdits}
    (hs : d.animationEdits p h = .ok s) : s = {} ∨ ∃ text, s = .replacement h.statement text := by
  unfold animationEdits at hs
  split at hs
  · cases hs
    exact .inl rfl
  · next frames _ =>
      cases htext : (d.dialect p).keyframes h.name frames with
      | error f =>
          rw [htext] at hs
          cases hs
      | ok text =>
          rw [htext] at hs
          cases hs
          exact .inr ⟨_, rfl⟩

/-- The edits for animations take away their statements in order. -/
theorem animationEdits_spec {p : Project} {names : Table String} {hs : List HelperDeclaration}
    {ss : List StatementEdits} (hm : d.source.Outline)
    (hmakes : ∀ h ∈ hs, Declarations.Makes d.source names h.statement (.helper h))
    (h : List.Forall₂ (fun h s => d.animationEdits p h = .ok s) hs ss) :
    (∀ s ∈ ss, s.Covers d.source) ∧ (ss.flatMap (·.taken)).Sublist (hs.map (·.statement)) := by
  induction h with
  | nil => exact ⟨fun _ hs => absurd hs List.not_mem_nil, .refl _⟩
  | @cons h s hs ss hhead _ ih =>
      obtain ⟨hcovers, htaken⟩ := ih fun h hh => hmakes h (List.mem_cons_of_mem _ hh)
      rw [List.forall_mem_cons, List.flatMap_cons, List.map_cons]
      rcases animationEdits_cases hhead with rfl | ⟨text, rfl⟩
      · exact ⟨⟨StatementEdits.covers_empty _, hcovers⟩, htaken.cons _⟩
      · have hremovable := (hmakes h List.mem_cons_self).removable
        exact ⟨⟨StatementEdits.covers_replacement hm hremovable text, hcovers⟩, htaken.cons_cons _⟩

/-- The statements of the helpers, animations before mixins. -/
def helperStatements (d : Draft) : List Node :=
  d.declarations.keyframes.map (·.statement) ++ d.declarations.mixins.map (·.statement)

theorem helperEdits_spec (h : d.Faithful) {p : Project} {helpers : StatementEdits}
    (hhelpers : d.helperEdits p = .ok helpers) :
    helpers.Covers d.source ∧ helpers.taken.Sublist d.helperStatements := by
  have hframes : ∀ k ∈ d.declarations.keyframes,
      Declarations.Makes d.source d.imports.libraryNames k.statement (.helper k) := by
    intro k hk
    rw [h.declarations, Declarations.keyframes_eq] at hk
    exact (Declarations.makes_helper hk).1
  have hmixins : ∀ k ∈ d.declarations.mixins, Removable d.source k.statement := by
    intro k hk
    rw [h.declarations, Declarations.mixins_eq] at hk
    exact (Declarations.makes_helper hk).1.removable
  unfold helperEdits at hhelpers
  cases hanimations : d.declarations.keyframes.mapM (d.animationEdits p) with
  | error f =>
      rw [hanimations] at hhelpers
      cases hhelpers
  | ok animations =>
      rw [hanimations] at hhelpers
      cases hhelpers
      obtain ⟨hcovers, htaken⟩ := animationEdits_spec h.outline hframes (forall₂_of_mapM_eq_ok hanimations)
      refine ⟨StatementEdits.covers_foldl (fun s hs => ?_) (StatementEdits.covers_empty _), ?_⟩
      · rcases List.mem_append.mp hs with hs | hs
        · exact hcovers s hs
        · obtain ⟨k, hk, rfl⟩ := List.mem_map.mp hs
          exact StatementEdits.covers_removal h.outline (hmixins k (List.mem_filter.mp hk).1)
      · rw [StatementEdits.taken_foldl, List.nil_append, List.flatMap_append]
        refine htaken.append ?_
        rw [List.flatMap_map]
        exact (List.map_eq_flatMap ▸ List.filter_sublist.map _)

/-! ## Statements side by side -/

/-- The statements of components, helpers and imports. -/
def statements (d : Draft) : List Node :=
  d.arena.names.filterMap d.statement? ++ d.helperStatements ++ d.imports.statements.map (·.node)

theorem Faithful.makes_helper (h : d.Faithful) {n : Node} (hn : n ∈ d.helperStatements) :
    ∃ k : HelperDeclaration, Declarations.Makes d.source d.imports.libraryNames n (.helper k) := by
  unfold helperStatements at hn
  rw [h.declarations] at hn
  rcases List.mem_append.mp hn with hn | hn
  · obtain ⟨k, hk, rfl⟩ := List.mem_map.mp hn
    exact ⟨k, (Declarations.makes_helper hk).1⟩
  · obtain ⟨k, hk, rfl⟩ := List.mem_map.mp hn
    exact ⟨k, (Declarations.makes_helper hk).1⟩

theorem Faithful.makes_of_mem (h : d.Faithful) {n : Node}
    (hn : n ∈ d.arena.names.filterMap d.statement? ++ d.helperStatements) :
    ∃ x, Declarations.Makes d.source d.imports.libraryNames n x := by
  rcases List.mem_append.mp hn with hn | hn
  · obtain ⟨name, -, hname⟩ := List.mem_filterMap.mp hn
    obtain ⟨c, -, hmakes⟩ := h.makes_statement? hname
    exact ⟨_, hmakes⟩
  · obtain ⟨k, hmakes⟩ := h.makes_helper hn
    exact ⟨_, hmakes⟩

theorem Faithful.removable_of_mem (h : d.Faithful) {n : Node} (hn : n ∈ d.statements) :
    Removable d.source n := by
  rcases List.mem_append.mp hn with hn | hn
  · obtain ⟨x, hmakes⟩ := h.makes_of_mem hn
    exact hmakes.removable
  · obtain ⟨s, hs, rfl⟩ := List.mem_map.mp hn
    rw [h.imports] at hs
    exact (Module.removable_import hs).1

/-- The statements of helpers stand side by side: those of one kind in order, and no helper is of both kinds. -/
theorem Faithful.pairwise_helperStatements (h : d.Faithful) : d.helperStatements.Pairwise Node.Beside := by
  have horder : ∀ kind, (Declarations.helpersOf d.source d.imports.libraryNames kind).Pairwise
      fun a b => a.statement.Beside b.statement :=
    fun kind => (Declarations.pairwise_helpersOf h.outline kind).imp .inl
  unfold helperStatements
  rw [h.declarations, Declarations.keyframes_eq, Declarations.mixins_eq]
  refine List.pairwise_append.mpr ⟨List.pairwise_map.mpr (horder _), List.pairwise_map.mpr (horder _),
    fun n hn n' hn' => ?_⟩
  obtain ⟨k, hk, rfl⟩ := List.mem_map.mp hn
  obtain ⟨k', hk', rfl⟩ := List.mem_map.mp hn'
  obtain ⟨hmakes, hkind⟩ := Declarations.makes_helper hk
  obtain ⟨hmakes', hkind'⟩ := Declarations.makes_helper hk'
  refine hmakes.removable.beside h.outline hmakes'.removable fun heq => ?_
  have hdeclared := heq ▸ hmakes.declared
  rw [hmakes'.declared] at hdeclared
  cases hdeclared
  rw [hkind] at hkind'
  cases hkind'

/-- The statements of components, helpers and imports stand side by side. -/
theorem Faithful.pairwise_statements (h : d.Faithful) : d.statements.Pairwise Node.Beside := by
  refine List.pairwise_append.mpr ⟨List.pairwise_append.mpr ⟨?_, h.pairwise_helperStatements,
    fun n hn n' hn' => ?_⟩, ?_, fun n hn n' hn' => ?_⟩
  · refine List.pairwise_filterMap.mpr (h.distinct.imp fun {name name'} hne n hn n' hn' => ?_)
    obtain ⟨c, -, hmakes⟩ := h.makes_statement? hn
    obtain ⟨c', -, hmakes'⟩ := h.makes_statement? hn'
    refine hmakes.removable.beside h.outline hmakes'.removable fun heq => ?_
    exact hne (h.statement?_injective hn (heq ▸ hn'))
  · obtain ⟨name, -, hname⟩ := List.mem_filterMap.mp hn
    obtain ⟨c, -, hmakes⟩ := h.makes_statement? hname
    obtain ⟨k, hmakes'⟩ := h.makes_helper hn'
    refine hmakes.removable.beside h.outline hmakes'.removable fun heq => ?_
    have hdeclared := heq ▸ hmakes.declared
    rw [hmakes'.declared] at hdeclared
    cases hdeclared
  · rw [h.imports]
    exact List.pairwise_map.mpr ((Module.pairwise_imports h.outline).imp .inl)
  · obtain ⟨x, hmakes⟩ := h.makes_of_mem hn
    obtain ⟨s, hs, rfl⟩ := List.mem_map.mp hn'
    rw [h.imports] at hs
    obtain ⟨hremovable, hkind⟩ := Module.removable_import hs
    refine hmakes.removable.beside h.outline hremovable fun heq => ?_
    rcases (Module.declared?_spec hmakes.declared).2 with hdeclares | hdeclares | hdeclares <;>
      rw [heq, hkind] at hdeclares <;> cases hdeclares

/-! ## Collected edits -/

/-- The edits of the elements. -/
def sites (p : Project) (d : Draft) : CallSites :=
  { plans := (d.components p).plans, usages := d.usages, root := d.source.root
    library := libraryName, stylesName := p.settings.stylesName }

/-- The import block, when the statements of helpers are taken away as well. -/
def block (p : Project) (d : Draft) (helpers : StatementEdits) : ImportBlock :=
  { source := d.source, imports := d.imports
    keep := d.keptNames ((d.components p).statements.append helpers).taken }

/-- The statements that are taken away. -/
def takenStatements (p : Project) (d : Draft) (helpers : StatementEdits) : List Node :=
  ((d.components p).statements.append helpers).taken ++
    ((d.block p helpers).libraryStatements.filter (d.block p helpers).isPruned).map (·.node)

/-- The edits of the statements that are taken away. -/
def takenEdits (p : Project) (d : Draft) (helpers : StatementEdits) : List Edit :=
  ((d.components p).statements.append helpers).edits ++
    ((d.block p helpers).libraryStatements.filter (d.block p helpers).isPruned).map
      (d.block p helpers).pruneEdit

/-- The bindings that the converted module needs, for the text of its registry. -/
def neededBindings (p : Project) (d : Draft) (text : String) : List Module.ImportBinding :=
  let needsLibrary := !text.isEmpty || !d.keyframes.isEmpty || (d.components p).needs.library ||
    (d.sites p).needsLibrary
  (d.neededImports p needsLibrary (d.components p).needs).flatMap
    (Emit.bindingsOf p.directory d.source.path)

/-- All edits of a draft, for the edits of its helpers and the text of its registry. -/
def collected (p : Project) (d : Draft) (helpers : StatementEdits) (text : String) : List Edit :=
  ((d.components p).statements.append helpers).edits ++ (d.sites p).edits ++ d.registryEdits text ++
    ((d.block p helpers).edits (d.neededBindings p text)).1

theorem takes_pruneEdit (h : d.Faithful) {p : Project} {helpers : StatementEdits} {s : Module.ImportStatement}
    (hs : s ∈ (d.block p helpers).libraryStatements) :
    Removable d.source s.node ∧ Edit.Takes d.source s.node ((d.block p helpers).pruneEdit s) := by
  have hmem : s ∈ d.imports.statements := (List.mem_filter.mp hs).1
  rw [h.imports] at hmem
  have hremovable := (Module.removable_import hmem).1
  refine ⟨hremovable, ?_⟩
  unfold ImportBlock.pruneEdit
  dsimp only
  split
  · exact hremovable.takes_deletion h.outline
  · exact hremovable.takes_replacement h.outline _

theorem takenEdits_covers (h : d.Faithful) {p : Project} {helpers : StatementEdits}
    (hhelpers : helpers.Covers d.source) :
    List.Forall₂ (Edit.Takes d.source) (d.takenStatements p helpers) (d.takenEdits p helpers) := by
  refine List.rel_append ((covers_components h p).append hhelpers) ?_
  rw [List.forall₂_map_left_iff, List.forall₂_map_right_iff, List.forall₂_same]
  exact fun s hs => (takes_pruneEdit h (List.mem_filter.mp hs).1).2

theorem takenStatements_sublist (p : Project) (d : Draft) {helpers : StatementEdits}
    (hhelpers : helpers.taken.Sublist d.helperStatements) :
    (d.takenStatements p helpers).Sublist d.statements := by
  refine ((taken_components p d).append hhelpers).append ?_
  exact (List.filter_sublist.trans List.filter_sublist).map _

/-! ## Insertions -/

theorem importEdits_eq (b : ImportBlock) (requested : List Module.ImportBinding) :
    ∃ inserted : List Edit, (b.edits requested).1 =
        (b.libraryStatements.filter b.isPruned).map b.pruneEdit ++ inserted ∧
      (inserted = [] ∨ ∃ text priority, inserted = [.insertion b.insertionPoint text priority]) := by
  unfold ImportBlock.edits
  dsimp only
  refine ⟨_, rfl, ?_⟩
  split
  · exact .inl rfl
  split
  · next hzero => exact .inr ⟨_, _, by rw [beq_iff_eq.mp hzero]⟩
  · exact .inr ⟨_, _, rfl⟩

/-- New imports go to the front, or behind an import that stays or a directive. -/
theorem insertionPoint_cases (h : d.Faithful) (p : Project) (helpers : StatementEdits) :
    (d.block p helpers).insertionPoint = 0 ∨ ∃ n, Removable d.source n ∧
      (d.block p helpers).insertionPoint = n.stop ∧ ¬ Module.declaresVariables n ∧
      ∀ s ∈ d.imports.statements, s.node = n → (d.block p helpers).isRemoved s = false := by
  unfold ImportBlock.insertionPoint
  split
  · next s hs =>
      right
      obtain ⟨hmem, hkept⟩ := List.mem_filter.mp (List.mem_of_getLast? hs)
      have hmem : s ∈ d.imports.statements := hmem
      rw [h.imports] at hmem
      obtain ⟨hremovable, hkind⟩ := Module.removable_import hmem
      refine ⟨s.node, hremovable, rfl, ?_, fun s' hs' hnode => ?_⟩
      · unfold Module.declaresVariables
        rw [hkind]
        decide
      · rw [h.imports] at hs'
        have heq := Module.statement?_node hs'
        rw [hnode, Module.statement?_node hmem] at heq
        cases heq
        simpa using hkept
  · dsimp only
    cases hlast : List.getLast? _ with
    | none => exact .inl rfl
    | some n =>
        right
        have hmem := List.mem_of_getLast? hlast
        have hdirective := List.mem_takeWhile_imp hmem
        rw [Bool.and_eq_true, beq_iff_eq] at hdirective
        have hkind := hdirective.1
        have hnamed : n ∈ d.source.root.named := (List.takeWhile_sublist _).subset hmem
        refine ⟨n, ⟨Node.mem_children_of_mem_named hnamed, by rw [hkind]; rfl⟩, rfl, ?_, fun s hs hnode => ?_⟩
        · unfold Module.declaresVariables
          rw [hkind]
          decide
        · rw [h.imports] at hs
          have himport := (Module.removable_import hs).2
          rw [hnode, hkind] at himport
          cases himport

/-- Nothing is inserted into a statement that is taken away. -/
theorem apart_insertionPoint_taken (h : d.Faithful) {p : Project} {helpers : StatementEdits}
    (hhelpers : helpers.Covers d.source) (htaken : helpers.taken.Sublist d.helperStatements) (text : String)
    (priority : Int) {e : Edit} (he : e ∈ d.takenEdits p helpers) :
    e.Apart (.insertion (d.block p helpers).insertionPoint text priority) := by
  rcases insertionPoint_cases h p helpers with hzero | ⟨n, hn, hplace, hplain, hkept⟩
  · exact .inr (hzero ▸ Nat.zero_le _)
  have hle := Nat.le_of_lt (hn.solid h.outline).lt
  have hapart : ∀ {n' : Node}, Removable d.source n' → Edit.Takes d.source n' e → n' ≠ n →
      e.Apart (.insertion (d.block p helpers).insertionPoint text priority) := by
    intro n' hn' htakes hne
    have hbeside := htakes.beside (hn.solid h.outline) ((hn'.beside h.outline hn hne).symm)
    rw [hplace]
    unfold Edit.Apart Edit.insertion
    dsimp only
    omega
  rcases List.mem_append.mp he with he | he
  · obtain ⟨n', hn', htakes⟩ := exists_of_mem_right ((covers_components h p).append hhelpers) he
    obtain ⟨x, hmakes⟩ := h.makes_of_mem (((taken_components p d).append htaken).subset hn')
    refine hapart hmakes.removable htakes ?_
    rintro rfl
    exact hplain (Module.declared?_spec hmakes.declared).2
  · obtain ⟨s, hs, rfl⟩ := List.mem_map.mp he
    have hlibrary := (List.mem_filter.mp hs).1
    obtain ⟨hremovable, htakes⟩ := takes_pruneEdit h hlibrary
    by_cases hnode : s.node = n
    · obtain ⟨hmem, hsource⟩ := List.mem_filter.mp hlibrary
      have hstays := hkept s hmem hnode
      unfold ImportBlock.isRemoved at hstays
      rw [hsource, Bool.true_and] at hstays
      refine .inl ?_
      unfold ImportBlock.pruneEdit
      dsimp only
      rw [hstays, hplace, hnode]
      exact Nat.le_refl _
    · exact hapart hremovable htakes hnode

/-! ## The edits of all kinds together -/

theorem soundChanges_sites (p : Project) (d : Draft) :
    CallSites.SoundChanges d.source (d.sites p).changes :=
  CallSites.soundChanges_changes (fun _ hu => CallSites.edited_usagesOf hu) rfl

/-- Every edit of an element stands in a tag of it. -/
theorem exists_sited (h : d.Faithful) {p : Project} {f : Edit} (hf : f ∈ (d.sites p).edits) :
    ∃ c ∈ (d.sites p).changes, f ∈ (d.sites p).editsOf c ∧ CallSites.Edited d.source c.usage.element ∧
      ∃ t ∈ Module.tagsOf c.usage.element, CallSites.Sited (d.sites p) c.usage.element t f := by
  obtain ⟨c, hc, hf⟩ := List.mem_flatMap.mp hf
  have husage := List.mem_map_of_mem (f := Change.usage) hc
  have hedited := (soundChanges_sites p d).edited _ husage
  exact ⟨c, hc, hf, hedited,
    CallSites.sited_of_mem h.outline hedited _ ((soundChanges_sites p d).usage _ husage) hf⟩

theorem apart_insertionPoint_element (h : d.Faithful) {p : Project} (helpers : StatementEdits) (text : String)
    (priority : Int) {f : Edit} (hf : f ∈ (d.sites p).edits) :
    f.Apart (.insertion (d.block p helpers).insertionPoint text priority) := by
  rcases insertionPoint_cases h p helpers with hzero | ⟨n, hn, hplace, -⟩
  · exact .inr (hzero ▸ Nat.zero_le _)
  obtain ⟨c, -, -, hedited, t, ht, hsited⟩ := exists_sited h hf
  obtain ⟨hstart, hstop⟩ := hsited.within (hedited.isTagOf h.outline ht) (h.outline.laid_of_mem hedited.mem)
  have hproper := hsited.inTag.proper
  have hle := Nat.le_of_lt (hn.solid h.outline).lt
  unfold Edit.Proper at hproper
  unfold Edit.Apart Edit.insertion
  dsimp only
  rw [hplace]
  rcases hn.walk_or_beside h.outline hedited.mem (Module.ne_root_of_edited h.outline hedited) with hmem | hbeside
  · have hinside := (h.outline.laid_of_mem hn.mem_walk).of_mem_walk hmem
    omega
  · unfold Node.Beside at hbeside
    omega

/-- An edited element stands in something that another edit takes away as a whole. -/
inductive Buried (p : Project) (d : Draft) (helpers : StatementEdits) : Prop where
  /-- It stands in a statement of a component, a helper or an import. -/
  | inStatement {c : Change} {n : Node} : c ∈ (d.sites p).changes → (d.sites p).editsOf c ≠ [] →
      n ∈ d.takenStatements p helpers → c.usage.element ∈ n.walk → Buried p d helpers
  /-- It stands in an attribute that a component loses as it is replaced by its element. -/
  | inAttribute {c owner : Change} {a : Module.ElementAttribute} : c ∈ (d.sites p).changes →
      (d.sites p).editsOf c ≠ [] → owner ∈ (d.sites p).changes → a ∈ (d.sites p).dropped owner.usage →
      c.usage.element ∈ a.node.walk → Buried p d helpers

theorem buried_iff (p : Project) (d : Draft) (helpers : StatementEdits) : d.Buried p helpers ↔
    ¬ ((∀ n ∈ d.takenStatements p helpers, ∀ c ∈ (d.sites p).changes, (d.sites p).editsOf c ≠ [] →
        c.usage.element ∉ n.walk) ∧
      ∀ owner ∈ (d.sites p).changes, ∀ c ∈ (d.sites p).changes, (d.sites p).Clear owner c) := by
  constructor
  · rintro hburied ⟨hstatements, hclear⟩
    cases hburied with
    | inStatement hc hedits hn hmem => exact hstatements _ hn _ hc hedits hmem
    | inAttribute hc hedits howner ha hmem => exact hclear _ howner _ hc hedits _ ha hmem
  · intro hnot
    by_contra hburied
    exact hnot ⟨fun n hn c hc hedits hmem => hburied (.inStatement hc hedits hn hmem),
      fun owner howner c hc hedits a ha hmem => hburied (.inAttribute hc hedits howner ha hmem)⟩

/-- The edits of statements and elements are apart exactly if no edited element stands in a taken statement. -/
theorem apart_taken_element_iff (h : d.Faithful) {p : Project} {helpers : StatementEdits}
    (hcovers : List.Forall₂ (Edit.Takes d.source) (d.takenStatements p helpers) (d.takenEdits p helpers))
    (hremovable : ∀ n ∈ d.takenStatements p helpers, Removable d.source n) :
    (∀ e ∈ d.takenEdits p helpers, ∀ f ∈ (d.sites p).edits, e.Apart f) ↔
      ∀ n ∈ d.takenStatements p helpers, ∀ c ∈ (d.sites p).changes, (d.sites p).editsOf c ≠ [] →
        c.usage.element ∉ n.walk := by
  constructor
  · intro hapart n hn c hc hedits
    obtain ⟨e, he, htakes⟩ := exists_of_mem_left hcovers hn
    obtain ⟨f, hf⟩ := List.exists_mem_of_ne_nil _ hedits
    have husage := List.mem_map_of_mem (f := Change.usage) hc
    have hedited := (soundChanges_sites p d).edited _ husage
    obtain ⟨t, ht, hsited⟩ :=
      CallSites.sited_of_mem h.outline hedited _ ((soundChanges_sites p d).usage _ husage) hf
    exact (htakes.apart_element_iff h.outline (hremovable n hn) hedited ht hsited).mp
      (hapart e he f (List.mem_flatMap.mpr ⟨c, hc, hf⟩))
  · intro hclear e he f hf
    obtain ⟨n, hn, htakes⟩ := exists_of_mem_right hcovers he
    obtain ⟨c, hc, hmem, hedited, t, ht, hsited⟩ := exists_sited h hf
    exact (htakes.apart_element_iff h.outline (hremovable n hn) hedited ht hsited).mpr
      (hclear n hn c hc (List.ne_nil_of_mem hmem))

/-- The registry goes behind everything. -/
theorem apart_registry {e f : Edit} {text : String} (hf : f ∈ d.registryEdits text)
    (hstop : e.stop ≤ d.source.bytes.length) : e.Apart f := by
  unfold registryEdits at hf
  split at hf
  · cases hf
  · cases List.mem_singleton.mp hf
    exact .inl hstop

theorem pairwise_registryEdits (d : Draft) (text : String) : (d.registryEdits text).Pairwise Edit.Apart := by
  unfold registryEdits
  split
  · exact .nil
  · exact List.pairwise_singleton _ _

/-- The edits of all kinds, with those that insert at the end. -/
theorem exists_collected_perm (p : Project) (d : Draft) (helpers : StatementEdits) (text : String) :
    ∃ inserted : List Edit, (d.collected p helpers text).Perm
        (d.takenEdits p helpers ++ ((d.sites p).edits ++ (d.registryEdits text ++ inserted))) ∧
      (inserted = [] ∨ ∃ text priority,
        inserted = [.insertion (d.block p helpers).insertionPoint text priority]) := by
  obtain ⟨inserted, heq, hinserted⟩ := importEdits_eq (d.block p helpers) (d.neededBindings p text)
  refine ⟨inserted, ?_, hinserted⟩
  unfold collected takenEdits
  rw [heq]
  simp only [List.append_assoc]
  refine List.Perm.append_left _ ?_
  rw [← List.append_assoc, ← List.append_assoc (d.sites p).edits]
  exact List.perm_append_comm_assoc _ _ _

theorem insertionPoint_le (h : d.Faithful) (p : Project) (helpers : StatementEdits) :
    (d.block p helpers).insertionPoint ≤ d.source.bytes.length := by
  rcases insertionPoint_cases h p helpers with hzero | ⟨n, hn, hplace, -⟩
  · exact hzero ▸ Nat.zero_le _
  · exact hplace ▸ hn.stop_le h.outline

theorem stop_element_le (h : d.Faithful) {p : Project} {f : Edit} (hf : f ∈ (d.sites p).edits) :
    f.stop ≤ d.source.bytes.length := by
  obtain ⟨c, -, -, hedited, t, ht, hsited⟩ := exists_sited h hf
  have hwithin := hsited.within (hedited.isTagOf h.outline ht) (h.outline.laid_of_mem hedited.mem)
  have hroot := (h.outline.laid.of_mem_walk hedited.mem).2.1
  have hstop := h.outline.stop
  omega

/-- Edits of statements side by side are apart. -/
theorem pairwise_takes {m : Module} (hm : m.Outline) {ns : List Node} {es : List Edit}
    (htakes : List.Forall₂ (Edit.Takes m) ns es) (hremovable : ∀ n ∈ ns, Removable m n)
    (hbeside : ns.Pairwise Node.Beside) : es.Pairwise Edit.Apart := by
  induction htakes with
  | nil => exact .nil
  | @cons n e ns es htake htakes ih =>
      rw [List.forall_mem_cons] at hremovable
      obtain ⟨hfirst, hrest⟩ := List.pairwise_cons.mp hbeside
      refine .cons (fun f hf => ?_) (ih hremovable.2 hrest)
      obtain ⟨n', hn', htake'⟩ := exists_of_mem_right htakes hf
      exact htake.apart htake' hm hremovable.1 (hremovable.2 n' hn') (hfirst n' hn')

/-- The collected edits are apart exactly if no edited element stands in what is taken away as a whole. -/
theorem collected_apart_iff (h : d.Faithful) {p : Project} {helpers : StatementEdits}
    (hhelpers : d.helperEdits p = .ok helpers) (text : String) :
    (d.collected p helpers text).Pairwise Edit.Apart ↔ ¬ d.Buried p helpers := by
  obtain ⟨hcovers, htaken⟩ := helperEdits_spec h hhelpers
  have hedits := takenEdits_covers h (p := p) hcovers
  have hsublist := takenStatements_sublist p d htaken
  have hremovable := fun n hn => h.removable_of_mem (hsublist.subset (a := n) hn)
  obtain ⟨inserted, hperm, hinserted⟩ := exists_collected_perm p d helpers text
  -- What is inserted in front and at the end is apart from everything.
  have hinsertions : (d.registryEdits text ++ inserted).Pairwise Edit.Apart ∧
      ∀ f ∈ d.registryEdits text ++ inserted, (∀ e ∈ d.takenEdits p helpers, e.Apart f) ∧
        ∀ e ∈ (d.sites p).edits, e.Apart f := by
    have hplace : ∀ f ∈ inserted, ((∀ e ∈ d.takenEdits p helpers, e.Apart f) ∧
        ∀ e ∈ (d.sites p).edits, e.Apart f) ∧ f.stop ≤ d.source.bytes.length := by
      intro f hf
      rcases hinserted with rfl | ⟨text, priority, rfl⟩
      · cases hf
      · cases List.mem_singleton.mp hf
        exact ⟨⟨fun e he => apart_insertionPoint_taken h hcovers htaken text priority he,
          fun e he => apart_insertionPoint_element h helpers text priority he⟩, insertionPoint_le h p helpers⟩
    have hsingle : inserted.Pairwise Edit.Apart := by
      rcases hinserted with rfl | ⟨text, priority, rfl⟩
      · exact .nil
      · exact List.pairwise_singleton _ _
    refine ⟨List.pairwise_append.mpr ⟨pairwise_registryEdits d text, hsingle, fun e he f hf => ?_⟩,
      fun f hf => ?_⟩
    · exact (apart_registry he (hplace f hf).2).symm
    · rcases List.mem_append.mp hf with hf | hf
      · refine ⟨fun e he => apart_registry hf ?_, fun e he => apart_registry hf (stop_element_le h he)⟩
        obtain ⟨n, -, htakes⟩ := exists_of_mem_right hedits he
        exact htakes.within
      · exact (hplace f hf).1
  rw [hperm.pairwise_iff fun h => h.symm, List.pairwise_append, List.pairwise_append, buried_iff, not_not,
    ← CallSites.pairwise_edits_iff h.outline (soundChanges_sites p d),
    ← apart_taken_element_iff h hedits hremovable]
  constructor
  · rintro ⟨-, ⟨helements, -, -⟩, hcross⟩
    exact ⟨fun e he f hf => hcross e he f (List.mem_append_left _ hf), helements⟩
  · rintro ⟨hcross, helements⟩
    refine ⟨pairwise_takes h.outline hedits hremovable (h.pairwise_statements.sublist hsublist),
      ⟨helements, hinsertions.1, fun e he f hf => (hinsertions.2 f hf).2 e he⟩, fun e he f hf => ?_⟩
    rcases List.mem_append.mp hf with hf | hf
    · exact hcross e he f hf
    · exact (hinsertions.2 f hf).1 e he

theorem proper_collected (h : d.Faithful) {p : Project} {helpers : StatementEdits}
    (hhelpers : d.helperEdits p = .ok helpers) (text : String) :
    ∀ e ∈ d.collected p helpers text, e.Proper := by
  obtain ⟨hcovers, htaken⟩ := helperEdits_spec h hhelpers
  obtain ⟨inserted, hperm, hinserted⟩ := exists_collected_perm p d helpers text
  intro e he
  rcases List.mem_append.mp (hperm.mem_iff.mp he) with he | he
  · obtain ⟨n, hn, htakes⟩ := exists_of_mem_right (takenEdits_covers h hcovers) he
    exact htakes.proper (h.removable_of_mem ((takenStatements_sublist p d htaken).subset hn)) h.outline
  rcases List.mem_append.mp he with he | he
  · obtain ⟨c, -, -, -, t, -, hsited⟩ := exists_sited h he
    exact hsited.inTag.proper
  rcases List.mem_append.mp he with he | he
  · unfold registryEdits at he
    split at he
    · cases he
    · cases List.mem_singleton.mp he
      exact Nat.le_refl _
  · rcases hinserted with rfl | ⟨text, priority, rfl⟩
    · cases he
    · cases List.mem_singleton.mp he
      exact Nat.le_refl _

/-! ## Emission -/

/-- A draft is emitted by applying the collected edits. -/
theorem run_emit (p : Project) (hdeclared : d.Declared) {helpers : StatementEdits}
    (hhelpers : d.helperEdits p = .ok helpers) {text : String}
    (htext : (d.dialect p).declaration d.registry = .ok text) (s : Session (List Message)) :
    ∃ s', (d.emit p).run s = (.ok ((Edit.applyAll d.source.bytes (d.collected p helpers text)).map
      fun code => (code, (d.components p).failed)), s') ∧ Warns s s' := by
  obtain ⟨s₁, hrun, hwarns⟩ := run_carryOutAll p hdeclared
    { s with trace := (Plan.notePlans (d.plans p) s.trace).startPhase "Wrappers" "declaration replacement" }
  have hphase : (Work.phase "Wrappers" "declaration replacement" (d.carryOutAll p (d.plans p))).run
      { s with trace := Plan.notePlans (d.plans p) s.trace } =
        (.ok (d.components p), { s₁ with trace := s₁.trace.endPhase }) := by
    rw [Work.run_phase, hrun]
  unfold emit
  dsimp only
  rw [Work.run_bind_ok _ (Work.run_trace _ s), Work.run_bind_ok _ hphase, hhelpers, htext]
  exact ⟨_, rfl, hwarns⟩

/-- A draft that can be printed has edits for its helpers and a text for its registry. -/
theorem exists_of_printable (p : Project) (h : ¬ d.Unprintable) :
    ∃ helpers text, d.helperEdits p = .ok helpers ∧ (d.dialect p).declaration d.registry = .ok text := by
  obtain ⟨hanimations, hentries⟩ := not_or.mp h
  cases hhelpers : d.helperEdits p with
  | error f => exact absurd ((helperEdits_error_iff p d).mp ⟨f, hhelpers⟩) hanimations
  | ok helpers =>
      cases htext : (d.dialect p).declaration d.registry with
      | error f => exact absurd ((Registry.declaration_error_iff (d.dialect p) d.registry).mp ⟨f, htext⟩) hentries
      | ok text => exact ⟨helpers, text, rfl, rfl⟩

end

end Draft

end Restyle.Conversion
