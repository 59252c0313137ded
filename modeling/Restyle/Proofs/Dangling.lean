import Restyle.Proofs.Bindings
import Restyle.Proofs.Transient

/-!
# Names without declarations

The declaration of a component goes away if the component is replaced by its element, that of a mixin if the
mixin is in the registry.  Before the first is done, the module is searched for values of the name, but not
within the declarations of components and not in the short form of properties; these, and an element that has the
name of the component, are the only ways in which the name of a component stays in place.  Before the second there
is no search at all, so the name of a mixin stays in every statement that is left alone.  Names in texts that are
copied into function components and elements are not looked at here.
-/

namespace Restyle.Tsx.Node

/-! ## Nodes and their parents -/

theorem walkWithParent_eq (parent : Option Node) (n : Node) :
    walkWithParent parent n = (n, parent) :: walkAllWithParent n n.children := by
  cases n
  exact walkWithParent.eq_1 ..

theorem mem_walkAllWithParent {parent : Node} {ns : List Node} {x : Node × Option Node} :
    x ∈ walkAllWithParent parent ns ↔ ∃ n ∈ ns, x ∈ walkWithParent (some parent) n := by
  induction ns with
  | nil => simp [walkAllWithParent]
  | cons n ns ih => simp [walkAllWithParent, ih]

/-- What is met together with its parent stands in the tree. -/
theorem mem_walk_of_withParent {n x : Node} {parent above : Option Node}
    (h : (x, above) ∈ walkWithParent parent n) : x ∈ n.walk := by
  induction n using Node.induction generalizing parent with
  | step n ih =>
      rw [walkWithParent_eq] at h
      rcases List.mem_cons.mp h with heq | h
      · obtain ⟨rfl, -⟩ := Prod.mk.inj heq
        exact mem_walk_self x
      · obtain ⟨c, hc, h⟩ := mem_walkAllWithParent.mp h
        exact mem_walk.mpr (.inr ⟨c, hc, ih c hc h⟩)

end Restyle.Tsx.Node

namespace Restyle.Module

open Restyle.Emit.CallSites (Edited)
open Restyle.Tsx (Node)

/-! ## Uses of names -/

/-- A node that uses a name as a value, and not as the name of a tag. -/
structure UsesValue (m : Module) (name : String) (n : Node) : Prop where
  identifier : n.isIdentifier = true
  text : n.text = name
  place : ∃ parent, (n, parent) ∈ Node.walkWithParent none m.root ∧
    (n.role == some .name && parent.any isTag) = false

/-- A node that uses a name. -/
inductive Uses (m : Module) (name : String) (n : Node) : Prop where
  | value (hvalue : m.UsesValue name n) : Uses m name n
  /-- In one of the tags of an element. -/
  | element {x : Node} (hx : Edited m x) (hname : elementName x = name) (hn : n ∈ (Usage.ofElement x).nameNodes) :
      Uses m name n
  /-- As the name of a property and its value at the same time. -/
  | shorthand (hmem : n ∈ m.root.walk) (hkind : n.kind = .shorthandIdentifier) (htext : n.text = name) :
      Uses m name n

/-- The search for values finds a name exactly if it is used as a value outside of the given nodes. -/
theorem mem_valueReferences {m : Module} {names : List String} {skip : List Node} {name : String} :
    name ∈ valueReferences m names skip ↔ name ∈ names ∧
      ∃ n, m.UsesValue name n ∧ ∀ s ∈ skip, s.start ≤ n.start → s.stop ≤ n.start := by
  unfold valueReferences
  rw [Plan.mem_firstOccurrences, List.mem_filterMap]
  constructor
  · rintro ⟨⟨n, parent⟩, hmem, h⟩
    dsimp only at h
    split at h
    · cases h
    next hnamed =>
    split at h
    · cases h
    next hskip =>
    split at h
    · cases h
    next htag =>
    cases h
    simp only [Bool.or_eq_true, Bool.not_eq_true', not_or, Bool.not_eq_false, List.contains_iff_mem] at hnamed
    refine ⟨hnamed.2, n, ⟨hnamed.1, rfl, parent, hmem, Bool.eq_false_iff.mpr htag⟩, fun s hs hstart => ?_⟩
    by_contra hstop
    exact hskip (List.any_eq_true.mpr ⟨s, hs, by simp; omega⟩)
  · rintro ⟨hname, n, ⟨hidentifier, rfl, parent, hmem, htag⟩, hskip⟩
    refine ⟨(n, parent), hmem, ?_⟩
    dsimp only
    rw [if_neg (by simp [hidentifier, hname]), if_neg, if_neg (Bool.eq_false_iff.mp htag)]
    intro hany
    obtain ⟨s, hs, hinside⟩ := List.any_eq_true.mp hany
    simp only [Bool.and_eq_true, decide_eq_true_eq] at hinside
    have := hskip s hs hinside.1
    omega

/-- What is used as a value ahead of the end of a statement ends with it at the latest. -/
theorem UsesValue.stop_le {m : Module} (hm : m.Outline) {name : String} {n s : Node} (h : m.UsesValue name n)
    (hs : Removable m s) (hstart : n.start < s.stop) : n.stop ≤ s.stop := by
  obtain ⟨parent, hplace, -⟩ := h.place
  have hmem := Node.mem_walk_of_withParent hplace
  have hroot : n ≠ m.root := by
    rintro rfl
    have hidentifier := h.identifier
    unfold Node.isIdentifier at hidentifier
    rw [hm.kind] at hidentifier
    cases hidentifier
  rcases hs.walk_or_beside hm hmem hroot with hmem | hbeside
  · exact ((hm.laid_of_mem hs.mem_walk).of_mem_walk hmem).2.1
  · have := (hs.solid hm).lt
    unfold Node.Beside at hbeside
    omega

end Restyle.Module

namespace Restyle.Plan

/-! ## What is replaced by its element -/

theorem valueRefs_ofUsages (usages : List Module.Usage) (valueRefs : List String) :
    (UsageFacts.ofUsages usages valueRefs).valueRefs = valueRefs := by
  unfold UsageFacts.ofUsages
  exact List.foldlRecOn (motive := fun f : UsageFacts => f.valueRefs = valueRefs) usages _ rfl fun _ h _ _ => h

theorem not_mem_valueRefs {b : Basis} {arena : Arena} {c : Component}
    (h : (planComponent b arena c).isInline = true) : c.name ∉ b.facts.valueRefs := by
  have hmode : renderMode b c = .inline := beq_iff_eq.mp h
  unfold renderMode at hmode
  dsimp only at hmode
  split at hmode
  · cases hmode
  · next hfree =>
      intro hmem
      exact hfree (by rw [List.contains_iff_mem.mpr hmem, Bool.or_true])

end Restyle.Plan

namespace Restyle.Conversion

open Restyle.Emit (CallSites)
open Restyle.Module (Edit HelperDeclaration StyledDeclaration Usage)
open Restyle.Tsx (Node)

namespace Draft

section

variable {p : Project} {d : Draft} {helpers : StatementEdits} {text : String}

/-- A use of a name that is in none of the stretches that make way for something else. -/
structure Left (p : Project) (d : Draft) (helpers : StatementEdits) (text name : String) (n : Node) : Prop where
  uses : d.source.Uses name n
  untouched : ∀ e ∈ d.collected p helpers text, ¬ (e.start ≤ n.start ∧ n.stop ≤ e.stop)

/-- Why a use of the name of a component stays though the declaration goes away. -/
inductive Overlooked (p : Project) (d : Draft) (helpers : StatementEdits) (name : String) (n : Node) : Prop where
  /-- The use is in the declaration of a component, and this declaration stays. -/
  | kept {c : StyledDeclaration} (hc : c ∈ d.declarations.styled) (harena : d.arena.has c.name = true)
      (hstays : c.statement ∉ d.takenStatements p helpers) (hfirst : c.statement.start ≤ n.start)
      (hlast : n.start < c.statement.stop) : Overlooked p d helpers name n
  /-- The use is the short form of a property. -/
  | shorthand (hkind : n.kind = .shorthandIdentifier) : Overlooked p d helpers name n
  /-- The element of the component has the name of the component. -/
  | sameName {plan : ComponentPlan} (hplan : (name, plan) ∈ d.plans p) (helement : plan.element = name) :
      Overlooked p d helpers name n

/-- A plan is that of the component of its name. -/
theorem exists_planned (hfaithful : d.Faithful) (hnamed : Named d.arena) {entry : String × ComponentPlan}
    (hentry : entry ∈ d.plans p) : ∃ c : Component, c.name = entry.1 ∧
      entry.2 = Plan.planComponent (d.basis p) (Plan.settle (d.basis p) d.arena) c := by
  have hnodup : (d.plans p).names.Nodup := (names_plans p d) ▸ hfaithful.distinct
  have hget : (d.plans p).get? entry.1 = some entry.2 := Table.get?_of_mem hnodup hentry
  rw [plans_eq, Plan.get?_planAll] at hget
  obtain ⟨c, hc, heq⟩ := Option.map_eq_some_iff.mp hget
  exact ⟨c, Plan.named_settle _ hnamed _ _ hc, heq.symm⟩

/-- The edit that takes away a statement with the blanks around it. -/
def deletionOf (d : Draft) (statement : Node) : Edit :=
  Edit.deletion (Module.statementRange d.source.bytes statement.start statement.stop).1
    (Module.statementRange d.source.bytes statement.start statement.stop).2

/-- The statement of a component that is replaced by its element is deleted. -/
theorem deletion_mem_of_inline (hfaithful : d.Faithful) {entry : String × ComponentPlan} (hentry : entry ∈ d.plans p)
    (hinline : entry.2.isInline = true) {statement : Node} (hstatement : d.statement? entry.1 = some statement)
    (helpers : StatementEdits) (text : String) : d.deletionOf statement ∈ d.collected p helpers text := by
  refine mem_collected_of_fate hfaithful hentry hstatement ?_ text
  rw [fate_of_isInline p d hinline]
  exact List.mem_singleton_self _

/-- The mixins whose statements go away: those in the registry that are not exported. -/
def removedMixins (d : Draft) : List HelperDeclaration :=
  d.declarations.mixins.filter fun k => d.mixinKeys.has k.name && !k.isExported

/-- The statement of a mixin in the registry is deleted unless it is exported. -/
theorem deletion_mem_of_mixin (hhelpers : d.helperEdits p = .ok helpers) {k : HelperDeclaration}
    (hk : k ∈ d.removedMixins) (text : String) : d.deletionOf k.statement ∈ d.collected p helpers text := by
  have hedit : d.deletionOf k.statement ∈ helpers.edits := by
    unfold helperEdits at hhelpers
    cases hanimations : d.declarations.keyframes.mapM (d.animationEdits p) with
    | error fault =>
        rw [hanimations] at hhelpers
        cases hhelpers
    | ok animations =>
        rw [hanimations] at hhelpers
        cases hhelpers
        refine mem_edits_foldl (List.mem_append_right _ (List.mem_map_of_mem hk)) ?_
        exact List.mem_singleton_self _
  unfold collected
  exact List.mem_append_left _ (List.mem_append_left _ (List.mem_append_left _ (List.mem_append_right _ hedit)))

/-- A statement that is taken away is covered by an edit. -/
theorem exists_edit_of_taken (hfaithful : d.Faithful) (hhelpers : d.helperEdits p = .ok helpers) (text : String)
    {s : Node} (hs : s ∈ d.takenStatements p helpers) :
    ∃ e ∈ d.collected p helpers text, e.start ≤ s.start ∧ s.stop ≤ e.stop := by
  have hcovers := takenEdits_covers hfaithful (p := p) (helperEdits_spec hfaithful hhelpers).1
  obtain ⟨e, he, htakes⟩ := exists_of_mem_left hcovers hs
  obtain ⟨inserted, hperm, -⟩ := exists_collected_perm p d helpers text
  exact ⟨e, hperm.mem_iff.mpr (List.mem_append_left _ he), htakes.first_le, htakes.le_last⟩

/-- A value of the name of a component that is replaced by its element is in the declaration of a component. -/
theorem overlooked_of_value (hfaithful : d.Faithful) (hnamed : Named d.arena)
    (hhelpers : d.helperEdits p = .ok helpers) {entry : String × ComponentPlan} (hentry : entry ∈ d.plans p)
    (hinline : entry.2.isInline = true) {n : Node} (hvalue : d.source.UsesValue entry.1 n)
    (huntouched : ∀ e ∈ d.collected p helpers text, ¬ (e.start ≤ n.start ∧ n.stop ≤ e.stop)) :
    d.Overlooked p helpers entry.1 n := by
  obtain ⟨c, hname, hplan⟩ := exists_planned hfaithful hnamed hentry
  have hknown : entry.1 ∈ d.arena.names := by
    rw [← names_plans p d]
    exact List.mem_map_of_mem hentry
  have hunseen := Plan.not_mem_valueRefs (hplan ▸ hinline)
  have hrefs : (d.basis p).facts.valueRefs = Module.valueReferences d.source d.arena.names
      ((d.declarations.styled.filter fun s => d.arena.has s.name).map (·.statement)) :=
    Plan.valueRefs_ofUsages d.usages _
  rw [hname, hrefs, Module.mem_valueReferences] at hunseen
  -- The search would have found the value if it were outside of all these declarations.
  have hinside : ∃ c ∈ d.declarations.styled, d.arena.has c.name = true ∧ c.statement.start ≤ n.start ∧
      n.start < c.statement.stop := by
    by_contra hnone
    refine hunseen ⟨hknown, n, hvalue, fun s hs hfirst => ?_⟩
    obtain ⟨c, hc, rfl⟩ := List.mem_map.mp hs
    obtain ⟨hc, harena⟩ := List.mem_filter.mp hc
    by_contra hlast
    exact hnone ⟨c, hc, harena, hfirst, by omega⟩
  obtain ⟨c, hc, harena, hfirst, hlast⟩ := hinside
  refine .kept hc harena (fun htaken => ?_) hfirst hlast
  have hremovable : Module.Removable d.source c.statement := by
    rw [hfaithful.declarations] at hc
    exact (Module.Declarations.makes_styled hc).removable
  obtain ⟨e, he, hstart, hstop⟩ := exists_edit_of_taken hfaithful hhelpers text htaken
  exact huntouched e he
    ⟨Nat.le_trans hstart hfirst, Nat.le_trans (hvalue.stop_le hfaithful.outline hremovable hlast) hstop⟩

/-- The plan of a component that is replaced by its element is among those that are carried out. -/
theorem get?_sites (hfaithful : d.Faithful) {entry : String × ComponentPlan} (hentry : entry ∈ d.plans p)
    (hinline : entry.2.isInline = true) : (d.sites p).plans.get? entry.1 = some entry.2 := by
  have hcarried : d.isCarriedOut p entry.2 = true := by
    unfold isCarriedOut
    rw [fate_of_isInline p d hinline]
    rfl
  have hplans : (d.sites p).plans = (d.plans p).filter fun entry => d.isCarriedOut p entry.2 :=
    (components_eq hfaithful p).2.1
  have hnodup : (d.plans p).names.Nodup := (names_plans p d) ▸ hfaithful.distinct
  rw [hplans]
  exact Table.get?_of_mem (hnodup.sublist (List.filter_sublist.map _)) (List.mem_filter.mpr ⟨hentry, hcarried⟩)

/-- The name of a component that is replaced by its element makes way in the tags of its usages. -/
theorem exists_edit_of_element (hfaithful : d.Faithful) (hnamed : Named d.arena) (helpers : StatementEdits)
    (text : String) {entry : String × ComponentPlan} (hentry : entry ∈ d.plans p)
    (hinline : entry.2.isInline = true) (hother : entry.2.element ≠ entry.1) {x n : Node}
    (hx : CallSites.Edited d.source x) (hname : Module.elementName x = entry.1)
    (hn : n ∈ (Usage.ofElement x).nameNodes) :
    ∃ e ∈ d.collected p helpers text, e.start ≤ n.start ∧ n.stop ≤ e.stop := by
  obtain ⟨c, hcname, hplan⟩ := exists_planned hfaithful hnamed hentry
  have hget := get?_sites hfaithful hentry hinline
  have husage : Usage.ofElement x ∈ d.usages := by
    refine List.mem_filterMap.mpr ⟨x, List.mem_filter.mpr ⟨hx.mem, hx.element⟩, ?_⟩
    rw [hname, if_pos]
    rw [List.contains_iff_mem, ← names_plans p d]
    exact List.mem_map_of_mem hentry
  have hplanName : entry.2.name = (Usage.ofElement x).name := by
    rw [hplan]
    exact hcname.trans hname.symm
  have hchanged : Usage.ofElement x ∈ (d.sites p).changes.map (·.usage) :=
    CallSites.mem_changes hfaithful.outline (fun _ hu => CallSites.edited_usagesOf hu) rfl husage rfl
      (List.mem_map_of_mem (Table.mem_of_get? hget)) hinline hplanName
  have hinlined : (d.sites p).inlined? (Usage.ofElement x) = some entry.2 := by
    unfold CallSites.inlined?
    rw [show (Usage.ofElement x).name = entry.1 from hname]
    exact Option.filter_eq_some_iff.mpr ⟨hget, hinline⟩
  have hedit := CallSites.nameEdit_mem_edits hchanged hinlined (fun h => hother (h.trans hname)) hn
  obtain ⟨inserted, hperm, -⟩ := exists_collected_perm p d helpers text
  have hmem := hperm.mem_iff.mpr (List.mem_append_right _ (List.mem_append_left _ hedit))
  exact ⟨_, hmem, Nat.le_refl _, Nat.le_refl _⟩

/-- A statement that is left alone: it is not taken away, and no element in it is edited. -/
structure Resting (p : Project) (d : Draft) (helpers : StatementEdits) (s : Node) : Prop where
  removable : Module.Removable d.source s
  untaken : s ∉ d.takenStatements p helpers
  unedited : ∀ c ∈ (d.sites p).changes, (d.sites p).editsOf c ≠ [] → c.usage.element ∉ s.walk

/-- No edit covers anything that takes up room in a statement that is left alone. -/
theorem Resting.untouched (hfaithful : d.Faithful) (hhelpers : d.helperEdits p = .ok helpers) {s : Node}
    (hs : d.Resting p helpers s) {start stop : Nat} (hlt : start < stop) (hfirst : s.start ≤ start)
    (hlast : stop ≤ s.stop) : ∀ e ∈ d.collected p helpers text, ¬ (e.start ≤ start ∧ stop ≤ e.stop) := by
  rintro e he ⟨hestart, hestop⟩
  obtain ⟨inserted, hperm, hinserted⟩ := exists_collected_perm p d helpers text
  have hbound := hs.removable.stop_le hfaithful.outline
  obtain ⟨hcovers, htaken⟩ := helperEdits_spec hfaithful hhelpers
  rcases List.mem_append.mp (hperm.mem_iff.mp he) with he | he
  · obtain ⟨t, ht, htakes⟩ := exists_of_mem_right (takenEdits_covers hfaithful hcovers) he
    have hremovable := hfaithful.removable_of_mem ((takenStatements_sublist p d htaken).subset ht)
    have hbeside := hs.removable.beside hfaithful.outline hremovable fun heq => hs.untaken (heq ▸ ht)
    have hapart := htakes.beside (hs.removable.solid hfaithful.outline) hbeside
    omega
  rcases List.mem_append.mp he with he | he
  · obtain ⟨c, hc, hmem, hedited, t, ht, hsited⟩ := exists_sited hfaithful he
    have hinside := hsited.within (hedited.isTagOf hfaithful.outline ht) (hfaithful.outline.laid_of_mem hedited.mem)
    have hbeside := (hs.removable.walk_or_beside hfaithful.outline hedited.mem
      (Module.ne_root_of_edited hfaithful.outline hedited)).resolve_left
        (hs.unedited c hc (List.ne_nil_of_mem hmem))
    unfold Node.Beside at hbeside
    omega
  rcases List.mem_append.mp he with he | he
  · unfold registryEdits at he
    split at he
    · cases he
    · cases List.mem_singleton.mp he
      have hend : d.source.bytes.length ≤ start := hestart
      omega
  · rcases hinserted with rfl | ⟨inserted, priority, rfl⟩
    · cases he
    · cases List.mem_singleton.mp he
      have hplace : stop ≤ start := Nat.le_trans hestop hestart
      omega

end

end Draft

/--
The declaration of a component that is replaced by its element is deleted, and the name of the component is left in
place only in the declaration of a component that stays, in the short form of a property, or where the element has
the name of the component.
-/
theorem overlooked_of_left {p : Project} {code path : String} {d : Draft} {helpers : StatementEdits}
    {text : String} (h : Emitted p (Module.read code path) d helpers text) {entry : String × ComponentPlan}
    (hentry : entry ∈ d.plans p) (hinline : entry.2.isInline = true) {statement : Node}
    (hstatement : d.statement? entry.1 = some statement) :
    d.deletionOf statement ∈ d.collected p helpers text ∧
      ∀ n, d.Left p helpers text entry.1 n → d.Overlooked p helpers entry.1 n := by
  have hfaithful := h.drafted.faithful
  refine ⟨Draft.deletion_mem_of_inline hfaithful hentry hinline hstatement helpers text, fun n hleft => ?_⟩
  cases hleft.uses with
  | value hvalue =>
      exact Draft.overlooked_of_value hfaithful h.drafted.named h.drafted.helpers hentry hinline hvalue
        hleft.untouched
  | element hx hname hn =>
      by_cases hsame : entry.2.element = entry.1
      · exact .sameName hentry hsame
      · obtain ⟨e, he, hinside⟩ := Draft.exists_edit_of_element hfaithful h.drafted.named helpers text
          hentry hinline hsame hx hname hn
        exact absurd hinside (hleft.untouched e he)
  | shorthand _ hkind _ => exact .shorthand hkind

/--
The declaration of a mixin in the registry is deleted unless it is exported, and the name of the mixin is left in
place wherever it is used in a statement that is left alone.
-/
theorem left_of_resting {p : Project} {code path : String} {d : Draft} {helpers : StatementEdits}
    {text : String} (h : Emitted p (Module.read code path) d helpers text) {k : HelperDeclaration}
    (hk : k ∈ d.removedMixins) :
    d.deletionOf k.statement ∈ d.collected p helpers text ∧
      ∀ n s, d.source.Uses k.name n → n.start < n.stop → d.Resting p helpers s → n ∈ s.walk →
        d.Left p helpers text k.name n := by
  have hfaithful := h.drafted.faithful
  refine ⟨Draft.deletion_mem_of_mixin h.drafted.helpers hk text, fun n s huses hlt hs hn => ⟨huses, ?_⟩⟩
  obtain ⟨hfirst, hlast, -⟩ := (hfaithful.outline.laid_of_mem hs.removable.mem_walk).of_mem_walk hn
  exact hs.untouched hfaithful h.drafted.helpers hlt hfirst hlast

/-! ## A mixin that is used as a value -/

/-- A module with a mixin and a value of its name. -/
def orphaningModule : String :=
  "import \x7b css \x7d from \"styled-components\";\nconst m = css\x60\x60;\nm;\n"

/-- What the module is converted into. -/
def orphanedModule : String :=
  "import * as stylex from \"@stylexjs/stylex\";\nm;\n" ++
    "\nconst styles = stylex.create(\x7b\n  m: \x7b\x7d,\n\x7d);\n"

/-- The declaration of the mixin goes away, and the value stays. -/
theorem emitted_orphaningModule : "m" ∈ (Module.read orphaningModule "f.tsx").topNames ∧ ∃ d helpers text,
    Emitted {} (Module.read orphaningModule "f.tsx") d helpers text ∧
      d.converted {} helpers text = .ok orphanedModule := by
  have hcheck : (emission? {} (Module.read orphaningModule "f.tsx")).any (fun e =>
      decide ((e.1.collected {} e.2.1 e.2.2).Perm
        [.insertion 0 "import * as stylex from \"@stylexjs/stylex\";\n" (-1), .deletion 0 41, .deletion 41 58,
          .insertion 61 "\nconst styles = stylex.create(\x7b\n  m: \x7b\x7d,\n\x7d);\n" 10]) &&
      decide ("m" ∈ e.1.source.topNames)) = true := by
    rw [Module.read, Tsx.Source.read_eq_ofChars (show orphaningModule.toList = _ from String.toList_ofList)]
    decide +kernel
  have hspliced : (Edit.splice (Text.encode orphaningModule) 0
      [.insertion 0 "import * as stylex from \"@stylexjs/stylex\";\n" (-1), .deletion 0 41, .deletion 41 58,
        .insertion 61 "\nconst styles = stylex.create(\x7b\n  m: \x7b\x7d,\n\x7d);\n" 10]).map Text.decode? =
      .ok (some orphanedModule) := by
    decide +kernel
  obtain ⟨d, helpers, text, h, hdeclared, hconverted⟩ := exists_emitted hcheck (by decide) hspliced
  rw [h.drafted.source_eq] at hdeclared
  exact ⟨of_decide_eq_true hdeclared, d, helpers, text, h, hconverted⟩

/-- The converted module does not declare a name that it uses as a value. -/
theorem orphans_orphaningModule : (Module.read orphaningModule "f.tsx").hasErrors = false ∧
    "m" ∈ (Module.read orphaningModule "f.tsx").topNames ∧
    ∃ outcome out, run {} orphaningModule "f.tsx" = .ok outcome ∧ outcome.success = true ∧
      outcome.code = some out ∧ "m" ∉ (Module.read out "f.tsx").topNames ∧
      "m" ∈ Module.valueReferences (Module.read out "f.tsx") ["m"] [] := by
  obtain ⟨hdeclared, d, helpers, text, h, hconverted⟩ := emitted_orphaningModule
  obtain ⟨outcome, hrun, hsuccess, hcode⟩ := h.exists_outcome hconverted
  refine ⟨h.convertible.readable, hdeclared, outcome, _, hrun, hsuccess, hcode, ?_⟩
  rw [Module.read, Tsx.Source.read_eq_ofChars (show orphanedModule.toList = _ from
    Text.toList_append_of String.toList_ofList String.toList_ofList)]
  decide +kernel

end Restyle.Conversion
