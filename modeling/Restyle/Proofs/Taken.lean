import Restyle.Conversion.Emission
import Restyle.Proofs.Elements

/-!
# Statements that are taken away

The declarations and imports of a module are distinct statements of it.  An edit that removes or replaces
one of them keeps apart from all that stands beside the statement.
-/

namespace Restyle.Module

open Restyle.Tsx (LaidAll Node)

/-! ## Statements of declarations -/

/-- The statement of a declaration. -/
def Declared.statement : Declared → Node
  | .styled d => d.statement
  | .helper h => h.statement

/-- Statements that declare variables. -/
def declaresVariables (n : Node) : Prop :=
  n.kind = .exportStatement ∨ n.kind = .lexicalDeclaration ∨ n.kind = .variableDeclaration

theorem declaresVariables_of_declarators {n : Node} (h : (declarators n).2 ≠ []) : declaresVariables n := by
  unfold declaresVariables
  by_cases hexport : n.kind = .exportStatement
  · exact .inl hexport
  · right
    unfold declarators at h
    simp only [beq_iff_eq, if_neg hexport] at h
    split at h
    · next hkind => simpa using hkind
    · exact absurd rfl h

/-- A declaration is made by a statement that declares variables. -/
theorem declared?_spec {m : Module} {names : Table String} {n : Node} {x : Declared}
    (h : declared? m names n = some x) : x.statement = n ∧ declaresVariables n := by
  unfold declared? at h
  split at h
  · next isExported declarator hdeclarators =>
      refine ⟨?_, declaresVariables_of_declarators (by rw [hdeclarators]; exact List.cons_ne_nil _ _)⟩
      obtain ⟨nameNode, -, h⟩ := Option.bind_eq_some_iff.mp h
      split at h
      · cases h
      obtain ⟨value, -, h⟩ := Option.bind_eq_some_iff.mp h
      obtain ⟨⟨tag, template⟩, -, h⟩ := Option.bind_eq_some_iff.mp h
      dsimp only at h
      split at h
      · cases h
        rfl
      split at h
      · cases h
        rfl
      obtain ⟨factory, -, h⟩ := Option.bind_eq_some_iff.mp h
      obtain ⟨chain, -, h⟩ := Option.bind_eq_some_iff.mp h
      cases h
      rfl
  · cases h

namespace Declarations

variable {m : Module} {names : Table String}

/-- A statement of a module makes a declaration. -/
structure Makes (m : Module) (names : Table String) (n : Node) (x : Declared) : Prop where
  mem : n ∈ m.root.named
  declared : declared? m names n = some x

theorem makes_of_mem {x : Declared} (h : x ∈ m.root.named.filterMap (declared? m names)) :
    Makes m names x.statement x := by
  obtain ⟨n, hn, h⟩ := List.mem_filterMap.mp h
  obtain ⟨rfl, -⟩ := declared?_spec h
  exact ⟨hn, h⟩

theorem makes_styled {d : StyledDeclaration} (h : d ∈ (ofModule m names).styled) :
    Makes m names d.statement (.styled d) := by
  obtain ⟨x, hx, h⟩ := List.mem_filterMap.mp h
  split at h
  · cases h
    exact makes_of_mem hx
  · cases h

/-- The helper in a declaration. -/
def helper? (kind : HelperKind) : Declared → Option HelperDeclaration
  | .helper d => if d.kind == kind then some d else none
  | .styled _ => none

theorem of_helper? {kind : HelperKind} {x : Declared} {d : HelperDeclaration} (h : helper? kind x = some d) :
    .helper d = x ∧ d.kind = kind := by
  unfold helper? at h
  split at h
  · split at h
    · next hkind =>
        cases h
        exact ⟨rfl, beq_iff_eq.mp hkind⟩
    · cases h
  · cases h

/-- The helpers of one kind that a module declares. -/
def helpersOf (m : Module) (names : Table String) (kind : HelperKind) : List HelperDeclaration :=
  (m.root.named.filterMap (declared? m names)).filterMap (helper? kind)

theorem keyframes_eq : (ofModule m names).keyframes = helpersOf m names .keyframes := rfl

theorem mixins_eq : (ofModule m names).mixins = helpersOf m names .css := rfl

theorem makes_helper {kind : HelperKind} {d : HelperDeclaration} (h : d ∈ helpersOf m names kind) :
    Makes m names d.statement (.helper d) ∧ d.kind = kind := by
  obtain ⟨x, hx, h⟩ := List.mem_filterMap.mp h
  obtain ⟨rfl, hkind⟩ := of_helper? h
  exact ⟨makes_of_mem hx, hkind⟩

/-- Helpers of one kind stand in the order of their statements. -/
theorem pairwise_helpersOf (hm : m.Outline) (kind : HelperKind) :
    (helpersOf m names kind).Pairwise fun a b => a.statement.stop ≤ b.statement.start := by
  have horder := ((Node.laid_iff m.root).mp hm.laid).2.pairwise.filter fun c => c.kind != .token
  have hall := pairwise_filterMap_of_eq (g := Declared.statement) (f := declared? m names)
    (fun _ _ h => (declared?_spec h).1) horder
  exact pairwise_filterMap_of_eq (g := Declared.helper) (fun _ _ h => (of_helper? h).1) hall

end Declarations

/-! ## Statements side by side -/

/-- Statements of a module of the kinds that may be taken away. -/
structure Removable (m : Module) (n : Node) : Prop where
  mem : n ∈ m.root.children
  kind : n.kind.isStatement = true

namespace Removable

variable {m : Module} {n : Node}

theorem mem_walk (h : Removable m n) : n ∈ m.root.walk :=
  Node.mem_walk_of_mem_children h.mem m.root.mem_walk_self

theorem solid (hm : m.Outline) (h : Removable m n) : SolidBytes m.bytes n.start n.stop :=
  (hm.formed_of_mem h.mem_walk).statement h.kind

theorem beside (hm : m.Outline) {n' : Node} (h : Removable m n) (h' : Removable m n') (hne : n ≠ n') :
    n.Beside n' := ((Node.laid_iff m.root).mp hm.laid).2.beside h.mem h'.mem hne

end Removable

theorem isStatement_of_declaresVariables {n : Node} (h : declaresVariables n) : n.kind.isStatement = true := by
  rcases h with h | h | h <;> rw [h] <;> rfl

theorem Declarations.Makes.removable {m : Module} {names : Table String} {n : Node} {x : Declared}
    (h : Makes m names n x) : Removable m n :=
  ⟨Node.mem_children_of_mem_named h.mem, isStatement_of_declaresVariables (declared?_spec h.declared).2⟩

theorem statement?_spec {n : Node} {s : ImportStatement} (h : Imports.statement? n = some s) :
    s.node = n ∧ n.kind = .importStatement := by
  unfold Imports.statement? at h
  split at h
  · next hkind =>
      obtain ⟨source, -, h⟩ := Option.map_eq_some_iff.mp h
      cases h
      exact ⟨rfl, beq_iff_eq.mp hkind⟩
  · cases h

theorem statement?_node {m : Module} {s : ImportStatement} (h : s ∈ (Imports.ofModule m).statements) :
    Imports.statement? s.node = some s := by
  obtain ⟨n, -, h⟩ := List.mem_filterMap.mp h
  rwa [(statement?_spec h).1]

theorem removable_import {m : Module} {s : ImportStatement} (h : s ∈ (Imports.ofModule m).statements) :
    Removable m s.node ∧ s.node.kind = .importStatement := by
  obtain ⟨n, hn, h⟩ := List.mem_filterMap.mp h
  obtain ⟨rfl, hkind⟩ := statement?_spec h
  exact ⟨⟨Node.mem_children_of_mem_named hn, by rw [hkind]; rfl⟩, hkind⟩

/-- Import statements stand in order. -/
theorem pairwise_imports {m : Module} (hm : m.Outline) :
    (Imports.ofModule m).statements.Pairwise fun a b => a.node.stop ≤ b.node.start :=
  pairwise_filterMap_of_eq (R := fun x y : Node => x.stop ≤ y.start) (g := ImportStatement.node)
    (fun _ _ h => (statement?_spec h).1) (((Node.laid_iff m.root).mp hm.laid).2.pairwise.filter _)

/-! ## Edits of statements -/

/-- An edit that removes or replaces a statement, with blanks around it or without. -/
def Edit.Takes (m : Module) (n : Node) (e : Edit) : Prop :=
  Widened m.bytes n.start n.stop e.start e.stop

namespace Removable

variable {m : Module} {n : Node}

theorem stop_le (hm : m.Outline) (h : Removable m n) : n.stop ≤ m.bytes.length :=
  Nat.le_trans (hm.laid.of_mem_walk h.mem_walk).2.1 hm.stop

theorem takes_deletion (hm : m.Outline) (h : Removable m n) : Edit.Takes m n
    (.deletion (statementRange m.bytes n.start n.stop).1 (statementRange m.bytes n.start n.stop).2) :=
  widened_statementRange (Nat.le_of_lt (h.solid hm).lt) (h.stop_le hm)

theorem takes_replacement (hm : m.Outline) (h : Removable m n) (text : String) :
    Edit.Takes m n { start := n.start, stop := n.stop, text } := .refl (h.stop_le hm)

end Removable

namespace Edit

variable {m : Module} {n : Node} {e : Edit}

theorem Takes.proper (h : e.Takes m n) (hn : Removable m n) (hm : m.Outline) : e.Proper :=
  Nat.le_trans h.first_le (Nat.le_trans (Nat.le_of_lt (hn.solid hm).lt) h.le_last)

/-- Edits of two statements are apart. -/
theorem Takes.apart {n' : Node} {e' : Edit} (h : e.Takes m n) (h' : e'.Takes m n') (hm : m.Outline)
    (hn : Removable m n) (hn' : Removable m n') (hbeside : n.Beside n') : e.Apart e' := by
  rcases hbeside with hle | hle
  · exact .inl (h.last_le_first h' (hn.solid hm) (hn'.solid hm) hle)
  · exact .inr (h'.last_le_first h (hn'.solid hm) (hn.solid hm) hle)

/-- What is solid beside a statement is beside an edit of the statement. -/
theorem Takes.beside (h : e.Takes m n) {start stop : Nat} (hsolid : SolidBytes m.bytes start stop)
    (hbeside : stop ≤ n.start ∨ n.stop ≤ start) : stop ≤ e.start ∨ e.stop ≤ start :=
  hbeside.imp (h.le_first hsolid) (h.last_le hsolid)

end Edit

/-- A node of a module other than the whole stands in a statement or beside it. -/
theorem Removable.walk_or_beside {m : Module} {n x : Node} (hm : m.Outline) (hn : Removable m n)
    (hx : x ∈ m.root.walk) (hroot : x ≠ m.root) : x ∈ n.walk ∨ n.Beside x := by
  have hlaid := ((Node.laid_iff m.root).mp hm.laid).2
  obtain ⟨c, hc, hxc⟩ := (Node.mem_walk.mp hx).resolve_left hroot
  by_cases hcn : c = n
  · exact .inl (hcn ▸ hxc)
  · obtain ⟨hstart, hstop, -⟩ := (hlaid.of_mem hc).2.2.of_mem_walk hxc
    exact .inr ((hlaid.beside hn.mem hc (Ne.symm hcn)).mono (Nat.le_refl _) (Nat.le_refl _) hstart hstop)

theorem ne_root_of_edited {m : Module} {x : Node} (hm : m.Outline) (hx : Emit.CallSites.Edited m x) :
    x ≠ m.root := by
  rintro rfl
  have helement := hx.element
  unfold isElement at helement
  rw [hm.kind] at helement
  cases helement

/-- An edit of a statement and one of an element are apart exactly if the element is not in the statement. -/
theorem Edit.Takes.apart_element_iff {m : Module} {n x t : Node} {e f : Edit} {s : Emit.CallSites}
    (h : e.Takes m n) (hm : m.Outline) (hn : Removable m n) (hx : Emit.CallSites.Edited m x)
    (ht : t ∈ tagsOf x) (hf : Emit.CallSites.Sited s x t f) : e.Apart f ↔ x ∉ n.walk := by
  obtain ⟨hstart, hproper, hstop⟩ := hf.inTag
  have htag := hx.isTagOf hm ht
  have hinside := hf.within htag (hm.laid_of_mem hx.mem)
  constructor
  · intro hapart hmem
    obtain ⟨hfirst, hlast, -⟩ := (hm.laid_of_mem hn.mem_walk).of_mem_walk hmem
    have hle := h.first_le
    have hle' := h.le_last
    refine not_apart_of_inside hproper ?_ ?_ hapart <;> unfold Proper at hproper <;> omega
  · intro hnot
    have hbeside := (hn.walk_or_beside hm hx.mem (ne_root_of_edited hm hx)).resolve_left hnot
    obtain ⟨hfirst, hlast, -⟩ := (hm.laid_of_mem hx.mem).of_mem_walk (htag.mem_walk (Node.mem_walk_self x))
    have houtside := h.beside (hx.tagFormed hm ht).solid (by unfold Node.Beside at hbeside; omega)
    unfold Apart
    unfold Proper at hproper
    omega

end Restyle.Module
