import Restyle.Tsx.Node
import Restyle.Tsx.Cursor

/-!
# Evaluating expressions over props

An expression is evaluated along its tree.  What operators, literals, calls and functions do is left to an
evaluator; all that is known of it is that a member of the props is the prop of that name.  Two expressions, of
which the second one reads the props by name, have the same value under every evaluator exactly if the second one
is the first one with every access to the props replaced by the name of the prop.
-/

namespace Restyle.Inlining

open Restyle.Tsx (Node Kind Role)

/-! ## Trees without layout -/

/-- What a name stands for. -/
inductive Name where
  /-- The props themselves. -/
  | props
  /-- A prop. -/
  | prop (key : String)
  /-- What a pattern makes of the props under this name, other than one of them. -/
  | part (name : String)
  /-- What is bound to the name further inside. -/
  | inner (name : String)
  /-- What is bound to the name further outside. -/
  | around (name : String)
  deriving DecidableEq

/-- What a node consists of beside its parts. -/
structure Head where
  kind : Kind
  /-- The characters before, between and behind the parts. -/
  signs : List String
  /-- The words and signs among the parts. -/
  tokens : List String
  /-- The names that are bound in the node. -/
  binds : List String
  deriving DecidableEq

mutual

/-- The tree of an expression, in which blanks and comments do not count. -/
inductive Tree where
  | leaf (kind : Kind) (text : String)
  | node (head : Head) (parts : Parts)

/-- The parts of a node with the roles that they play. -/
inductive Parts where
  | nil
  | cons (role : Option Role) (first : Tree) (rest : Parts)

end

/-- The rules of a language: which names nodes bind, and which parts of nodes are places rather than values. -/
structure Rules where
  binds : Node → List String
  isPlace : Head → Option Role → Bool
  isPlace_member : ∀ head role, head.kind = .member → isPlace head role = false

/-- The characters of a text with their places. -/
def placed : Nat → List Char → List (Nat × Char)
  | _, [] => []
  | place, c :: cs => (place, c) :: placed (place + c.utf8Size) cs

/-- The characters between two places of a node, without blanks and without what belongs to children. -/
def signsBetween (n : Node) (start stop : Nat) : String :=
  let own (place : Nat) : Bool := !n.children.any fun child => child.start ≤ place && place < child.stop
  String.ofList (((placed n.start n.text.toList).filter fun (place, c) =>
    start ≤ place && place < stop && !Tsx.isSpace c && own place).map (·.2))

/-- The characters before, between and behind parts of a node. -/
def signsFrom (n : Node) (start : Nat) : List Node → List String
  | [] => [signsBetween n start n.stop]
  | part :: parts => signsBetween n start part.start :: signsFrom n part.stop parts

/-- What a node consists of beside its parts. -/
def Rules.head (rules : Rules) (n : Node) : Head :=
  let parts := n.children.filter fun child => child.kind != .comment
  { kind := n.kind
    signs := signsFrom n n.start parts
    tokens := (parts.filter fun part => part.kind == .token).map Node.text
    binds := rules.binds n }

mutual

/-- The tree of a node. -/
def Rules.tree (rules : Rules) : Node → Tree
  | ⟨kind, role, start, stop, text, children⟩ =>
    if children.isEmpty then .leaf kind text
    else .node (rules.head ⟨kind, role, start, stop, text, children⟩) (rules.trees children)

/-- The trees of children. -/
def Rules.trees (rules : Rules) : List Node → Parts
  | [] => .nil
  | n :: ns => if n.kind == .comment then rules.trees ns else .cons n.role (rules.tree n) (rules.trees ns)

end

/-! ## Values -/

/-- Whether a node is a plain access to a member. -/
def Head.isAccess (head : Head) : Bool :=
  head.kind == .member && (head.signs == ["", ".", ""] || head.signs == ["", "?.", ""])

/-- What makes up the values of expressions. -/
structure Evaluator (V : Type) where
  /-- The place that a name stands for. -/
  name : Name → V
  /-- A name as an entry of an object. -/
  shorthand : String → Name → V
  /-- Literals, names of members, signs and words. -/
  leaf : Kind → String → V
  node : Head → List (Option Role × V) → V
  /-- The value that is in a place. -/
  read : V → V
  /-- What an asynchronous function gives. -/
  async : V → V
  read_prop : ∀ head key, head.isAccess = true →
    read (node head [(some .object, read (name .props)), (some .property, read (leaf .propertyIdentifier key))]) =
      read (name (.prop key))

/-- What names stand for inside of a node that binds some. -/
def inside (binds : List String) (names : String → Name) (name : String) : Name :=
  if binds.contains name then .inner name else names name

/-- What holds of names that are bound in a node and of those around it holds inside. -/
theorem inside_of_forall (P : Name → Prop) (hinner : ∀ x, P (.inner x)) {names : String → Name}
    (h : ∀ x, P (names x)) (binds : List String) (x : String) : P (inside binds names x) := by
  unfold inside
  split
  · exact hinner x
  · exact h x

section

variable {V : Type} (rules : Rules) (E : Evaluator V)

/-- The value of a name, a literal or a word. -/
def Evaluator.ofLeaf (names : String → Name) (kind : Kind) (text : String) : V :=
  match kind with
  | .identifier => E.name (names text)
  | .shorthandIdentifier => E.shorthand text (names text)
  | _ => E.leaf kind text

/-- What is made of a place: it is read or handed on. -/
def Evaluator.pass (reads : Bool) (v : V) : V :=
  if reads then E.read v else v

mutual

/-- The value of an expression, which may be a place. -/
def Tree.value (names : String → Name) : Tree → V
  | .leaf kind text => E.ofLeaf names kind text
  | .node head parts => E.node head (parts.values (inside head.binds names) head)

/-- The values of the parts of a node. -/
def Parts.values (names : String → Name) (head : Head) : Parts → List (Option Role × V)
  | .nil => []
  | .cons role first rest =>
    (role, E.pass (!rules.isPlace head role) (first.value names)) :: rest.values names head

end

end

/-! ## Accesses replaced by names -/

/-- The key of an access to the props. -/
def Parts.key? (names : String → Name) (head : Head) : Parts → Option String
  | .cons (some .object) (.leaf .identifier object)
      (.cons (some .property) (.leaf .propertyIdentifier key) .nil) =>
    if head.isAccess && names object == .props then some key else none
  | _ => none

/-- Whether two names, literals or words are the same for what names stand for on each side. -/
def sameLeaf (names names' : String → Name) (kind kind' : Kind) (text text' : String) : Bool :=
  kind == kind' &&
    match kind with
    | .identifier => names text == names' text'
    | .shorthandIdentifier => text == text' && names text == names' text'
    | _ => text == text'

section

variable (rules : Rules)

mutual

/--
Whether the second tree is the first one with every access to the props replaced by a name that stands for the
prop, and all other names stand for the same.  An access in a place that is not read cannot be replaced.
-/
def Tree.isInlined (reads : Bool) (names names' : String → Name) : Tree → Tree → Bool
  | .leaf kind text, .leaf kind' text' => sameLeaf names names' kind kind' text text'
  | .node head parts, .leaf kind' text' =>
    reads && kind' == .identifier &&
      (parts.key? (inside head.binds names) head).any fun key => names' text' == .prop key
  | .node head parts, .node head' parts' =>
    head == head' && parts.areInlined (inside head.binds names) (inside head.binds names') head parts'
  | .leaf .., .node .. => false

/-- Whether parts are the parts of another node with the accesses replaced. -/
def Parts.areInlined (names names' : String → Name) (head : Head) : Parts → Parts → Bool
  | .nil, .nil => true
  | .cons role first rest, .cons role' first' rest' =>
    role == role' && first.isInlined (!rules.isPlace head role) names names' first' &&
      rest.areInlined names names' head rest'
  | _, _ => false

end

end

section

variable {rules : Rules} {V : Type} {E : Evaluator V}

theorem ofLeaf_eq_of_sameLeaf {names names' : String → Name} {kind kind' : Kind} {text text' : String}
    (h : sameLeaf names names' kind kind' text text' = true) :
    E.ofLeaf names kind text = E.ofLeaf names' kind' text' := by
  unfold sameLeaf at h
  rw [Bool.and_eq_true, beq_iff_eq] at h
  obtain ⟨rfl, h⟩ := h
  unfold Evaluator.ofLeaf
  split at h
  · rw [beq_iff_eq.mp h]
  · rw [Bool.and_eq_true, beq_iff_eq, beq_iff_eq] at h
    rw [h.1, ← h.2, h.1]
  · next hidentifier hshorthand =>
      rw [beq_iff_eq.mp h]

/-- An access to the props is the name of the props, a mark, and the key. -/
theorem Parts.key?_eq_some {names : String → Name} {head : Head} {parts : Parts} {key : String}
    (h : parts.key? names head = some key) : head.isAccess = true ∧
      ∃ object, names object = .props ∧ parts = .cons (some .object) (.leaf .identifier object)
        (.cons (some .property) (.leaf .propertyIdentifier key) .nil) := by
  unfold Parts.key? at h
  split at h
  · next object key' =>
      split at h
      · next haccess =>
          cases h
          rw [Bool.and_eq_true, beq_iff_eq] at haccess
          exact ⟨haccess.1, object, haccess.2, rfl⟩
      · cases h
  · cases h

/-- An access to the props has the value of the prop. -/
theorem read_of_key? {names : String → Name} {head : Head} {parts : Parts} {key : String}
    (h : parts.key? names head = some key) :
    E.read (E.node head (parts.values rules E names head)) = E.read (E.name (.prop key)) := by
  obtain ⟨haccess, object, hobject, rfl⟩ := Parts.key?_eq_some h
  have hkind : head.kind = .member := beq_iff_eq.mp (Bool.and_eq_true_iff.mp haccess).1
  simp only [Parts.values, Tree.value, Evaluator.ofLeaf, hobject, rules.isPlace_member head _ hkind,
    Evaluator.pass, Bool.not_false, if_true]
  exact E.read_prop head key haccess

mutual

/-- A tree with accesses replaced has the same value. -/
theorem pass_value_eq {reads : Bool} {names names' : String → Name} : ∀ {t t' : Tree},
    t.isInlined rules reads names names' t' = true →
      E.pass reads (t.value rules E names) = E.pass reads (t'.value rules E names')
  | .leaf kind text, .leaf kind' text', h => by
      rw [Tree.isInlined] at h
      rw [Tree.value, Tree.value, ofLeaf_eq_of_sameLeaf h]
  | .leaf .., .node .., h => by
      rw [Tree.isInlined] at h
      cases h
  | .node head parts, .leaf kind' text', h => by
      rw [Tree.isInlined, Bool.and_eq_true, Bool.and_eq_true, beq_iff_eq, Option.any_eq_true] at h
      obtain ⟨⟨rfl, rfl⟩, key, hkey, hprop⟩ := h
      rw [Tree.value, Tree.value, Evaluator.ofLeaf, beq_iff_eq.mp hprop]
      exact read_of_key? hkey
  | .node head parts, .node head' parts', h => by
      rw [Tree.isInlined, Bool.and_eq_true, beq_iff_eq] at h
      obtain ⟨rfl, hparts⟩ := h
      rw [Tree.value, Tree.value, values_eq hparts]

theorem values_eq {names names' : String → Name} {head : Head} : ∀ {parts parts' : Parts},
    parts.areInlined rules names names' head parts' = true →
      parts.values rules E names head = parts'.values rules E names' head
  | .nil, .nil, _ => rfl
  | .nil, .cons .., h => by
      rw [Parts.areInlined] at h
      · cases h
      · intros; contradiction
      · intros; contradiction
  | .cons .., .nil, h => by
      rw [Parts.areInlined] at h
      · cases h
      · intros; contradiction
      · intros; contradiction
  | .cons role first rest, .cons role' first' rest', h => by
      rw [Parts.areInlined, Bool.and_eq_true, Bool.and_eq_true, beq_iff_eq] at h
      obtain ⟨⟨rfl, hfirst⟩, hrest⟩ := h
      rw [Parts.values, Parts.values, pass_value_eq hfirst, values_eq hrest]

end

end

/-! ## What stays as it is -/

mutual

/-- The literals, words and signs of a tree, in order. -/
def Tree.literals : Tree → List (Kind × String)
  | .leaf kind text =>
    if [.identifier, .shorthandIdentifier, .propertyIdentifier].contains kind then [] else [(kind, text)]
  | .node _ parts => parts.literals

/-- The literals, words and signs of parts, in order. -/
def Parts.literals : Parts → List (Kind × String)
  | .nil => []
  | .cons _ first rest => first.literals ++ rest.literals

end

mutual

/-- The names of a tree that are not bound in it. -/
def Tree.freeNames : Tree → List String
  | .leaf kind text => if kind == .identifier || kind == .shorthandIdentifier then [text] else []
  | .node head parts => parts.freeNames.filter fun name => !head.binds.contains name

/-- The names of parts that are not bound in them. -/
def Parts.freeNames : Parts → List String
  | .nil => []
  | .cons _ first rest => first.freeNames ++ rest.freeNames

end

section

variable {rules : Rules}

theorem eq_of_sameLeaf {names names' : String → Name} {kind kind' : Kind} {text text' : String}
    (h : sameLeaf names names' kind kind' text text' = true) : kind = kind' ∧
      ((kind = .identifier ∨ kind = .shorthandIdentifier) ∧ names text = names' text' ∨
        kind ≠ .identifier ∧ kind ≠ .shorthandIdentifier ∧ text = text') := by
  unfold sameLeaf at h
  rw [Bool.and_eq_true, beq_iff_eq] at h
  obtain ⟨rfl, h⟩ := h
  refine ⟨rfl, ?_⟩
  split at h
  · exact .inl ⟨.inl rfl, beq_iff_eq.mp h⟩
  · exact .inl ⟨.inr rfl, beq_iff_eq.mp (Bool.and_eq_true_iff.mp h).2⟩
  · next hidentifier hshorthand => exact .inr ⟨hidentifier, hshorthand, beq_iff_eq.mp h⟩

mutual

/-- Replacing accesses leaves the literals as they are. -/
theorem Tree.literals_eq {reads : Bool} {names names' : String → Name} : ∀ {t t' : Tree},
    t.isInlined rules reads names names' t' = true → t.literals = t'.literals
  | .leaf kind text, .leaf kind' text', h => by
      rw [Tree.isInlined] at h
      obtain ⟨rfl, ⟨hkind, -⟩ | ⟨-, -, rfl⟩⟩ := eq_of_sameLeaf h
      · rcases hkind with rfl | rfl <;> simp [Tree.literals]
      · rfl
  | .leaf .., .node .., h => by
      rw [Tree.isInlined] at h
      cases h
  | .node head parts, .leaf kind' text', h => by
      rw [Tree.isInlined, Bool.and_eq_true, Bool.and_eq_true, beq_iff_eq, Option.any_eq_true] at h
      obtain ⟨⟨-, rfl⟩, key, hkey, -⟩ := h
      obtain ⟨-, object, -, rfl⟩ := Parts.key?_eq_some hkey
      simp [Tree.literals, Parts.literals]
  | .node head parts, .node head' parts', h => by
      rw [Tree.isInlined, Bool.and_eq_true] at h
      rw [Tree.literals, Tree.literals, Parts.literals_eq h.2]

theorem Parts.literals_eq {names names' : String → Name} {head : Head} : ∀ {parts parts' : Parts},
    parts.areInlined rules names names' head parts' = true → parts.literals = parts'.literals
  | .nil, .nil, _ => rfl
  | .nil, .cons .., h => by simp [Parts.areInlined] at h
  | .cons .., .nil, h => by simp [Parts.areInlined] at h
  | .cons role first rest, .cons role' first' rest', h => by
      rw [Parts.areInlined, Bool.and_eq_true, Bool.and_eq_true] at h
      rw [Parts.literals, Parts.literals, Tree.literals_eq h.1.2, Parts.literals_eq h.2]

end

/-- Names of which none stands for what a pattern makes of the props. -/
def Whole (names : String → Name) : Prop := ∀ x part, names x ≠ .part part

theorem Whole.inside {names : String → Name} (h : Whole names) (binds : List String) :
    Whole (inside binds names) :=
  inside_of_forall (fun x => ∀ part, x ≠ .part part) (fun _ _ => Name.noConfusion) h binds

mutual

/-- What a pattern makes of the props is not among the names of a tree whose accesses can be replaced. -/
theorem Tree.name_ne_part {reads : Bool} {names names' : String → Name} (hwhole : Whole names') : ∀ {t t' : Tree},
    t.isInlined rules reads names names' t' = true → ∀ x ∈ t.freeNames, ∀ part, names x ≠ .part part
  | .leaf kind text, .leaf kind' text', h => by
      rw [Tree.isInlined] at h
      intro x hx part
      obtain ⟨rfl, ⟨hkind, hname⟩ | ⟨hidentifier, hshorthand, -⟩⟩ := eq_of_sameLeaf h
      · have hxtext : x = text := by
          rcases hkind with rfl | rfl <;> simpa [Tree.freeNames] using hx
        rw [hxtext, hname]
        exact hwhole text' part
      · simp [Tree.freeNames, hidentifier, hshorthand] at hx
  | .leaf .., .node .., h => by
      rw [Tree.isInlined] at h
      cases h
  | .node head parts, .leaf kind' text', h => by
      rw [Tree.isInlined, Bool.and_eq_true, Option.any_eq_true] at h
      obtain ⟨-, key, hkey, -⟩ := h
      obtain ⟨-, object, hobject, rfl⟩ := Parts.key?_eq_some hkey
      intro x hx part
      have hfree : x = object ∧ x ∉ head.binds := by simpa [Tree.freeNames, Parts.freeNames] using hx
      obtain ⟨rfl, hbinds⟩ := hfree
      rw [inside, if_neg (by simpa using hbinds)] at hobject
      rw [hobject]
      exact nofun
  | .node head parts, .node head' parts', h => by
      rw [Tree.isInlined, Bool.and_eq_true] at h
      intro x hx part
      rw [Tree.freeNames, List.mem_filter] at hx
      have hpart := Parts.name_ne_part (hwhole.inside head.binds) h.2 x hx.1 part
      rwa [Inlining.inside, if_neg (by simpa using hx.2)] at hpart

theorem Parts.name_ne_part {names names' : String → Name} {head : Head} (hwhole : Whole names') :
    ∀ {parts parts' : Parts}, parts.areInlined rules names names' head parts' = true →
      ∀ x ∈ parts.freeNames, ∀ part, names x ≠ .part part
  | .nil, .nil, _ => by
      rw [Parts.freeNames]
      exact nofun
  | .nil, .cons .., h => by simp [Parts.areInlined] at h
  | .cons .., .nil, h => by simp [Parts.areInlined] at h
  | .cons role first rest, .cons role' first' rest', h => by
      rw [Parts.areInlined, Bool.and_eq_true, Bool.and_eq_true] at h
      intro x hx
      rw [Parts.freeNames] at hx
      rcases List.mem_append.mp hx with hx | hx
      · exact Tree.name_ne_part hwhole h.1.2 x hx
      · exact Parts.name_ne_part hwhole h.2 x hx

end

end

/-! ## The evaluator that keeps everything apart -/

/-- Values that show how they have been made. -/
inductive Term where
  | name (x : Name)
  | shorthand (key : String) (x : Name)
  | leaf (kind : Kind) (text : String)
  | node (head : Head) (parts : List (Option Role × Term))
  | async (body : Term)

/-- The prop that is read from a member of the props. -/
def Term.prop? : Term → Option String
  | .node head [(some .object, .name .props), (some .property, .leaf .propertyIdentifier key)] =>
    if head.isAccess then some key else none
  | _ => none

/-- Reads a place: a member of the props is a prop. -/
def Term.read (t : Term) : Term :=
  match t.prop? with
  | some key => .name (.prop key)
  | none => t

theorem Term.read_of_prop? {t : Term} {key : String} (h : t.prop? = some key) : t.read = .name (.prop key) := by
  rw [read, h]

theorem Term.read_of_prop?_eq_none {t : Term} (h : t.prop? = none) : t.read = t := by
  rw [read, h]

/-- The evaluator whose values show how they have been made. -/
def termEvaluator : Evaluator Term where
  name := .name
  shorthand := .shorthand
  leaf := .leaf
  node := .node
  read := Term.read
  async := .async
  read_prop head key haccess := by
    refine Term.read_of_prop? ?_
    show (if head.isAccess then some key else none) = some key
    rw [if_pos haccess]

/-- The term of a tree. -/
abbrev Tree.term (rules : Rules) (names : String → Name) (t : Tree) : Term :=
  t.value rules termEvaluator names

/-- The terms of parts. -/
abbrev Parts.terms (rules : Rules) (names : String → Name) (head : Head) (parts : Parts) :
    List (Option Role × Term) :=
  parts.values rules termEvaluator names head

section

variable {rules : Rules} {names : String → Name}

theorem pass_eq_of_prop?_eq_none {reads : Bool} {t : Term} (h : t.prop? = none) : termEvaluator.pass reads t = t := by
  cases reads with
  | false => rfl
  | true => exact Term.read_of_prop?_eq_none h

/-- Only the name of the props is passed on as such. -/
theorem eq_of_pass_eq {reads : Bool} {t u : Term} (hu : ∀ key, u ≠ .name (.prop key))
    (h : termEvaluator.pass reads t = u) : t = u := by
  cases hprop : t.prop? with
  | none => rwa [pass_eq_of_prop?_eq_none hprop] at h
  | some key =>
      cases reads with
      | false => exact h
      | true => exact absurd (h.symm.trans (Term.read_of_prop? hprop)) (hu key)

theorem term_leaf (kind : Kind) (text : String) :
    Tree.term rules names (.leaf kind text) = termEvaluator.ofLeaf names kind text := by
  rw [Tree.term, Tree.value]

theorem term_node (head : Head) (parts : Parts) :
    Tree.term rules names (.node head parts) = .node head (parts.terms rules (inside head.binds names) head) := by
  rw [Tree.term, Tree.value]
  rfl

theorem prop?_ofLeaf (kind : Kind) (text : String) : (termEvaluator.ofLeaf names kind text).prop? = none := by
  unfold Evaluator.ofLeaf
  split <;> rfl

theorem ofLeaf_ne_node (kind : Kind) (text : String) (head : Head) (parts : List (Option Role × Term)) :
    termEvaluator.ofLeaf names kind text ≠ .node head parts := by
  unfold Evaluator.ofLeaf
  split <;> exact nofun

/-- A tree with the term of a name is that name. -/
theorem eq_leaf_of_term_eq_name {t : Tree} {x : Name} (h : t.term rules names = .name x) :
    ∃ text, t = .leaf .identifier text ∧ names text = x := by
  cases t with
  | leaf kind text =>
      rw [term_leaf] at h
      unfold Evaluator.ofLeaf at h
      split at h
      · cases h
        exact ⟨text, rfl, rfl⟩
      · cases h
      · cases h
  | node head parts =>
      rw [term_node] at h
      cases h

/-- A tree with the term of a literal or a word is that literal or word. -/
theorem eq_leaf_of_term_eq_leaf {t : Tree} {kind : Kind} {text : String} (h : t.term rules names = .leaf kind text) :
    t = .leaf kind text := by
  cases t with
  | leaf kind text =>
      rw [term_leaf] at h
      unfold Evaluator.ofLeaf at h
      split at h
      · cases h
      · cases h
      · cases h
        rfl
  | node head parts =>
      rw [term_node] at h
      cases h

theorem sameLeaf_of_ofLeaf_eq {names' : String → Name} {kind kind' : Kind} {text text' : String}
    (h : termEvaluator.ofLeaf names kind text = termEvaluator.ofLeaf names' kind' text') :
    sameLeaf names names' kind kind' text text' = true := by
  unfold Evaluator.ofLeaf at h
  unfold sameLeaf
  split at h <;> split at h
  · simpa using Term.name.inj h
  · cases h
  · cases h
  · cases h
  · simpa using Term.shorthand.inj h
  · cases h
  · cases h
  · cases h
  · simpa using Term.leaf.inj h

/-- A term that is read as a prop is the term of an access to the props. -/
theorem key?_of_prop? {head : Head} {parts : Parts} {key : String}
    (h : (Term.node head (parts.terms rules names head)).prop? = some key) : parts.key? names head = some key := by
  unfold Term.prop? at h
  split at h
  · next head' key' heq =>
      obtain ⟨rfl, hparts⟩ := Term.node.inj heq
      split at h
      · next haccess =>
          cases h
          match parts, hparts with
          | .cons role first (.cons role' second .nil), hparts =>
              simp only [Parts.terms, Parts.values, List.cons.injEq, Prod.mk.injEq, and_true] at hparts
              obtain ⟨⟨rfl, hfirst⟩, rfl, hsecond⟩ := hparts
              obtain ⟨object, rfl, hobject⟩ := eq_leaf_of_term_eq_name (eq_of_pass_eq (by simp) hfirst)
              rw [eq_leaf_of_term_eq_leaf (eq_of_pass_eq (by simp) hsecond), Parts.key?, haccess, hobject]
              rfl
          | .nil, hparts | .cons _ _ .nil, hparts | .cons _ _ (.cons _ _ (.cons ..)), hparts =>
              simp [Parts.terms, Parts.values] at hparts
      · cases h
  · cases h

/-- Names of which none stands for the props. -/
def Apart (names : String → Name) : Prop := ∀ x, names x ≠ .props

theorem Apart.inside (h : Apart names) (binds : List String) : Apart (inside binds names) :=
  inside_of_forall (· ≠ .props) (fun _ => Name.noConfusion) h binds

/-- Apart from the props, nothing is read as a prop. -/
theorem prop?_term (h : Apart names) (t : Tree) : (t.term rules names).prop? = none := by
  cases t with
  | leaf kind text =>
      rw [term_leaf]
      exact prop?_ofLeaf kind text
  | node head parts =>
      rw [term_node, ← Option.not_isSome_iff_eq_none]
      intro hsome
      obtain ⟨key, hprop⟩ := Option.isSome_iff_exists.mp hsome
      obtain ⟨-, object, hobject, -⟩ := Parts.key?_eq_some (key?_of_prop? hprop)
      exact h.inside head.binds object hobject

mutual

/-- A tree with the same term is the tree with accesses replaced. -/
theorem isInlined_of_pass_term_eq {reads : Bool} {names names' : String → Name} (hapart : Apart names') :
    ∀ {t t' : Tree}, termEvaluator.pass reads (t.term rules names) = termEvaluator.pass reads (t'.term rules names') →
      t.isInlined rules reads names names' t' = true
  | .leaf kind text, .leaf kind' text', h => by
      rw [term_leaf, term_leaf, pass_eq_of_prop?_eq_none (prop?_ofLeaf kind text),
        pass_eq_of_prop?_eq_none (prop?_ofLeaf kind' text')] at h
      rw [Tree.isInlined]
      exact sameLeaf_of_ofLeaf_eq h
  | .leaf kind text, .node head' parts', h => by
      rw [pass_eq_of_prop?_eq_none (prop?_term hapart _), term_leaf, term_node,
        pass_eq_of_prop?_eq_none (prop?_ofLeaf kind text)] at h
      exact absurd h (ofLeaf_ne_node _ _ _ _)
  | .node head parts, t', h => by
      rw [pass_eq_of_prop?_eq_none (prop?_term hapart t')] at h
      cases hprop : ((Tree.node head parts).term rules names).prop? with
      | some key =>
          cases reads with
          | false =>
              rw [Evaluator.pass, if_neg Bool.false_ne_true] at h
              rw [h, prop?_term hapart] at hprop
              cases hprop
          | true =>
              obtain ⟨text', rfl, hname⟩ :=
                eq_leaf_of_term_eq_name (h.symm.trans (Term.read_of_prop? hprop))
              rw [term_node] at hprop
              rw [Tree.isInlined, key?_of_prop? hprop, Option.any_some, hname]
              simp
      | none =>
          rw [pass_eq_of_prop?_eq_none hprop, term_node] at h
          match t', h with
          | .leaf kind' text', h =>
              rw [term_leaf] at h
              exact absurd h.symm (ofLeaf_ne_node _ _ _ _)
          | .node head' parts', h =>
              rw [term_node] at h
              obtain ⟨rfl, hparts⟩ := Term.node.inj h
              rw [Tree.isInlined, Bool.and_eq_true, beq_iff_eq]
              exact ⟨rfl, areInlined_of_terms_eq (hapart.inside _) hparts⟩

theorem areInlined_of_terms_eq {names names' : String → Name} {head : Head} (hapart : Apart names') :
    ∀ {parts parts' : Parts}, parts.terms rules names head = parts'.terms rules names' head →
      parts.areInlined rules names names' head parts' = true
  | .nil, .nil, _ => by rw [Parts.areInlined]
  | .nil, .cons .., h => by
      rw [Parts.terms, Parts.terms, Parts.values, Parts.values] at h
      cases h
  | .cons .., .nil, h => by
      rw [Parts.terms, Parts.terms, Parts.values, Parts.values] at h
      cases h
  | .cons role first rest, .cons role' first' rest', h => by
      rw [Parts.terms, Parts.terms, Parts.values, Parts.values] at h
      obtain ⟨hfirst, hrest⟩ := List.cons.inj h
      obtain ⟨rfl, hfirst⟩ := Prod.mk.inj hfirst
      rw [Parts.areInlined, Bool.and_eq_true, Bool.and_eq_true, beq_iff_eq]
      exact ⟨⟨rfl, isInlined_of_pass_term_eq hapart hfirst⟩, areInlined_of_terms_eq hapart hrest⟩

end

end

/-- Two expressions have one value under every evaluator exactly if the second is the first with accesses replaced. -/
theorem forall_read_value_eq_iff (rules : Rules) {names names' : String → Name} (hapart : Apart names') (t t' : Tree) :
    (∀ (V : Type) (E : Evaluator V), E.read (t.value rules E names) = E.read (t'.value rules E names')) ↔
      t.isInlined rules true names names' t' = true := by
  constructor
  · exact fun h => isInlined_of_pass_term_eq hapart (h Term termEvaluator)
  · exact fun h V E => pass_value_eq h

end Restyle.Inlining
