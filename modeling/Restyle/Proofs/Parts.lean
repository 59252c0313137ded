import Restyle.Proofs.Layout

/-!
# Nodes of a tree and the patterns that make them

Every node of a tree is made by one pattern of the grammar.  What each pattern makes sure of for the nodes
that it makes holds for all nodes of all trees.
-/

namespace Restyle.Tsx

/-! ## Blanks before a node -/

namespace Cursor

/-- Nothing is left to skip. -/
def Settled (c : Cursor) : Prop := c.skip = ([], c)

theorem skipSpaces_head {c : Cursor} {ch : Char} {rest : List Char} (h : c.skipSpaces.rest = ch :: rest) :
    isSpace ch = false := by
  unfold skipSpaces at h
  split at h
  · next hrest =>
      rw [hrest] at h
      cases h
  · next d more hrest =>
      split at h
      · have hdrop : c.rest.drop (c.rest.takeWhile isSpace).length = c.rest.dropWhile isSpace := by
          have h := @List.drop_left _ (c.rest.takeWhile isSpace) (c.rest.dropWhile isSpace)
          rwa [List.takeWhile_append_dropWhile] at h
        rw [rest_advance, hdrop] at h
        have hhead := List.head?_dropWhile_not isSpace c.rest
        rw [h] at hhead
        exact hhead
      · next hspace =>
          rw [hrest] at h
          cases h
          exact Bool.eq_false_iff.mpr hspace

theorem skipSpaces_of_head {c : Cursor} (h : ∀ ch rest, c.rest = ch :: rest → isSpace ch = false) :
    c.skipSpaces = c := by
  unfold skipSpaces
  split
  · rfl
  · next ch rest hrest =>
    rw [if_neg (by rw [h ch rest hrest]; decide)]

/-- White space does not follow what has been skipped. -/
theorem skip_head {c : Cursor} {ch : Char} {rest : List Char} (h : c.skip.2.rest = ch :: rest) :
    isSpace ch = false := by
  fun_induction skip c with
  | case1 c c' d more n hrest hcomment comments stop hskip ih =>
      rw [hskip] at ih
      exact ih h
  | case2 => exact skipSpaces_head h

theorem settled_skip (c : Cursor) : c.skip.2.Settled := by
  fun_induction skip c with
  | case1 c c' d more n hrest hcomment comments stop hskip ih =>
      rwa [hskip] at ih
  | case2 c c' hnone =>
      have hspaces : c'.skipSpaces = c' := skipSpaces_of_head fun _ _ h => skipSpaces_head h
      unfold Settled
      rw [skip, hspaces]
      split
      · next d more n hrest hcomment => exact (hnone _ _ _ hrest hcomment).elim
      · rfl

theorem Settled.solid {c : Cursor} (h : c.Settled) {ch : Char} {rest : List Char}
    (hrest : c.rest = ch :: rest) : isSpace ch = false := by
  have hskip : c.skip.2.rest = ch :: rest := by rw [h, hrest]
  exact skip_head hskip

end Cursor

/-! ## Parts of patterns -/

namespace Pattern

variable {ρ : Type}

/-- The patterns right inside a pattern that can read something. -/
def parts : Pattern ρ → List (Pattern ρ)
  | .seq ps | .alt ps => ps
  | .many p | .maybe p | .node _ p | .role _ p | .ofKind _ p | .last _ p | .closed p
  | .plainArrows p => [p]
  | .chain base growths => base :: growths.map Growth.rest
  | _ => []

/-- What holds of a pattern as soon as it holds of its parts holds of all patterns. -/
theorem induction {P : Pattern ρ → Prop} (step : ∀ p : Pattern ρ, (∀ q ∈ p.parts, P q) → P p)
    (p : Pattern ρ) : P p := by
  have none : ∀ q ∈ ([] : List (Pattern ρ)), P q := fun _ h => absurd h List.not_mem_nil
  have single : ∀ {q : Pattern ρ}, P q → ∀ r ∈ [q], P r :=
    fun h r hr => List.mem_singleton.mp hr ▸ h
  have cons : ∀ (q : Pattern ρ) (qs : List (Pattern ρ)), P q → (∀ r ∈ qs, P r) → ∀ r ∈ q :: qs, P r :=
    fun q qs h hs r hr => (List.mem_cons.mp hr).elim (fun e => e ▸ h) (hs r)
  exact @Pattern.rec ρ P (fun ps => ∀ q ∈ ps, P q) (fun gs => ∀ q ∈ gs.map Growth.rest, P q)
    (fun g => P g.rest)
    (fun _ _ => step _ none) (fun _ _ _ => step _ none) (fun _ => step _ none)
    (fun _ _ => step _ none) (fun _ _ => step _ none) (fun _ _ => step _ none) (fun _ => step _ none)
    (fun _ h => step _ h) (fun _ h => step _ h)
    (fun _ h => step _ (single h)) (fun _ h => step _ (single h))
    (fun _ _ => step _ none) (fun _ _ => step _ none)
    (fun _ _ h => step _ (single h)) (fun _ _ h => step _ (single h)) (fun _ _ h => step _ (single h))
    (fun _ _ h hs => step _ (cons _ _ h hs))
    (step _ none) (step _ none)
    (fun _ _ h => step _ (single h)) (fun _ h => step _ (single h)) (fun _ h => step _ (single h))
    (step _ none)
    none cons none (fun _ _ h hs => cons _ _ h hs) (fun _ _ _ _ h => h) p

/-- A condition holds of a pattern and of all patterns in it that can read something. -/
inductive Each (P : Pattern ρ → Prop) : Pattern ρ → Prop where
  | intro {p : Pattern ρ} : P p → (∀ q ∈ p.parts, Each P q) → Each P p

namespace Each

variable {P : Pattern ρ → Prop} {p q : Pattern ρ}

theorem here (h : Each P p) : P p := by
  cases h with
  | intro h _ => exact h

theorem parts (h : Each P p) : ∀ q ∈ p.parts, Each P q := by
  cases h with
  | intro _ hparts => exact hparts

theorem part (h : Each P p) (hq : q ∈ p.parts) : Each P q := h.parts q hq

theorem only (h : Each P p) (hq : p.parts = [q]) : Each P q :=
  h.part (hq ▸ List.mem_singleton.mpr rfl)

end Each

end Pattern

/-! ## Nodes that patterns make -/

section

variable {ρ : Type}

/--
What a pattern itself makes sure of: the nodes that it makes at cursors of one kind have a property, and
the rules that it refers to are among those allowed.
-/
def Builds (grammar : ρ → Pattern ρ) (allowed : ρ → Prop) (At : Cursor → Prop) (Q : Node → Prop) :
    Pattern ρ → Prop
  | .lexeme kind _ | .joinedLexeme kind _ | .name kind _ => ∀ c n, At c → Q (Cursor.leaf c kind n)
  | .rule r => allowed r
  | .node kind p => ∀ start ns c, At start → start.Settled → Reads grammar (.form p) start ns c →
      Q (start.nodeTo c kind ns)
  | .chain base growths => ∀ start ns c g more c', At start → start.Settled →
      Reads grammar (.grown base growths) start ns c → g ∈ growths →
      Reader.accepted g.accepts ns = true → Reads grammar (.form g.rest) c more c' →
      Q (start.nodeTo c' g.kind (Reader.inPart g.role ns ++ more))
  | _ => True

theorem walkAll_append (ns ms : List Node) :
    Node.walkAll (ns ++ ms) = Node.walkAll ns ++ Node.walkAll ms := by
  induction ns with
  | nil => rfl
  | cons n ns ih => rw [List.cons_append, Node.walkAll, Node.walkAll, ih, List.append_assoc]

/-- A property of all nodes of some trees. -/
def AllNodes (Q : Node → Prop) (ns : List Node) : Prop := ∀ x ∈ Node.walkAll ns, Q x

namespace AllNodes

variable {Q : Node → Prop}

theorem nil : AllNodes Q [] := fun _ h => absurd h List.not_mem_nil

theorem append {ns ms : List Node} (hns : AllNodes Q ns) (hms : AllNodes Q ms) :
    AllNodes Q (ns ++ ms) := by
  intro x hx
  rw [walkAll_append] at hx
  exact (List.mem_append.mp hx).elim (hns x) (hms x)

theorem singleton {n : Node} (hn : Q n) (hchildren : AllNodes Q n.children) : AllNodes Q [n] := by
  intro x hx
  obtain ⟨m, hm, hx⟩ := Node.mem_walkAll.mp hx
  cases List.mem_singleton.mp hm
  rw [Node.walk_eq] at hx
  exact (List.mem_cons.mp hx).elim (fun h => h ▸ hn) (hchildren x)

theorem withRole (hrole : ∀ n role, Q n → Q { n with role := role }) {ns : List Node} (h : AllNodes Q ns)
    (role : Role) : AllNodes Q (Reader.withRole role ns) := by
  intro x hx
  obtain ⟨m, hm, hx⟩ := Node.mem_walkAll.mp hx
  obtain ⟨n, hn, rfl⟩ := List.mem_map.mp hm
  have hself : Q n := h n (Node.mem_walkAll.mpr ⟨n, hn, n.mem_walk_self⟩)
  have hbelow : AllNodes Q n.children := fun y hy => h y (Node.mem_walkAll.mpr ⟨n, hn, by
    rw [Node.walk_eq]
    exact List.mem_cons_of_mem _ hy⟩)
  split at hx
  · exact h x (Node.mem_walkAll.mpr ⟨n, hn, hx⟩)
  · rw [Node.walk_eq] at hx
    exact (List.mem_cons.mp hx).elim (fun e => e ▸ hrole n _ hself) (hbelow x)

theorem inPart (hrole : ∀ n role, Q n → Q { n with role := role }) {ns : List Node} (h : AllNodes Q ns)
    (role : Option Role) : AllNodes Q (Reader.inPart role ns) := by
  cases role with
  | none => exact h
  | some role => exact h.withRole hrole role

end AllNodes

/-- What has to be known for a property of all nodes that are read at cursors of one kind. -/
structure Preserved (At : Cursor → Prop) (Q : Node → Prop) : Prop where
  moves : ∀ {c taken c'}, At c → Cursor.Passes c taken c' → At c'
  role : ∀ n role, Q n → Q { n with role := role }
  comment : ∀ c n, At c → Q (Cursor.leaf c .comment n)
  token : ∀ c n, At c → Q (Cursor.leaf c .token n)

namespace Preserved

variable {At : Cursor → Prop} {Q : Node → Prop}

theorem after (h : Preserved At Q) {c c' : Cursor} {ns : List Node} (hat : At c) (hspans : Spans c ns c') :
    At c' := by
  obtain ⟨taken, htaken⟩ := hspans.passes
  exact h.moves hat htaken

theorem leaf {c : Cursor} {kind : Kind} {n : Nat} (h : Q (c.leaf kind n)) :
    AllNodes Q [c.leaf kind n] := .singleton h .nil

theorem leaf_cons {c : Cursor} {kind : Kind} {n : Nat} {ns : List Node} (h : Q (c.leaf kind n))
    (hns : AllNodes Q ns) : AllNodes Q (c.leaf kind n :: ns) := (leaf h).append hns

theorem skipped (h : Preserved At Q) {c : Cursor} (hat : At c) : AllNodes Q c.skip.1 := by
  fun_induction Cursor.skip c with
  | case1 c c' d more n hrest hcomment comments stop hskip ih =>
      obtain ⟨spaces, hspaces⟩ := c.passes_skipSpaces
      have hat' : At c' := h.moves hat hspaces
      rw [hskip] at ih
      exact leaf_cons (h.comment c' _ hat') (ih (h.moves hat' (c'.passes_advance _)))
  | case2 => exact .nil

theorem token_nodes (h : Preserved At Q) {length? : List Char → Option Nat} {kind : Option Kind}
    {c c' : Cursor} {ns : List Node} (hat : At c) (hread : Reader.token length? kind c = some (ns, c'))
    (hleaf : ∀ k c n, kind = some k → At c → Q (Cursor.leaf c k n)) : AllNodes Q ns := by
  obtain ⟨n, -, hread⟩ := Option.map_eq_some_iff.mp hread
  cases hread
  refine (h.skipped hat).append ?_
  cases kind with
  | none => exact .nil
  | some kind => exact leaf (hleaf kind _ _ rfl (h.after hat (.skip c)))

theorem semicolon_nodes (h : Preserved At Q) {afterValue : Bool} {fuel : Nat} {c c' : Cursor}
    {ns : List Node} (hat : At c) (hread : Reader.semicolon afterValue fuel c = some (ns, c')) :
    AllNodes Q ns := by
  induction fuel generalizing c ns with
  | zero => cases hread
  | succ fuel ih =>
      rw [Reader.semicolon] at hread
      split at hread
      · cases hread
        exact .nil
      · obtain ⟨spaces, hspaces⟩ := c.passes_skipSpaces
        dsimp only at hread
        split at hread
        · cases hread
          exact .nil
        · obtain ⟨n, -, hread⟩ := Option.bind_eq_some_iff.mp hread
          obtain ⟨⟨ms, c₁⟩, hmore, hread⟩ := Option.map_eq_some_iff.mp hread
          cases hread
          have hat' := h.moves hat hspaces
          exact leaf_cons (h.comment _ n hat') (ih (h.moves hat' (Cursor.passes_advance _ n)) hmore)

end Preserved

/-- The pattern that something to read belongs to. -/
def Task.pattern : Task ρ → Pattern ρ
  | .form p => p
  | .grown base growths => .chain base growths

/-- A cursor at which something is read: chains start behind all blanks. -/
def Task.StartsAt (c : Cursor) : Task ρ → Prop
  | .form _ => True
  | .grown _ _ => c.Settled

/-- A property that every pattern makes sure of for the nodes that it makes holds for all nodes. -/
theorem Reads.allNodes {grammar : ρ → Pattern ρ} {allowed : ρ → Prop} {At : Cursor → Prop}
    {Q : Node → Prop} (hQ : Preserved At Q)
    (hrules : ∀ r, allowed r → (grammar r).Each (Builds grammar allowed At Q)) {task : Task ρ}
    {c c' : Cursor} {ns : List Node} (h : Reads grammar task c ns c')
    (hp : task.pattern.Each (Builds grammar allowed At Q)) (hat : At c) (hstart : task.StartsAt c) :
    AllNodes Q ns := by
  have htoken : ∀ (kept : Bool) k c n, (if kept then some Kind.token else none) = some k → At c →
      Q (Cursor.leaf c k n) := by
    intro kept k c n hk hat
    cases kept with
    | false => cases hk
    | true =>
        cases hk
        exact hQ.token c n hat
  have hkind : ∀ {kind : Kind}, (∀ c n, At c → Q (Cursor.leaf c kind n)) → ∀ k c n, some kind = some k →
      At c → Q (Cursor.leaf c k n) := by
    intro kind hleaf k c n hk
    cases hk
    exact hleaf c n
  induction h with
  | word h => exact hQ.token_nodes hat h (htoken _)
  | sign h => exact hQ.token_nodes hat h (htoken _)
  | lexeme h => exact hQ.token_nodes hat h (hkind hp.here)
  | name h => exact hQ.token_nodes hat h (hkind hp.here)
  | joinedLexeme => exact Preserved.leaf (hp.here _ _ hat)
  | joined | seqNil | manyStop | maybeNone | ahead | lacks | goesOn | arrowTypes => exact .nil
  | rule _ ih => exact ih (hrules _ hp.here) hat trivial
  | seqCons h _ ih ih₁ =>
      have htail : ∀ q ∈ Pattern.parts (.seq _), q.Each _ := fun q hq => hp.part (List.mem_cons_of_mem _ hq)
      exact (ih (hp.part List.mem_cons_self) hat trivial).append
        (ih₁ (.intro trivial htail) (hQ.after hat h.spans) trivial)
  | alt hmem _ ih => exact ih (hp.part hmem) hat trivial
  | manyMore h _ ih ih₁ =>
      exact (ih (hp.only rfl) hat trivial).append (ih₁ hp (hQ.after hat h.spans) trivial)
  | maybeSome _ ih | ofKind _ ih => exact ih (hp.only rfl) hat trivial
  | @node kind p c _ _ h ih =>
      have hat' := hQ.after hat (.skip c)
      exact (hQ.skipped hat).append
        (.singleton (hp.here _ _ _ hat' c.settled_skip h) (ih (hp.only rfl) hat' trivial))
  | role _ ih => exact (ih (hp.only rfl) hat trivial).withRole hQ.role _
  | @chain base growths c _ _ h ih =>
      exact (hQ.skipped hat).append (ih hp (hQ.after hat (.skip c)) c.settled_skip)
  | semicolon h => exact hQ.semicolon_nodes hat h
  | last _ ih | closed _ ih | plainArrows _ ih =>
      exact ih (hp.only rfl) (hQ.moves hat (Cursor.passes_of_eq rfl rfl)) trivial
  | growBase _ ih => exact ih (hp.part List.mem_cons_self) hat trivial
  | @growMore base growths g _ _ _ _ _ h hmem haccepted hrest ih ih₁ =>
      have hmore := ih₁ (hp.part (List.mem_cons_of_mem _ (List.mem_map_of_mem hmem)))
        (hQ.after hat h.spans) trivial
      exact .singleton (hp.here _ _ _ _ _ _ hat hstart h hmem haccepted hrest)
        (((ih hp hat hstart).inPart hQ.role _).append hmore)

end

end Restyle.Tsx
