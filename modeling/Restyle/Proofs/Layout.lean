import Restyle.Proofs.Reading

/-!
# Where nodes stand

The nodes of a tree stand in each other or side by side: the children of a node stand in it one after the
other, and what is read for a pattern stands between the positions before and after it.
-/

namespace Restyle.Tsx

/-! ## Positions -/

namespace Cursor

theorem byteSize_cons (ch : Char) (cs : List Char) :
    byteSize (ch :: cs) = ch.utf8Size + byteSize cs := by
  have from_ (n : Nat) : cs.foldl (fun n c => n + c.utf8Size) n = n + byteSize cs := by
    unfold byteSize
    induction cs generalizing n with
    | nil => rfl
    | cons d ds ih =>
        rw [List.foldl_cons, List.foldl_cons, ih, ih (0 + _)]
        omega
  show cs.foldl _ (0 + ch.utf8Size) = _
  rw [from_]
  omega

@[simp] theorem byteSize_append (cs ds : List Char) :
    byteSize (cs ++ ds) = byteSize cs + byteSize ds := by
  induction cs with
  | nil => exact (Nat.zero_add _).symm
  | cons ch cs ih => rw [List.cons_append, byteSize_cons, byteSize_cons, ih, Nat.add_assoc]

/-- The characters between two positions, the first of which is not after the second. -/
def Passes (c : Cursor) (taken : List Char) (c' : Cursor) : Prop :=
  c.rest = taken ++ c'.rest ∧ c'.pos = c.pos + byteSize taken

theorem Passes.refl (c : Cursor) : c.Passes [] c := ⟨rfl, rfl⟩

/-- Only the position of a cursor matters. -/
theorem passes_of_eq {c c' : Cursor} (hrest : c'.rest = c.rest) (hpos : c'.pos = c.pos) :
    c.Passes [] c' := ⟨hrest.symm, hpos⟩

theorem Passes.trans {c c₁ c₂ : Cursor} {cs ds : List Char} (h : c.Passes cs c₁)
    (h₁ : c₁.Passes ds c₂) : c.Passes (cs ++ ds) c₂ :=
  ⟨by rw [h.1, h₁.1, List.append_assoc], by rw [h₁.2, h.2, byteSize_append, Nat.add_assoc]⟩

theorem passes_advance (c : Cursor) (n : Nat) : c.Passes (c.rest.take n) (c.advance n) :=
  ⟨(List.take_append_drop n c.rest).symm, rfl⟩

theorem Passes.le {c c' : Cursor} {taken : List Char} (h : c.Passes taken c') : c.pos ≤ c'.pos := by
  rw [h.2]
  exact Nat.le_add_right _ _

end Cursor

/-! ## Nodes in order -/

mutual

/-- The children of a node stand in it in order, and so do theirs. -/
def Node.Laid : Node → Prop
  | ⟨_, _, start, stop, _, children⟩ => start ≤ stop ∧ LaidAll start stop children

/-- Nodes stand in order between two places. -/
def LaidAll (start stop : Nat) : List Node → Prop
  | [] => start ≤ stop
  | n :: ns => start ≤ n.start ∧ n.Laid ∧ LaidAll n.stop stop ns

end

theorem Node.laid_iff (n : Node) :
    n.Laid ↔ n.start ≤ n.stop ∧ LaidAll n.start n.stop n.children := by
  cases n
  exact Iff.rfl

namespace LaidAll

theorem le {start stop : Nat} {ns : List Node} (h : LaidAll start stop ns) : start ≤ stop := by
  induction ns generalizing start with
  | nil => exact h
  | cons n ns ih => exact Nat.le_trans h.1 (Nat.le_trans ((Node.laid_iff n).mp h.2.1).1 (ih h.2.2))

theorem append {a b c : Nat} {ns ms : List Node} (hns : LaidAll a b ns) (hms : LaidAll b c ms) :
    LaidAll a c (ns ++ ms) := by
  induction ns generalizing a with
  | nil =>
      cases ms with
      | nil => exact Nat.le_trans hns hms
      | cons m ms => exact ⟨Nat.le_trans hns hms.1, hms.2⟩
  | cons n ns ih => exact ⟨hns.1, hns.2.1, ih hns.2.2⟩

theorem mono {a b a' b' : Nat} {ns : List Node} (h : LaidAll a b ns) (ha : a' ≤ a) (hb : b ≤ b') :
    LaidAll a' b' ns := by
  induction ns generalizing a a' with
  | nil => exact Nat.le_trans ha (Nat.le_trans h hb)
  | cons n ns ih => exact ⟨Nat.le_trans ha h.1, h.2.1, ih h.2.2 (Nat.le_refl _)⟩

theorem singleton {a b : Nat} {n : Node} (ha : a ≤ n.start) (hb : n.stop ≤ b) (h : n.Laid) :
    LaidAll a b [n] := ⟨ha, h, hb⟩

theorem of_mem {a b : Nat} {ns : List Node} (h : LaidAll a b ns) {n : Node} (hn : n ∈ ns) :
    a ≤ n.start ∧ n.stop ≤ b ∧ n.Laid := by
  induction ns generalizing a with
  | nil => cases hn
  | cons m ms ih =>
      rcases List.mem_cons.mp hn with rfl | hn
      · exact ⟨h.1, h.2.2.le, h.2.1⟩
      · obtain ⟨hstart, hrest⟩ := ih h.2.2 hn
        exact ⟨Nat.le_trans (Nat.le_trans h.1 ((Node.laid_iff m).mp h.2.1).1) hstart, hrest⟩

/-- Of two nodes in order the first ends before the second starts. -/
theorem pairwise {a b : Nat} {ns : List Node} (h : LaidAll a b ns) :
    ns.Pairwise fun x y => x.stop ≤ y.start := by
  induction ns generalizing a with
  | nil => exact .nil
  | cons n ns ih => exact .cons (fun m hm => (h.2.2.of_mem hm).1) (ih h.2.2)

/-- The part that nodes play has no influence on where they stand. -/
theorem withRole {a b : Nat} {ns : List Node} (h : LaidAll a b ns) (role : Role) :
    LaidAll a b (Reader.withRole role ns) := by
  induction ns generalizing a with
  | nil => exact h
  | cons n ns ih =>
      have hns := ih h.2.2
      unfold Reader.withRole at hns ⊢
      rw [List.map_cons]
      split
      · exact ⟨h.1, h.2.1, hns⟩
      · exact ⟨h.1, (Node.laid_iff _).mpr ((Node.laid_iff n).mp h.2.1), hns⟩

theorem inPart {a b : Nat} {ns : List Node} (h : LaidAll a b ns) (role : Option Role) :
    LaidAll a b (Reader.inPart role ns) := by
  cases role with
  | none => exact h
  | some role => exact h.withRole role

end LaidAll

/-! ## Nodes of a tree -/

namespace Node

/-- What holds of a node as soon as it holds of its children holds of all nodes. -/
theorem induction {P : Node → Prop} (step : ∀ n : Node, (∀ c ∈ n.children, P c) → P n) : ∀ n, P n :=
  fun n => @Node.rec P (fun ns => ∀ c ∈ ns, P c)
    (fun kind role start stop text children ih => step ⟨kind, role, start, stop, text, children⟩ ih)
    (fun _ h => nomatch h)
    (fun _ _ hnode hnodes c hc => by
      rcases List.mem_cons.mp hc with rfl | hc
      · exact hnode
      · exact hnodes c hc)
    n

theorem walk_eq (n : Node) : n.walk = n :: walkAll n.children := by
  cases n
  exact walk.eq_1 ..

theorem mem_walk_self (n : Node) : n ∈ n.walk := by
  rw [walk_eq]
  exact List.mem_cons_self

theorem mem_walkAll {ns : List Node} {x : Node} : x ∈ walkAll ns ↔ ∃ n ∈ ns, x ∈ n.walk := by
  induction ns with
  | nil => simp [walkAll]
  | cons n ns ih => simp [walkAll, ih]

theorem mem_walk {n x : Node} : x ∈ n.walk ↔ x = n ∨ ∃ c ∈ n.children, x ∈ c.walk := by
  rw [walk_eq, List.mem_cons, mem_walkAll]

/-- What stands below a node stands below all that it stands below. -/
theorem walk_trans {x y n : Node} (hx : x ∈ y.walk) (hy : y ∈ n.walk) : x ∈ n.walk := by
  induction n using Node.induction with
  | step n ih =>
      rcases mem_walk.mp hy with rfl | ⟨c, hc, hyc⟩
      · exact hx
      · exact mem_walk.mpr (.inr ⟨c, hc, ih c hc hyc⟩)

/-- What stands below a node stands in it, and its own children stand in it in order. -/
theorem Laid.of_mem_walk {n x : Node} (h : n.Laid) (hx : x ∈ n.walk) :
    n.start ≤ x.start ∧ x.stop ≤ n.stop ∧ x.Laid := by
  induction n using Node.induction with
  | step n ih =>
      rcases mem_walk.mp hx with rfl | ⟨c, hc, hxc⟩
      · exact ⟨Nat.le_refl _, Nat.le_refl _, h⟩
      · obtain ⟨hstart, hstop, hlaid⟩ := ((laid_iff n).mp h).2.of_mem hc
        obtain ⟨hstart', hstop', hlaid'⟩ := ih c hc hlaid hxc
        exact ⟨Nat.le_trans hstart hstart', Nat.le_trans hstop' hstop, hlaid'⟩

/-- Two nodes stand side by side. -/
def Beside (x y : Node) : Prop := x.stop ≤ y.start ∨ y.stop ≤ x.start

theorem Beside.symm {x y : Node} (h : x.Beside y) : y.Beside x := Or.symm h

/-- What stands in two nodes that are side by side is so itself. -/
theorem Beside.mono {x y x' y' : Node} (h : x.Beside y) (hx : x.start ≤ x'.start) (hx' : x'.stop ≤ x.stop)
    (hy : y.start ≤ y'.start) (hy' : y'.stop ≤ y.stop) : x'.Beside y' := by
  unfold Beside at *
  omega

end Node

theorem LaidAll.beside {a b : Nat} {ns : List Node} (h : LaidAll a b ns) {x y : Node} (hx : x ∈ ns)
    (hy : y ∈ ns) (hne : x ≠ y) : x.Beside y := by
  induction ns generalizing a with
  | nil => cases hx
  | cons n ns ih =>
      rcases List.mem_cons.mp hx with hxn | hxs <;> rcases List.mem_cons.mp hy with hyn | hys
      · exact absurd (hxn.trans hyn.symm) hne
      · exact .inl (hxn ▸ (h.2.2.of_mem hys).1)
      · exact .inr (hyn ▸ (h.2.2.of_mem hxs).1)
      · exact ih h.2.2 hxs hys

/-- Of two nodes of a tree, one stands in the other or they are side by side. -/
theorem Node.Laid.nested {n x y : Node} (h : n.Laid) (hx : x ∈ n.walk) (hy : y ∈ n.walk) :
    x ∈ y.walk ∨ y ∈ x.walk ∨ x.Beside y := by
  induction n using Node.induction with
  | step n ih =>
      have hlaid := ((laid_iff n).mp h).2
      rcases mem_walk.mp hx with rfl | ⟨c, hc, hxc⟩
      · exact .inr (.inl hy)
      rcases mem_walk.mp hy with rfl | ⟨d, hd, hyd⟩
      · exact .inl hx
      by_cases hcd : c = d
      · subst hcd
        exact ih c hc (hlaid.of_mem hc).2.2 hxc hyd
      · obtain ⟨hxstart, hxstop, -⟩ := (hlaid.of_mem hc).2.2.of_mem_walk hxc
        obtain ⟨hystart, hystop, -⟩ := (hlaid.of_mem hd).2.2.of_mem_walk hyd
        exact .inr (.inr ((hlaid.beside hc hd hcd).mono hxstart hxstop hystart hystop))

/-! ## What is read stands in order -/

namespace Cursor

theorem passes_skipSpaces (c : Cursor) : ∃ taken, c.Passes taken c.skipSpaces := by
  unfold skipSpaces
  split
  · exact ⟨[], .refl c⟩
  · split
    · exact ⟨_, c.passes_advance _⟩
    · exact ⟨[], .refl c⟩

theorem laid_leaf (c : Cursor) (kind : Kind) (n : Nat) : (c.leaf kind n).Laid :=
  ⟨(c.passes_advance n).le, (c.passes_advance n).le⟩

/-- Comments that are skipped stand in order. -/
theorem passes_skip (c : Cursor) :
    (∃ taken, c.Passes taken c.skip.2) ∧ LaidAll c.pos c.skip.2.pos c.skip.1 := by
  fun_induction skip c with
  | case1 c c' ch rest n hrest hcomment comments stop hskip ih =>
      obtain ⟨spaces, hspaces⟩ := passes_skipSpaces c
      obtain ⟨⟨taken, htaken⟩, hlaid⟩ := ih
      rw [hskip] at htaken hlaid
      have hcomment := c'.passes_advance (n + 1)
      refine ⟨⟨_, hspaces.trans (hcomment.trans htaken)⟩, ?_⟩
      exact ⟨hspaces.le, c'.laid_leaf _ _, hlaid⟩
  | case2 c c' =>
      obtain ⟨spaces, hspaces⟩ := passes_skipSpaces c
      exact ⟨⟨spaces, hspaces⟩, hspaces.le⟩

end Cursor

/-- A reading moves on, and its nodes stand between the positions before and after it. -/
structure Spans (c : Cursor) (ns : List Node) (c' : Cursor) : Prop where
  passes : ∃ taken, c.Passes taken c'
  laid : LaidAll c.pos c'.pos ns

namespace Spans

theorem nil (c : Cursor) : Spans c [] c := ⟨⟨[], .refl c⟩, Nat.le_refl _⟩

theorem append {c c₁ c₂ : Cursor} {ns ms : List Node} (h : Spans c ns c₁) (h₁ : Spans c₁ ms c₂) :
    Spans c (ns ++ ms) c₂ := by
  obtain ⟨taken, htaken⟩ := h.passes
  obtain ⟨taken₁, htaken₁⟩ := h₁.passes
  exact ⟨⟨_, htaken.trans htaken₁⟩, h.laid.append h₁.laid⟩

theorem skip (c : Cursor) : Spans c c.skip.1 c.skip.2 := ⟨c.passes_skip.1, c.passes_skip.2⟩

theorem advance (c : Cursor) (n : Nat) : Spans c [] (c.advance n) :=
  ⟨⟨_, c.passes_advance n⟩, (c.passes_advance n).le⟩

theorem leaf (c : Cursor) (kind : Kind) (n : Nat) : Spans c [c.leaf kind n] (c.advance n) :=
  ⟨⟨_, c.passes_advance n⟩,
    .singleton (Nat.le_refl _) (Nat.le_refl _) (c.laid_leaf kind n)⟩

theorem nodeTo {c c' : Cursor} {ns : List Node} (h : Spans c ns c') (kind : Kind) :
    Spans c [c.nodeTo c' kind ns] c' := by
  obtain ⟨taken, htaken⟩ := h.passes
  exact ⟨⟨taken, htaken⟩, .singleton (Nat.le_refl _) (Nat.le_refl _) ⟨htaken.le, h.laid⟩⟩

theorem withRole {c c' : Cursor} {ns : List Node} (h : Spans c ns c') (role : Role) :
    Spans c (Reader.withRole role ns) c' := ⟨h.passes, h.laid.withRole role⟩

theorem inPart {c c' : Cursor} {ns : List Node} (h : Spans c ns c') (role : Option Role) :
    Spans c (Reader.inPart role ns) c' := ⟨h.passes, h.laid.inPart role⟩

/-- Only the positions of cursors matter. -/
theorem congr {c c' d d' : Cursor} {ns : List Node} (h : Spans c ns c') (hrest : d.rest = c.rest)
    (hpos : d.pos = c.pos) (hrest' : d'.rest = c'.rest) (hpos' : d'.pos = c'.pos) :
    Spans d ns d' := by
  obtain ⟨taken, htaken⟩ := h.passes
  refine ⟨⟨taken, ?_, ?_⟩, ?_⟩
  · rw [hrest, htaken.1, hrest']
  · rw [hpos', htaken.2, hpos]
  · rw [hpos, hpos']
    exact h.laid

theorem token {length? : List Char → Option Nat} {kind : Option Kind} {c c' : Cursor}
    {ns : List Node} (h : Reader.token length? kind c = some (ns, c')) : Spans c ns c' := by
  obtain ⟨n, -, h⟩ := Option.map_eq_some_iff.mp h
  cases h
  refine (skip c).append ?_
  cases kind with
  | none => exact advance _ n
  | some kind => exact leaf _ kind n

theorem semicolon {afterValue : Bool} {fuel : Nat} {c c' : Cursor} {ns : List Node}
    (h : Reader.semicolon afterValue fuel c = some (ns, c')) : Spans c ns c' := by
  induction fuel generalizing c ns with
  | zero => cases h
  | succ fuel ih =>
      rw [Reader.semicolon] at h
      split at h
      · cases h
        exact nil _
      · obtain ⟨spaces, hspaces⟩ := c.passes_skipSpaces
        have hspaces : Spans c [] c.skipSpaces := ⟨⟨spaces, hspaces⟩, hspaces.le⟩
        dsimp only at h
        split at h
        · cases h
          exact hspaces.append (advance _ 1)
        · obtain ⟨n, -, h⟩ := Option.bind_eq_some_iff.mp h
          obtain ⟨⟨ms, c₁⟩, hmore, h⟩ := Option.map_eq_some_iff.mp h
          cases h
          exact hspaces.append ((leaf _ .comment n).append (ih hmore))

end Spans

theorem Reads.spans {ρ : Type} {grammar : ρ → Pattern ρ} {task : Task ρ} {c c' : Cursor}
    {ns : List Node} (h : Reads grammar task c ns c') : Spans c ns c' := by
  induction h with
  | word h | sign h | lexeme h | name h => exact .token h
  | joined | manyStop | maybeNone | ahead | lacks | goesOn | arrowTypes | seqNil =>
      first
      | exact .nil _
      | exact .advance _ _
  | joinedLexeme => exact .leaf _ _ _
  | rule _ ih | alt _ _ ih | maybeSome _ ih | ofKind _ ih | growBase _ ih => exact ih
  | seqCons _ _ ih ih₁ | manyMore _ _ ih ih₁ => exact ih.append ih₁
  | node _ ih => exact (Spans.skip _).append (ih.nodeTo _)
  | role _ ih => exact ih.withRole _
  | chain _ ih => exact (Spans.skip _).append ih
  | semicolon h => exact .semicolon h
  | last _ ih | closed _ ih | plainArrows _ ih => exact ih.congr rfl rfl rfl rfl
  | growMore _ _ _ _ ih ih₁ => exact ((ih.inPart _).append ih₁).nodeTo _

end Restyle.Tsx
