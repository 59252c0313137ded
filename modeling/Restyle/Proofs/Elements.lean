import Mathlib.Data.List.Pairwise
import Restyle.Emit.CallSites
import Restyle.Proofs.Edits

/-!
# Edits of elements

An edit of an element lies within one of the tags of the element, and leaves what stands in the tag alone
but for one name or attribute.  So the edits of one element are apart, and those of two elements are, unless
one of the elements stands in an attribute that the other one loses.
-/

namespace Restyle

open Restyle.Module (Edit ElementAttribute Usage attributesOf closingOf? isElement isTag openingOf)
open Restyle.Tsx (AllNodes Formed LaidAll Node)

/-! ## Nodes of a module -/

namespace Module.Outline

variable {m : Module}

theorem laid_of_mem (h : m.Outline) {x : Node} (hx : x ∈ m.root.walk) : x.Laid :=
  (h.laid.of_mem_walk hx).2.2

theorem formed_of_mem (h : m.Outline) {x : Node} (hx : x ∈ m.root.walk) :
    Formed (SolidBytes m.bytes) x := by
  rw [Node.walk_eq] at hx
  rcases List.mem_cons.mp hx with rfl | hx
  · exact Tsx.formed_of_isOrdinary (by rw [h.kind]; rfl)
  · exact h.formed x hx

end Module.Outline

namespace Tsx.Node

theorem mem_of_child? {n c : Node} {role : Role} (h : n.child? role = some c) :
    c ∈ n.children ∧ c.role = some role :=
  ⟨List.mem_of_find?_eq_some h, by simpa using List.find?_some h⟩

theorem mem_walk_of_mem_children {n x c : Node} (hc : c ∈ x.children) (hx : x ∈ n.walk) : c ∈ n.walk :=
  walk_trans (mem_walk.mpr (.inr ⟨c, hc, c.mem_walk_self⟩)) hx

theorem mem_children_of_mem_named {n c : Node} (h : c ∈ n.named) : c ∈ n.children :=
  (List.mem_filter.mp h).1

end Tsx.Node

/-! ## Tags -/

namespace Module

/-- The tags of an element. -/
def tagsOf (x : Node) : List Node := openingOf x :: (closingOf? x).toList

/-- A tag of an element is the element itself or a child of it that is no element. -/
structure IsTagOf (x t : Node) : Prop where
  place : t = x ∨ (t ∈ x.children ∧ isElement t = false)
  tag : isTag t = true

theorem isTagOf_child {x t : Node} (hmem : t ∈ x.children)
    (hkind : t.kind = .jsxOpening ∨ t.kind = .jsxClosing) : IsTagOf x t := by
  rcases hkind with h | h <;> exact ⟨.inr ⟨hmem, by rw [isElement, h]; rfl⟩, by rw [isTag, h]; rfl⟩

theorem IsTagOf.mem_walk {n x t : Node} (ht : IsTagOf x t) (hx : x ∈ n.walk) : t ∈ n.walk := by
  rcases ht.place with rfl | ⟨hmem, -⟩
  · exact hx
  · exact Node.mem_walk_of_mem_children hmem hx

/-- The first tag of an element with two tags is its first child. -/
theorem children_of_element {S : Nat → Nat → Prop} {x : Node} (hkind : x.kind = .jsxElement)
    (hformed : Formed S x) : (∃ rest, x.children = openingOf x :: rest) ∧ (openingOf x).kind = .jsxOpening := by
  obtain ⟨tag, rest, hchildren, htag, hopening⟩ := (hformed.element hkind).opening
  have hself : openingOf x = tag := by
    unfold openingOf
    rw [htag, hkind]
    rfl
  rw [hself]
  exact ⟨⟨rest, hchildren⟩, hopening⟩

/-- The tags of an element are the element itself, or an opening and a closing tag among its children. -/
theorem tags_cases {S : Nat → Nat → Prop} {x : Node} (hx : isElement x = true) (hformed : Formed S x) :
    (x.kind = .jsxSelfClosing ∧ openingOf x = x ∧ closingOf? x = none) ∨
      (x.kind = .jsxElement ∧ (openingOf x ∈ x.children ∧ (openingOf x).kind = .jsxOpening) ∧
        ∀ t ∈ closingOf? x, t ∈ x.children ∧ t.kind = .jsxClosing) := by
  unfold isElement at hx
  rw [Bool.or_eq_true, beq_iff_eq, beq_iff_eq] at hx
  rcases hx with hkind | hkind
  · right
    obtain ⟨⟨rest, hchildren⟩, hopening⟩ := children_of_element hkind hformed
    refine ⟨hkind, ⟨hchildren ▸ List.mem_cons_self, hopening⟩, fun t ht => ?_⟩
    have hclose : x.child? .closeTag = some t := by
      unfold closingOf? at ht
      rw [hkind] at ht
      exact ht
    exact ⟨(Node.mem_of_child? hclose).1, (hformed.element hkind).closing t hclose⟩
  · left
    unfold openingOf closingOf?
    rw [hkind]
    exact ⟨rfl, rfl, rfl⟩

theorem isTagOf_of_mem {S : Nat → Nat → Prop} {x t : Node} (hx : isElement x = true) (hformed : Formed S x)
    (ht : t ∈ tagsOf x) : IsTagOf x t := by
  rcases tags_cases hx hformed with ⟨hkind, hopening, hclosing⟩ | ⟨hkind, hopening, hclosing⟩
  · rw [tagsOf, hopening, hclosing] at ht
    cases List.mem_singleton.mp ht
    exact ⟨.inl rfl, by rw [isTag, hkind]; rfl⟩
  · rcases List.mem_cons.mp ht with rfl | ht
    · exact isTagOf_child hopening.1 (.inl hopening.2)
    · obtain ⟨hmem, htag⟩ := hclosing t (Option.mem_toList.mp ht)
      exact isTagOf_child hmem (.inr htag)

/-- The two tags of an element stand side by side. -/
theorem beside_closing {S : Nat → Nat → Prop} {x t : Node} (hx : isElement x = true) (hformed : Formed S x)
    (hlaid : x.Laid) (ht : t ∈ closingOf? x) : (openingOf x).Beside t := by
  rcases tags_cases hx hformed with ⟨-, -, hclosing⟩ | ⟨-, hopening, hclosing⟩
  · rw [hclosing] at ht
    cases ht
  · obtain ⟨hmem, htag⟩ := hclosing t ht
    refine ((Node.laid_iff x).mp hlaid).2.beside hopening.1 hmem fun heq => ?_
    rw [← heq, hopening.2] at htag
    cases htag

/-- An element below another one stands beside its tags or in a child of them. -/
theorem below_tag {x t y : Node} (hlaid : x.Laid) (ht : IsTagOf x t) (hy : y ∈ x.walk) (hne : y ≠ x)
    (helement : isElement y = true) : t.Beside y ∨ ∃ c ∈ t.children, y ∈ c.walk := by
  obtain ⟨c, hc, hyc⟩ := (Node.mem_walk.mp hy).resolve_left hne
  have hchildren := ((Node.laid_iff x).mp hlaid).2
  rcases ht.place with rfl | ⟨hchild, hplain⟩
  · exact .inr ⟨c, hc, hyc⟩
  by_cases hct : c = t
  · subst hct
    refine .inr ((Node.mem_walk.mp hyc).resolve_left ?_)
    rintro rfl
    rw [hplain] at helement
    cases helement
  · obtain ⟨hstart, hstop, -⟩ := (hchildren.of_mem hc).2.2.of_mem_walk hyc
    exact .inl ((hchildren.beside hchild hc (Ne.symm hct)).mono (Nat.le_refl _) (Nat.le_refl _) hstart hstop)

end Module

/-! ## Edits in a tag -/

namespace Module.Edit

/-- An edit stands between the brackets of a tag. -/
structure InTag (t : Node) (e : Edit) : Prop where
  start : t.start + 1 ≤ e.start
  proper : e.Proper
  stop : e.stop ≤ t.stop - 1

/-- An edit ends with a child of a tag, starts there or in front of it, and leaves the other children alone. -/
structure Anchored (t k : Node) (e : Edit) : Prop where
  mem : k ∈ t.children
  low : t.start + 1 ≤ e.start
  stop : e.stop = k.stop
  start : e.start = k.stop ∨ (e.start ≤ k.start ∧ k.start < k.stop)
  others : ∀ j ∈ t.children, j ≠ k → j.stop ≤ e.start ∨ e.stop ≤ j.start

theorem Anchored.inTag {t k : Node} {e : Edit} (h : Anchored t k e)
    (hinside : LaidAll (t.start + 1) (t.stop - 1) t.children) : InTag t e where
  start := h.low
  stop := h.stop ▸ (hinside.of_mem h.mem).2.1
  proper := by
    unfold Proper
    rcases h.start with hstart | ⟨hstart, hlt⟩
    · rw [hstart, h.stop]
    · rw [h.stop]
      omega

/-- Edits of two tags that stand side by side are apart. -/
theorem apart_of_beside {t u : Node} {e f : Edit} (he : InTag t e) (hf : InTag u f) (h : t.Beside u) :
    e.Apart f := by
  obtain ⟨hestart, heproper, hestop⟩ := he
  obtain ⟨hfstart, hfproper, hfstop⟩ := hf
  unfold Node.Beside at h
  unfold Apart Proper at *
  omega

/-- Edits of two children of a tag are apart. -/
theorem Anchored.apart {t k l : Node} {a b : Nat} {e f : Edit} (hlaid : LaidAll a b t.children)
    (he : Anchored t k e) (hf : Anchored t l f) (hkl : k ≠ l) : e.Apart f := by
  have hbeside := hlaid.beside he.mem hf.mem hkl
  have hkeeps := he.others l hf.mem (Ne.symm hkl)
  have hkeeps' := hf.others k he.mem hkl
  have hk := ((Node.laid_iff k).mp (hlaid.of_mem he.mem).2.2).1
  have hl := ((Node.laid_iff l).mp (hlaid.of_mem hf.mem).2.2).1
  have hstart := he.start
  have hstart' := hf.start
  unfold Node.Beside at hbeside
  unfold Apart
  rw [he.stop] at hkeeps ⊢
  rw [hf.stop] at hkeeps' ⊢
  omega

/-- What is inserted behind a child of a tag is apart from an edit of that child. -/
theorem Anchored.apart_behind {t k : Node} {e f : Edit} (he : Anchored t k e) (hf : f.start = k.stop) :
    e.Apart f := .inl (by rw [he.stop, hf])

end Module.Edit

namespace Module

/-! ## Attributes -/

theorem attribute_of_mem {t : Node} {a : ElementAttribute} (ha : a ∈ attributesOf t) :
    a.node ∈ t.children ∧ (a.name.isSome = true → a.node.kind = .jsxAttribute) := by
  obtain ⟨c, hc, h⟩ := List.mem_filterMap.mp ha
  have hmem := Node.mem_children_of_mem_named hc
  split at h
  · next hkind =>
      cases h
      exact ⟨hmem, fun _ => hkind⟩
  · split at h
    · cases h
      exact ⟨hmem, fun hname => nomatch hname⟩
    · cases h
  · cases h

/-- What is made of some members of a list stands in the order of these. -/
theorem pairwise_filterMap_of_eq {α β : Type} {R : α → α → Prop} {f : α → Option β} {g : β → α}
    (hf : ∀ a b, f a = some b → g b = a) {l : List α} (h : l.Pairwise R) :
    (l.filterMap f).Pairwise fun x y => R (g x) (g y) := by
  refine List.pairwise_filterMap.mpr (h.imp fun {a b} hab x hx y hy => ?_)
  rwa [hf a x hx, hf b y hy]

/-- The attributes of a tag stand in order. -/
theorem pairwise_attributesOf {a b : Nat} {t : Node} (h : LaidAll a b t.children) :
    (attributesOf t).Pairwise fun x y => x.node.stop ≤ y.node.start := by
  unfold attributesOf
  refine pairwise_filterMap_of_eq (g := ElementAttribute.node)
    (R := fun x y => x.stop ≤ y.start) (fun c x hx => ?_) (h.pairwise.filter _)
  split at hx
  · cases hx
    rfl
  · split at hx
    · cases hx
      rfl
    · cases hx
  · cases hx

end Module

namespace Emit.CallSites

/-! ## Edits of a usage -/

theorem same_self (k : Node) : k.same k = true := by
  simp [Node.same]

/-- Children are cut at one of them that is not empty. -/
theorem exists_takeWhile_same {a b : Nat} {cs : List Node} (h : LaidAll a b cs) {k : Node} (hk : k ∈ cs)
    (hlt : k.start < k.stop) : ∃ rest, cs = (cs.takeWhile fun c => !c.same k) ++ k :: rest := by
  induction cs generalizing a with
  | nil => cases hk
  | cons c cs ih =>
      rcases List.mem_cons.mp hk with rfl | hk
      · exact ⟨cs, by rw [List.takeWhile_cons_of_neg (by rw [same_self]; decide), List.nil_append]⟩
      · obtain ⟨rest, hrest⟩ := ih h.2.2 hk
        have hother : c.same k = false := by
          have hle := (h.2.2.of_mem hk).1
          have hne : c.stop ≠ k.stop := by omega
          unfold Node.same
          rw [beq_eq_false_iff_ne.mpr hne, Bool.and_false]
        refine ⟨rest, ?_⟩
        rw [List.takeWhile_cons_of_pos (by rw [hother]; rfl), List.cons_append, ← hrest]

/-- Between a child that is not empty and the end of what precedes it there is no other child. -/
theorem endBefore_spec {a b : Nat} {t k : Node} (h : LaidAll a b t.children) (hk : k ∈ t.children)
    (hlt : k.start < k.stop) : a ≤ endBefore t k ∧ endBefore t k ≤ k.start ∧
      ∀ j ∈ t.children, j ≠ k → j.stop ≤ endBefore t k ∨ k.stop ≤ j.start := by
  obtain ⟨rest, hsplit⟩ := exists_takeWhile_same h hk hlt
  have hpairwise := h.pairwise
  unfold endBefore
  generalize hfront : (t.children.takeWhile fun c => !c.same k) = front at hsplit ⊢
  rw [hsplit, List.pairwise_append, List.pairwise_cons] at hpairwise
  obtain ⟨hbefore, ⟨hbehind, -⟩, hcross⟩ := hpairwise
  rw [hsplit] at h ⊢
  have hothers : ∀ j ∈ front ++ k :: rest, j ≠ k → j ∈ front ∨ k.stop ≤ j.start := by
    intro j hj hne
    rcases List.mem_append.mp hj with hj | hj
    · exact .inl hj
    · exact .inr (hbehind j ((List.mem_cons.mp hj).resolve_left hne))
  cases hlast : front.getLast? with
  | none =>
      have hnil := List.getLast?_eq_none_iff.mp hlast
      refine ⟨(h.of_mem (List.mem_append_right _ List.mem_cons_self)).1, Nat.le_refl _, fun j hj hne => ?_⟩
      refine (hothers j hj hne).imp_left fun hj => ?_
      rw [hnil] at hj
      cases hj
  | some p =>
      obtain ⟨before, rfl⟩ := List.getLast?_eq_some_iff.mp hlast
      have hp : p ∈ before ++ [p] := List.mem_append_right _ (List.mem_singleton_self p)
      obtain ⟨hstart, -, hlaid⟩ := h.of_mem (List.mem_append_left _ hp)
      have hle := ((Node.laid_iff p).mp hlaid).1
      refine ⟨Nat.le_trans hstart hle, hcross p hp k List.mem_cons_self, fun j hj hne => ?_⟩
      refine (hothers j hj hne).imp_left fun hj => ?_
      rcases List.mem_append.mp hj with hj | hj
      · exact Nat.le_trans ((List.pairwise_append.mp hbefore).2.2 j hj p (List.mem_singleton_self p)) hle
      · cases List.mem_singleton.mp hj
        exact Nat.le_refl _

/-- The plan by which a usage is replaced by its element. -/
def inlined? (s : CallSites) (u : Usage) : Option ComponentPlan :=
  (s.plans.get? u.name).filter ComponentPlan.isInline

/-- The edits of the names of a usage. -/
def nameEdits (s : CallSites) (u : Usage) : List Edit :=
  ((s.inlined? u).map fun p =>
    if p.element == u.name then []
    else u.nameNodes.map fun n => { start := n.start, stop := n.stop, text := p.element }).getD []

/-- The attributes that a usage loses. -/
def dropped (s : CallSites) (u : Usage) : List ElementAttribute :=
  ((s.inlined? u).map fun p => u.attributes.filter fun a => a.name.any (isDropped p)).getD []

/-- The edit of an attribute that a usage loses. -/
def dropEdit (u : Usage) (a : ElementAttribute) : Edit :=
  .deletion (endBefore u.opening a.node) a.node.stop

theorem editsOf_eq (s : CallSites) (c : Change) : ∃ inserted : List Edit,
    (inserted = [] ∨ ∃ text, inserted = [.insertion c.usage.insertOffset text 0]) ∧
      s.editsOf c = s.nameEdits c.usage ++ (s.dropped c.usage).map (dropEdit c.usage) ++ inserted := by
  unfold editsOf nameEdits dropped inlined?
  dsimp only
  refine ⟨_, (ite_eq_or_eq _ _ _).imp_right fun h => ⟨_, h⟩, congrArg (· ++ _) ?_⟩
  cases (s.plans.get? c.usage.name).filter ComponentPlan.isInline <;> rfl

section

variable {m : Module} {x : Node}

/-- What is known about an edited element. -/
structure Edited (m : Module) (x : Node) : Prop where
  mem : x ∈ m.root.walk
  element : isElement x = true

namespace Edited

theorem isTagOf (hm : m.Outline) (hx : Edited m x) {t : Node} (ht : t ∈ Module.tagsOf x) :
    Module.IsTagOf x t := Module.isTagOf_of_mem hx.element (hm.formed_of_mem hx.mem) ht

theorem tag_mem (hm : m.Outline) (hx : Edited m x) {t : Node} (ht : t ∈ Module.tagsOf x) :
    t ∈ m.root.walk := (hx.isTagOf hm ht).mem_walk hx.mem

theorem tagFormed (hm : m.Outline) (hx : Edited m x) {t : Node} (ht : t ∈ Module.tagsOf x) :
    Tsx.TagFormed (SolidBytes m.bytes) t :=
  (hm.formed_of_mem (hx.tag_mem hm ht)).tag (hx.isTagOf hm ht).tag

/-- An element takes up room. -/
theorem start_lt_stop (hm : m.Outline) (hx : Edited m x) : x.start < x.stop := by
  have htag := hx.isTagOf hm List.mem_cons_self
  have hsolid := (hx.tagFormed hm List.mem_cons_self).solid.lt
  obtain ⟨hfirst, hlast, -⟩ := (hm.laid_of_mem hx.mem).of_mem_walk (htag.mem_walk x.mem_walk_self)
  omega

/-- An element below another one starts behind it. -/
theorem start_lt (hm : m.Outline) (hx : Edited m x) {y : Node} (hy : isElement y = true) (hbelow : y ∈ x.walk)
    (hne : y ≠ x) : x.start < y.start := by
  have hlaid := ((Node.laid_iff x).mp (hm.laid_of_mem hx.mem)).2
  have hformed := hx.tagFormed hm List.mem_cons_self
  have hinside : ∀ c ∈ (openingOf x).children, y ∈ c.walk → (openingOf x).start < y.start := by
    intro c hc hyc
    obtain ⟨hstart, -, hc⟩ := hformed.inside.of_mem hc
    have := (hc.of_mem_walk hyc).1
    omega
  obtain ⟨c, hc, hyc⟩ := (Node.mem_walk.mp hbelow).resolve_left hne
  rcases Module.tags_cases hx.element (hm.formed_of_mem hx.mem) with ⟨-, hself, -⟩ | ⟨hkind, -, -⟩
  · rw [hself] at hinside
    exact hinside c hc hyc
  obtain ⟨⟨rest, hchildren⟩, hopening⟩ := Module.children_of_element hkind (hm.formed_of_mem hx.mem)
  rw [hchildren] at hlaid hc
  obtain ⟨hfirst, -, hrest⟩ := hlaid
  rcases List.mem_cons.mp hc with rfl | hc
  · have hplain : y ≠ openingOf x := by
      rintro rfl
      rw [isElement, hopening] at hy
      cases hy
    obtain ⟨k, hk, hyk⟩ := (Node.mem_walk.mp hyc).resolve_left hplain
    exact Nat.lt_of_le_of_lt hfirst (hinside k hk hyk)
  · obtain ⟨hstart, -, hc⟩ := hrest.of_mem hc
    have := (hc.of_mem_walk hyc).1
    have := hformed.solid.lt
    omega

theorem eq_of_start (hm : m.Outline) (hx : Edited m x) {y : Node} (hy : Edited m y) (h : x.start = y.start) :
    x = y := by
  by_contra hne
  rcases hm.laid.nested hx.mem hy.mem with hbelow | hbelow | hbeside
  · exact absurd (hy.start_lt hm hx.element hbelow hne) (by omega)
  · exact absurd (hx.start_lt hm hy.element hbelow (Ne.symm hne)) (by omega)
  · have := hx.start_lt_stop hm
    have := hy.start_lt_stop hm
    unfold Node.Beside at hbeside
    omega

end Edited

/-- The edits of names are the names of the tags. -/
theorem anchored_nameEdits (hm : m.Outline) (hx : Edited m x) (s : CallSites) {e : Edit}
    (he : e ∈ s.nameEdits (.ofElement x)) : ∃ t ∈ Module.tagsOf x, ∃ n, t.child? .name = some n ∧
      Module.Edit.Anchored t n e := by
  have hname : ∃ n ∈ (Usage.ofElement x).nameNodes, e.start = n.start ∧ e.stop = n.stop := by
    unfold nameEdits at he
    cases hplan : s.inlined? (.ofElement x) with
    | none =>
        rw [hplan] at he
        cases he
    | some p =>
        rw [hplan, Option.map_some, Option.getD_some] at he
        split at he
        · cases he
        · obtain ⟨n, hn, rfl⟩ := List.mem_map.mp he
          exact ⟨n, hn, rfl, rfl⟩
  obtain ⟨n, hn, hstart, hstop⟩ := hname
  obtain ⟨t, ht, htn⟩ : ∃ t ∈ Module.tagsOf x, t.child? .name = some n := by
    rcases List.mem_append.mp hn with hn | hn
    · exact ⟨_, List.mem_cons_self, Option.mem_toList.mp hn⟩
    · obtain ⟨t, ht, htn⟩ := Option.bind_eq_some_iff.mp (Option.mem_toList.mp hn)
      exact ⟨t, List.mem_cons_of_mem _ (Option.mem_toList.mpr ht), htn⟩
  have hinside := (hx.tagFormed hm ht).inside
  have hmem := (Node.mem_of_child? htn).1
  obtain ⟨hlow, -, hlaid⟩ := hinside.of_mem hmem
  have hle := ((Node.laid_iff n).mp hlaid).1
  refine ⟨t, ht, n, htn, hmem, hstart ▸ hlow, hstop, ?_, fun j hj hne => ?_⟩
  · omega
  · rw [hstart, hstop]
    exact hinside.beside hj hmem hne

/-- An attribute that is lost is an attribute of the opening tag, and its edit is anchored there. -/
theorem anchored_dropEdit (hm : m.Outline) (hx : Edited m x) {s : CallSites} {a : ElementAttribute}
    (ha : a ∈ s.dropped (.ofElement x)) : a ∈ attributesOf (openingOf x) ∧ a.node.kind = .jsxAttribute ∧
      Module.Edit.Anchored (openingOf x) a.node (dropEdit (.ofElement x) a) := by
  have hdropped : a ∈ attributesOf (openingOf x) ∧ a.name.isSome = true := by
    unfold dropped at ha
    cases hplan : s.inlined? (.ofElement x) with
    | none =>
        rw [hplan] at ha
        cases ha
    | some p =>
        rw [hplan, Option.map_some, Option.getD_some] at ha
        obtain ⟨hmem, hany⟩ := List.mem_filter.mp ha
        refine ⟨hmem, ?_⟩
        cases hname : a.name with
        | none =>
            rw [hname] at hany
            cases hany
        | some name => rfl
  obtain ⟨hmem, hname⟩ := hdropped
  obtain ⟨hchild, hkind⟩ := Module.attribute_of_mem hmem
  have hlt := (hm.formed_of_mem (Node.mem_walk_of_mem_children hchild
    (hx.tag_mem hm List.mem_cons_self))).attr (hkind hname)
  obtain ⟨hlow, hle, hothers⟩ := endBefore_spec (hx.tagFormed hm List.mem_cons_self).inside hchild hlt
  exact ⟨hmem, hkind hname, hchild, hlow, rfl, .inr ⟨hle, hlt⟩, hothers⟩

/-- What is inserted behind a child of a tag leaves all children alone. -/
theorem anchored_insertion {b : Nat} {t k : Node} (hinside : LaidAll (t.start + 1) b t.children)
    (hk : k ∈ t.children) (text : String) : Module.Edit.Anchored t k (.insertion k.stop text 0) := by
  obtain ⟨hlow, -, hlaid⟩ := hinside.of_mem hk
  have hle := ((Node.laid_iff k).mp hlaid).1
  refine ⟨hk, Nat.le_trans hlow hle, rfl, .inl rfl, fun j hj hne => ?_⟩
  rcases hinside.beside hj hk hne with h | h
  · exact .inl (Nat.le_trans h hle)
  · exact .inr h

/-- New attributes stand behind a child of the opening tag, or the tag has neither attributes nor a name. -/
theorem insertOffset_spec (x : Node) :
    (∃ k ∈ (openingOf x).children, (Usage.ofElement x).insertOffset = k.stop) ∨
    (attributesOf (openingOf x) = [] ∧ (openingOf x).child? .name = none ∧
      (Usage.ofElement x).insertOffset = (openingOf x).start + 1) := by
  unfold Usage.insertOffset
  dsimp only [Usage.ofElement]
  cases hlast : (attributesOf (openingOf x)).getLast? with
  | some a => exact .inl ⟨_, (Module.attribute_of_mem (List.mem_of_getLast? hlast)).1, rfl⟩
  | none =>
      cases htypes : (openingOf x).child? .typeArguments with
      | some t => exact .inl ⟨t, (Node.mem_of_child? htypes).1, rfl⟩
      | none =>
          cases hname : (openingOf x).child? .name with
          | some n => exact .inl ⟨n, (Node.mem_of_child? hname).1, rfl⟩
          | none => exact .inr ⟨List.getLast?_eq_none_iff.mp hlast, rfl, rfl⟩

/-! ## Edits of one element -/

/-- Edits in the tags of an element are apart unless they belong to one child. -/
theorem apart_in_tags (hm : m.Outline) (hx : Edited m x) {t k l : Node} {e f : Edit}
    (ht : t ∈ Module.tagsOf x) (he : Module.Edit.Anchored t k e)
    (hf : Module.Edit.Anchored (openingOf x) l f) (h : k = l → f.start = k.stop) : e.Apart f := by
  have hinside := (hx.tagFormed hm ht).inside
  rcases List.mem_cons.mp ht with rfl | hclosing
  · by_cases hkl : k = l
    · exact he.apart_behind (h hkl)
    · exact he.apart hinside hf hkl
  · have hbeside := Module.beside_closing hx.element (hm.formed_of_mem hx.mem) (hm.laid_of_mem hx.mem)
      (Option.mem_toList.mp hclosing)
    exact Module.Edit.apart_of_beside (he.inTag hinside)
      (hf.inTag (hx.tagFormed hm List.mem_cons_self).inside) hbeside.symm

/-- New attributes are apart from edits of names and attributes. -/
theorem apart_insertion (hm : m.Outline) (hx : Edited m x) {t k : Node} {e : Edit} (text : String)
    (ht : t ∈ Module.tagsOf x) (he : Module.Edit.Anchored t k e)
    (hk : t = openingOf x → t.child? .name = some k ∨ attributesOf t ≠ []) :
    e.Apart (.insertion (Usage.ofElement x).insertOffset text 0) := by
  have hinside := (hx.tagFormed hm List.mem_cons_self).inside
  rcases insertOffset_spec x with ⟨l, hl, hoffset⟩ | ⟨hattributes, hname, hoffset⟩
  · rw [hoffset]
    exact apart_in_tags hm hx ht he (anchored_insertion hinside hl text) fun h => h ▸ rfl
  · rcases List.mem_cons.mp ht with rfl | hclosing
    · rcases hk rfl with h | h
      · rw [hname] at h
        cases h
      · exact absurd hattributes h
    · have hbeside := Module.beside_closing hx.element (hm.formed_of_mem hx.mem) (hm.laid_of_mem hx.mem)
        (Option.mem_toList.mp hclosing)
      have hinserted : Module.Edit.InTag (openingOf x) (.insertion (Usage.ofElement x).insertOffset text 0) :=
        ⟨Nat.le_of_eq hoffset.symm, Nat.le_refl _, hoffset ▸ hinside.le⟩
      exact Module.Edit.apart_of_beside (he.inTag (hx.tagFormed hm ht).inside) hinserted hbeside.symm

/-- The names in the tags of an element stand side by side. -/
theorem pairwise_nameNodes (hm : m.Outline) (hx : Edited m x) :
    (Usage.ofElement x).nameNodes.Pairwise Node.Beside := by
  have hsingle : ∀ o : Option Node, o.toList.Pairwise Node.Beside := by
    intro o
    cases o with
    | none => exact .nil
    | some n => exact List.pairwise_singleton _ n
  refine List.pairwise_append.mpr ⟨hsingle _, hsingle _, fun n hn n' hn' => ?_⟩
  obtain ⟨t, ht, htn⟩ := Option.bind_eq_some_iff.mp (Option.mem_toList.mp hn')
  have hopening := (hx.tagFormed hm List.mem_cons_self).inside.of_mem
    (Node.mem_of_child? (Option.mem_toList.mp hn)).1
  have hclosing := (hx.tagFormed hm (List.mem_cons_of_mem _ (Option.mem_toList.mpr ht))).inside.of_mem
    (Node.mem_of_child? htn).1
  refine (Module.beside_closing hx.element (hm.formed_of_mem hx.mem) (hm.laid_of_mem hx.mem) ht).mono
    ?_ ?_ ?_ ?_
  · exact Nat.le_of_succ_le hopening.1
  · exact Nat.le_trans hopening.2.1 (Nat.sub_le _ _)
  · exact Nat.le_of_succ_le hclosing.1
  · exact Nat.le_trans hclosing.2.1 (Nat.sub_le _ _)

theorem pairwise_nameEdits (hm : m.Outline) (hx : Edited m x) (s : CallSites) :
    (s.nameEdits (.ofElement x)).Pairwise Edit.Apart := by
  unfold nameEdits
  cases s.inlined? (.ofElement x) with
  | none => exact .nil
  | some p =>
      rw [Option.map_some, Option.getD_some]
      split
      · exact .nil
      · exact List.pairwise_map.mpr (pairwise_nameNodes hm hx)

theorem pairwise_dropEdits (hm : m.Outline) (hx : Edited m x) (s : CallSites) :
    ((s.dropped (.ofElement x)).map (dropEdit (.ofElement x))).Pairwise Edit.Apart := by
  have horder : (s.dropped (.ofElement x)).Pairwise fun a b => a.node.stop ≤ b.node.start := by
    unfold dropped
    cases s.inlined? (.ofElement x) with
    | none => exact .nil
    | some p =>
        exact (Module.pairwise_attributesOf (hx.tagFormed hm List.mem_cons_self).inside).filter _
  refine List.pairwise_map.mpr (horder.imp_of_mem fun {a b} ha hb hab => ?_)
  obtain ⟨-, -, hanchored⟩ := anchored_dropEdit hm hx ha
  obtain ⟨-, hkind, hanchored'⟩ := anchored_dropEdit hm hx hb
  refine apart_in_tags hm hx List.mem_cons_self hanchored hanchored' fun heq => ?_
  have hlt := (hm.formed_of_mem (Node.mem_walk_of_mem_children hanchored'.mem
    (hx.tag_mem hm List.mem_cons_self))).attr hkind
  rw [heq] at hab
  exact absurd hlt (Nat.not_lt.mpr hab)

/-- The edits of one element are apart. -/
theorem pairwise_editsOf (hm : m.Outline) (hx : Edited m x) (s : CallSites) {c : Change}
    (hc : c.usage = .ofElement x) : (s.editsOf c).Pairwise Edit.Apart := by
  obtain ⟨inserted, hinserted, heq⟩ := s.editsOf_eq c
  rw [heq, hc]
  rw [hc] at hinserted
  have hnames := fun e he => anchored_nameEdits hm hx s (e := e) he
  have hdropped := fun a ha => anchored_dropEdit hm hx (s := s) (a := a) ha
  refine List.pairwise_append.mpr ⟨List.pairwise_append.mpr
    ⟨pairwise_nameEdits hm hx s, pairwise_dropEdits hm hx s, fun e he f hf => ?_⟩, ?_, fun e he f hf => ?_⟩
  · obtain ⟨t, ht, n, hn, hanchored⟩ := hnames e he
    obtain ⟨a, ha, rfl⟩ := List.mem_map.mp hf
    obtain ⟨-, hkind, hanchored'⟩ := hdropped a ha
    refine apart_in_tags hm hx ht hanchored hanchored' fun heq => ?_
    obtain ⟨hmem, hrole⟩ := Node.mem_of_child? hn
    exact absurd (heq ▸ hkind) ((hx.tagFormed hm ht).name n hmem hrole).1
  · rcases hinserted with rfl | ⟨text, rfl⟩
    · exact .nil
    · exact List.pairwise_singleton _ _
  · rcases hinserted with rfl | ⟨text, rfl⟩
    · cases hf
    cases List.mem_singleton.mp hf
    rcases List.mem_append.mp he with he | he
    · obtain ⟨t, ht, n, hn, hanchored⟩ := hnames e he
      exact apart_insertion hm hx text ht hanchored fun _ => .inl hn
    · obtain ⟨a, ha, rfl⟩ := List.mem_map.mp he
      obtain ⟨hmem, -, hanchored⟩ := hdropped a ha
      exact apart_insertion hm hx text List.mem_cons_self hanchored fun _ => .inr (List.ne_nil_of_mem hmem)

/-! ## Edits of two elements -/

/-- An edit stands in a tag, and a child in which it does not leave elements alone is an attribute that is lost. -/
structure Sited (s : CallSites) (x t : Node) (e : Edit) : Prop where
  inTag : Module.Edit.InTag t e
  keeps : ∀ j ∈ t.children, (j.stop ≤ e.start ∨ e.stop ≤ j.start) ∨ (∀ y ∈ j.walk, isElement y = false) ∨
    ∃ a ∈ s.dropped (.ofElement x), j = a.node

/-- Every edit of an element stands in one of its tags. -/
theorem sited_of_mem (hm : m.Outline) (hx : Edited m x) (s : CallSites) {c : Change}
    (hc : c.usage = .ofElement x) {e : Edit} (he : e ∈ s.editsOf c) :
    ∃ t ∈ Module.tagsOf x, Sited s x t e := by
  obtain ⟨inserted, hinserted, heq⟩ := s.editsOf_eq c
  rw [heq, hc] at he
  rw [hc] at hinserted
  have hinside := (hx.tagFormed hm List.mem_cons_self).inside
  rcases List.mem_append.mp he with he | he
  · rcases List.mem_append.mp he with he | he
    · obtain ⟨t, ht, n, hn, hanchored⟩ := anchored_nameEdits hm hx s he
      obtain ⟨hmem, hrole⟩ := Node.mem_of_child? hn
      refine ⟨t, ht, hanchored.inTag (hx.tagFormed hm ht).inside, fun j hj => ?_⟩
      by_cases hjn : j = n
      · exact .inr (.inl (hjn ▸ ((hx.tagFormed hm ht).name n hmem hrole).2))
      · exact .inl (hanchored.others j hj hjn)
    · obtain ⟨a, ha, rfl⟩ := List.mem_map.mp he
      obtain ⟨-, -, hanchored⟩ := anchored_dropEdit hm hx ha
      refine ⟨_, List.mem_cons_self, hanchored.inTag hinside, fun j hj => ?_⟩
      by_cases hja : j = a.node
      · exact .inr (.inr ⟨a, ha, hja⟩)
      · exact .inl (hanchored.others j hj hja)
  · rcases hinserted with rfl | ⟨text, rfl⟩
    · cases he
    cases List.mem_singleton.mp he
    rcases insertOffset_spec x with ⟨k, hk, hoffset⟩ | ⟨-, -, hoffset⟩
    · rw [hoffset]
      have hanchored := anchored_insertion hinside hk text
      refine ⟨_, List.mem_cons_self, hanchored.inTag hinside, fun j hj => .inl ?_⟩
      by_cases hjk : j = k
      · exact .inl (Nat.le_of_eq (by rw [hjk]; rfl))
      · exact hanchored.others j hj hjk
    · rw [hoffset]
      exact ⟨_, List.mem_cons_self, ⟨Nat.le_refl _, Nat.le_refl _, hinside.le⟩,
        fun j hj => .inl (.inr (hinside.of_mem hj).1)⟩

/-- An edit of an element stands in the element, behind its first byte and before its last one. -/
theorem Sited.within {s : CallSites} {x t : Node} {e : Edit} (h : Sited s x t e) (ht : Module.IsTagOf x t)
    (hlaid : x.Laid) : x.start + 1 ≤ e.start ∧ e.stop ≤ x.stop - 1 := by
  obtain ⟨hstart, hproper, hstop⟩ := h.inTag
  rcases ht.place with rfl | ⟨hmem, -⟩
  · exact ⟨hstart, hstop⟩
  · obtain ⟨hle, hle', -⟩ := ((Node.laid_iff x).mp hlaid).2.of_mem hmem
    exact ⟨Nat.le_trans (Nat.succ_le_succ hle) hstart, Nat.le_trans hstop (Nat.sub_le_sub_right hle' 1)⟩

/-- Edits of an element and of one below it are apart unless the latter stands in an attribute that is lost. -/
theorem apart_below (hm : m.Outline) (hx : Edited m x) {y : Node} (hy : Edited m y) {s : CallSites}
    (hbelow : y ∈ x.walk) (hne : y ≠ x) {t u : Node} (ht : Module.IsTagOf x t) (hu : Module.IsTagOf y u)
    {e f : Edit} (he : Sited s x t e) (hf : Sited s y u f)
    (hkept : ¬ ∃ a ∈ s.dropped (.ofElement x), y ∈ a.node.walk) : e.Apart f := by
  obtain ⟨hstart, hstop⟩ := hf.within hu (hm.laid_of_mem hy.mem)
  have hproper := hf.inTag.proper
  have hproper' := he.inTag.proper
  unfold Edit.Proper at hproper hproper'
  unfold Edit.Apart
  rcases Module.below_tag (hm.laid_of_mem hx.mem) ht hbelow hne hy.element with hbeside | ⟨j, hj, hyj⟩
  · have := he.inTag.start
    have := he.inTag.stop
    unfold Node.Beside at hbeside
    omega
  · have hjmem := Node.mem_walk_of_mem_children hj (ht.mem_walk hx.mem)
    obtain ⟨hyl, hyr, -⟩ := (hm.laid_of_mem hjmem).of_mem_walk hyj
    rcases he.keeps j hj with hkeeps | hplain | ⟨a, ha, rfl⟩
    · omega
    · have helement := hy.element
      rw [hplain y hyj] at helement
      cases helement
    · exact absurd ⟨a, ha, hyj⟩ hkept

/-- An edit of an element that stands in an attribute that is lost is not apart from the edit of the attribute. -/
theorem not_apart_dropEdit (hm : m.Outline) (hx : Edited m x) {y : Node} (hy : Edited m y) {s : CallSites}
    {a : ElementAttribute} (ha : a ∈ s.dropped (.ofElement x)) (hbelow : y ∈ a.node.walk) {u : Node}
    (hu : Module.IsTagOf y u) {f : Edit} (hf : Sited s y u f) : ¬ (dropEdit (.ofElement x) a).Apart f := by
  obtain ⟨hstart, hstop⟩ := hf.within hu (hm.laid_of_mem hy.mem)
  have hproper := hf.inTag.proper
  obtain ⟨-, hkind, hanchored⟩ := anchored_dropEdit hm hx ha
  have hmem := Node.mem_walk_of_mem_children hanchored.mem (hx.tag_mem hm List.mem_cons_self)
  obtain ⟨hyl, hyr, -⟩ := (hm.laid_of_mem hmem).of_mem_walk hbelow
  have hlt := (hm.formed_of_mem hmem).attr hkind
  have hfirst : (dropEdit (.ofElement x) a).start ≤ a.node.start :=
    (endBefore_spec (hx.tagFormed hm List.mem_cons_self).inside hanchored.mem hlt).2.1
  have hlast := hanchored.stop
  unfold Edit.Proper at hproper
  refine Edit.not_apart_of_inside hf.inTag.proper ?_ ?_ <;> omega

/-- Of the edits of two elements, none stands in an attribute that the other element loses. -/
def Clear (s : CallSites) (c d : Change) : Prop :=
  s.editsOf d ≠ [] → ∀ a ∈ s.dropped c.usage, d.usage.element ∉ a.node.walk

theorem clear_of_apart (hm : m.Outline) {s : CallSites} {c d : Change} (hx : Edited m c.usage.element)
    (hy : Edited m d.usage.element) (hc : c.usage = .ofElement c.usage.element)
    (hd : d.usage = .ofElement d.usage.element)
    (h : ∀ e ∈ s.editsOf c, ∀ f ∈ s.editsOf d, e.Apart f) : s.Clear c d := by
  intro hne a ha hbelow
  obtain ⟨f, hf⟩ := List.exists_mem_of_ne_nil _ hne
  obtain ⟨u, hu, hsited⟩ := sited_of_mem hm hy s hd hf
  obtain ⟨inserted, -, heq⟩ := s.editsOf_eq c
  have he : dropEdit c.usage a ∈ s.editsOf c := by
    rw [heq]
    exact List.mem_append_left _ (List.mem_append_right _ (List.mem_map_of_mem ha))
  have hnot := not_apart_dropEdit hm hx hy (hc ▸ ha) hbelow (hy.isTagOf hm hu) hsited
  rw [← hc] at hnot
  exact hnot (h _ he f hf)

/-- The edits of two elements are apart exactly if neither stands in an attribute that the other one loses. -/
theorem apart_elements_iff (hm : m.Outline) {s : CallSites} {c d : Change}
    (hx : Edited m c.usage.element) (hy : Edited m d.usage.element)
    (hc : c.usage = .ofElement c.usage.element) (hd : d.usage = .ofElement d.usage.element)
    (hne : c.usage.element ≠ d.usage.element) :
    (∀ e ∈ s.editsOf c, ∀ f ∈ s.editsOf d, e.Apart f) ↔ s.Clear c d ∧ s.Clear d c := by
  constructor
  · intro h
    exact ⟨clear_of_apart hm hx hy hc hd h, clear_of_apart hm hy hx hd hc fun f hf e he => (h e he f hf).symm⟩
  · rintro ⟨hclear, hclear'⟩ e he f hf
    obtain ⟨t, ht, hsited⟩ := sited_of_mem hm hx s hc he
    obtain ⟨u, hu, hsited'⟩ := sited_of_mem hm hy s hd hf
    have ht := hx.isTagOf hm ht
    have hu := hy.isTagOf hm hu
    rcases hm.laid.nested hx.mem hy.mem with hbelow | hbelow | hbeside
    · refine (apart_below hm hy hx hbelow hne hu ht hsited' hsited ?_).symm
      rintro ⟨a, ha, hmem⟩
      exact hclear' (List.ne_nil_of_mem he) a (hd ▸ ha) hmem
    · refine apart_below hm hx hy hbelow hne.symm ht hu hsited hsited' ?_
      rintro ⟨a, ha, hmem⟩
      exact hclear (List.ne_nil_of_mem hf) a (hc ▸ ha) hmem
    · obtain ⟨hstart, hstop⟩ := hsited.within ht (hm.laid_of_mem hx.mem)
      obtain ⟨hstart', hstop'⟩ := hsited'.within hu (hm.laid_of_mem hy.mem)
      unfold Node.Beside at hbeside
      unfold Edit.Apart
      omega

end

/-! ## The edited elements of a module -/

/-- Usages of distinct elements of a module. -/
structure Sound (m : Module) (us : List Usage) : Prop where
  edited : ∀ u ∈ us, Edited m u.element
  usage : ∀ u ∈ us, u = .ofElement u.element
  distinct : us.Pairwise fun u v => u.element.start ≠ v.element.start

/-- Changes of distinct elements of a module. -/
def SoundChanges (m : Module) (cs : Changes) : Prop := Sound m (cs.map (·.usage))

theorem usages_modify (element : Node) {f : Change → Change} (hf : ∀ c, (f c).usage = c.usage)
    (cs : Changes) : (cs.modify element f).map (·.usage) =
      if cs.any fun c => c.usage.element.start == element.start then cs.map (·.usage)
      else cs.map (·.usage) ++ [.ofElement element] := by
  induction cs with
  | nil => simp [Changes.modify, hf]
  | cons c cs ih =>
      rw [Changes.modify, List.any_cons]
      cases hstart : c.usage.element.start == element.start with
      | true => simp [hf]
      | false =>
          rw [Bool.false_or, if_neg Bool.false_ne_true, List.map_cons, ih]
          split <;> rfl

/-- What one more change of an element leaves in place. -/
structure Lasting (m : Module) (P : Changes → Prop) : Prop where
  modify : ∀ {cs : Changes} {x : Node} {f : Change → Change}, P cs → Edited m x →
    (∀ c, (f c).usage = c.usage) → P (cs.modify x f)

theorem lasting_mem (m : Module) (u : Usage) : Lasting m fun cs => u ∈ cs.map (·.usage) := by
  refine ⟨fun {cs x f} h _ hf => ?_⟩
  rw [usages_modify x hf]
  split
  · exact h
  · exact List.mem_append_left _ h

theorem lasting_sound (m : Module) : Lasting m (SoundChanges m) := by
  refine ⟨fun {cs x f} h hx hf => ?_⟩
  unfold SoundChanges
  rw [usages_modify x hf]
  split
  · exact h
  next hnew =>
  have hcases : ∀ {u}, u ∈ cs.map (·.usage) ++ [.ofElement x] → u ∈ cs.map (·.usage) ∨ u = .ofElement x :=
    fun hu => (List.mem_append.mp hu).imp_right List.mem_singleton.mp
  refine ⟨fun u hu => ?_, fun u hu => ?_, ?_⟩
  · rcases hcases hu with hu | rfl
    · exact h.edited u hu
    · exact hx
  · rcases hcases hu with hu | rfl
    · exact h.usage u hu
    · rfl
  · refine List.pairwise_append.mpr ⟨h.distinct, List.pairwise_singleton _ _, fun u hu v hv => ?_⟩
    cases List.mem_singleton.mp hv
    obtain ⟨c, hc, rfl⟩ := List.mem_map.mp hu
    intro heq
    exact hnew (List.any_eq_true.mpr ⟨c, hc, beq_iff_eq.mpr heq⟩)

theorem usage_addArg (a : String) (c : Change) : (c.addArg a).usage = c.usage := by
  unfold Change.addArg
  split <;> rfl

theorem usage_addFlag (name : String) (c : Change) : (c.addFlag name).usage = c.usage := by
  unfold Change.addFlag
  split <;> rfl

/-- Changes one after the other leave the usage of an element. -/
theorem usage_foldl {α : Type} {f : Change → α → Change} (hf : ∀ c a, (f c a).usage = c.usage) (as : List α)
    (c : Change) : (as.foldl f c).usage = c.usage := by
  induction as generalizing c with
  | nil => rfl
  | cons a as ih => rw [List.foldl_cons, ih, hf]

section

variable {m : Module} {s : CallSites}

theorem edited_childElements {x y : Node} (hx : x ∈ m.root.walk) (hy : y ∈ Module.childElements x) :
    Edited m y := by
  unfold Module.childElements at hy
  split at hy
  · obtain ⟨hmem, helement⟩ := List.mem_filter.mp hy
    exact ⟨Node.mem_walk_of_mem_children (Node.mem_children_of_mem_named hmem) hx, helement⟩
  · cases hy

theorem edited_ruleTargets {rule : Component.ElementRule} {u : Usage} (hu : Edited m u.element) {y : Node}
    (hy : y ∈ ruleTargets rule u) : Edited m y := by
  have hchild := fun h => edited_childElements (y := y) hu.mem h
  unfold ruleTargets at hy
  dsimp only at hy
  split at hy
  · exact hchild hy
  · exact hchild (List.mem_of_mem_drop hy)
  · exact hchild (List.dropLast_subset _ hy)
  · exact hchild (List.mem_of_mem_take hy)
  · obtain ⟨hmem, hpick⟩ := List.mem_filter.mp hy
    obtain ⟨c, hc, hyc⟩ := List.mem_flatMap.mp hmem
    exact ⟨Node.walk_trans hyc (Node.mem_walk_of_mem_children hc hu.mem), (Bool.and_eq_true_iff.mp hpick).1⟩

theorem edited_usagesOf {names : List String} {u : Usage} (hu : u ∈ Module.usagesOf m names) :
    Edited m u.element := by
  obtain ⟨e, he, hu⟩ := List.mem_filterMap.mp hu
  obtain ⟨hmem, helement⟩ := List.mem_filter.mp he
  split at hu
  · cases hu
    exact ⟨hmem, helement⟩
  · cases hu

section

variable {P : Changes → Prop}

theorem Lasting.flagSiblings (hP : Lasting m P) (p : ComponentPlan) {es : List Node} (hes : ∀ e ∈ es, Edited m e)
    (earlier : List Usage) (lastIsSame : Bool) {cs : Changes} (h : P cs) :
    P (flagSiblings p es earlier lastIsSame cs) := by
  induction es generalizing earlier lastIsSame cs with
  | nil => exact h
  | cons e es ih =>
      have hrest := fun e he => hes e (List.mem_cons_of_mem _ he)
      rw [CallSites.flagSiblings]
      dsimp only
      split
      · refine ih hrest _ _ ?_
        split
        · exact h
        · exact hP.modify h (hes e List.mem_cons_self) fun c => usage_foldl (fun c s => usage_addFlag _ c) _ c
      · exact ih hrest _ _ h

/-- Changes one after the other leave in place what each of them does. -/
theorem foldl_keeps {α : Type} {f : Changes → α → Changes} {as : List α} {cs : Changes} (h : P cs)
    (hf : ∀ cs, P cs → ∀ a ∈ as, P (f cs a)) : P (as.foldl f cs) :=
  List.foldlRecOn (motive := P) as f h hf

/-- What one of several changes brings about is there after all of them. -/
theorem foldl_reaches {Q : Changes → Prop} {α : Type} {f : Changes → α → Changes} {as : List α} {a : α}
    (ha : a ∈ as) (hP : ∀ cs, P cs → ∀ b ∈ as, P (f cs b)) (hQ : ∀ cs, Q cs → ∀ b ∈ as, Q (f cs b))
    (hreach : ∀ cs, P cs → Q (f cs a)) {cs : Changes} (h : P cs) : Q (as.foldl f cs) := by
  obtain ⟨before, behind, rfl⟩ := List.append_of_mem ha
  rw [List.foldl_append, List.foldl_cons]
  have hbefore : P (before.foldl f cs) :=
    foldl_keeps h fun cs hcs b hb => hP cs hcs b (List.mem_append_left _ hb)
  exact foldl_keeps (hreach _ hbefore) fun cs hcs b hb =>
    hQ cs hcs b (List.mem_append_right _ (List.mem_cons_of_mem _ hb))

theorem edited_planned (husages : ∀ u ∈ s.usages, Edited m u.element) {pu : ComponentPlan × List Usage}
    (hpu : pu ∈ s.planned) {u : Usage} (hu : u ∈ pu.2) : Edited m u.element := by
  obtain ⟨p, -, rfl⟩ := List.mem_map.mp hpu
  exact husages u (List.mem_filter.mp hu).1

/-- The usages of one component are given its styles. -/
theorem Lasting.inlineUsages (hP : Lasting m P) (p : ComponentPlan) {us : List Usage}
    (hus : ∀ u ∈ us, Edited m u.element) {cs : Changes} (h : P cs) :
    P (us.foldl (fun cs u => Changes.modify u.element (fun c => p.plainArgs.foldl (fun c a => c.addArg a) c) cs)
      cs) :=
  foldl_keeps h fun _ hcs u hu => hP.modify hcs (hus u hu) fun c => usage_foldl (fun c a => usage_addArg a c) _ c

theorem Lasting.collectInline (hP : Lasting m P) (husages : ∀ u ∈ s.usages, Edited m u.element) {cs : Changes}
    (h : P cs) : P (s.collectInline cs) :=
  foldl_keeps h fun _ hcs pu hpu =>
    hP.inlineUsages pu.1 (fun _ hu => edited_planned husages (List.mem_filter.mp hpu).1 hu) hcs

theorem Lasting.collectRules (hP : Lasting m P) (husages : ∀ u ∈ s.usages, Edited m u.element) {cs : Changes}
    (h : P cs) : P (s.collectRules cs) := by
  refine foldl_keeps h fun cs hcs pu hpu => foldl_keeps hcs fun cs hcs rule _ => foldl_keeps hcs fun cs hcs e he => ?_
  obtain ⟨u, hu, he⟩ := List.mem_flatMap.mp he
  exact hP.modify hcs (edited_ruleTargets (edited_planned husages hpu hu) he) (usage_addArg _)

theorem Lasting.collectSiblings (hP : Lasting m P) (hroot : s.root = m.root) {cs : Changes} (h : P cs) :
    P (s.collectSiblings cs) := by
  refine foldl_keeps h fun cs hcs p _ => foldl_keeps hcs fun cs hcs parent hparent => ?_
  have hmem : parent ∈ m.root.walk := hroot ▸ (List.mem_filter.mp hparent).1
  exact hP.flagSiblings p (fun e he => edited_childElements hmem he) [] false hcs

end

theorem soundChanges_nil (m : Module) : SoundChanges m [] :=
  ⟨fun _ h => absurd h List.not_mem_nil, fun _ h => absurd h List.not_mem_nil, .nil⟩

/-- The changes are those of distinct elements of the module. -/
theorem soundChanges_changes (husages : ∀ u ∈ s.usages, Edited m u.element) (hroot : s.root = m.root) :
    SoundChanges m s.changes :=
  (lasting_sound m).collectSiblings hroot
    ((lasting_sound m).collectRules husages ((lasting_sound m).collectInline husages (soundChanges_nil m)))

/-- A usage that is changed, whatever has been changed before, is among the changed ones. -/
theorem mem_modify (hm : m.Outline) {cs : Changes} (hcs : SoundChanges m cs) {u : Usage} (hu : Edited m u.element)
    (hof : u = .ofElement u.element) {f : Change → Change} (hf : ∀ c, (f c).usage = c.usage) :
    u ∈ (cs.modify u.element f).map (·.usage) := by
  rw [usages_modify u.element hf]
  split
  · next hany =>
      obtain ⟨c, hc, hstart⟩ := List.any_eq_true.mp hany
      have hmem : c.usage ∈ cs.map (·.usage) := List.mem_map_of_mem hc
      have heq := (hcs.edited _ hmem).eq_of_start hm hu (beq_iff_eq.mp hstart)
      have husage : c.usage = u := by rw [hcs.usage _ hmem, heq, ← hof]
      exact husage ▸ hmem
  · rw [← hof]
    exact List.mem_append_right _ (List.mem_singleton_self u)

/-- Every usage of a component that is replaced by its element is changed. -/
theorem mem_changes (hm : m.Outline) (husages : ∀ u ∈ s.usages, Edited m u.element) (hroot : s.root = m.root)
    {u : Usage} (hu : u ∈ s.usages) (hof : u = .ofElement u.element) {p : ComponentPlan} (hp : p ∈ s.plans.values)
    (hinline : p.isInline = true) (hname : p.name = u.name) : u ∈ s.changes.map (·.usage) := by
  have hlasting := lasting_mem m u
  refine hlasting.collectSiblings hroot (hlasting.collectRules husages ?_)
  have hplanned : (p, usagesNamed s.usages p.name) ∈ s.planned.filter fun pu => pu.1.isInline :=
    List.mem_filter.mpr ⟨List.mem_map_of_mem hp, hinline⟩
  have hnamed : u ∈ usagesNamed s.usages p.name := List.mem_filter.mpr ⟨hu, beq_iff_eq.mpr hname.symm⟩
  have hedited : ∀ pu ∈ s.planned.filter (fun pu => pu.1.isInline), ∀ u ∈ pu.2, Edited m u.element :=
    fun pu hpu u hu => edited_planned husages (List.mem_filter.mp hpu).1 hu
  refine foldl_reaches (Q := fun cs => u ∈ cs.map (·.usage)) hplanned
    (fun cs hcs pu hpu => (lasting_sound m).inlineUsages pu.1 (hedited pu hpu) hcs)
    (fun cs hcs pu hpu => hlasting.inlineUsages pu.1 (hedited pu hpu) hcs) (fun cs hcs => ?_) (soundChanges_nil m)
  have hf : ∀ c : Change, (p.plainArgs.foldl (fun c a => c.addArg a) c).usage = c.usage :=
    fun c => usage_foldl (fun c a => usage_addArg a c) _ c
  exact foldl_reaches (Q := fun cs => u ∈ cs.map (·.usage)) hnamed
    (fun cs hcs v hv => (lasting_sound m).modify hcs (hedited _ hplanned v hv) hf)
    (fun cs hcs v hv => hlasting.modify hcs (hedited _ hplanned v hv) hf)
    (fun cs hcs => mem_modify hm hcs (husages u hu) hof hf) hcs

/-- The names in the tags of a usage that is replaced make way for the name of the element. -/
theorem nameEdit_mem_edits {u : Usage} (hu : u ∈ s.changes.map (·.usage)) {p : ComponentPlan}
    (hp : s.inlined? u = some p) (hother : p.element ≠ u.name) {n : Node} (hn : n ∈ u.nameNodes) :
    { start := n.start, stop := n.stop, text := p.element } ∈ s.edits := by
  obtain ⟨c, hc, rfl⟩ := List.mem_map.mp hu
  obtain ⟨inserted, -, hedits⟩ := s.editsOf_eq c
  have hedit : { start := n.start, stop := n.stop, text := p.element } ∈ s.nameEdits c.usage := by
    unfold nameEdits
    rw [hp, Option.map_some, Option.getD_some, if_neg fun h => hother (beq_iff_eq.mp h)]
    exact List.mem_map_of_mem hn
  refine List.mem_flatMap.mpr ⟨c, hc, ?_⟩
  rw [hedits]
  exact List.mem_append_left _ (List.mem_append_left _ hedit)

/-- No element stands in an attribute of its own. -/
theorem clear_self (hm : m.Outline) {c : Change} (hx : Edited m c.usage.element)
    (hc : c.usage = .ofElement c.usage.element) : s.Clear c c := by
  intro _ a ha hmem
  obtain ⟨-, -, hanchored⟩ := anchored_dropEdit hm hx (hc ▸ ha)
  have htag := hx.isTagOf hm List.mem_cons_self
  have hopening := (hm.laid_of_mem hx.mem).of_mem_walk (htag.mem_walk (Node.mem_walk_self _))
  have hattr := (hx.tagFormed hm List.mem_cons_self).inside.of_mem hanchored.mem
  have hself := hattr.2.2.of_mem_walk hmem
  omega

/-- The edits of all elements are apart exactly if no edited element stands in an attribute that goes away. -/
theorem pairwise_edits_iff (hm : m.Outline) (hsound : SoundChanges m s.changes) :
    s.edits.Pairwise Edit.Apart ↔ ∀ c ∈ s.changes, ∀ d ∈ s.changes, s.Clear c d := by
  have hedited : ∀ c ∈ s.changes, Edited m c.usage.element :=
    fun c hc => hsound.edited _ (List.mem_map_of_mem hc)
  have husage : ∀ c ∈ s.changes, c.usage = .ofElement c.usage.element :=
    fun c hc => hsound.usage _ (List.mem_map_of_mem hc)
  have hself : ∀ c ∈ s.changes, s.Clear c c ∧ s.Clear c c := fun c hc =>
    and_self_iff.mpr (clear_self hm (hedited c hc) (husage c hc))
  have hcross : s.changes.Pairwise (fun c d => ∀ e ∈ s.editsOf c, ∀ f ∈ s.editsOf d, e.Apart f) ↔
      s.changes.Pairwise fun c d => s.Clear c d ∧ s.Clear d c := by
    have hiff : s.changes.Pairwise fun c d => (∀ e ∈ s.editsOf c, ∀ f ∈ s.editsOf d, e.Apart f) ↔
        s.Clear c d ∧ s.Clear d c := by
      refine (List.pairwise_map.mp hsound.distinct).imp_of_mem fun {c d} hc hd hne => ?_
      exact apart_elements_iff hm (hedited c hc) (hedited d hd) (husage c hc) (husage d hd)
        fun heq => hne (by rw [heq])
    exact ⟨fun h => (hiff.and h).imp fun h => h.1.mp h.2, fun h => (hiff.and h).imp fun h => h.1.mpr h.2⟩
  have : Std.Symm fun c d => s.Clear c d ∧ s.Clear d c := ⟨fun _ _ h => h.symm⟩
  unfold edits
  rw [List.pairwise_flatMap, hcross, and_iff_right fun c hc =>
    pairwise_editsOf hm (hedited c hc) s (husage c hc)]
  exact ⟨fun h c hc d hd => (h.forall_of_forall hself hc hd).1,
    fun h => List.pairwise_of_forall_mem_list fun c hc d hd => ⟨h c hc d hd, h d hd c hc⟩⟩

end

end Emit.CallSites

end Restyle
