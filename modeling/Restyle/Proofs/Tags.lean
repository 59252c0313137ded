import Restyle.Module.Usage
import Restyle.Proofs.Kinds

/-!
# Statements and tags of a module

What the nodes of a module look like whose places the conversion uses.  A statement neither starts with
white space nor ends with a blank line.  A tag has its brackets around its children, its name is told from
its attributes, and an element has its first tag in front.
-/

namespace Restyle.Tsx

open Restyle.Module (isElement isTag)

/-! ## Stretches of a text -/

/-- A cursor in a text. -/
def Cursor.On (text : List Char) (c : Cursor) : Prop :=
  ∃ before, text = before ++ c.rest ∧ c.pos = Cursor.byteSize before

theorem Cursor.On.after {text taken : List Char} {c c' : Cursor} (h : c.On text)
    (hpasses : c.Passes taken c') : c'.On text := by
  obtain ⟨before, htext, hpos⟩ := h
  refine ⟨before ++ taken, ?_, ?_⟩
  · rw [htext, hpasses.1, List.append_assoc]
  · rw [hpasses.2, hpos, Cursor.byteSize_append]

/-- A stretch between two offsets that neither starts with white space nor ends with a blank line. -/
def Solid (text : List Char) (start stop : Nat) : Prop :=
  ∃ before taken after, text = before ++ taken ++ after ∧ start = Cursor.byteSize before ∧
    stop = Cursor.byteSize (before ++ taken) ∧ (∃ c rest, taken = c :: rest ∧ IsSolid c) ∧
    EndsSolid taken

theorem Solid.of_passes {text taken : List Char} {c c' : Cursor} (hon : c.On text) (hsettled : c.Settled)
    (hpasses : c.Passes taken c') (hends : EndsSolid taken) : Solid text c.pos c'.pos := by
  obtain ⟨before, htext, hpos⟩ := hon
  refine ⟨before, taken, c'.rest, ?_, hpos, ?_, ?_, hends⟩
  · rw [htext, hpasses.1, List.append_assoc]
  · rw [hpasses.2, hpos, Cursor.byteSize_append]
  · cases taken with
    | nil => exact absurd rfl hends.ne_nil
    | cons ch more => exact ⟨ch, more, rfl, hsettled.solid hpasses.1⟩

theorem Cursor.byteSize_pos {cs : List Char} (h : cs ≠ []) : 0 < byteSize cs := by
  cases cs with
  | nil => exact absurd rfl h
  | cons c cs =>
      rw [byteSize_cons]
      exact Nat.lt_of_lt_of_le c.utf8Size_pos (Nat.le_add_right _ _)

theorem Cursor.Passes.lt {c c' : Cursor} {taken : List Char} (h : c.Passes taken c')
    (hends : EndsSolid taken) : c.pos < c'.pos := by
  rw [h.2]
  exact Nat.lt_add_of_pos_right (byteSize_pos hends.ne_nil)

/-! ## Well-formed nodes -/

/-- Statements that the conversion takes away or puts imports next to. -/
def Kind.isStatement : Kind → Bool
  | .importStatement | .exportStatement | .lexicalDeclaration | .variableDeclaration
  | .expressionStatement => true
  | _ => false

/-- Elements and their tags. -/
def Kind.isMarkup : Kind → Bool
  | .jsxElement | .jsxSelfClosing | .jsxOpening | .jsxClosing => true
  | _ => false

/--
A tag: brackets around children, and a name that is no attribute and has no elements in it.  `S` tells which
stretches neither start with a blank nor end with a blank line.
-/
structure TagFormed (S : Nat → Nat → Prop) (n : Node) : Prop where
  solid : S n.start n.stop
  inside : LaidAll (n.start + 1) (n.stop - 1) n.children
  name : ∀ c ∈ n.children, c.role = some .name →
    c.kind ≠ .jsxAttribute ∧ ∀ x ∈ c.walk, isElement x = false

/-- An element with two tags. -/
structure ElementFormed (n : Node) : Prop where
  opening : ∃ tag rest, n.children = tag :: rest ∧ n.child? .openTag = some tag ∧ tag.kind = .jsxOpening
  closing : ∀ tag, n.child? .closeTag = some tag → tag.kind = .jsxClosing

/-- A node of a module whose place can be used; `S` tells which stretches are solid. -/
structure Formed (S : Nat → Nat → Prop) (n : Node) : Prop where
  statement : n.kind.isStatement = true → S n.start n.stop
  attr : n.kind = .jsxAttribute → n.start < n.stop
  tag : isTag n = true → TagFormed S n
  element : n.kind = .jsxElement → ElementFormed n

theorem Formed.imp {S T : Nat → Nat → Prop} (hST : ∀ start stop, S start stop → T start stop) {n : Node}
    (h : Formed S n) : Formed T n :=
  ⟨fun hkind => hST _ _ (h.statement hkind), h.attr,
    fun htag => ⟨hST _ _ (h.tag htag).solid, (h.tag htag).inside, (h.tag htag).name⟩, h.element⟩

/-- The kinds about which nothing is said, and those about whose nodes their ending says enough. -/
def Kind.isOrdinary (kind : Kind) (e : Ending) : Bool :=
  if kind.isStatement || kind == .jsxAttribute then e == .firm else !kind.isMarkup

theorem isMarkup_of_isTag {n : Node} (h : isTag n = true) : n.kind.isMarkup = true := by
  simp only [isTag, Bool.or_eq_true, beq_iff_eq] at h
  rcases h with (h | h) | h <;> rw [h] <;> rfl

theorem formed_of_isOrdinary {S : Nat → Nat → Prop} {n : Node} (h : n.kind.isOrdinary .loose = true) :
    Formed S n := by
  unfold Kind.isOrdinary at h
  split at h
  · cases h
  · next hspecial =>
      rw [Bool.not_eq_true, Bool.or_eq_false_iff, beq_eq_false_iff_ne] at hspecial
      rw [Bool.not_eq_true'] at h
      refine ⟨fun hstatement => ?_, fun hattr => absurd hattr hspecial.2, fun htag => ?_, fun helement => ?_⟩
      · exact absurd hstatement (Bool.eq_false_iff.mp hspecial.1)
      · exact absurd (isMarkup_of_isTag htag) (Bool.eq_false_iff.mp h)
      · rw [helement] at h
        cases h

theorem Formed.withRole {S : Nat → Nat → Prop} (n : Node) (role : Option Role) (h : Formed S n) :
    Formed S { n with role := role } :=
  ⟨h.statement, h.attr, fun htag => ⟨(h.tag htag).solid, (h.tag htag).inside, (h.tag htag).name⟩,
    fun helement => ⟨(h.element helement).opening, (h.element helement).closing⟩⟩

theorem preserved_formed (text : List Char) : Preserved (Cursor.On text) (Formed (Solid text)) where
  moves := fun hon hpasses => hon.after hpasses
  role := Formed.withRole
  comment := fun _ _ _ => formed_of_isOrdinary rfl
  token := fun _ _ _ => formed_of_isOrdinary rfl

/-- What the grammar makes sure of for the nodes of a text. -/
abbrev Makes (text : List Char) : Form → Prop :=
  Builds Rule.form (fun r => (fun _ => true) r = true) (Cursor.On text) (Formed (Solid text))

theorem formed_of_firm {text : List Char} {kind : Kind} {start c : Cursor} {p : Form} {ns : List Node}
    (hkind : kind.isOrdinary (p.ending Rule.ending) = true) (hon : start.On text)
    (hsettled : start.Settled) (h : Reads Rule.form (.form p) start ns c) :
    Formed (Solid text) (start.nodeTo c kind ns) := by
  obtain ⟨taken, hpasses, hends⟩ := h.holds_ending Grammar.holds_ending_form
  have hfirm : (kind.isStatement || kind == .jsxAttribute) = true → EndsSolid taken := by
    intro hspecial
    rw [Kind.isOrdinary, if_pos hspecial, beq_iff_eq] at hkind
    rwa [Task.ending, hkind] at hends
  have hmarkup : kind.isMarkup = false := by
    unfold Kind.isOrdinary at hkind
    split at hkind
    · next hspecial =>
        rw [Bool.or_eq_true, beq_iff_eq] at hspecial
        rcases hspecial with hstatement | rfl
        · cases kind <;> first | rfl | cases hstatement
        · rfl
    · rwa [Bool.not_eq_true'] at hkind
  refine ⟨fun hstatement => ?_, fun hattr => ?_, fun htag => ?_, fun helement => ?_⟩
  · exact .of_passes hon hsettled hpasses (hfirm (by rw [Bool.or_eq_true]; exact .inl hstatement))
  · exact hpasses.lt (hfirm (by rw [Bool.or_eq_true]; exact .inr (beq_iff_eq.mpr hattr)))
  · exact absurd (isMarkup_of_isTag htag) (Bool.eq_false_iff.mp hmarkup)
  · rw [show kind = .jsxElement from helement] at hmarkup
    cases hmarkup

/-- A pattern that makes only ordinary nodes. -/
def isOrdinary (p : Form) : Bool :=
  p.regular Rule.ending (fun _ => true) Kind.isOrdinary

theorem makes_of_isOrdinary (text : List Char) {p : Form} (h : isOrdinary p = true) :
    p.Each (Makes text) :=
  Pattern.each_of_regular (fun _ hkind => formed_of_isOrdinary hkind)
    (fun _ _ _ _ _ hkind hon hsettled hread => formed_of_firm hkind hon hsettled hread) p h

theorem isOrdinary_operand (tie : Tie) : isOrdinary (Grammar.operand tie) = true := by
  have hgrowths : areRegularGrowths Rule.ending (fun _ => true) Kind.isOrdinary (Grammar.growths .free) =
    true := by decide
  unfold isOrdinary Grammar.operand
  dsimp only
  rw [Pattern.regular, Bool.and_eq_true]
  refine ⟨?_, areRegularGrowths_iff.mpr fun g hg =>
    areRegularGrowths_iff.mp hgrowths g (Grammar.growths_subset tie hg)⟩
  split
  · decide
  · split <;> decide

theorem isOrdinary_form (r : Rule) (h : r ≠ .element) : isOrdinary r.form = true := by
  cases r with
  | element => exact absurd rfl h
  | operand tie => exact isOrdinary_operand tie
  | _ => decide

/-! ## Signs -/

section

variable {grammar : Rule → Form}

/-- Nothing but comments is read for a sign. -/
theorem Reads.sign_inv {text : String} {c c' : Cursor} {ns : List Node}
    (h : Reads grammar (.form (Grammar.sign text)) c ns c') :
    ns = c.skip.1 ∧ c.skip.2.Passes text.toList c' := by
  cases h with
  | sign h =>
      obtain ⟨n, hn, h⟩ := Option.map_eq_some_iff.mp h
      cases h
      refine ⟨List.append_nil _, ?_⟩
      rw [← Reader.take_sign hn]
      exact Cursor.passes_advance _ n

/-- What stands between an opening and a closing sign stands behind the first and before the last character. -/
theorem laid_between {opening closing : String} {start c₁ c₂ c₃ : Cursor} {ns ms cs : List Node}
    (hstart : start.Settled) (hopening : Reads grammar (.form (Grammar.sign opening)) start ns c₁)
    (hns : Spans c₁ ms c₂) (hclosing : Reads grammar (.form (Grammar.sign closing)) c₂ cs c₃)
    (hone : 1 ≤ Cursor.byteSize opening.toList) (hone' : 1 ≤ Cursor.byteSize closing.toList) :
    ns = [] ∧ LaidAll (start.pos + 1) (c₃.pos - 1) (ms ++ cs) := by
  obtain ⟨rfl, hopen⟩ := hopening.sign_inv
  obtain ⟨rfl, hclose⟩ := hclosing.sign_inv
  rw [hstart] at hopen ⊢
  have hfirst : c₁.pos = start.pos + _ := hopen.2
  have hlast := hclose.2
  refine ⟨rfl, (hns.append (.skip c₂)).laid.mono ?_ ?_⟩
  · omega
  · omega

end

/-! ## Elements -/

namespace Grammar

/-- The first part of a tag that is not empty. -/
def tagHead : Form :=
  .seq [
    sign "<", .role .name (.rule .elementName),
    .maybe (.role .typeArguments (.rule .typeArguments)),
    .many (.rule .tagAttribute)]

/-- Kinds of nodes in a tag. -/
def tagKinds : List Kind :=
  [.identifier, .member, .construct, .typeArguments, .jsxAttribute, .jsxExpression]

/-- What the first part of a tag grows by. -/
def tagGrowths : List (Growth Form) :=
  [ { kind := .jsxSelfClosing, accepts := tagKinds, rest := sign "/>" },
    { kind := .jsxOpening, accepts := tagKinds, rest := sign ">" },
    { kind := .jsxElement
      accepts := [.jsxOpening]
      role := some .openTag
      rest := .seq [elementContent, closingTag] }]

/-- The first tag of an element without a name. -/
def emptyTag : Form := .role .openTag (.node .jsxOpening (.seq [sign "<", sign ">"]))

theorem form_element : Rule.form .element =
    .closed (.alt [
      .ofKind [.jsxElement, .jsxSelfClosing] (.chain tagHead tagGrowths),
      .node .jsxElement (.seq [emptyTag, elementContent, closingTag])]) := rfl

end Grammar

/-- The kinds and parts of what rules around elements read. -/
def Rule.shown : Rule → Option (List (Kind × Option Role))
  | .elementName => some [(.construct, none), (.identifier, none), (.member, none)]
  | .typeArguments => some [(.typeArguments, none)]
  | .tagAttribute => some [(.jsxAttribute, none), (.jsxExpression, none)]
  | .container => some [(.jsxExpression, none)]
  | .element =>
    some [
      (.construct, some .name), (.identifier, some .name), (.member, some .name),
      (.typeArguments, some .typeArguments), (.jsxAttribute, none), (.jsxExpression, none),
      (.jsxSelfClosing, none), (.jsxOpening, none), (.jsxElement, none)]
  | _ => none

theorem Rule.shows_form (r : Rule) (ts : List (Kind × Option Role)) (h : r.shown = some ts) :
    ∃ us, r.form.shows Rule.shown = some us ∧ us ⊆ ts := by
  cases r with
  | elementName | typeArguments | tagAttribute | container | element =>
      cases h
      exact ⟨_, rfl, by decide⟩
  | _ => cases h

/-- The part that a node plays is one of those shown. -/
theorem Node.IsAmong.role_ne {n : Node} {ts : List (Kind × Option Role)} (h : n.IsAmong ts) {role : Role}
    (hts : ts.all (fun t => t.2 != some role) = true) : n.role ≠ some role := by
  intro hrole
  rcases h with ⟨-, hnone⟩ | ⟨-, hmem⟩
  · rw [hnone] at hrole
    cases hrole
  · have hne := List.all_eq_true.mp hts _ hmem
    rw [hrole] at hne
    simp at hne

/-- The kind of a node is one of those shown. -/
theorem Node.IsAmong.kind_ne {n : Node} {ts : List (Kind × Option Role)} (h : n.IsAmong ts) {kind : Kind}
    (hcomment : kind ≠ .comment) (hts : ts.all (fun t => t.1 != kind) = true) : n.kind ≠ kind := by
  rintro rfl
  rcases h with ⟨hkind, -⟩ | ⟨-, hmem⟩
  · exact hcomment hkind
  · have hne := List.all_eq_true.mp hts _ hmem
    simp at hne

theorem preserved_noElement : Preserved (fun _ => True) fun n => isElement n = false where
  moves := fun _ _ => trivial
  role := fun _ _ h => h
  comment := fun _ _ _ => rfl
  token := fun _ _ _ => rfl

/-- The name of an element has no elements in it. -/
theorem noElement_of_elementName {c c' : Cursor} {ns : List Node}
    (h : Reads Rule.form (.form (.rule .elementName)) c ns c') :
    AllNodes (fun n => isElement n = false) ns := by
  cases h with
  | rule h =>
      have hkind : ∀ {n : Node}, (n.kind != .jsxElement && n.kind != .jsxSelfClosing) = true →
          isElement n = false := by
        intro n hkind
        simp only [bne, Bool.and_eq_true, Bool.not_eq_true'] at hkind
        rw [isElement, hkind.1, hkind.2]
        rfl
      have hregular : (Rule.form .elementName).regular Rule.ending (fun _ => false)
          (fun kind _ => kind != .jsxElement && kind != .jsxSelfClosing) = true := by decide
      have heach : (Rule.form .elementName).Each (Builds Rule.form (fun r => (fun _ => false) r = true)
          (fun _ => True) fun n => isElement n = false) :=
        Pattern.each_of_regular (fun _ => hkind) (fun _ _ _ _ _ hok _ _ _ => hkind hok) _ hregular
      exact h.allNodes preserved_noElement (fun _ hr => Bool.noConfusion hr) heach trivial trivial

/-- The name of a tag is no attribute and has no elements in it. -/
theorem formed_name {c c' : Cursor} {ns : List Node}
    (h : Reads Rule.form (.form (.role .name (.rule .elementName))) c ns c') {x : Node} (hx : x ∈ ns) :
    x.kind ≠ .jsxAttribute ∧ ∀ y ∈ x.walk, isElement y = false := by
  refine ⟨(h.among Rule.shows_form rfl x hx).kind_ne (by decide) (by decide), ?_⟩
  cases h with
  | role h =>
      have hnodes := (noElement_of_elementName h).withRole (fun _ _ h => h) .name
      exact fun y hy => hnodes y (Node.mem_walkAll.mpr ⟨x, hx, hy⟩)

/-- What stands between two signs makes a tag. -/
theorem tagFormed {text : List Char} {opening closing : String} {start c₁ c₂ c' : Cursor}
    {ns ms more : List Node} (hon : start.On text) (hsettled : start.Settled)
    (hopening : Reads Rule.form (.form (Grammar.sign opening)) start ns c₁) (hinner : Spans c₁ ms c₂)
    (hclosing : Reads Rule.form (.form (Grammar.sign closing)) c₂ more c')
    (hfirst : endsSolid opening = true) (hlast : endsSolid closing = true)
    (hname : ∀ x ∈ ms, x.role = some .name →
      x.kind ≠ .jsxAttribute ∧ ∀ y ∈ x.walk, isElement y = false) (kind : Kind) :
    TagFormed (Solid text) (start.nodeTo c' kind ((ns ++ ms) ++ more)) := by
  obtain ⟨rfl, hinside⟩ := laid_between hsettled hopening hinner hclosing
    (Cursor.byteSize_pos (EndsSolid.of_sign hfirst).ne_nil)
    (Cursor.byteSize_pos (EndsSolid.of_sign hlast).ne_nil)
  refine ⟨?_, hinside, fun x hx hrole => ?_⟩
  · obtain ⟨taken, hpasses⟩ := hopening.spans.passes
    obtain ⟨taken₁, hpasses₁⟩ := hinner.passes
    obtain ⟨taken₂, hpasses₂, hends⟩ := hclosing.holds_ending Grammar.holds_ending_form
    rw [Task.ending, Grammar.sign, Pattern.ending, if_pos hlast] at hends
    exact .of_passes hon hsettled (hpasses.trans (hpasses₁.trans hpasses₂))
      ((EndsSolid.append hends taken₁).append taken)
  · refine hname x ((List.mem_append.mp hx).resolve_right fun hmore => ?_) hrole
    exact (c₂.among_skip [] x (hclosing.sign_inv.1 ▸ hmore)).role_ne rfl hrole

/-- The first part of a tag with the sign that closes it is a tag. -/
theorem tagFormed_of_head {text : List Char} {start c c' : Cursor} {ns more : List Node}
    {closing : String} (hon : start.On text) (hsettled : start.Settled)
    (hhead : Reads Rule.form (.form Grammar.tagHead) start ns c)
    (hclosing : Reads Rule.form (.form (Grammar.sign closing)) c more c')
    (hlast : endsSolid closing = true) (kind : Kind) :
    TagFormed (Solid text) (start.nodeTo c' kind (ns ++ more)) := by
  unfold Grammar.tagHead at hhead
  cases hhead with
  | seqCons hopening hrest =>
      refine tagFormed hon hsettled hopening hrest.spans hclosing (by decide) hlast (fun x hx hrole => ?_) kind
      cases hrest with
      | seqCons hname hrest =>
          rcases List.mem_append.mp hx with hx | hx
          · exact formed_name hname hx
          · exact absurd hrole ((hrest.among Rule.shows_form rfl x hx).role_ne (by decide))

/-- What the first part of a tag grows to. -/
theorem grown_tag {start c : Cursor} {ns : List Node}
    (h : Reads Rule.form (.grown Grammar.tagHead Grammar.tagGrowths) start ns c) :
    Reads Rule.form (.form Grammar.tagHead) start ns c ∨
      ∃ n, ns = [n] ∧ n.kind ∈ [Kind.jsxSelfClosing, .jsxOpening, .jsxElement] := by
  cases h with
  | growBase h => exact .inl h
  | growMore _ hmem _ _ =>
      have hkinds : Grammar.tagGrowths.map Growth.kind = [Kind.jsxSelfClosing, .jsxOpening, .jsxElement] := rfl
      exact .inr ⟨_, rfl, hkinds ▸ List.mem_map_of_mem hmem⟩

/-- What is accepted has a node of an accepted kind. -/
theorem Reader.exists_of_accepted {accepts : List Kind} {ns : List Node} (hne : accepts ≠ [])
    (h : accepted accepts ns = true) : ∃ x ∈ ns, x.kind ∈ accepts := by
  unfold accepted lastKind? at h
  rw [List.isEmpty_eq_false_iff.mpr hne, Bool.false_or] at h
  cases hfind : ns.reverse.find? fun n => n.kind != .comment with
  | none =>
      rw [hfind] at h
      cases h
  | some x =>
      rw [hfind] at h
      exact ⟨x, List.mem_reverse.mp (List.mem_of_find?_eq_some hfind), List.contains_iff_mem.mp h⟩

/-- A sign closes a tag only once. -/
theorem head_of_accepted {start c : Cursor} {ns : List Node}
    (h : Reads Rule.form (.grown Grammar.tagHead Grammar.tagGrowths) start ns c)
    (haccepted : Reader.accepted Grammar.tagKinds ns = true) :
    Reads Rule.form (.form Grammar.tagHead) start ns c := by
  rcases grown_tag h with h | ⟨n, rfl, hkind⟩
  · exact h
  · obtain ⟨x, hx, hmem⟩ := Reader.exists_of_accepted (by decide) haccepted
    cases List.mem_singleton.mp hx
    have hdisjoint : ([Kind.jsxSelfClosing, .jsxOpening, .jsxElement].all
      fun k => !Grammar.tagKinds.contains k) = true := by decide
    have hnot := List.all_eq_true.mp hdisjoint _ hkind
    rw [List.contains_iff_mem.mpr hmem] at hnot
    cases hnot

/-- Content and a last tag follow a first tag. -/
theorem opening_of_accepted {start c : Cursor} {ns : List Node}
    (h : Reads Rule.form (.grown Grammar.tagHead Grammar.tagGrowths) start ns c)
    (haccepted : Reader.accepted [.jsxOpening] ns = true) : ∃ n, ns = [n] ∧ n.kind = .jsxOpening := by
  obtain ⟨x, hx, hmem⟩ := Reader.exists_of_accepted (by decide) haccepted
  have hkind := List.mem_singleton.mp hmem
  rcases grown_tag h with h | ⟨n, rfl, -⟩
  · exact absurd hkind ((h.among Rule.shows_form rfl x hx).kind_ne (by decide) (by decide))
  · cases List.mem_singleton.mp hx
    exact ⟨x, rfl, hkind⟩

/-- Content and a last tag behind a first tag make an element. -/
theorem elementFormed {start c c' : Cursor} {n : Node} {more : List Node} (hkind : n.kind = .jsxOpening)
    (hrest : Reads Rule.form (.form (.seq [Grammar.elementContent, Grammar.closingTag])) c more c') :
    ElementFormed (start.nodeTo c' .jsxElement ({ n with role := some .openTag } :: more)) := by
  refine ⟨⟨{ n with role := some .openTag }, more, rfl, rfl, hkind⟩, fun tag htag => ?_⟩
  have hrole : tag.role = some .closeTag := by
    have h := List.find?_some htag
    exact beq_iff_eq.mp h
  rcases List.mem_cons.mp (List.mem_of_find?_eq_some htag) with rfl | hmem
  · cases hrole
  cases hrest with
  | seqCons hcontent hrest =>
      rcases List.mem_append.mp hmem with hmem | hmem
      · exact absurd hrole ((hcontent.among Rule.shows_form rfl tag hmem).role_ne (by decide))
      · rcases hrest.among Rule.shows_form rfl tag hmem with ⟨-, hnone⟩ | ⟨-, hshown⟩
        · rw [hnone] at hrole
          cases hrole
        · exact (Prod.mk.inj (List.mem_singleton.mp hshown)).1

theorem formed_of_tag {S : Nat → Nat → Prop} {n : Node} (hkind : isTag n = true) (h : TagFormed S n) :
    Formed S n := by
  simp only [isTag, Bool.or_eq_true, beq_iff_eq] at hkind
  refine ⟨fun hstatement => ?_, fun hattr => ?_, fun _ => h, fun helement => ?_⟩
  · rcases hkind with (hkind | hkind) | hkind <;> rw [hkind] at hstatement <;> cases hstatement
  · rcases hkind with (hkind | hkind) | hkind <;> rw [hkind] at hattr <;> cases hattr
  · rcases hkind with (hkind | hkind) | hkind <;> rw [hkind] at helement <;> cases helement

theorem formed_of_element {S : Nat → Nat → Prop} {n : Node} (hkind : n.kind = .jsxElement)
    (h : ElementFormed n) : Formed S n := by
  refine ⟨fun hstatement => ?_, fun hattr => ?_, fun htag => ?_, fun _ => h⟩
  · rw [hkind] at hstatement
    cases hstatement
  · rw [hkind] at hattr
    cases hattr
  · rw [isTag, hkind] at htag
    cases htag

theorem makes_tag (text : List Char) : Makes text (.chain Grammar.tagHead Grammar.tagGrowths) := by
  intro start ns c g more c' hon hsettled hgrown hmem haccepted hrest
  rcases List.mem_cons.mp hmem with rfl | hmem
  · exact formed_of_tag rfl
      (tagFormed_of_head hon hsettled (head_of_accepted hgrown haccepted) hrest (by decide) _)
  rcases List.mem_cons.mp hmem with rfl | hmem
  · exact formed_of_tag rfl
      (tagFormed_of_head hon hsettled (head_of_accepted hgrown haccepted) hrest (by decide) _)
  · cases List.mem_singleton.mp hmem
    obtain ⟨n, rfl, hkind⟩ := opening_of_accepted hgrown haccepted
    have hpart : Reader.inPart (some .openTag) [n] = [{ n with role := some .openTag }] := by
      simp [Reader.inPart, Reader.withRole, hkind]
    rw [hpart]
    exact formed_of_element rfl (elementFormed hkind hrest)

theorem makes_closing (text : List Char) :
    Makes text (.node .jsxClosing (.seq [
      Grammar.sign "</", .maybe (.role .name (.rule .elementName)), Grammar.sign ">"])) := by
  intro start ns c hon hsettled h
  cases h with
  | seqCons hopening hrest =>
  cases hrest with
  | @seqCons _ _ _ _ _ ms _ hname hrest =>
  cases hrest with
  | seqCons hclosing hnil =>
  cases hnil
  rw [List.append_nil, ← List.append_assoc]
  refine formed_of_tag rfl
    (tagFormed hon hsettled hopening hname.spans hclosing (by decide) (by decide) (fun x hx _ => ?_) _)
  cases hname with
  | maybeNone => exact absurd hx List.not_mem_nil
  | maybeSome hname => exact formed_name hname hx

theorem makes_emptyOpening (text : List Char) :
    Makes text (.node .jsxOpening (.seq [Grammar.sign "<", Grammar.sign ">"])) := by
  intro start ns c hon hsettled h
  cases h with
  | @seqCons _ _ _ c₁ _ ns _ hopening hrest =>
  cases hrest with
  | seqCons hclosing hnil =>
  cases hnil
  have htag := tagFormed hon hsettled hopening (.nil c₁) hclosing (by decide) (by decide)
    (fun x hx _ => absurd hx List.not_mem_nil) .jsxOpening
  rw [List.append_nil] at htag ⊢
  exact formed_of_tag rfl htag

theorem makes_emptyElement (text : List Char) :
    Makes text (.node .jsxElement (.seq [
      Grammar.emptyTag, Grammar.elementContent, Grammar.closingTag])) := by
  intro start ns c _ hsettled h
  unfold Grammar.emptyTag at h
  cases h with
  | seqCons htag hrest =>
  cases htag with
  | role htag =>
  cases htag with
  | @node _ _ _ c₁ ms _ =>
  rw [hsettled]
  exact formed_of_element rfl (elementFormed rfl hrest)

/-- Every rule makes well-formed nodes only. -/
theorem makes_form (text : List Char) (r : Rule) : r.form.Each (Makes text) := by
  by_cases h : r = .element
  · subst h
    have single : ∀ {p q : Form}, Makes text p → p.parts = [q] → q.Each (Makes text) → p.Each (Makes text) :=
      fun hp hparts hq => .intro hp fun r hr => List.mem_singleton.mp (hparts ▸ hr) ▸ hq
    have hcontent : Grammar.elementContent.Each (Makes text) := makes_of_isOrdinary text (by decide)
    have hclosing : Grammar.closingTag.Each (Makes text) :=
      single trivial rfl (single (makes_closing text) rfl (makes_of_isOrdinary text (by decide)))
    have hopening : Grammar.emptyTag.Each (Makes text) :=
      single trivial rfl (single (makes_emptyOpening text) rfl (makes_of_isOrdinary text (by decide)))
    have hrest : (Pattern.seq [Grammar.elementContent, Grammar.closingTag]).Each (Makes text) :=
      .intro trivial (List.forall_mem_cons.mpr ⟨hcontent, List.forall_mem_singleton.mpr hclosing⟩)
    have hempty : (Pattern.seq [Grammar.emptyTag, Grammar.elementContent, Grammar.closingTag]).Each
        (Makes text) := .intro trivial (List.forall_mem_cons.mpr ⟨hopening, hrest.parts⟩)
    have hhead : Grammar.tagHead.Each (Makes text) := makes_of_isOrdinary text (by decide)
    have hsign : ∀ s, (Grammar.sign s).Each (Makes text) := fun s => makes_of_isOrdinary text rfl
    have hchain : (Pattern.chain Grammar.tagHead Grammar.tagGrowths).Each (Makes text) :=
      .intro (makes_tag text) (List.forall_mem_cons.mpr ⟨hhead, List.forall_mem_cons.mpr ⟨hsign _,
        List.forall_mem_cons.mpr ⟨hsign _, List.forall_mem_singleton.mpr hrest⟩⟩⟩)
    rw [Grammar.form_element]
    exact single trivial rfl (.intro trivial (List.forall_mem_cons.mpr ⟨single trivial rfl hchain,
      List.forall_mem_singleton.mpr (single (makes_emptyElement text) rfl hempty)⟩))
  · exact makes_of_isOrdinary text (isOrdinary_form r h)

/-- The nodes that are read for a rule in a text are well-formed. -/
theorem Reads.formed {text : List Char} {r : Rule} {c c' : Cursor} {ns : List Node}
    (h : Reads Rule.form (.form (.rule r)) c ns c') (hon : c.On text) : AllNodes (Formed (Solid text)) ns :=
  h.allNodes (preserved_formed text) (fun r _ => makes_form text r)
    (.intro rfl fun _ hq => absurd hq List.not_mem_nil) hon trivial

end Restyle.Tsx
