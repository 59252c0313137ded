import Restyle.Proofs.Elements

/-!
# Flags of siblings

One walk over the elements of a parent keeps two histories: the usages of a component so far, and whether the
last element is one of them.  Both can be read off the elements before a place, so what the walk does to an
element depends on these alone, and a flag is given where one of the selectors of its name holds.
-/

namespace Restyle

namespace Emit

open Restyle.Component (SiblingSelector)
open Restyle.Module (Usage elementName)
open Restyle.Tsx (Node)

/-! ## The change of an element -/

namespace Change

theorem mem_flags_addFlag (name flag : String) (c : Change) :
    flag ∈ (c.addFlag name).flags ↔ flag ∈ c.flags ∨ (flag = name ∧ c.usage.attribute? name = none) := by
  unfold addFlag
  split
  · next h =>
      rw [Bool.or_eq_true, List.contains_iff_mem] at h
      refine ⟨.inl, fun hflag => hflag.elim id ?_⟩
      rintro ⟨rfl, hnone⟩
      exact h.resolve_right (by simp [hnone])
  · next h =>
      rw [Bool.or_eq_true, not_or, Bool.not_eq_true, Bool.not_eq_true, Option.isSome_eq_false_iff,
        Option.isNone_iff_eq_none] at h
      simp [h.2]

theorem nodup_flags_addFlag (name : String) {c : Change} (h : c.flags.Nodup) : (c.addFlag name).flags.Nodup := by
  unfold addFlag
  split
  · exact h
  · next hnew =>
      refine List.nodup_append.mpr ⟨h, List.pairwise_singleton _ name, fun flag hflag other hother heq => hnew ?_⟩
      rw [← List.mem_singleton.mp hother, ← heq, List.contains_iff_mem.mpr hflag, Bool.true_or]

/-- Gives the flags of some selectors. -/
def addFlags (selectors : List SiblingSelector) (c : Change) : Change :=
  selectors.foldl (fun c s => c.addFlag s.propName) c

theorem usage_addFlags (selectors : List SiblingSelector) (c : Change) :
    (c.addFlags selectors).usage = c.usage :=
  CallSites.usage_foldl (fun c (s : SiblingSelector) => CallSites.usage_addFlag s.propName c) selectors c

/-- Selectors give their flags, unless the element has an attribute of the name. -/
theorem mem_flags_addFlags (selectors : List SiblingSelector) (flag : String) (c : Change) :
    flag ∈ (c.addFlags selectors).flags ↔
      flag ∈ c.flags ∨ (c.usage.attribute? flag = none ∧ ∃ s ∈ selectors, s.propName = flag) := by
  induction selectors generalizing c with
  | nil => simp [addFlags]
  | cons s selectors ih =>
      rw [addFlags, List.foldl_cons, ← addFlags, ih, mem_flags_addFlag, CallSites.usage_addFlag, or_assoc]
      refine or_congr_right ?_
      constructor
      · rintro (⟨rfl, hnone⟩ | ⟨hnone, t, ht, rfl⟩)
        · exact ⟨hnone, s, List.mem_cons_self, rfl⟩
        · exact ⟨hnone, t, List.mem_cons_of_mem _ ht, rfl⟩
      · rintro ⟨hnone, t, ht, rfl⟩
        rcases List.mem_cons.mp ht with rfl | ht
        · exact .inl ⟨rfl, hnone⟩
        · exact .inr ⟨hnone, t, ht, rfl⟩

theorem nodup_flags_addFlags (selectors : List SiblingSelector) {c : Change} (h : c.flags.Nodup) :
    (c.addFlags selectors).flags.Nodup :=
  List.foldlRecOn (motive := fun c : Change => c.flags.Nodup) selectors _ h
    fun _ hc s _ => nodup_flags_addFlag s.propName hc

end Change

namespace CallSites

/-- The change of an element so far. -/
def changeOf (cs : Changes) (e : Node) : Change :=
  (cs.find? fun c => c.usage.element.start == e.start).getD { usage := .ofElement e }

theorem changeOf_cons (c : Change) (cs : Changes) (e : Node) :
    changeOf (c :: cs) e = if c.usage.element.start = e.start then c else changeOf cs e := by
  unfold changeOf
  rw [List.find?_cons]
  split <;> simp_all

theorem changeOf_modify_self (cs : Changes) (e : Node) (f : Change → Change) (hf : ∀ c, (f c).usage = c.usage) :
    changeOf (cs.modify e f) e = f (changeOf cs e) := by
  induction cs with
  | nil =>
      rw [Changes.modify, changeOf_cons, hf]
      exact if_pos rfl
  | cons c cs ih =>
      rw [Changes.modify, changeOf_cons]
      by_cases hstart : c.usage.element.start = e.start
      · rw [if_pos (beq_iff_eq.mpr hstart), if_pos hstart, changeOf_cons, hf, if_pos hstart]
      · rw [if_neg (by simpa using hstart), if_neg hstart, changeOf_cons, if_neg hstart, ih]

theorem changeOf_modify_of_ne (cs : Changes) {e x : Node} (f : Change → Change) (hf : ∀ c, (f c).usage = c.usage)
    (hne : x.start ≠ e.start) : changeOf (cs.modify x f) e = changeOf cs e := by
  induction cs with
  | nil =>
      rw [Changes.modify, changeOf_cons, hf]
      exact if_neg hne
  | cons c cs ih =>
      rw [Changes.modify]
      split
      · next hstart =>
          have hother : c.usage.element.start ≠ e.start := fun h => hne ((beq_iff_eq.mp hstart).symm.trans h)
          rw [changeOf_cons, changeOf_cons, hf, if_neg hother, if_neg hother]
      · rw [changeOf_cons, changeOf_cons, ih]

/-! ## Positions among siblings -/

/-- The usages of a component among some elements. -/
def usagesAmong (name : String) (es : List Node) : List Usage :=
  usagesNamed (es.map Usage.ofElement) name

/-- Whether the last of some elements is a usage of a component. -/
def endsWith (name : String) (es : List Node) : Bool :=
  es.getLast?.any fun e => elementName e == name

theorem mem_usagesAmong {name : String} {es : List Node} {u : Usage} :
    u ∈ usagesAmong name es ↔ ∃ e ∈ es, elementName e = name ∧ u = .ofElement e := by
  unfold usagesAmong usagesNamed
  rw [List.mem_filter, List.mem_map]
  constructor
  · rintro ⟨⟨e, he, rfl⟩, hname⟩
    exact ⟨e, he, beq_iff_eq.mp hname, rfl⟩
  · rintro ⟨e, he, rfl, rfl⟩
    exact ⟨⟨e, he, rfl⟩, beq_self_eq_true _⟩

theorem usagesAmong_concat (name : String) (es : List Node) (e : Node) :
    usagesAmong name (es ++ [e]) =
      if elementName e = name then usagesAmong name es ++ [.ofElement e] else usagesAmong name es := by
  unfold usagesAmong usagesNamed
  rw [List.map_append, List.filter_append]
  by_cases hname : elementName e = name
  · rw [if_pos hname]
    simp [Usage.ofElement, hname]
  · rw [if_neg hname]
    simp [Usage.ofElement, hname]

@[simp] theorem endsWith_concat (name : String) (es : List Node) (e : Node) :
    endsWith name (es ++ [e]) = (elementName e == name) := by
  simp [endsWith]

/-- Whether an element has a class in the literal text of its `className`. -/
def HasClass (e : Node) (name : String) : Prop :=
  ∃ a text, (Usage.ofElement e).attribute? "className" = some a ∧ a.string? = some text ∧ name ∈ Text.wordsOf text

theorem hasClass_iff (e : Node) (name : String) : hasClass (.ofElement e) name = true ↔ HasClass e name := by
  unfold hasClass HasClass
  rw [Option.any_eq_true]
  constructor
  · rintro ⟨text, htext, hword⟩
    obtain ⟨a, ha, htext⟩ := Option.bind_eq_some_iff.mp htext
    exact ⟨a, text, ha, htext, List.contains_iff_mem.mp hword⟩
  · rintro ⟨a, text, ha, htext, hword⟩
    exact ⟨text, Option.bind_eq_some_iff.mpr ⟨a, ha, htext⟩, List.contains_iff_mem.mpr hword⟩

/-- Whether a sibling selector of a component holds behind the given siblings. -/
def Holds (name : String) (before : List Node) (s : SiblingSelector) : Prop :=
  match s.relation, s.className.filter fun n => !n.isEmpty with
  | .adjacent, _ => ∃ x, before.getLast? = some x ∧ elementName x = name
  | .general, some cls => ∃ x ∈ before, elementName x = name ∧ HasClass x cls
  | .general, none => ∃ x ∈ before, elementName x = name

/-- The histories of the walk tell whether a selector holds. -/
theorem isAfter_iff (name : String) (before : List Node) (s : SiblingSelector) :
    isAfter s (usagesAmong name before) (endsWith name before) = true ↔ Holds name before s := by
  unfold isAfter Holds
  cases s.relation with
  | adjacent => simp [endsWith, Option.any_eq_true]
  | general =>
      cases s.className.filter fun n => !n.isEmpty with
      | some cls =>
          dsimp only
          rw [List.any_eq_true]
          constructor
          · rintro ⟨u, hu, hclass⟩
            obtain ⟨x, hx, hname, rfl⟩ := mem_usagesAmong.mp hu
            exact ⟨x, hx, hname, (hasClass_iff x cls).mp hclass⟩
          · rintro ⟨x, hx, hname, hclass⟩
            exact ⟨_, mem_usagesAmong.mpr ⟨x, hx, hname, rfl⟩, (hasClass_iff x cls).mpr hclass⟩
      | none =>
          dsimp only
          rw [Bool.not_eq_true', List.isEmpty_eq_false_iff_exists_mem]
          constructor
          · rintro ⟨u, hu⟩
            obtain ⟨x, hx, hname, -⟩ := mem_usagesAmong.mp hu
            exact ⟨x, hx, hname⟩
          · rintro ⟨x, hx, hname⟩
            exact ⟨_, mem_usagesAmong.mpr ⟨x, hx, hname, rfl⟩⟩

/-! ## The walk over the elements of a parent -/

/-- The selectors of a component that hold behind the given siblings. -/
def holding (p : ComponentPlan) (before : List Node) : List SiblingSelector :=
  p.component.siblingSelectors.filter fun s => isAfter s (usagesAmong p.name before) (endsWith p.name before)

/-- What the walk does to one element behind the given siblings. -/
def flagElement (p : ComponentPlan) (before : List Node) (e : Node) (cs : Changes) : Changes :=
  if elementName e = p.name ∧ holding p before ≠ [] then cs.modify e (Change.addFlags (holding p before)) else cs

/-- One step of the walk: the histories of the siblings before an element become those with the element. -/
theorem flagSiblings_cons (p : ComponentPlan) (before : List Node) (e : Node) (es : List Node) (cs : Changes) :
    flagSiblings p (e :: es) (usagesAmong p.name before) (endsWith p.name before) cs =
      flagSiblings p es (usagesAmong p.name (before ++ [e])) (endsWith p.name (before ++ [e]))
        (flagElement p before e cs) := by
  rw [flagSiblings, usagesAmong_concat, endsWith_concat, flagElement]
  by_cases hname : elementName e = p.name
  · have hself : ((Usage.ofElement e).name == p.name) = true := beq_iff_eq.mpr hname
    dsimp only
    rw [if_pos hself, if_pos hname, beq_iff_eq.mpr hname]
    change flagSiblings p es _ true (if (holding p before).isEmpty then _ else _) = _
    by_cases hholding : holding p before = []
    · rw [if_pos (List.isEmpty_iff.mpr hholding), if_neg fun h => h.2 hholding]
    · rw [if_neg fun h => hholding (List.isEmpty_iff.mp h), if_pos ⟨hname, hholding⟩]
      rfl
  · have hother : ((Usage.ofElement e).name == p.name) = false := beq_eq_false_iff_ne.mpr hname
    dsimp only
    rw [hother, if_neg Bool.false_ne_true, if_neg hname, if_neg fun h => hname h.1, beq_eq_false_iff_ne.mpr hname]

theorem changeOf_flagElement_self (p : ComponentPlan) (before : List Node) (e : Node) (cs : Changes) :
    changeOf (flagElement p before e cs) e =
      if elementName e = p.name then (changeOf cs e).addFlags (holding p before) else changeOf cs e := by
  unfold flagElement
  by_cases hname : elementName e = p.name
  · rw [if_pos hname]
    split
    · exact changeOf_modify_self cs e _ (Change.usage_addFlags _)
    · next h =>
        rw [not_and, not_not] at h
        rw [h hname]
        rfl
  · rw [if_neg fun h => hname h.1, if_neg hname]

theorem changeOf_flagElement_of_ne (p : ComponentPlan) (before : List Node) {e x : Node} (cs : Changes)
    (hne : x.start ≠ e.start) : changeOf (flagElement p before x cs) e = changeOf cs e := by
  unfold flagElement
  split
  · exact changeOf_modify_of_ne cs _ (Change.usage_addFlags _) hne
  · rfl

/-- The walk leaves the elements alone that it does not come to. -/
theorem changeOf_flagSiblings_of_ne (p : ComponentPlan) (before : List Node) {es : List Node} (cs : Changes) {e : Node}
    (hne : ∀ x ∈ es, x.start ≠ e.start) :
    changeOf (flagSiblings p es (usagesAmong p.name before) (endsWith p.name before) cs) e = changeOf cs e := by
  induction es generalizing before cs with
  | nil => rfl
  | cons x es ih =>
      rw [flagSiblings_cons, ih _ _ fun y hy => hne y (List.mem_cons_of_mem _ hy),
        changeOf_flagElement_of_ne p before cs (hne x List.mem_cons_self)]

/-- What the walk does to an element depends on the siblings before it alone. -/
theorem changeOf_flagSiblings (p : ComponentPlan) (front before : List Node) (e : Node) (behind : List Node) (cs : Changes)
    (hstarts : ((before ++ e :: behind).map (·.start)).Nodup) :
    changeOf (flagSiblings p (before ++ e :: behind) (usagesAmong p.name front) (endsWith p.name front) cs) e =
      if elementName e = p.name then (changeOf cs e).addFlags (holding p (front ++ before)) else changeOf cs e := by
  induction before generalizing front cs with
  | nil =>
      have hbehind : ∀ x ∈ behind, x.start ≠ e.start := fun x hx heq =>
        (List.nodup_cons.mp hstarts).1 (List.mem_map.mpr ⟨x, hx, heq⟩)
      rw [List.nil_append, flagSiblings_cons, changeOf_flagSiblings_of_ne p _ _ hbehind, changeOf_flagElement_self,
        List.append_nil]
  | cons x before ih =>
      obtain ⟨hx, hstarts⟩ := List.nodup_cons.mp hstarts
      have hne : x.start ≠ e.start := fun heq => hx (List.mem_map.mpr ⟨e, by simp, heq.symm⟩)
      rw [List.cons_append, flagSiblings_cons, ih (front ++ [x]) _ hstarts, changeOf_flagElement_of_ne p front cs hne,
        List.append_assoc, List.singleton_append]

/-! ## Flags -/

/-- Elements of one parent with their changes so far. -/
structure Siblings (cs : Changes) (es : List Node) : Prop where
  /-- They stand at different places. -/
  apart : (es.map (·.start)).Nodup
  /-- What is known of each is read from it. -/
  usage : ∀ e ∈ es, (changeOf cs e).usage = .ofElement e

/-- Whether a flag is due to a usage of a component behind the given siblings: the usage has no attribute of its name,
and a selector with the flag holds. -/
def Due (p : ComponentPlan) (before : List Node) (e : Node) (flag : String) : Prop :=
  elementName e = p.name ∧ (Usage.ofElement e).attribute? flag = none ∧
    ∃ s ∈ p.component.siblingSelectors, s.propName = flag ∧ Holds p.name before s

/-- The walk gives an element the flags that are due to it. -/
theorem mem_flags_flagSiblings (p : ComponentPlan) {before behind : List Node} {e : Node} {cs : Changes}
    (h : Siblings cs (before ++ e :: behind)) (flag : String) :
    flag ∈ (changeOf (flagSiblings p (before ++ e :: behind) [] false cs) e).flags ↔
      flag ∈ (changeOf cs e).flags ∨ Due p before e flag := by
  have hwalk := changeOf_flagSiblings p [] before e behind cs h.apart
  change changeOf (flagSiblings p _ [] false cs) e = _ at hwalk
  rw [hwalk]
  unfold Due
  by_cases hname : elementName e = p.name
  · rw [if_pos hname, Change.mem_flags_addFlags, h.usage e (by simp)]
    simp only [hname, holding, List.nil_append, List.mem_filter, isAfter_iff, true_and]
    refine or_congr_right (and_congr_right fun _ => exists_congr fun s => ?_)
    rw [and_assoc, and_comm (a := Holds p.name before s)]
  · rw [if_neg hname]
    simp [hname]

/-- No flag is given twice. -/
theorem nodup_flags_flagSiblings (p : ComponentPlan) {before behind : List Node} {e : Node} {cs : Changes}
    (h : Siblings cs (before ++ e :: behind)) (hflags : (changeOf cs e).flags.Nodup) :
    (changeOf (flagSiblings p (before ++ e :: behind) [] false cs) e).flags.Nodup := by
  have hwalk := changeOf_flagSiblings p [] before e behind cs h.apart
  change changeOf (flagSiblings p _ [] false cs) e = _ at hwalk
  rw [hwalk]
  split
  · exact Change.nodup_flags_addFlags _ hflags
  · exact hflags

/-! ## The elements of a module -/

theorem changeOf_mem_or (cs : Changes) (e : Node) :
    (changeOf cs e ∈ cs ∧ (changeOf cs e).usage.element.start = e.start) ∨ changeOf cs e = { usage := .ofElement e } := by
  unfold changeOf
  cases hfind : cs.find? fun c => c.usage.element.start == e.start with
  | none => exact .inr rfl
  | some c => exact .inl ⟨List.mem_of_find?_eq_some hfind, by simpa using List.find?_some hfind⟩

variable {m : Module} {s : CallSites}

/-- The elements right inside a node of a module, whatever has been changed before. -/
theorem siblings_childElements (hm : m.Outline) {parent : Node} (hparent : parent ∈ m.root.walk) {cs : Changes}
    (hcs : SoundChanges m cs) : Siblings cs (Module.childElements parent) := by
  have hedited := fun e he => edited_childElements (y := e) hparent he
  refine ⟨?_, fun e he => ?_⟩
  · have hinside := ((Node.laid_iff parent).mp (hm.laid_of_mem hparent)).2.pairwise
    have hordered : (Module.childElements parent).Pairwise fun x y => x.stop ≤ y.start := by
      unfold Module.childElements
      split
      · exact (hinside.filter _).filter _
      · exact .nil
    refine List.pairwise_map.mpr (hordered.imp_of_mem fun {x y} hx _ hxy heq => ?_)
    have := (hedited x hx).start_lt_stop hm
    omega
  · rcases changeOf_mem_or cs e with ⟨hmem, hstart⟩ | hfresh
    · have hu := List.mem_map_of_mem (f := Change.usage) hmem
      rw [hcs.usage _ hu, (hcs.edited _ hu).eq_of_start hm (hedited e he) hstart]
    · rw [hfresh]

theorem ne_of_mem_children {n c : Node} (h : c ∈ n.children) : c ≠ n := by
  rintro rfl
  have hsize := List.sizeOf_lt_of_mem h
  cases c
  simp only [Node.mk.sizeOf_spec] at hsize
  omega

theorem mem_childElements {x e : Node} (h : e ∈ Module.childElements x) :
    x.kind = .jsxElement ∧ e ∈ x.children := by
  unfold Module.childElements at h
  split at h
  · next hkind => exact ⟨beq_iff_eq.mp hkind, Node.mem_children_of_mem_named (List.mem_filter.mp h).1⟩
  · cases h

/-- An element stands right inside one node alone. -/
theorem eq_of_childElements (hm : m.Outline) {x y e : Node} (hx : x ∈ m.root.walk) (hy : y ∈ m.root.walk)
    (hex : e ∈ Module.childElements x) (hey : e ∈ Module.childElements y) : x = y := by
  have he := edited_childElements hx hex
  have hwidth := he.start_lt_stop hm
  -- The child of the outer node that holds the inner one is the element itself or stands beside it.
  have hbelow : ∀ {x y : Node}, x ∈ m.root.walk → y ∈ m.root.walk → e ∈ Module.childElements x →
      e ∈ Module.childElements y → x ∈ y.walk → x = y := by
    intro x y hx hy hex hey hxy
    by_contra hne
    obtain ⟨hkind, hex⟩ := mem_childElements hex
    obtain ⟨c, hc, hxc⟩ := (Node.mem_walk.mp hxy).resolve_left hne
    have hewalk := Node.mem_walk_of_mem_children hex x.mem_walk_self
    by_cases hce : c = e
    · have hedited : Edited m x := ⟨hx, by rw [Module.isElement, hkind]; rfl⟩
      have hstart := hedited.start_lt hm he.element hewalk (ne_of_mem_children hex)
      have := ((hm.laid_of_mem he.mem).of_mem_walk (hce ▸ hxc)).1
      omega
    · have hlaid := ((Node.laid_iff y).mp (hm.laid_of_mem hy)).2
      have hbeside := hlaid.beside hc (mem_childElements hey).2 hce
      obtain ⟨hstart, hstop, -⟩ := (hlaid.of_mem hc).2.2.of_mem_walk (Node.walk_trans hewalk hxc)
      unfold Node.Beside at hbeside
      omega
  rcases hm.laid.nested hx hy with hxy | hyx | hbeside
  · exact hbelow hx hy hex hey hxy
  · exact (hbelow hy hx hey hex hyx).symm
  · obtain ⟨hstart, hstop, -⟩ := (hm.laid_of_mem hx).of_mem_walk
      (Node.mem_walk_of_mem_children (mem_childElements hex).2 x.mem_walk_self)
    obtain ⟨hstart', hstop', -⟩ := (hm.laid_of_mem hy).of_mem_walk
      (Node.mem_walk_of_mem_children (mem_childElements hey).2 y.mem_walk_self)
    unfold Node.Beside at hbeside
    omega

/-- What holds of all changes holds after one more, if the new change keeps it. -/
theorem forall_mem_modify {P : Change → Prop} (hfresh : ∀ x, P { usage := .ofElement x }) {f : Change → Change}
    (hf : ∀ c, P c → P (f c)) {cs : Changes} (h : ∀ c ∈ cs, P c) (x : Node) : ∀ c ∈ cs.modify x f, P c := by
  induction cs with
  | nil => exact List.forall_mem_singleton.mpr (hf _ (hfresh x))
  | cons d cs ih =>
      obtain ⟨hd, hcs⟩ := List.forall_mem_cons.mp h
      rw [Changes.modify]
      split
      · exact List.forall_mem_cons.mpr ⟨hf d hd, hcs⟩
      · exact List.forall_mem_cons.mpr ⟨hd, ih hcs⟩

theorem flags_addArg (a : String) (c : Change) : (c.addArg a).flags = c.flags := by
  unfold Change.addArg
  split <;> rfl

/-- Changes without flags. -/
def Flagless (cs : Changes) : Prop := ∀ c ∈ cs, c.flags = []

theorem flagless_modify {f : Change → Change} (hf : ∀ c, (f c).flags = c.flags) {cs : Changes} (h : Flagless cs)
    (x : Node) : Flagless (cs.modify x f) :=
  forall_mem_modify (fun _ => rfl) (fun c hc => (hf c).trans hc) h x

theorem flags_foldl_addArg (args : List String) (c : Change) :
    (args.foldl (fun c a => c.addArg a) c).flags = c.flags := by
  induction args generalizing c with
  | nil => rfl
  | cons a args ih => rw [List.foldl_cons, ih, flags_addArg]

/-- Styles are given without flags. -/
theorem flagless_collectRules (s : CallSites) : Flagless (s.collectRules (s.collectInline [])) := by
  refine foldl_keeps ?_ fun cs hcs pu _ => ?_
  · refine foldl_keeps (List.forall_mem_nil _) fun cs hcs pu _ => ?_
    exact foldl_keeps hcs fun cs hcs u _ => flagless_modify (flags_foldl_addArg pu.1.plainArgs) hcs u.element
  · refine foldl_keeps hcs fun cs hcs rule _ => ?_
    exact foldl_keeps hcs fun cs hcs e _ => flagless_modify (flags_addArg _) hcs e

/-- The walk over the elements of one parent repeats no flag. -/
theorem flagSiblings_unrepeated (p : ComponentPlan) (es front : List Node) {cs : Changes}
    (h : ∀ c ∈ cs, c.flags.Nodup) :
    ∀ c ∈ flagSiblings p es (usagesAmong p.name front) (endsWith p.name front) cs, c.flags.Nodup := by
  induction es generalizing front cs with
  | nil => exact h
  | cons e es ih =>
      rw [flagSiblings_cons]
      refine ih (front ++ [e]) ?_
      unfold flagElement
      split
      · exact forall_mem_modify (P := fun c => c.flags.Nodup) (fun _ => .nil)
          (fun c hc => Change.nodup_flags_addFlags _ hc) h e
      · exact h

/-- No element of a module is given a flag twice. -/
theorem nodup_flags_changes (s : CallSites) : ∀ c ∈ s.changes, c.flags.Nodup := by
  have hbare : ∀ c ∈ s.collectRules (s.collectInline []), c.flags.Nodup := fun c hc =>
    flagless_collectRules s c hc ▸ .nil
  refine foldl_keeps (P := fun cs => ∀ c ∈ cs, c.flags.Nodup) hbare fun cs hcs p _ => ?_
  exact foldl_keeps (P := fun cs => ∀ c ∈ cs, c.flags.Nodup) hcs fun cs hcs x _ =>
    flagSiblings_unrepeated p (Module.childElements x) [] hcs

/-- The walk over the elements of one parent gives them the flags that are due, and no other element any. -/
theorem mem_flags_parent (hm : m.Outline) (p : ComponentPlan) {parent : Node} (hparent : parent ∈ m.root.walk)
    {before behind : List Node} {e : Node} (hsplit : Module.childElements parent = before ++ e :: behind)
    {other : Node} (hother : other ∈ m.root.walk) {cs : Changes} (hcs : SoundChanges m cs) (flag : String) :
    flag ∈ (changeOf (flagSiblings p (Module.childElements other) [] false cs) e).flags ↔
      flag ∈ (changeOf cs e).flags ∨ (other = parent ∧ Due p before e flag) := by
  have he : e ∈ Module.childElements parent := hsplit ▸ by simp
  by_cases hsame : other = parent
  · subst hsame
    have hsiblings := siblings_childElements hm hother hcs
    rw [hsplit] at hsiblings ⊢
    rw [mem_flags_flagSiblings p hsiblings]
    simp
  · have hne : ∀ x ∈ Module.childElements other, x.start ≠ e.start := fun x hx heq => by
      have hxe := (edited_childElements hother hx).eq_of_start hm (edited_childElements hparent he) heq
      exact hsame (eq_of_childElements hm hother hparent (hxe ▸ hx) he)
    have hkept := changeOf_flagSiblings_of_ne p [] cs hne
    change changeOf (flagSiblings p _ [] false cs) e = _ at hkept
    rw [hkept]
    simp [hsame]

/-- All parents together give an element the flags that are due to it. -/
theorem mem_flags_parents (hm : m.Outline) (p : ComponentPlan) {parent : Node} (hparent : parent ∈ m.root.walk)
    {before behind : List Node} {e : Node} (hsplit : Module.childElements parent = before ++ e :: behind)
    {others : List Node} (hothers : ∀ x ∈ others, x ∈ m.root.walk) {cs : Changes} (hcs : SoundChanges m cs)
    (flag : String) :
    flag ∈ (changeOf (others.foldl (fun cs x => flagSiblings p (Module.childElements x) [] false cs) cs) e).flags ↔
      flag ∈ (changeOf cs e).flags ∨ (parent ∈ others ∧ Due p before e flag) := by
  induction others generalizing cs with
  | nil => simp
  | cons other others ih =>
      obtain ⟨hother, hothers⟩ := List.forall_mem_cons.mp hothers
      have hnext := (lasting_sound m).flagSiblings p (fun e he => edited_childElements hother he) [] false hcs
      rw [List.foldl_cons, ih hothers hnext, mem_flags_parent hm p hparent hsplit hother hcs, or_assoc,
        List.mem_cons, or_and_right, @eq_comm _ other]

/-- All components together give an element the flags that are due to it. -/
theorem mem_flags_plans (hm : m.Outline) (hroot : s.root = m.root) {parent : Node} (hparent : parent ∈ m.root.walk)
    {before behind : List Node} {e : Node} (hsplit : Module.childElements parent = before ++ e :: behind)
    (plans : List ComponentPlan) {cs : Changes} (hcs : SoundChanges m cs) (flag : String) :
    flag ∈ (changeOf (plans.foldl (fun cs p => (s.parentsOf p.name).foldl
        (fun cs x => flagSiblings p (Module.childElements x) [] false cs) cs) cs) e).flags ↔
      flag ∈ (changeOf cs e).flags ∨ ∃ p ∈ plans, Due p before e flag := by
  have hwalk : ∀ p : ComponentPlan, ∀ x ∈ s.parentsOf p.name, x ∈ m.root.walk :=
    fun p x hx => hroot ▸ (List.mem_filter.mp hx).1
  induction plans generalizing cs with
  | nil => simp
  | cons p plans ih =>
      have hnext : SoundChanges m ((s.parentsOf p.name).foldl
          (fun cs x => flagSiblings p (Module.childElements x) [] false cs) cs) :=
        foldl_keeps hcs fun _ hcs x hx =>
          (lasting_sound m).flagSiblings p (fun e he => edited_childElements (hwalk p x hx) he) [] false hcs
      have hplace : Due p before e flag → parent ∈ s.parentsOf p.name := fun hdue =>
        List.mem_filter.mpr ⟨hroot ▸ hparent, List.any_eq_true.mpr
          ⟨e, hsplit ▸ by simp, beq_iff_eq.mpr hdue.1⟩⟩
      refine (ih hnext).trans ?_
      rw [mem_flags_parents hm p hparent hsplit (hwalk p) hcs, or_assoc, and_iff_right_of_imp hplace]
      simp only [List.mem_cons, exists_eq_or_imp]

/-- In the changes of a module, an element has the flags that are due to it. -/
theorem mem_flags_changes (hm : m.Outline) (husages : ∀ u ∈ s.usages, Edited m u.element) (hroot : s.root = m.root)
    {parent : Node} (hparent : parent ∈ m.root.walk) {before behind : List Node} {e : Node}
    (hsplit : Module.childElements parent = before ++ e :: behind) (flag : String) :
    flag ∈ (changeOf s.changes e).flags ↔ ∃ p ∈ s.plans.values, Due p before e flag := by
  have hsound := lasting_sound m
  have hcs := hsound.collectRules husages (hsound.collectInline husages (soundChanges_nil m))
  have hbare : (changeOf (s.collectRules (s.collectInline [])) e).flags = [] := by
    rcases changeOf_mem_or (s.collectRules (s.collectInline [])) e with ⟨hmem, -⟩ | hfresh
    · exact flagless_collectRules s _ hmem
    · rw [hfresh]
  have hplans := mem_flags_plans hm hroot hparent hsplit
    (s.plans.values.filter fun p => !p.component.siblingSelectors.isEmpty) hcs flag
  rw [hbare] at hplans
  refine hplans.trans ?_
  simp only [List.not_mem_nil, false_or, List.mem_filter]
  refine exists_congr fun p => and_congr_left fun hdue => and_iff_left ?_
  obtain ⟨-, -, sel, hsel, -⟩ := hdue
  cases hnone : p.component.siblingSelectors with
  | nil => rw [hnone] at hsel; cases hsel
  | cons _ _ => rfl

/-- In the changes of a module, every element has the flags that are due to it behind its siblings, and none twice. -/
structure Flagged (m : Module) (s : CallSites) : Prop where
  due : ∀ parent ∈ m.root.walk, ∀ before e behind, Module.childElements parent = before ++ e :: behind →
    ∀ flag, flag ∈ (changeOf s.changes e).flags ↔ ∃ p ∈ s.plans.values, Due p before e flag
  unrepeated : ∀ c ∈ s.changes, c.flags.Nodup

theorem flagged (hm : m.Outline) (husages : ∀ u ∈ s.usages, Edited m u.element) (hroot : s.root = m.root) :
    Flagged m s where
  due _ hparent _ _ _ hsplit := mem_flags_changes hm husages hroot hparent hsplit
  unrepeated := nodup_flags_changes s

/--
An element is given a flag if it is a usage of the component without an attribute of that name, and a selector
with the flag holds behind the siblings before it.  No flag is given twice.  So it is with all components and
all elements of a module together.
-/
theorem flags_flagSiblings (p : ComponentPlan) {es : List Node} {cs : Changes} (h : Siblings cs es)
    (hflags : ∀ e ∈ es, (changeOf cs e).flags.Nodup) (before : List Node) (e : Node) (behind : List Node)
    (hes : es = before ++ e :: behind) :
    (∀ flag, flag ∈ (changeOf (flagSiblings p es [] false cs) e).flags ↔ flag ∈ (changeOf cs e).flags ∨
      (elementName e = p.name ∧ (Usage.ofElement e).attribute? flag = none ∧
        ∃ s ∈ p.component.siblingSelectors, s.propName = flag ∧ Holds p.name before s)) ∧
    (changeOf (flagSiblings p es [] false cs) e).flags.Nodup ∧
    ∀ (m : Module) (s : CallSites), m.Outline → (∀ u ∈ s.usages, Edited m u.element) → s.root = m.root →
      Flagged m s := by
  subst hes
  exact ⟨mem_flags_flagSiblings p h, nodup_flags_flagSiblings p h (hflags e (by simp)), fun _ _ => flagged⟩

/-- A tag without attributes, or with a class. -/
def sampleTag (name : String) (start : Nat) (className : Option String) : Node where
  kind := .jsxSelfClosing
  start := start
  stop := start + 10
  text := "<" ++ name ++ "/>"
  children :=
    { kind := .identifier, role := some .name, start := start + 1, stop := start + 2, text := name } ::
      className.toList.map fun text =>
        { kind := .jsxAttribute, start := start + 3, stop := start + 8, text := "className=" ++ text
          children :=
            [{ kind := .identifier, start := start + 3, stop := start + 4, text := "className" },
              { kind := .string, start := start + 5, stop := start + 8, text := "'" ++ text ++ "'" }] }

/-- A list with a rule between its items and one behind its pinned items. -/
def itemPlan : ComponentPlan where
  component :=
    { name := "Item", base := "li", styleKey := "item"
      siblingSelectors :=
        [{ styleKey := "itemNext", relation := .adjacent, propName := "isNext" },
          { styleKey := "itemPinned", relation := .general, propName := "isBelow", className := some "pinned" }] }
  mode := .component
  element := "li"
  elementIsIntrinsic := true

/-- Behind a pinned item and a rule, an item is below the pinned one but not next to it. -/
theorem flags_flagSiblings_ruledList :
    let es := [sampleTag "Item" 10 (some "big pinned"), sampleTag "hr" 20 none, sampleTag "Item" 30 none]
    let flags := (changeOf (flagSiblings itemPlan es [] false []) (sampleTag "Item" 30 none)).flags
    Siblings [] es ∧ "isBelow" ∈ flags ∧ "isNext" ∉ flags := by
  intro es flags
  have hes : Siblings [] es :=
    ⟨by decide, fun e _ => rfl⟩
  have hflags := (flags_flagSiblings itemPlan hes (fun e _ => .nil)
    [sampleTag "Item" 10 (some "big pinned"), sampleTag "hr" 20 none] (sampleTag "Item" 30 none) [] rfl).1
  refine ⟨hes, (hflags _).mpr (.inr ⟨rfl, rfl, _, List.mem_cons_of_mem _ List.mem_cons_self, rfl, ?_⟩), fun h => ?_⟩
  · exact ⟨_, List.mem_cons_self, rfl, _, "big pinned", rfl, by decide, by decide⟩
  · rcases (hflags _).mp h with hnone | ⟨-, -, s, hs, hname, hholds⟩
    · cases hnone
    · rcases List.mem_cons.mp hs with rfl | hs
      · obtain ⟨x, hx, hitem⟩ := hholds
        cases hx
        revert hitem
        decide
      · cases List.mem_singleton.mp hs
        revert hname
        decide

end CallSites

end Emit

end Restyle
