import Restyle.Proofs.Building
import Restyle.Proofs.Requests

/-!
# Decisions in the trace

Building a component enters every decision in the trace.  From what a conversion requests we read off which
slots are decided: one decision for each request, in order, until the building stops, and none for a request with
an omitted slot ahead of it in the same text.
-/

namespace Restyle

/-- What a trace says of the decisions in it. -/
def Trace.decisions (t : Trace) : List (List (String × Data)) :=
  (t.events.filter fun event => event.kind == .decision).map (·.details)

/-- Whether an entry is about the slot with an index. -/
def Trace.isAbout (slot : Nat) (entry : List (String × Data)) : Bool :=
  match Data.field? entry "index" with
  | some (.int index) => index == slot
  | _ => false

/-- How often a slot has been decided. -/
def Trace.timesDecided (t : Trace) (slot : Nat) : Nat :=
  t.decisions.countP (isAbout slot)

theorem Trace.decisions_decision (t : Trace) (component : String) (index : Int) (tag action : String) :
    (t.decision component index tag action).decisions = t.decisions ++
      [[("component", .str component), ("index", .int index), ("tag", .str tag), ("action", .str action)]] := by
  simp [decisions, decision, log]

theorem Trace.decisions_inspection (t : Trace) (selector verdict note : String) :
    (t.inspection selector verdict note).decisions = t.decisions := by
  simp [decisions, inspection, log]

namespace Interpolation

/-- What an arrow is classified as keeps the index of the slot, and names no other mixin. -/
theorem frame_of_classifyArrow? {around : Surroundings} {base c : Classified} {f : Tsx.Arrow} {body : Tsx.Node}
    (h : classifyArrow? around base f body = some c) :
    c.index = base.index ∧ c.mixinName = base.mixinName := by
  unfold classifyArrow? at h
  split at h
  · split at h
    · split at h <;> cases h <;> exact ⟨rfl, rfl⟩
    · cases h
      exact ⟨rfl, rfl⟩
    · cases h
  · split at h
    · simp only [Option.bind_eq_bind, Option.bind_eq_some_iff, Option.pure_def] at h
      obtain ⟨t, -, truthy, -, falsy, -, h⟩ := h
      cases h
      exact ⟨rfl, rfl⟩
    · simp only [Option.bind_eq_bind, Option.bind_eq_some_iff, Option.pure_def] at h
      obtain ⟨left, -, right, -, h⟩ := h
      split at h
      · obtain ⟨t, -, truthy, -, h⟩ := by simpa only [Option.bind_eq_some_iff] using h
        cases h
        exact ⟨rfl, rfl⟩
      · split at h
        · obtain ⟨path, -, fallback, -, h⟩ := by simpa only [Option.bind_eq_some_iff] using h
          cases h
          exact ⟨rfl, rfl⟩
        · cases h
    · cases h

theorem frame_of_classifyCall? {around : Surroundings} {base c : Classified} {n : Tsx.Node}
    (h : classifyCall? around base n = some c) : c.index = base.index ∧ c.mixinName = base.mixinName := by
  unfold classifyCall? at h
  simp only [Option.bind_eq_bind, Option.bind_eq_some_iff, Option.pure_def] at h
  obtain ⟨⟨callee, arguments⟩, -, path, -, first, -, binding, -, h⟩ := h
  cases h
  exact ⟨rfl, rfl⟩

/-- A classified expression keeps the index of its slot. -/
theorem index_classify (around : Surroundings) (index : Int) (n : Tsx.Node) :
    (classify around index n).index = index := by
  unfold classify
  dsimp only
  split
  · split_ifs <;> rfl
  · split
    · next f _ =>
        cases hc : f.body.bind (classifyArrow? around
            { source := n.text, index, node := some n, param := f.param } f) with
        | none => rfl
        | some c =>
            obtain ⟨body, -, harrow⟩ := Option.bind_eq_some_iff.mp hc
            exact (frame_of_classifyArrow? harrow).1
    · cases hc : classifyCall? around { source := n.text, index, node := some n } n.unwrap with
      | none => rfl
      | some c => exact (frame_of_classifyCall? hc).1

end Interpolation

namespace Component

open Restyle.Interpolation (Classified Decision)
open Restyle.Style (Answers Object Scope SlotAnswer SlotRequest Use)
open Restyle.Tsx (Node)
open Work (Stops)

/-! ## Requests and entries -/

/-- The entry in the trace for the decision on a requested slot. -/
def Plant.Enters (plant : Plant) (template : Css.Template Node) (c : Component) (request : SlotRequest)
    (entry : List (String × Data)) : Prop :=
  ∃ slot decision, template.slot? request.index = some slot ∧
    ((Interpolation.decide plant.env (plant.classified slot request) (c.placeOf request)).run {}).1 = .ok decision ∧
    entry = [("component", .str c.name), ("index", .int request.index),
      ("tag", .str (plant.classified slot request).tag.text), ("action", .str decision.action)]

/-- The requests among uses that are for interpolations of a template. -/
def requestsFor (template : Css.Template Node) (uses : List Use) : List SlotRequest :=
  (uses.filter fun use => (template.slot? use.slot).isSome).map Use.request

/-- The requests that have no omitted slot ahead of them. -/
def Plant.due (plant : Plant) (template : Css.Template Node) (c : Component) (uses : List Use) :
    List SlotRequest :=
  requestsFor template (uses.filter (Use.isClear (plant.answers template c)))

/--
From one trace to another, slots have been decided in the order in which they are requested: once for each request
that is due, up to the place where the work stops.
-/
def Plant.Decided (plant : Plant) (template : Css.Template Node) (c : Component) (uses : List Use)
    (ended : Prop) (before after : Trace) : Prop :=
  ∃ asked entries, after.decisions = before.decisions ++ entries ∧
    List.Forall₂ (plant.Enters template c) asked entries ∧ asked <+: plant.due template c uses ∧
    (ended → asked = plant.due template c uses)

/-- Work on a component decides the slots of uses. -/
def Plant.Decides {α : Type} (plant : Plant) (template : Css.Template Node) (c : Component)
    (work : Building α) (uses : List Use) : Prop :=
  ∀ s, Named c s.store () → Named c (work.run s).2.store () ∧
    plant.Decided template c uses (¬ Stops work s) s.trace (work.run s).2.trace

theorem requestsFor_append (template : Css.Template Node) (uses rest : List Use) :
    requestsFor template (uses ++ rest) = requestsFor template uses ++ requestsFor template rest := by
  rw [requestsFor, List.filter_append, List.map_append]
  rfl

section

variable {plant : Plant} {template : Css.Template Node} {c : Component} {uses rest : List Use}

theorem due_append : plant.due template c (uses ++ rest) =
    plant.due template c uses ++ plant.due template c rest := by
  rw [Plant.due, List.filter_append, requestsFor_append]
  rfl

theorem due_eq_nil (h : ∀ use ∈ uses, use.isClear (plant.answers template c) = false) :
    plant.due template c uses = [] := by
  have hnone : uses.filter (Use.isClear (plant.answers template c)) = [] :=
    List.filter_eq_nil_iff.mpr fun use huse => by simp [h use huse]
  rw [Plant.due, hnone]
  rfl

namespace Plant.Decided

variable {ended ended' : Prop} {before middle after : Trace}

/-- Nothing has been decided. -/
theorem of_none (h : after.decisions = before.decisions) (hdue : ended → plant.due template c uses = []) :
    plant.Decided template c uses ended before after := by
  exact ⟨[], [], by rw [h, List.append_nil], .nil, List.nil_prefix, fun hended => (hdue hended).symm⟩

theorem append (h : plant.Decided template c uses ended before middle) (hended : ended)
    (h' : plant.Decided template c rest ended' middle after) :
    plant.Decided template c (uses ++ rest) ended' before after := by
  obtain ⟨asked, entries, htrace, henters, -, hdue⟩ := h
  obtain ⟨asked', entries', htrace', henters', hprefix, hdue'⟩ := h'
  obtain rfl := hdue hended
  refine ⟨plant.due template c uses ++ asked', entries ++ entries', ?_, List.rel_append henters henters', ?_,
    fun hended' => ?_⟩
  · rw [htrace', htrace, List.append_assoc]
  · rw [due_append]
    exact (List.prefix_append_right_inj _).mpr hprefix
  · rw [due_append, hdue' hended']

/-- Work that has been broken off leaves later requests undecided. -/
theorem broken (h : plant.Decided template c uses ended before after) (rest : List Use) (hbroken : ¬ ended') :
    plant.Decided template c (uses ++ rest) ended' before after := by
  obtain ⟨asked, entries, htrace, henters, hprefix, -⟩ := h
  refine ⟨asked, entries, htrace, henters, ?_, fun hended => absurd hended hbroken⟩
  rw [due_append]
  exact hprefix.trans (List.prefix_append _ _)

end Plant.Decided

namespace Plant.Decides

variable {α β : Type} {work : Building α}

/-- Work that changes neither the name nor the decisions. -/
theorem of_silent (h : ∀ s, Named c s.store () → Named c (work.run s).2.store () ∧
    (work.run s).2.trace.decisions = s.trace.decisions) : plant.Decides template c work [] :=
  fun s hs => ⟨(h s hs).1, .of_none (h s hs).2 fun _ => rfl⟩

/-- Work that comes to nothing decides what is not due. -/
theorem pure_of_isClear_eq_false (a : α) (h : ∀ use ∈ uses, use.isClear (plant.answers template c) = false) :
    plant.Decides template c (Pure.pure a) uses :=
  fun _ hs => ⟨hs, .of_none rfl fun _ => due_eq_nil h⟩

theorem pure (a : α) : plant.Decides template c (Pure.pure a) [] :=
  pure_of_isClear_eq_false a (List.forall_mem_nil _)

theorem throw (f : Fault) (uses : List Use) :
    plant.Decides (α := α) template c (MonadExcept.throw f) uses :=
  fun _ hs => ⟨hs, .of_none rfl fun hended => absurd ⟨f, rfl⟩ hended⟩

theorem bind {next : α → Building β} (hw : plant.Decides template c work uses)
    (hnext : ∀ a, (∃ s, Named c s.store () ∧ (work.run s).1 = .ok a) →
      plant.Decides template c (next a) rest) : plant.Decides template c (work >>= next) (uses ++ rest) := by
  intro s hs
  obtain ⟨hnamed, hdecided⟩ := hw s hs
  cases hrun : work.run s with
  | mk result s' =>
      rw [hrun] at hnamed hdecided
      cases result with
      | ok a =>
          obtain ⟨hnamed', hdecided'⟩ := hnext a ⟨s, hs, by rw [hrun]⟩ s' hnamed
          rw [Work.run_bind_ok _ hrun, Work.stops_bind_ok hrun]
          refine ⟨hnamed', hdecided.append ?_ hdecided'⟩
          rintro ⟨f, hf⟩
          rw [hrun] at hf
          cases hf
      | error f =>
          have hrun' := Work.run_bind_error next hrun
          rw [hrun']
          exact ⟨hnamed, hdecided.broken rest (not_not_intro ⟨f, by rw [hrun']⟩)⟩

/-- Work that nothing is decided after. -/
theorem bind_silent {next : α → Building β} (hw : plant.Decides template c work uses)
    (hnext : ∀ a, plant.Decides template c (next a) []) : plant.Decides template c (work >>= next) uses := by
  have h : plant.Decides template c (work >>= next) (uses ++ []) := hw.bind fun a _ => hnext a
  rwa [List.append_nil] at h

/-- Work that nothing is decided before. -/
theorem silent_bind {next : α → Building β} (hw : plant.Decides template c work [])
    (hnext : ∀ a, (∃ s, Named c s.store () ∧ (work.run s).1 = .ok a) →
      plant.Decides template c (next a) uses) : plant.Decides template c (work >>= next) uses :=
  hw.bind hnext

theorem foldlM {f : β → α → Building β} {usesOf : α → List Use} {xs : List α}
    (h : ∀ x ∈ xs, ∀ b, plant.Decides template c (f b x) (usesOf x)) (b : β) :
    plant.Decides template c (xs.foldlM f b) (xs.flatMap usesOf) := by
  induction xs generalizing b with
  | nil => exact pure b
  | cons x xs ih =>
      rw [List.foldlM_cons, List.flatMap_cons]
      exact (h x List.mem_cons_self b).bind fun b' _ =>
        ih (fun y hy => h y (List.mem_cons_of_mem x hy)) b'

theorem forIn {f : α → β → Building (ForInStep β)} (xs : List α)
    (h : ∀ x b, plant.Decides template c (f x b) []) (b : β) :
    plant.Decides template c (ForIn.forIn xs b f) [] := by
  induction xs generalizing b with
  | nil => exact pure b
  | cons x xs ih =>
      rw [List.forIn_cons]
      refine (h x b).silent_bind fun step _ => ?_
      cases step with
      | done b' => exact pure b'
      | yield b' => exact ih b'

theorem withImportant {work : Building Object} (h : plant.Decides template c work uses) :
    plant.Decides template c (Style.withImportant work) uses := by
  intro s hs
  rw [stops_withImportant, run_withImportant]
  obtain ⟨hnamed, hdecided⟩ := h { s with important := [] } hs
  cases hrun : work.run { s with important := [] } with
  | mk result s' =>
      rw [hrun] at hnamed hdecided
      cases result with
      | ok styles => exact ⟨hnamed, hdecided⟩
      | error f => exact ⟨hnamed, hdecided⟩

theorem report (d : Diagnostic) : plant.Decides template c (Work.report d) [] :=
  .of_silent fun _ hs => ⟨hs, rfl⟩

theorem inspection (selector verdict note : String) :
    plant.Decides template c (Work.trace (·.inspection selector verdict note)) [] :=
  .of_silent fun s hs => ⟨hs, Trace.decisions_inspection s.trace selector verdict note⟩

theorem mark (property : String) :
    plant.Decides template c (modify fun s => { s with important := s.important ++ [property] }) [] :=
  .of_silent fun _ hs => ⟨hs, rfl⟩

end Plant.Decides

theorem decides_report {kind : DiagnosticKind} {details : List (String × Data)} :
    plant.Decides template c (Building.report kind details) [] :=
  .of_silent fun _ hs => ⟨hs, rfl⟩

theorem decides_change {f : Component → Component}
    (h : ∀ c', (f c').name = c'.name ∧ (f c').styleKey = c'.styleKey ∧ (f c').location = c'.location) :
    plant.Decides template c (Building.change f) [] := by
  refine .of_silent fun s hs => ⟨?_, rfl⟩
  obtain ⟨hname, hkey, hlocation⟩ := h s.store.component
  exact ⟨hname.trans hs.1, hkey.trans hs.2.1, hlocation.trans hs.2.2⟩

/-! ## Deciding one slot -/

/-- A slot that is answered in the course of building has been decided. -/
theorem decides_resolveSlot (request : SlotRequest) {ahead : List SlotRequest}
    (hahead : ahead.all (plant.answers template c).gives = true) :
    plant.Decides template c (resolveSlot plant template request) [⟨request, ahead⟩] := by
  intro s hs
  have hnamed := (alike_slot plant template c request s { store := (), important := s.important }
    ⟨hs, rfl⟩).2.1
  refine ⟨hnamed, ?_⟩
  cases hslot : template.slot? request.index with
  | none =>
      have hrun : (resolveSlot plant template request).run s = (.ok .omit, s) := by
        unfold resolveSlot
        rw [hslot]
        rfl
      rw [hrun]
      refine .of_none rfl fun _ => ?_
      rw [Plant.due, requestsFor, List.map_eq_nil_iff, List.filter_eq_nil_iff]
      intro use huse
      rw [List.mem_singleton.mp (List.mem_of_mem_filter huse), Use.slot, hslot]
      nofun
  | some slot =>
      obtain ⟨d, hrun⟩ := run_resolveSlot plant template request hslot s
      have hdecide := (Interpolation.constant_decide plant.env (plant.classified slot request)
        (c.placeOf request)).run_fst_eq s.store.traces {}
      rw [hs.placeOf_eq] at hrun
      cases h : (Interpolation.decide plant.env (plant.classified slot request) (c.placeOf request)).run
          s.store.traces with
      | mk result traces =>
          rw [h] at hrun hdecide
          cases result with
          | error f =>
              -- a decision that fails is not entered, but then the work stops
              unfold Stops
              rw [hrun]
              exact .of_none rfl fun hended => absurd ⟨f, rfl⟩ hended
          | ok decision =>
              rw [hrun]
              have hindex : (plant.classified slot request).index = request.index :=
                Interpolation.index_classify _ _ _
              have hdue : plant.due template c [⟨request, ahead⟩] = [request] := by
                simp [Plant.due, requestsFor, Use.isClear, hahead, Use.slot, hslot]
              refine ⟨[request], _, s.trace.decisions_decision _ _ _ _,
                .cons ⟨slot, decision, hslot, hdecide.symm, ?_⟩ .nil, hdue ▸ List.prefix_rfl, fun _ => hdue.symm⟩
              rw [hs.1, hindex]

/-- In the course of building, a slot gets the answer fixed beforehand. -/
theorem slot_of_run {request : SlotRequest} {answer : SlotAnswer}
    (h : ∃ s, Named c s.store () ∧ ((resolveSlot plant template request).run s).1 = .ok answer) :
    (plant.answers template c).slot request = .ok answer := by
  obtain ⟨s, hs, hrun⟩ := h
  have hresult := (alike_slot plant template c request s { store := (), important := s.important } ⟨hs, rfl⟩).1
  rw [hrun, Answers.run_slot] at hresult
  exact hresult.symm

/-! ## Deciding the slots of a rule -/

variable (location : Option Location)

theorem decides_resolvePieces (base : SlotRequest) {ahead : List SlotRequest}
    (hahead : ahead.all (plant.answers template c).gives = true) (pieces : List Css.Slot.Piece) :
    plant.Decides template c (Style.resolvePieces (resolverFor plant template location) base pieces)
      (Style.pieceUses base ahead pieces) := by
  induction pieces generalizing ahead with
  | nil => exact .pure _
  | cons piece pieces ih =>
      cases piece with
      | text cs =>
          rw [Style.resolvePieces]
          exact (ih hahead).bind_silent fun _ => .pure _
      | slot index written =>
          rw [Style.resolvePieces]
          refine (decides_resolveSlot (base.at index written) hahead).bind fun answer hanswer => ?_
          -- an omitted slot ends the text, and the rest of it is not due then
          rcases answer with _ | ⟨value, other, styles⟩
          · exact .pure_of_isClear_eq_false _ (Style.isClear_of_omitted (slot_of_run hanswer))
          · refine (ih ?_).bind_silent fun _ => .pure _
            rw [List.all_append, hahead, List.all_cons, Answers.gives, slot_of_run hanswer]
            rfl

theorem decides_splice (text : String) (base : SlotRequest) :
    plant.Decides template c (Style.splice (resolverFor plant template location) text base)
      (Style.pieceUses base [] (Css.Slot.pieces text.toList)) := by
  refine (decides_resolvePieces location base rfl _).bind_silent fun parts => ?_
  cases parts with
  | none => exact .pure _
  | some parts =>
      dsimp only
      cases Style.joinParts parts <;> exact .pure _

theorem decides_addLonghand (base : SlotRequest) (obj : Object) (part : String × String) :
    plant.Decides template c (Style.addLonghand (resolverFor plant template location) base obj part)
      (Style.longhandUses base part) := by
  unfold Style.addLonghand Style.longhandUses
  split
  · refine (decides_splice location part.2 _).bind_silent fun value => ?_
    cases value <;> exact .pure _
  · exact .pure _

theorem decides_setDynamic (scope : Scope) (obj : Object) (property value : String) :
    plant.Decides template c (Style.setDynamic (resolverFor plant template location) scope obj property value)
      (Style.valueUses scope property value) := by
  unfold Style.setDynamic Style.valueUses
  split
  · refine (decides_resolveSlot (Style.wholeRequest scope property value) rfl).bind_silent fun answer => ?_
    rcases answer with _ | ⟨v, other, styles⟩ <;> exact .pure _
  · cases Style.expandShorthand property value with
    | some expansion =>
        dsimp only
        rw [Style.spliceLonghands_eq_foldlM]
        exact .foldlM (fun part _ obj => decides_addLonghand location _ obj part) obj
    | none =>
        refine (decides_splice location value (Style.partRequest scope property value)).bind_silent fun v => ?_
        cases v <;> exact .pure _

theorem decides_convertDeclaration (scope : Scope) (obj : Object) (d : Css.Declaration) :
    plant.Decides template c (Style.convertDeclaration (resolverFor plant template location) scope obj d)
      (Style.declarationUses scope d) := by
  cases hname : d.property.isEmpty with
  | true =>
      unfold Style.convertDeclaration Style.declarationUses
      rw [if_pos hname, if_pos hname]
      split
      · unfold Style.setBlock
        refine (decides_resolveSlot (Style.wholeRequest scope "" d.value) rfl).bind_silent fun answer => ?_
        rcases answer with _ | ⟨v, other, styles⟩ <;> exact .pure _
      · exact .pure _
  | false =>
      have hnamed : ¬ d.property.isEmpty = true := by simp [hname]
      unfold Style.declarationUses
      rw [if_neg hnamed]
      cases hfixed : Css.Slot.present d.property with
      | true =>
          unfold Style.convertDeclaration
          simp only [hname, hfixed, Bool.false_eq_true, if_false, if_true]
          exact Plant.Decides.bind_silent (.report _) fun _ => .pure _
      | false =>
          rw [Style.convertDeclaration_named hname hfixed, if_neg Bool.false_ne_true]
          refine Plant.Decides.silent_bind ?_ fun _ _ => ?_
          · split
            · exact .mark _
            · exact .pure _
          · unfold Style.setValue
            split
            · exact decides_setDynamic location scope obj _ _
            · exact .pure _

theorem decides_resolveSelector (index : Nat) :
    plant.Decides template c (resolveSelector plant template index) [] := by
  refine .of_silent fun s hs => ?_
  obtain ⟨text, hquiet⟩ := exists_quiet_resolveSelector plant template index
  obtain ⟨d, t, hrun⟩ := hquiet s
  rw [hrun]
  exact ⟨hs, rfl⟩

theorem decides_fillSelector (selector : String) (indices : List Nat) :
    plant.Decides template c (Style.fillSelector (resolverFor plant template location) selector indices) [] := by
  induction indices generalizing selector with
  | nil => exact .pure _
  | cons index indices ih =>
      refine (decides_resolveSelector index).bind_silent fun text => ?_
      cases text with
      | none => exact .pure _
      | some text => exact ih _

/-- In the course of building, a selector is filled with the answers fixed beforehand. -/
theorem fill_of_run {selector : String} {indices : List Nat} {filled : Option String}
    (h : ∃ s, Named c s.store () ∧
      ((Style.fillSelector (resolverFor plant template location) selector indices).run s).1 = .ok filled) :
    filled = (plant.answers template c).fill selector indices := by
  obtain ⟨s, hs, hrun⟩ := h
  have halike := (Style.alike_fillSelector (r := resolverFor plant template location)
    (alike_selector plant template c) selector indices s { store := (), important := s.important } ⟨hs, rfl⟩).1
  have hconstant : Work.Constant (Style.fillSelector (plant.answers template c).resolver selector indices) :=
    Style.alike_fillSelector (plant.answers template c).constant_selector selector indices
  rw [hrun, hconstant.run_fst, Answers.result_fillSelector] at halike
  exact Except.ok.inj halike

theorem decides_mergeBody (obj : Object) (path : List Style.Key) (body : Object) :
    plant.Decides template c (Style.mergeBody obj path body) [] := by
  unfold Style.mergeBody
  cases obj.mergeAt path body with
  | ok o => exact .pure _
  | error f => exact .throw f _

/-- A nested rule decides the slots of each of its blocks. -/
theorem decides_addNested (scope : Scope) (child : Css.Rule)
    (h : ∀ inner, plant.Decides template c (Style.convertRule (resolverFor plant template location) inner child)
      ((plant.answers template c).uses inner child)) (obj : Object) :
    plant.Decides template c (Style.addNested (resolverFor plant template location) scope obj child)
      (((plant.answers template c).blocksFor scope child).flatMap fun block =>
        (plant.answers template c).uses block.2.1 child) := by
  refine (decides_fillSelector location child.selector (Css.Slot.indices child.selector)).silent_bind
    fun filled hfilled => ?_
  have hfill := (fill_of_run location hfilled).symm
  cases filled with
  | none => exact .pure_of_isClear_eq_false _ (by simp [Answers.blocksFor, hfill])
  | some selector =>
      have hblocks : (plant.answers template c).blocksFor scope child =
          (Style.blocksOf scope selector).map fun block => (child, block) := by
        rw [Answers.blocksFor, hfill]
      rw [hblocks, List.flatMap_map, Style.addFilled]
      split
      · next hdrop =>
          have hnone : Style.blocksOf scope selector = [] := by
            simp only [Bool.and_eq_true, Option.isNone_iff_eq_none] at hdrop
            simp [Style.blocksOf, hdrop]
          rw [hnone]
          exact Plant.Decides.bind_silent (.inspection _ _ _) fun _ => .pure _
      · exact .foldlM (fun (block : Scope × List Style.Key) _ obj =>
          (h block.1).bind_silent fun body => decides_mergeBody obj block.2 body) obj

/-- A rule decides the slots of its uses. -/
theorem decides_convertRule (rule : Css.Rule) (scope : Scope) :
    plant.Decides template c (Style.convertRule (resolverFor plant template location) scope rule)
      ((plant.answers template c).uses scope rule) := by
  induction rule using Css.Rule.induction generalizing scope with
  | step rule ih =>
      obtain ⟨selector, declarations, nested, atRules⟩ := rule
      rw [Answers.uses_eq, Answers.blocks, List.flatMap_assoc, Style.convertRule]
      refine Plant.Decides.bind (.foldlM (fun d _ obj => decides_convertDeclaration location scope obj d) [])
        fun obj _ => ?_
      rw [Style.convertNested_eq_foldlM]
      refine .foldlM (fun child hchild obj => ?_) obj
      have hblocks := decides_addNested location scope child (fun inner => ih child hchild inner) obj
      rwa [List.flatMap_congr fun block hblock => by
        rw [← (plant.answers template c).fst_of_mem_blocksFor hblock]] at hblocks

/-- A style sheet decides the slots of its uses. -/
theorem decides_convert (rule : Css.Rule) :
    plant.Decides template c (Style.convert (resolverFor plant template location) rule)
      ((plant.answers template c).uses {} rule) := by
  refine (decides_convertRule location rule {}).bind_silent fun raw => ?_
  refine Plant.Decides.bind_silent (.forIn _ (fun place _ => ?_) _) fun _ => .pure _
  exact Plant.Decides.bind_silent (.report _) fun _ => .pure _

/-! ## Building a component -/

/-- A template decides the slots of its uses. -/
theorem decides_convertRead (parts : Module.TemplateParts) :
    plant.Decides template c (convertRead plant parts template)
      ((plant.answers template c).uses {} template.root) := by
  unfold convertRead
  refine Plant.Decides.silent_bind (.forIn _ (fun index _ => ?_) _) fun _ _ => ?_
  · exact Plant.Decides.bind_silent decides_report fun _ => .pure _
  refine Plant.Decides.silent_bind (.of_silent fun s hs => ⟨hs, rfl⟩) fun c' _ => ?_
  refine (decides_convert c'.location template.root).withImportant.bind_silent fun styles => ?_
  refine Plant.Decides.bind_silent (decides_change fun _ => ⟨rfl, rfl, rfl⟩) fun _ => ?_
  refine Plant.Decides.bind_silent (.forIn _ (fun property _ => ?_) _) fun _ => .pure _
  exact Plant.Decides.bind_silent (.inspection _ _ _) fun _ => .pure _

theorem decides_readAttributes (node : Node) : plant.Decides template c (readAttributes node) [] := by
  unfold readAttributes
  dsimp only
  split
  · exact decides_report
  · refine Plant.Decides.bind_silent (.forIn _ (fun entry _ => ?_) _) fun _ => .pure _
    obtain ⟨key, value⟩ := entry
    dsimp only
    split
    · exact Plant.Decides.bind_silent decides_report fun _ => .pure _
    · exact Plant.Decides.bind_silent (decides_change fun _ => ⟨rfl, rfl, rfl⟩) fun _ => .pure _

theorem decides_readConfig (node : Node) : plant.Decides template c (readConfig node) [] := by
  unfold readConfig
  split
  · exact .pure _
  · refine Plant.Decides.bind_silent (decides_change fun _ => ⟨rfl, rfl, rfl⟩) fun _ => ?_
    split
    · exact decides_report
    · exact decides_change fun _ => ⟨rfl, rfl, rfl⟩

theorem decides_forM_option {α : Type} (x : Option α) {f : α → Building PUnit}
    (h : ∀ a, plant.Decides template c (f a) []) : plant.Decides template c (x.forM f) [] := by
  cases x with
  | none => exact .pure _
  | some a => exact h a

/-- A component whose template is read decides the slots of its uses. -/
theorem decided_build? (d : Module.StyledDeclaration)
    (hread : Css.Template.read d.template.segments d.template.expressions = .ok template) (s : Session Workshop) :
    plant.Decided template (started d) ((plant.answers template (started d)).uses {} template.root)
      (¬ Stops (build? plant d) s) s.trace ((build? plant d).run s).2.trace := by
  unfold build?
  rw [run_starting, stops_starting]
  refine (Plant.Decides.bind_silent ?_ (fun styles? => ?_) _ (named_self (started d) _)).2
  · rw [convertTemplate?_eq, readTemplate?, hread]
    exact decides_convertRead d.template
  · cases styles? with
    | none => exact .pure _
    | some styles =>
        refine Plant.Decides.bind_silent (decides_change fun _ => ⟨rfl, rfl, rfl⟩) fun _ => ?_
        refine Plant.Decides.bind_silent (decides_forM_option _ decides_readAttributes) fun _ => ?_
        refine Plant.Decides.bind_silent (decides_forM_option _ decides_readConfig) fun _ => ?_
        refine Plant.Decides.bind_silent (decides_change fun _ => ⟨rfl, rfl, rfl⟩) fun _ => ?_
        exact Plant.Decides.bind_silent (.of_silent fun s hs => ⟨hs, rfl⟩) fun _ => .pure _

/-! ## Counting decisions -/

theorem countP_isAbout {asked : List SlotRequest} {entries : List (List (String × Data))}
    (h : List.Forall₂ (plant.Enters template c) asked entries) (slot : Nat) :
    entries.countP (Trace.isAbout slot) = asked.countP (·.index == slot) := by
  induction h with
  | nil => rfl
  | @cons request entry asked entries henters _ ih =>
      obtain ⟨placed, decision, -, -, rfl⟩ := henters
      have habout : Trace.isAbout slot [("component", .str c.name), ("index", .int request.index),
          ("tag", .str (plant.classified placed request).tag.text), ("action", .str decision.action)] =
          (request.index == slot) := by
        rw [Bool.eq_iff_iff]
        simp only [Trace.isAbout, Data.field?, List.find?, String.reduceBEq, Option.map_some, beq_iff_eq,
          Int.ofNat_inj]
      rw [List.countP_cons, List.countP_cons, ih, habout]

/-- If nothing is omitted ahead of it, a slot is due whenever it is requested. -/
theorem countP_due {slot : Nat} (hknown : (template.slot? slot).isSome = true)
    (hclear : ∀ use ∈ uses, use.slot = slot → use.isClear (plant.answers template c) = true) :
    (plant.due template c uses).countP (·.index == slot) = (uses.map Use.slot).count slot := by
  rw [Plant.due, requestsFor, List.countP_map, List.countP_filter, List.countP_filter, List.count,
    List.countP_map]
  refine List.countP_congr fun use huse => ?_
  simp only [Function.comp_apply, Bool.and_eq_true, beq_iff_eq]
  constructor
  · exact fun h => h.1.1
  · exact fun h => ⟨⟨h, by rw [h]; exact hknown⟩, hclear use huse h⟩

/-- A slot is decided at most once for each request for it that is due, and exactly so at the end. -/
theorem Plant.Decided.exists_times {ended : Prop} {before after : Trace}
    (h : plant.Decided template c uses ended before after) (slot : Nat) :
    ∃ n, after.timesDecided slot = before.timesDecided slot + n ∧
      n ≤ (plant.due template c uses).countP (·.index == slot) ∧
      (ended → n = (plant.due template c uses).countP (·.index == slot)) := by
  obtain ⟨asked, entries, htrace, henters, hprefix, hdue⟩ := h
  refine ⟨asked.countP (·.index == slot), ?_, hprefix.sublist.countP_le, fun hended => by rw [hdue hended]⟩
  rw [Trace.timesDecided, htrace, List.countP_append, countP_isAbout henters slot]
  rfl

theorem countP_due_le (uses : List Use) (slot : Nat) :
    (plant.due template c uses).countP (·.index == slot) ≤ (uses.map Use.slot).count slot := by
  rw [Plant.due, requestsFor, List.countP_map, List.count, List.countP_map]
  exact (List.filter_sublist.trans List.filter_sublist).countP_le

end

/--
Building a component decides the slots of its template once for each member of the groups of pseudo selectors
around them, so once where there is no such group.  A slot behind one that is omitted in the same text is not
decided there.
-/
structure Plant.DecidesPerMember (plant : Plant) (d : Module.StyledDeclaration) (template : Css.Template Node)
    (s : Session Workshop) : Prop where
  /-- The decisions are made in the order of the requests, each once, up to the place where the building stops. -/
  inOrder : plant.Decided template (started d) ((plant.answers template (started d)).uses {} template.root)
    (¬ Stops (build? plant d) s) s.trace ((build? plant d).run s).2.trace
  /-- A slot is decided as often as a request for it is due. -/
  exactly : ¬ Stops (build? plant d) s → ∀ slot, ((build? plant d).run s).2.trace.timesDecided slot =
    s.trace.timesDecided slot + (plant.due template (started d)
      ((plant.answers template (started d)).uses {} template.root)).countP (·.index == slot)
  /--
  That is once for each member of the groups around a declaration with the only mark of the slot, if no slot ahead
  of it is omitted.
  -/
  perMember : ∀ rule n, (plant.answers template (started d)).Repeats template.root rule n →
    ∀ live ∈ rule.declarations, ∀ slot ∈ live.liveSlots, template.root.slots.count slot = 1 →
      (template.slot? slot).isSome = true →
      (∀ use ∈ (plant.answers template (started d)).uses {} template.root,
        use.slot = slot → use.isClear (plant.answers template (started d)) = true) →
      (plant.due template (started d)
        ((plant.answers template (started d)).uses {} template.root)).countP (·.index == slot) = n
  /-- So it is decided exactly once if there are no groups. -/
  once : ¬ Stops (build? plant d) s → ∀ rule, (plant.answers template (started d)).Repeats template.root rule 1 →
    ∀ live ∈ rule.declarations, ∀ slot ∈ live.liveSlots, template.root.slots.count slot = 1 →
      (template.slot? slot).isSome = true →
      (∀ use ∈ (plant.answers template (started d)).uses {} template.root,
        use.slot = slot → use.isClear (plant.answers template (started d)) = true) →
      ((build? plant d).run s).2.trace.timesDecided slot = s.trace.timesDecided slot + 1
  /-- A slot that is live in no declaration is never decided. -/
  never : ∀ slot, (∀ rule ∈ template.root.walk, ∀ live ∈ rule.declarations, slot ∉ live.liveSlots) →
    ((build? plant d).run s).2.trace.timesDecided slot = s.trace.timesDecided slot
  /-- Neither is a slot in a comment. -/
  inComment : (∀ segment ∈ d.template.segments, Css.Slot.Plain segment.toList) →
    ∀ tokens, Css.tokenize (Css.Slot.join d.template.segments) = .ok tokens →
      ∀ slot, Css.InComment d.template.segments tokens slot →
        ((build? plant d).run s).2.trace.timesDecided slot = s.trace.timesDecided slot

section

variable {plant : Plant} {d : Module.StyledDeclaration} {template : Css.Template Node}

/-- A slot that no rule is asked for is not decided. -/
theorem timesDecided_of_not_visited
    (hread : Css.Template.read d.template.segments d.template.expressions = .ok template) (s : Session Workshop)
    {slot : Nat} (hslot : slot ∉ (plant.answers template (started d)).visits template.root) :
    ((build? plant d).run s).2.trace.timesDecided slot = s.trace.timesDecided slot := by
  obtain ⟨n, htimes, hle, -⟩ := (@decided_build? plant template d hread s).exists_times slot
  replace hle := Nat.le_trans hle (countP_due_le _ slot)
  rw [(plant.answers template (started d)).map_slot_uses, List.count_eq_zero.mpr hslot] at hle
  rw [htimes, Nat.le_zero.mp hle, Nat.add_zero]

/-- A slot with one mark is due as often as its rule is repeated, if no slot ahead of it is omitted. -/
theorem countP_due_of_repeats {rule : Css.Rule} {n : Nat}
    (hrepeats : (plant.answers template (started d)).Repeats template.root rule n) {live : Css.Declaration}
    (hlive : live ∈ rule.declarations) {slot : Nat} (hslot : slot ∈ live.liveSlots)
    (hone : template.root.slots.count slot = 1) (hknown : (template.slot? slot).isSome = true)
    (hclear : ∀ use ∈ (plant.answers template (started d)).uses {} template.root,
      use.slot = slot → use.isClear (plant.answers template (started d)) = true) :
    (plant.due template (started d)
      ((plant.answers template (started d)).uses {} template.root)).countP (·.index == slot) = n := by
  rw [countP_due hknown hclear, (plant.answers template (started d)).map_slot_uses]
  exact (plant.answers template (started d)).count_visits hrepeats hone hlive hslot

end

/-- A component whose template can be read decides its slots once for each member of the groups around them. -/
theorem decidesPerMember (plant : Plant) (d : Module.StyledDeclaration) {template : Css.Template Node}
    (hread : Css.Template.read d.template.segments d.template.expressions = .ok template) (s : Session Workshop) :
    plant.DecidesPerMember d template s := by
  have hdecided := @decided_build? plant template d hread s
  have hexactly : ¬ Stops (build? plant d) s → ∀ slot, ((build? plant d).run s).2.trace.timesDecided slot =
      s.trace.timesDecided slot + (plant.due template (started d)
        ((plant.answers template (started d)).uses {} template.root)).countP (·.index == slot) := by
    intro hended slot
    obtain ⟨n, htimes, -, heq⟩ := hdecided.exists_times slot
    rw [htimes, heq hended]
  constructor
  case inOrder => exact hdecided
  case exactly => exact hexactly
  case perMember =>
    intro rule n hrepeats live hlive slot hslot hone hknown hclear
    exact countP_due_of_repeats hrepeats hlive hslot hone hknown hclear
  case once =>
    intro hended rule hrepeats live hlive slot hslot hone hknown hclear
    rw [hexactly hended, countP_due_of_repeats hrepeats hlive hslot hone hknown hclear]
  case never =>
    intro slot hdead
    refine timesDecided_of_not_visited hread s fun hmem => ?_
    obtain ⟨rule, hrule, live, hlive, hslot⟩ := (plant.answers template (started d)).exists_of_mem_visits hmem
    exact hdead rule hrule live hlive hslot
  case inComment =>
    intro hplain tokens htokens slot hcomment
    refine timesDecided_of_not_visited hread s fun hmem => ?_
    obtain ⟨tokens', htokens', hroot, -⟩ := Css.Template.read_eq_ok hread
    cases htokens.symm.trans htokens'
    have hmark := (plant.answers template (started d)).visits_subset template.root hmem
    exact (((Css.slots_ruleOfTokens_iff hplain htokens hroot).2 slot).mp hmark).2 hcomment

/-- A box with a slot in a property name, one behind it, one below a group of two members, and one in a comment. -/
def groupedBox : Module.StyledDeclaration :=
  { name := "Box", base := "div", baseIsIntrinsic := true, location := ⟨1, 1⟩
    template := {
      segments := ["border-", ": ", "; &:hover, &:focus \x7b margin: ", "; /* ", " */ \x7d"]
      expressions := ["side", "wide", "gap", "note"].filterMap fun code => (Tsx.readExpression code).toOption }
    statement := { kind := .program, start := 0, stop := 0, text := "" } }

/-- A session at its start. -/
def fresh : Session Workshop :=
  { store := { component := started groupedBox } }

/-- The rule tree is asked for the slot in the group twice. -/
theorem read_groupedBox : ∃ template,
    Css.Template.read groupedBox.template.segments groupedBox.template.expressions = .ok template ∧
      (Plant.answers { env := {} } template (started groupedBox)).visits template.root = [2, 2] ∧
      ∃ group ∈ template.root.nested,
        (Plant.answers { env := {} } template (started groupedBox)).members group ≠ 0 ∧
        ∃ margin ∈ group.declarations,
          margin.property.isEmpty = false ∧ 2 ∈ Css.Slot.indices margin.value := by
  have hcheck : ((Css.Template.read groupedBox.template.segments groupedBox.template.expressions).toOption.any
      fun template =>
        decide ((Plant.answers { env := {} } template (started groupedBox)).visits template.root = [2, 2]) &&
        template.root.nested.any fun group =>
          decide ((Plant.answers { env := {} } template (started groupedBox)).members group ≠ 0) &&
            group.declarations.any fun margin =>
              decide (margin.property.isEmpty = false ∧ 2 ∈ Css.Slot.indices margin.value)) = true := by
    decide +kernel
  obtain ⟨template, hread, hcheck⟩ := exists_of_any_toOption hcheck
  obtain ⟨hvisits, hgroup⟩ := Bool.and_eq_true_iff.mp hcheck
  obtain ⟨group, hnested, hboth⟩ := List.any_eq_true.mp hgroup
  obtain ⟨hmembers, hmargin⟩ := Bool.and_eq_true_iff.mp hboth
  obtain ⟨margin, hdeclared, hslot⟩ := List.any_eq_true.mp hmargin
  exact ⟨template, hread, of_decide_eq_true hvisits, group, hnested, of_decide_eq_true hmembers, margin, hdeclared,
    of_decide_eq_true hslot⟩

/-- The box is built; the slot in the group is decided twice, and the one behind the property name not at all. -/
theorem run_groupedBox : ¬ Stops (build? { env := {} } groupedBox) fresh ∧
    ∀ slot ∈ [0, 1, 2, 3], ((build? { env := {} } groupedBox).run fresh).2.trace.timesDecided slot =
      [0, 0, 2, 0].getD slot 0 := by
  have hcheck : ((build? { env := {} } groupedBox).run fresh).1.toBool = true ∧
      ∀ slot ∈ [0, 1, 2, 3], ((build? { env := {} } groupedBox).run fresh).2.trace.timesDecided slot =
        [0, 0, 2, 0].getD slot 0 := by
    decide +kernel
  refine ⟨?_, hcheck.2⟩
  rintro ⟨f, hf⟩
  rw [hf] at hcheck
  cases hcheck.1

/-- The slot in the group is asked for once for each of the two members, and decided so. -/
theorem decidesPerMember_groupedBox : ∃ template,
    Css.Template.read groupedBox.template.segments groupedBox.template.expressions = .ok template ∧
      ¬ Stops (build? { env := {} } groupedBox) fresh ∧
      Plant.DecidesPerMember { env := {} } groupedBox template fresh ∧
      (Plant.answers { env := {} } template (started groupedBox)).visits template.root = [2, 2] := by
  obtain ⟨template, hread, hvisits, -⟩ := read_groupedBox
  exact ⟨template, hread, run_groupedBox.1, decidesPerMember { env := {} } groupedBox hread fresh, hvisits⟩

/--
Building a component decides every slot once that stands in the value of a declaration, or alone in block
position, of a rule that is not dropped.
-/
def Plant.DecidesOnce (plant : Plant) (d : Module.StyledDeclaration) (template : Css.Template Node)
    (s : Session Workshop) : Prop :=
  ∀ rule n, (plant.answers template (started d)).Repeats template.root rule n → n ≠ 0 →
    ∀ own ∈ rule.declarations, (own.property.isEmpty = true → own.isBlockSlot = true) →
      ∀ slot ∈ Css.Slot.indices own.value,
        ((build? plant d).run s).2.trace.timesDecided slot = s.trace.timesDecided slot + 1

/-- The slot in the group is decided twice, and the one behind a slot in a property name never. -/
theorem not_decidesOnce_groupedBox : ∃ template,
    Css.Template.read groupedBox.template.segments groupedBox.template.expressions = .ok template ∧
      ¬ Stops (build? { env := {} } groupedBox) fresh ∧
      ¬ Plant.DecidesOnce { env := {} } groupedBox template fresh ∧
      ((build? { env := {} } groupedBox).run fresh).2.trace.timesDecided 1 = 0 ∧
      ((build? { env := {} } groupedBox).run fresh).2.trace.timesDecided 2 = 2 := by
  obtain ⟨template, hread, -, group, hnested, hmembers, margin, hdeclared, hnamed, hslot⟩ := read_groupedBox
  obtain ⟨hended, htimes⟩ := run_groupedBox
  refine ⟨template, hread, hended, fun h => ?_, htimes 1 (by decide), htimes 2 (by decide)⟩
  have honce := h group _ (.nested .root hnested) (by rwa [Nat.one_mul]) margin hdeclared
    (fun hempty => absurd (hnamed.symm.trans hempty) Bool.false_ne_true) 2 hslot
  rw [htimes 2 (by decide)] at honce
  exact absurd honce (by decide)

end Component

end Restyle
