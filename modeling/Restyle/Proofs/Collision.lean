import Restyle.Proofs.Slots

/-!
# Collisions in a conversion

Raw selectors, the keys of conditions and the names of properties share one object while a rule is
converted, and a block is merged into the object at its key path.  A conversion breaks off where such a
path runs into a plain value, or where a slot itself has no answer.  With the answers to the slots fixed
beforehand, `Collides` says exactly when this happens.
-/

namespace Restyle.Style

open Work (Alike Constant Stops result)

/-! ## Merging along a path -/

/-- The path runs into a plain value where an object would have to be. -/
inductive Object.Blocked : Object → List Key → Object → Prop where
  | leaf {o : Object} {key : Key} {value : Value} {path : List Key} {source : Object} :
      o.get? key = some value → value.isObject = false → path ≠ [] ∨ source ≠ [] →
      Blocked o (key :: path) source
  | inside {o inner : Object} {key : Key} {path : List Key} {source : Object} :
      o.get? key = some (.obj inner) → Blocked inner path source → Blocked o (key :: path) source

theorem Object.not_blocked_nil (path : List Key) (source : Object) :
    ¬ Object.Blocked [] path source := by
  intro h
  cases h with
  | leaf hget => cases hget
  | inside hget => cases hget

theorem mergeIntoLeaf_error_iff (source : Object) :
    (∃ f, mergeIntoLeaf source = .error f) ↔ source ≠ [] := by
  cases source <;> simp [mergeIntoLeaf]

/-- An object on the path is changed in place. -/
theorem mergeAt_object {o inner : Object} {key : Key} (hget : o.get? key = some (.obj inner))
    (path : List Key) (source : Object) :
    o.mergeAt (key :: path) source =
      (inner.mergeAt path source).map fun changed => o.set key (.obj changed) := by
  rw [Object.mergeAt, hget]
  dsimp only
  cases inner.mergeAt path source <;> rfl

/-- A missing object on the path is created. -/
theorem mergeAt_missing {o : Object} {key : Key} (hget : o.get? key = none)
    (path : List Key) (source : Object) :
    o.mergeAt (key :: path) source =
      (Object.mergeAt [] path source).map fun made => o.set key (.obj made) := by
  rw [Object.mergeAt, hget]
  dsimp only
  cases Object.mergeAt [] path source <;> rfl

/-- A plain value on the path is no place to merge into. -/
theorem mergeAt_leaf {o : Object} {key : Key} {value : Value} (hget : o.get? key = some value)
    (hplain : value.isObject = false) (path : List Key) (source : Object) :
    o.mergeAt (key :: path) source =
      if path.isEmpty then (mergeIntoLeaf source).map fun _ => o else .error .lookupInLeaf := by
  rw [Object.mergeAt, hget]
  cases value with
  | obj inner => cases hplain
  | _ => cases mergeIntoLeaf source <;> rfl

theorem map_error_iff {ε α β : Type} (x : Except ε α) (g : α → β) :
    (∃ e, x.map g = .error e) ↔ ∃ e, x = .error e := by
  cases x <;> simp [Except.map]

/-- Merging along a path fails exactly when the path is blocked. -/
theorem mergeAt_error_iff (o : Object) (path : List Key) (source : Object) :
    (∃ f, o.mergeAt path source = .error f) ↔ o.Blocked path source := by
  induction path generalizing o with
  | nil =>
      constructor
      · rintro ⟨f, h⟩
        cases h
      · intro h
        cases h
  | cons key path ih =>
      cases hget : o.get? key with
      | none =>
          rw [mergeAt_missing hget, map_error_iff, ih]
          constructor
          · intro h
            exact absurd h (Object.not_blocked_nil _ _)
          · intro h
            cases h with
            | leaf hleaf => cases hget.symm.trans hleaf
            | inside hobj => cases hget.symm.trans hobj
      | some value =>
          cases hplain : value.isObject with
          | true =>
              obtain ⟨inner, rfl⟩ : ∃ inner, value = .obj inner := by
                cases value with
                | obj inner => exact ⟨inner, rfl⟩
                | _ => cases hplain
              rw [mergeAt_object hget, map_error_iff, ih]
              constructor
              · exact fun h => .inside hget h
              · intro h
                cases h with
                | leaf hleaf hplain' =>
                    cases hget.symm.trans hleaf
                    cases hplain'
                | inside hobj h =>
                    cases hget.symm.trans hobj
                    exact h
          | false =>
              rw [mergeAt_leaf hget hplain]
              have hblocked : o.Blocked (key :: path) source ↔ path ≠ [] ∨ source ≠ [] := by
                refine ⟨fun h => ?_, .leaf hget hplain⟩
                cases h with
                | leaf _ _ h => exact h
                | inside hobj =>
                    cases hget.symm.trans hobj
                    cases hplain
              rw [hblocked]
              cases path with
              | nil => simp [map_error_iff, mergeIntoLeaf_error_iff]
              | cons key' path => simp

/-! ## Answers fixed beforehand -/

/-- Answers to the slots of a template. -/
structure Answers where
  slot : SlotRequest → Except Fault SlotAnswer
  selector : Nat → Option String

namespace Answers

/-- The resolver that gives the answers and does nothing else. -/
def resolver (a : Answers) : Resolver Unit where
  slot request := Work.ofExcept (a.slot request)
  selector index := return a.selector index

/-- Whether a slot has a value or entries for its place. -/
def Given (a : Answers) (request : SlotRequest) : Prop :=
  ∃ value other styles, a.slot request = .ok (.given value other styles)

/-- Whether a slot breaks the conversion off. -/
def Faulty (a : Answers) (request : SlotRequest) : Prop :=
  ∃ f, a.slot request = .error f

/-- The object of the declarations of a rule. -/
def declarations (a : Answers) (scope : Scope) (ds : List Css.Declaration) : Except Fault Object :=
  result (ds.foldlM (convertDeclaration a.resolver scope) [])

/-- The object of a rule. -/
def rule (a : Answers) (scope : Scope) (rule : Css.Rule) : Except Fault Object :=
  result (convertRule a.resolver scope rule)

/-- A selector with its slots filled. -/
def fill (a : Answers) : String → List Nat → Option String
  | selector, [] => some selector
  | selector, index :: indices =>
    (a.selector index).bind fun text => a.fill (Css.Slot.fill selector index text) indices

/-- The blocks of one nested rule; there are none when its selector cannot be filled. -/
def blocksFor (a : Answers) (scope : Scope) (child : Css.Rule) :
    List (Css.Rule × Scope × List Key) :=
  match a.fill child.selector (Css.Slot.indices child.selector) with
  | none => []
  | some selector => (blocksOf scope selector).map fun block => (child, block)

/-- The blocks of nested rules, in the order in which they are merged. -/
def blocks (a : Answers) (scope : Scope) (nested : List Css.Rule) :
    List (Css.Rule × Scope × List Key) :=
  nested.flatMap (a.blocksFor scope)

/-- Merges a block into an object. -/
def add (a : Answers) (obj : Object) (block : Css.Rule × Scope × List Key) : Except Fault Object := do
  let body ← a.rule block.2.1 block.1
  obj.mergeAt block.2.2 body

variable (a : Answers)

theorem constant_slot (request : SlotRequest) : Constant (a.resolver.slot request) :=
  Alike.ofExcept _

theorem constant_selector (index : Nat) : Constant (a.resolver.selector index) :=
  Alike.pure _

theorem constant_convertRule (scope : Scope) (rule : Css.Rule) :
    Constant (convertRule a.resolver scope rule) :=
  alike_convertRule Work.oblivious_whatever a.constant_selector rule scope
    fun request _ => a.constant_slot request

theorem result_fillSelector (selector : String) (indices : List Nat) :
    result (fillSelector a.resolver selector indices) = .ok (a.fill selector indices) := by
  induction indices generalizing selector with
  | nil => rfl
  | cons index indices ih =>
      rw [fillSelector, fill]
      show result (pure (a.selector index) >>= _) = _
      rw [pure_bind]
      cases a.selector index with
      | none => rfl
      | some text => exact ih _

theorem result_mergeBody (obj : Object) (path : List Key) (body : Object) :
    result (mergeBody obj path body) = obj.mergeAt path body := by
  unfold mergeBody
  cases obj.mergeAt path body <;> rfl

theorem constant_convertBlocks (child : Css.Rule) (blocks : List (Scope × List Key))
    (obj : Object) : Constant (convertBlocks a.resolver child blocks obj) :=
  alike_convertBlocks child blocks (fun block _ => a.constant_convertRule block.1 child) obj

theorem constant_addNested (scope : Scope) (obj : Object) (child : Css.Rule) :
    Constant (addNested a.resolver scope obj child) :=
  alike_addNested Work.oblivious_whatever a.constant_selector scope child
    (fun _ block _ => a.constant_convertRule block.1 child) obj

theorem result_convertBlocks (child : Css.Rule) (blocks : List (Scope × List Key)) (obj : Object) :
    result (convertBlocks a.resolver child blocks obj) =
      (blocks.map fun block => (child, block)).foldlM a.add obj := by
  induction blocks generalizing obj with
  | nil => rfl
  | cons block blocks ih =>
      have hadd : result
          (convertRule a.resolver block.1 child >>= fun body => mergeBody obj block.2 body) =
            a.add obj (child, block) := by
        rw [Work.result_bind fun body => alike_mergeBody obj block.2 body]
        exact congrArg _ (funext fun body => result_mergeBody obj block.2 body)
      rw [convertBlocks_cons, List.map_cons, List.foldlM_cons,
        Work.result_bind fun obj => a.constant_convertBlocks child blocks obj, hadd]
      exact congrArg _ (funext ih)

theorem result_addNested (scope : Scope) (obj : Object) (child : Css.Rule) :
    result (addNested a.resolver scope obj child) =
      (a.blocksFor scope child).foldlM a.add obj := by
  have hfilled (filled : Option String) : Constant (addFilled a.resolver scope child obj filled) :=
    alike_addFilled Work.oblivious_whatever scope child
      (fun _ block _ => a.constant_convertRule block.1 child) obj filled
  unfold addNested blocksFor
  rw [Work.result_bind hfilled, a.result_fillSelector]
  cases a.fill child.selector (Css.Slot.indices child.selector) with
  | none => rfl
  | some selector =>
      show result (addFilled a.resolver scope child obj (some selector)) = _
      unfold addFilled
      by_cases hdrop : (Css.isAtRule selector && (nestedPaths? selector).isNone) = true
      · have hnone : blocksOf scope selector = [] := by
          simp only [Bool.and_eq_true, Option.isNone_iff_eq_none] at hdrop
          simp [blocksOf, hdrop]
        simp only [hdrop, if_true, hnone]
        rfl
      · simp only [hdrop, Bool.false_eq_true, if_false]
        exact a.result_convertBlocks child _ obj

theorem result_addAll (scope : Scope) (rules : List Css.Rule) (obj : Object) :
    result (rules.foldlM (addNested a.resolver scope) obj) =
      (a.blocks scope rules).foldlM a.add obj := by
  induction rules generalizing obj with
  | nil => rfl
  | cons child rest ih =>
      have hrest (obj : Object) : Constant (rest.foldlM (addNested a.resolver scope) obj) :=
        Alike.foldlM rest (fun child _ obj => a.constant_addNested scope obj child) obj
      rw [List.foldlM_cons, Work.result_bind hrest, a.result_addNested, blocks, List.flatMap_cons,
        List.foldlM_append]
      exact congrArg _ (funext ih)

/-- The blocks are merged into the object of the declarations, one after the other. -/
theorem rule_eq (scope : Scope) (rule : Css.Rule) :
    a.rule scope rule =
      a.declarations scope rule.declarations >>= (a.blocks scope rule.nested).foldlM a.add := by
  obtain ⟨selector, declarations, nested, atRules⟩ := rule
  have hnested (obj : Object) : Constant (convertNested a.resolver scope obj nested) := by
    rw [convertNested_eq_foldlM]
    exact Alike.foldlM nested (fun child _ obj => a.constant_addNested scope obj child) obj
  unfold Answers.rule
  rw [convertRule, Work.result_bind hnested]
  refine congrArg _ (funext fun obj => ?_)
  rw [convertNested_eq_foldlM, a.result_addAll]

/-! ## Declarations -/

theorem stops_slot {request : SlotRequest} {s : Session Unit} :
    Stops (a.resolver.slot request) s ↔ a.Faulty request :=
  Work.stops_ofExcept

theorem run_slot (request : SlotRequest) (s : Session Unit) :
    (a.resolver.slot request).run s = (a.slot request, s) :=
  Work.run_ofExcept _ s

theorem stops_resolvePieces (base : SlotRequest) (pieces : List Css.Slot.Piece)
    (s : Session Unit) :
    Stops (resolvePieces a.resolver base pieces) s ↔
      ∃ request, AsksPiece a.Given base pieces request ∧ a.Faulty request := by
  induction pieces generalizing s with
  | nil =>
      constructor
      · rintro ⟨f, h⟩
        cases h
      · rintro ⟨request, h, -⟩
        cases h
  | cons piece pieces ih =>
      cases piece with
      | text cs =>
          rw [resolvePieces, Work.stops_bind, ih]
          constructor
          · rintro (⟨request, h, hf⟩ | ⟨_, _, -, h⟩)
            · exact ⟨request, .afterText h, hf⟩
            · exact absurd h (Work.not_stops_pure _ _)
          · rintro ⟨request, h, hf⟩
            cases h with
            | afterText h => exact .inl ⟨request, h, hf⟩
      | slot index written =>
          rw [resolvePieces]
          show Stops (a.resolver.slot (base.at index written) >>= _) s ↔ _
          cases hslot : a.slot (base.at index written) with
          | error f =>
              have hstop : Stops (a.resolver.slot (base.at index written)) s :=
                a.stops_slot.mpr ⟨f, hslot⟩
              refine ⟨fun _ => ⟨_, .slot, f, hslot⟩, fun _ => Work.stops_bind.mpr (.inl hstop)⟩
          | ok answer =>
              have hrun : (a.resolver.slot (base.at index written)).run s = (.ok answer, s) := by
                rw [run_slot, hslot]
              have hsound : ¬ a.Faulty (base.at index written) := by
                rintro ⟨f, hf⟩
                cases hslot.symm.trans hf
              rw [Work.stops_bind_ok hrun]
              rcases answer with _ | ⟨value, other, styles⟩
              · constructor
                · exact fun h => absurd h (Work.not_stops_pure _ _)
                · rintro ⟨request, h, hf⟩
                  cases h with
                  | slot => exact absurd hf hsound
                  | afterSlot hgiven =>
                      obtain ⟨_, _, _, hgiven⟩ := hgiven
                      cases hslot.symm.trans hgiven
              · show Stops (resolvePieces a.resolver base pieces >>= _) s ↔ _
                rw [Work.stops_bind, ih]
                constructor
                · rintro (⟨request, h, hf⟩ | ⟨_, _, -, h⟩)
                  · exact ⟨request, .afterSlot ⟨value, other, styles, hslot⟩ h, hf⟩
                  · exact absurd h (Work.not_stops_pure _ _)
                · rintro ⟨request, h, hf⟩
                  cases h with
                  | slot => exact absurd hf hsound
                  | afterSlot _ h => exact .inl ⟨request, h, hf⟩

theorem stops_splice (text : String) (base : SlotRequest) (s : Session Unit) :
    Stops (splice a.resolver text base) s ↔
      ∃ request, AsksPiece a.Given base (Css.Slot.pieces text.toList) request ∧
        a.Faulty request := by
  unfold splice
  rw [Work.stops_bind, a.stops_resolvePieces]
  refine or_iff_left ?_
  rintro ⟨parts, s', -, h⟩
  cases parts with
  | none => exact Work.not_stops_pure _ _ h
  | some parts =>
      dsimp only at h
      split at h <;> exact Work.not_stops_pure _ _ h

theorem stops_addLonghand (base : SlotRequest) (obj : Object) (part : String × String)
    (s : Session Unit) :
    Stops (addLonghand a.resolver base obj part) s ↔
      Css.Slot.present part.2 = true ∧
        ∃ request, AsksPiece a.Given { base with property := part.1, value := part.2 }
          (Css.Slot.pieces part.2.toList) request ∧ a.Faulty request := by
  unfold addLonghand
  by_cases hslot : Css.Slot.present part.2 = true
  · simp only [hslot, if_true, true_and]
    rw [Work.stops_bind, a.stops_splice]
    refine or_iff_left ?_
    rintro ⟨value, s', -, h⟩
    cases value <;> exact Work.not_stops_pure _ _ h
  · simp only [hslot, Bool.false_eq_true, if_false, false_and, iff_false]
    exact Work.not_stops_pure _ _

theorem stops_setDynamic (scope : Scope) (obj : Object) (property value : String)
    (s : Session Unit) :
    Stops (setDynamic a.resolver scope obj property value) s ↔
      (Css.Slot.isWhole value = true ∧ a.Faulty (wholeRequest scope property value)) ∨
      (Css.Slot.isWhole value = false ∧
        ((expandShorthand property value = none ∧
          ∃ request, AsksPiece a.Given (partRequest scope property value)
            (Css.Slot.pieces value.toList) request ∧ a.Faulty request) ∨
        ∃ expansion, expandShorthand property value = some expansion ∧
          ∃ part ∈ expansion, Css.Slot.present part.2 = true ∧
            ∃ request, AsksPiece a.Given
              { partRequest scope property value with property := part.1, value := part.2 }
              (Css.Slot.pieces part.2.toList) request ∧ a.Faulty request)) := by
  unfold setDynamic
  by_cases hw : Css.Slot.isWhole value = true
  · simp only [hw, if_true, true_and, Bool.true_eq_false, false_and, or_false]
    show Stops (a.resolver.slot (wholeRequest scope property value) >>= _) s ↔ _
    rw [Work.stops_bind, a.stops_slot]
    refine or_iff_left ?_
    rintro ⟨answer, s', -, h⟩
    rcases answer with _ | ⟨v, other, styles⟩ <;> exact Work.not_stops_pure _ _ h
  · simp only [hw, Bool.false_eq_true, if_false, false_and, false_or, true_and]
    cases hexp : expandShorthand property value with
    | some expansion =>
        simp only [reduceCtorEq, false_and, false_or, Option.some.injEq, exists_eq_left']
        rw [spliceLonghands_eq_foldlM]
        exact Work.stops_foldlM_iff (fun part _ obj s => a.stops_addLonghand _ obj part s) obj s
    | none =>
        simp only [true_and, reduceCtorEq, false_and, exists_false, or_false]
        show Stops (splice a.resolver value (partRequest scope property value) >>= _) s ↔ _
        rw [Work.stops_bind, a.stops_splice]
        refine or_iff_left ?_
        rintro ⟨v, s', -, h⟩
        cases v <;> exact Work.not_stops_pure _ _ h

theorem stops_setBlock (scope : Scope) (obj : Object) (value : String) (s : Session Unit) :
    Stops (setBlock a.resolver scope obj value) s ↔ a.Faulty (wholeRequest scope "" value) := by
  unfold setBlock
  show Stops (a.resolver.slot (wholeRequest scope "" value) >>= _) s ↔ _
  rw [Work.stops_bind, a.stops_slot]
  refine or_iff_left ?_
  rintro ⟨answer, s', -, h⟩
  rcases answer with _ | ⟨v, other, styles⟩ <;> exact Work.not_stops_pure _ _ h

theorem stops_setValue {scope : Scope} {d : Css.Declaration} (hname : d.property.isEmpty = false)
    (hfixed : Css.Slot.present d.property = false) (obj : Object) (s : Session Unit) :
    Stops (setValue a.resolver scope obj (camelCase d.property) (stripImportant d.value).1) s ↔
      ∃ request, Asks a.Given scope d request ∧ a.Faulty request := by
  unfold setValue
  by_cases hslots : Css.Slot.present (stripImportant d.value).1 = true
  · have hd : HasSlots d (camelCase d.property) (stripImportant d.value).1 :=
      ⟨hname, hfixed, rfl, rfl, hslots⟩
    simp only [hslots, if_true]
    rw [a.stops_setDynamic]
    constructor
    · rintro (⟨hw, hf⟩ | ⟨hw, ⟨he, request, hr, hf⟩ | ⟨expansion, he, part, hm, ht, request, hr, hf⟩⟩)
      · exact ⟨_, .whole hd hw, hf⟩
      · exact ⟨request, .part hd hw he hr, hf⟩
      · exact ⟨request, .longhand hd hw he hm ht hr, hf⟩
    · rintro ⟨request, hasks, hf⟩
      cases hasks with
      | block hempty => cases hname.symm.trans hempty
      | whole hd' hw =>
          obtain rfl := hd'.property_eq.symm
          obtain rfl := hd'.value_eq.symm
          exact .inl ⟨hw, hf⟩
      | part hd' hw he hr =>
          obtain rfl := hd'.property_eq.symm
          obtain rfl := hd'.value_eq.symm
          exact .inr ⟨hw, .inl ⟨he, request, hr, hf⟩⟩
      | longhand hd' hw he hm ht hr =>
          obtain rfl := hd'.property_eq.symm
          obtain rfl := hd'.value_eq.symm
          exact .inr ⟨hw, .inr ⟨_, he, _, hm, ht, request, hr, hf⟩⟩
  · simp only [hslots, Bool.false_eq_true, if_false]
    refine iff_of_false (Work.not_stops_pure _ _) ?_
    rintro ⟨request, hasks, -⟩
    cases hasks with
    | block hempty => cases hname.symm.trans hempty
    | whole hd => exact hslots (hd.value_eq ▸ hd.slots)
    | part hd => exact hslots (hd.value_eq ▸ hd.slots)
    | longhand hd => exact hslots (hd.value_eq ▸ hd.slots)

/-- A declaration breaks the conversion off exactly when it asks for a faulty slot. -/
theorem stops_convertDeclaration (scope : Scope) (obj : Object) (d : Css.Declaration)
    (s : Session Unit) :
    Stops (convertDeclaration a.resolver scope obj d) s ↔
      ∃ request, Asks a.Given scope d request ∧ a.Faulty request := by
  cases hname : d.property.isEmpty with
  | true =>
      have hasks (request : SlotRequest) : Asks a.Given scope d request ↔
          d.isBlockSlot = true ∧ request = wholeRequest scope "" d.value := by
        constructor
        · intro h
          cases h with
          | block _ hblock => exact ⟨hblock, rfl⟩
          | whole hd => cases hname.symm.trans hd.named
          | part hd => cases hname.symm.trans hd.named
          | longhand hd => cases hname.symm.trans hd.named
        · rintro ⟨hblock, rfl⟩
          exact .block hname hblock
      unfold convertDeclaration
      by_cases hblock : d.isBlockSlot = true
      · simp [hname, hblock, hasks, stops_setBlock]
      · simp [hname, hblock, hasks]
  | false =>
      cases hfixed : Css.Slot.present d.property with
      | true =>
          have hasks (request : SlotRequest) : ¬ Asks a.Given scope d request := by
            intro h
            cases h with
            | block hempty => cases hname.symm.trans hempty
            | whole hd => cases hfixed.symm.trans hd.fixedName
            | part hd => cases hfixed.symm.trans hd.fixedName
            | longhand hd => cases hfixed.symm.trans hd.fixedName
          unfold convertDeclaration
          simp only [hname, hfixed, Bool.false_eq_true, if_false, if_true, hasks, false_and,
            exists_false, iff_false]
          rintro ⟨f, h⟩
          cases h
      | false =>
          obtain ⟨s', hmark⟩ : ∃ s', (if (stripImportant d.value).2 then
              modify fun s => { s with important := s.important ++ [camelCase d.property] }
            else pure () : Work Unit Unit).run s = (.ok (), s') := by
            split <;> exact ⟨_, rfl⟩
          rw [convertDeclaration_named hname hfixed, Work.stops_bind_ok hmark]
          exact a.stops_setValue hname hfixed obj s'

theorem constant_declarations (scope : Scope) (ds : List Css.Declaration) (obj : Object) :
    Constant (ds.foldlM (convertDeclaration a.resolver scope) obj) :=
  Alike.foldlM ds (fun d _ obj => alike_convertDeclaration Work.oblivious_whatever scope d
    (fun request _ => a.constant_slot request) obj) obj

theorem declarations_error_iff (scope : Scope) (ds : List Css.Declaration) :
    (∃ f, a.declarations scope ds = .error f) ↔
      ∃ d ∈ ds, ∃ request, Asks a.Given scope d request ∧ a.Faulty request := by
  rw [declarations, ← (a.constant_declarations scope ds []).stops_iff { store := () }]
  exact Work.stops_foldlM_iff (fun d _ obj s => a.stops_convertDeclaration scope obj d s) [] _

/-! ## Rules -/

/-- A rule cannot be converted in a scope. -/
inductive Collides (a : Answers) : Scope → Css.Rule → Prop where
  /-- A declaration asks for a slot that breaks the conversion off. -/
  | slot {scope : Scope} {rule : Css.Rule} {d : Css.Declaration} {request : SlotRequest} :
      d ∈ rule.declarations → Asks a.Given scope d request → a.Faulty request →
      Collides a scope rule
  /-- A block of the rule cannot be converted. -/
  | inner {scope inner : Scope} {rule child : Css.Rule} {path : List Key} :
      (child, inner, path) ∈ a.blocks scope rule.nested → Collides a inner child →
      Collides a scope rule
  /-- The path of a block runs into a plain value of what has been put together so far. -/
  | blocked {scope inner : Scope} {rule child : Css.Rule} {path : List Key} {start obj body : Object}
      {before after : List (Css.Rule × Scope × List Key)} :
      a.blocks scope rule.nested = before ++ (child, inner, path) :: after →
      a.declarations scope rule.declarations = .ok start → before.foldlM a.add start = .ok obj →
      a.rule inner child = .ok body → obj.Blocked path body → Collides a scope rule

theorem add_error_iff (obj : Object) (child : Css.Rule) (inner : Scope) (path : List Key) :
    (∃ f, a.add obj (child, inner, path) = .error f) ↔
      (∃ f, a.rule inner child = .error f) ∨
        ∃ body, a.rule inner child = .ok body ∧ obj.Blocked path body := by
  unfold add
  cases h : a.rule inner child with
  | error f => simp [bind, Except.bind]
  | ok body =>
      simp only [reduceCtorEq, exists_false, false_or, Except.ok.injEq, exists_eq_left']
      exact mergeAt_error_iff obj path body

theorem mem_nested_of_mem_blocks {scope : Scope} {nested : List Css.Rule} {child : Css.Rule}
    {block : Scope × List Key} (h : (child, block) ∈ a.blocks scope nested) : child ∈ nested := by
  obtain ⟨child', hmem, hblock⟩ := List.mem_flatMap.mp h
  unfold blocksFor at hblock
  cases hfill : a.fill child'.selector (Css.Slot.indices child'.selector) with
  | none => simp [hfill] at hblock
  | some selector =>
      rw [hfill] at hblock
      obtain ⟨block', -, heq⟩ := List.mem_map.mp hblock
      cases heq
      exact hmem

/-- A rule fails to convert exactly when it collides. -/
theorem rule_error_iff (rule : Css.Rule) (scope : Scope) :
    (∃ f, a.rule scope rule = .error f) ↔ a.Collides scope rule := by
  induction rule using Css.Rule.induction generalizing scope with
  | step rule ih =>
      have hdecls := a.declarations_error_iff scope rule.declarations
      rw [a.rule_eq]
      cases hstart : a.declarations scope rule.declarations with
      | error f =>
          obtain ⟨d, hd, request, hasks, hf⟩ := hdecls.mp ⟨f, hstart⟩
          exact iff_of_true ⟨f, rfl⟩ (.slot hd hasks hf)
      | ok start =>
          show (∃ f, (a.blocks scope rule.nested).foldlM a.add start = .error f) ↔ _
          constructor
          · intro h
            obtain ⟨before, ⟨child, inner, path⟩, after, obj, hblocks, hobj, hadd⟩ :=
              foldlM_error_iff.mp h
            have hmem : (child, inner, path) ∈ a.blocks scope rule.nested := by
              rw [hblocks]
              exact List.mem_append_right before List.mem_cons_self
            rcases (a.add_error_iff obj child inner path).mp hadd with hrule | ⟨body, hbody, hblocked⟩
            · exact .inner hmem ((ih child (a.mem_nested_of_mem_blocks hmem) inner).mp hrule)
            · exact .blocked hblocks hstart hobj hbody hblocked
          · intro h
            cases h with
            | slot hd hasks hf =>
                obtain ⟨f, hf⟩ := hdecls.mpr ⟨_, hd, _, hasks, hf⟩
                cases hstart.symm.trans hf
            | @inner _ inner _ child path hmem hcollides =>
                have hrule := (ih child (a.mem_nested_of_mem_blocks hmem) inner).mpr hcollides
                obtain ⟨before, after, hblocks⟩ := List.append_of_mem hmem
                rw [hblocks, List.foldlM_append]
                -- Either the blocks before this one fail already, or this one does.
                cases before.foldlM a.add start with
                | error f => exact ⟨f, rfl⟩
                | ok obj =>
                    obtain ⟨f, hf⟩ := (a.add_error_iff obj child inner path).mpr (.inl hrule)
                    exact ⟨f, by simp [bind, Except.bind, hf]⟩
            | blocked hblocks hstart' hobj hbody hblocked =>
                cases hstart.symm.trans hstart'
                exact foldlM_error_iff.mpr ⟨_, _, _, _, hblocks, hobj,
                  (a.add_error_iff _ _ _ _).mpr (.inr ⟨_, hbody, hblocked⟩)⟩

end Answers

end Restyle.Style
