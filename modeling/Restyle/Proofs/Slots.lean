import Restyle.Proofs.Work
import Restyle.Style.Converter

/-!
# The slots that a conversion asks for

A conversion turns to its resolver for the slots of the declarations it meets, each with the scope that
the blocks around the declaration make up.  `Placed` says which requests these are.  Two resolvers that
treat the placed requests alike make conversions that run alike.
-/

namespace Restyle.Css

/-- What holds of a rule as soon as it holds of the rules directly below it holds of all rules. -/
theorem Rule.induction {P : Rule → Prop}
    (step : ∀ rule : Rule, (∀ child ∈ rule.nested, P child) → P rule) : ∀ rule, P rule :=
  fun rule => @Rule.rec P (fun rules => ∀ child ∈ rules, P child)
    (fun selector declarations nested atRules ih => step ⟨selector, declarations, nested, atRules⟩ ih)
    (fun _ h => nomatch h)
    (fun _ _ hrule hrules child hchild => by
      rcases List.mem_cons.mp hchild with rfl | hchild
      · exact hrule
      · exact hrules child hchild)
    rule

end Restyle.Css

namespace Restyle.Style

variable {τ σ α : Type}

/-! ## Requests -/

/-- The request for one of several slots in a value. -/
def SlotRequest.at (base : SlotRequest) (index : Nat) (written : List Char) : SlotRequest :=
  let tokenIndex := tokenIndexOf base.tokens (String.ofList written)
  { base with index, token := base.tokens[tokenIndex]?.getD "", tokenIndex }

/-- The request for a slot that is all of a value, or stands in block position. -/
def wholeRequest (scope : Scope) (property value : String) : SlotRequest :=
  { index := (Css.Slot.indices value).headD 0, property, value, token := value, tokens := [value]
    isFullValue := true, scope }

/-- What the requests for the slots inside of a value have in common. -/
def partRequest (scope : Scope) (property value : String) : SlotRequest :=
  { index := 0, property, value, token := "", tokens := Css.valueTokens value, scope }

/-- The requests for the pieces of a value; after a slot without an answer there are none. -/
inductive AsksPiece (answered : SlotRequest → Prop) (base : SlotRequest) :
    List Css.Slot.Piece → SlotRequest → Prop where
  | slot {index : Nat} {written : List Char} {pieces : List Css.Slot.Piece} :
      AsksPiece answered base (.slot index written :: pieces) (base.at index written)
  | afterText {cs : List Char} {pieces : List Css.Slot.Piece} {request : SlotRequest} :
      AsksPiece answered base pieces request →
      AsksPiece answered base (.text cs :: pieces) request
  | afterSlot {index : Nat} {written : List Char} {pieces : List Css.Slot.Piece}
      {request : SlotRequest} :
      answered (base.at index written) → AsksPiece answered base pieces request →
      AsksPiece answered base (.slot index written :: pieces) request

/-- A declaration gives a property a value that holds slots. -/
structure HasSlots (d : Css.Declaration) (property value : String) : Prop where
  named : d.property.isEmpty = false
  fixedName : Css.Slot.present d.property = false
  property_eq : property = camelCase d.property
  value_eq : value = (stripImportant d.value).1
  slots : Css.Slot.present value = true

/-- The requests for the slots of a declaration. -/
inductive Asks (answered : SlotRequest → Prop) (scope : Scope) (d : Css.Declaration) :
    SlotRequest → Prop where
  | block : d.property.isEmpty = true → d.isBlockSlot = true →
      Asks answered scope d (wholeRequest scope "" d.value)
  | whole {property value : String} : HasSlots d property value → Css.Slot.isWhole value = true →
      Asks answered scope d (wholeRequest scope property value)
  | part {property value : String} {request : SlotRequest} :
      HasSlots d property value → Css.Slot.isWhole value = false →
      expandShorthand property value = none →
      AsksPiece answered (partRequest scope property value) (Css.Slot.pieces value.toList) request →
      Asks answered scope d request
  | longhand {property value : String} {expansion : Expansion} {part : String × String}
      {request : SlotRequest} :
      HasSlots d property value → Css.Slot.isWhole value = false →
      expandShorthand property value = some expansion → part ∈ expansion →
      Css.Slot.present part.2 = true →
      AsksPiece answered { partRequest scope property value with property := part.1, value := part.2 }
        (Css.Slot.pieces part.2.toList) request →
      Asks answered scope d request

/-- The blocks that a nested rule with a given selector makes: their scopes and key paths. -/
def blocksOf (scope : Scope) (selector : String) : List (Scope × List Key) :=
  match nestedPaths? selector with
  | some paths => paths.map fun path => (scope.enter path, path.map Key.name)
  | none => if Css.isAtRule selector then [] else [({ selector := selector }, [.name selector])]

/-- The requests for the slots of a rule in a scope and of all rules below it. -/
inductive Placed : Scope → Css.Rule → SlotRequest → Prop where
  | own {scope : Scope} {rule : Css.Rule} {d : Css.Declaration} {request : SlotRequest} :
      d ∈ rule.declarations → Asks (fun _ => True) scope d request → Placed scope rule request
  | nested {scope inner : Scope} {rule child : Css.Rule} {selector : String} {path : List Key}
      {request : SlotRequest} :
      child ∈ rule.nested → (inner, path) ∈ blocksOf scope selector → Placed inner child request →
      Placed scope rule request

/-! ## Resolvers that answer alike -/

section

variable {R : Session τ → Session σ → Prop} {r : Resolver τ} {q : Resolver σ}

open Work (Alike Oblivious)

theorem alike_resolvePieces (base : SlotRequest) (pieces : List Css.Slot.Piece)
    (h : ∀ request, AsksPiece (fun _ => True) base pieces request →
      Alike R (r.slot request) (q.slot request)) :
    Alike R (resolvePieces r base pieces) (resolvePieces q base pieces) := by
  induction pieces with
  | nil => exact .pure _
  | cons piece pieces ih =>
      cases piece with
      | text cs =>
          rw [resolvePieces, resolvePieces]
          exact (ih fun request hr => h request (.afterText hr)).bind fun _ => .pure _
      | slot index written =>
          rw [resolvePieces, resolvePieces]
          refine (h (base.at index written) .slot).bind fun answer => ?_
          rcases answer with _ | ⟨value, other, styles⟩
          · exact .pure _
          · exact (ih fun request hr => h request (.afterSlot trivial hr)).bind fun _ => .pure _

theorem alike_splice (text : String) (base : SlotRequest)
    (h : ∀ request, AsksPiece (fun _ => True) base (Css.Slot.pieces text.toList) request →
      Alike R (r.slot request) (q.slot request)) :
    Alike R (splice r text base) (splice q text base) := by
  refine (alike_resolvePieces base _ h).bind fun parts => ?_
  cases parts with
  | none => exact .pure _
  | some parts =>
      dsimp only
      cases joinParts parts <;> exact .pure _

/-- Adds one longhand of a shorthand that holds slots. -/
def addLonghand (r : Resolver τ) (base : SlotRequest) (obj : Object) (part : String × String) :
    Work τ Object :=
  if Css.Slot.present part.2 then do
    match ← splice r part.2 { base with property := part.1, value := part.2 } with
    | some v => return obj.set (.name part.1) v
    | none => return obj
  else return obj.set (.name part.1) (normalizeValue part.1 part.2)

/-- Longhands are added one after the other. -/
theorem spliceLonghands_eq_foldlM (r : Resolver τ) (base : SlotRequest) (expansion : Expansion)
    (obj : Object) : spliceLonghands r base obj expansion = expansion.foldlM (addLonghand r base) obj := by
  induction expansion generalizing obj with
  | nil => rfl
  | cons part rest ih =>
      obtain ⟨longhand, token⟩ := part
      rw [spliceLonghands, List.foldlM_cons, addLonghand]
      by_cases hslot : Css.Slot.present token = true
      · simp only [hslot, if_true, bind_assoc]
        refine congrArg _ (funext fun value => ?_)
        cases value <;> simp [ih]
      · simp only [hslot, Bool.false_eq_true, if_false, pure_bind, ih]

theorem alike_spliceLonghands (base : SlotRequest) (expansion : Expansion)
    (h : ∀ part ∈ expansion, Css.Slot.present part.2 = true → ∀ request,
      AsksPiece (fun _ => True) { base with property := part.1, value := part.2 }
        (Css.Slot.pieces part.2.toList) request → Alike R (r.slot request) (q.slot request))
    (obj : Object) :
    Alike R (spliceLonghands r base obj expansion) (spliceLonghands q base obj expansion) := by
  rw [spliceLonghands_eq_foldlM, spliceLonghands_eq_foldlM]
  refine .foldlM _ (fun part hpart obj => ?_) obj
  unfold addLonghand
  by_cases hslot : Css.Slot.present part.2 = true
  · simp only [hslot, if_true]
    refine (alike_splice part.2 _ (h part hpart hslot)).bind fun value => ?_
    cases value <;> exact .pure _
  · simp only [hslot, Bool.false_eq_true, if_false]
    exact .pure _

theorem alike_setDynamic (scope : Scope) (property value : String)
    (hwhole : Css.Slot.isWhole value = true →
      Alike R (r.slot (wholeRequest scope property value)) (q.slot (wholeRequest scope property value)))
    (hpart : Css.Slot.isWhole value = false → expandShorthand property value = none →
      ∀ request, AsksPiece (fun _ => True) (partRequest scope property value)
        (Css.Slot.pieces value.toList) request → Alike R (r.slot request) (q.slot request))
    (hlong : Css.Slot.isWhole value = false → ∀ expansion,
      expandShorthand property value = some expansion →
      ∀ part ∈ expansion, Css.Slot.present part.2 = true → ∀ request,
        AsksPiece (fun _ => True)
          { partRequest scope property value with property := part.1, value := part.2 }
          (Css.Slot.pieces part.2.toList) request → Alike R (r.slot request) (q.slot request))
    (obj : Object) :
    Alike R (setDynamic r scope obj property value) (setDynamic q scope obj property value) := by
  unfold setDynamic
  by_cases hw : Css.Slot.isWhole value = true
  · simp only [hw, if_true]
    refine (hwhole hw).bind fun answer => ?_
    rcases answer with _ | ⟨v, other, styles⟩ <;> exact .pure _
  · have hw' : Css.Slot.isWhole value = false := by simpa using hw
    simp only [hw', Bool.false_eq_true, if_false]
    cases hexp : expandShorthand property value with
    | some expansion =>
        exact alike_spliceLonghands (partRequest scope property value) expansion
          (hlong hw' expansion hexp) obj
    | none =>
        refine (alike_splice value (partRequest scope property value) (hpart hw' hexp)).bind
          fun v => ?_
        cases v <;> exact .pure _

/-- Gives a property its value, asking for the slots in it. -/
def setValue (r : Resolver τ) (scope : Scope) (obj : Object) (property value : String) :
    Work τ Object :=
  if Css.Slot.present value then setDynamic r scope obj property value
  else return setStatic obj property value

/-- A declaration with a fixed name notes the mark that it loses and sets the property. -/
theorem convertDeclaration_named {d : Css.Declaration} (hname : d.property.isEmpty = false)
    (hfixed : Css.Slot.present d.property = false) (r : Resolver τ) (scope : Scope) (obj : Object) :
    convertDeclaration r scope obj d =
      (if (stripImportant d.value).2 then
        modify fun s => { s with important := s.important ++ [camelCase d.property] }
      else pure ()) >>= fun _ =>
        setValue r scope obj (camelCase d.property) (stripImportant d.value).1 := by
  unfold convertDeclaration
  by_cases himp : (stripImportant d.value).2 = true <;> simp [hname, hfixed, himp, setValue]

theorem alike_convertDeclaration (hR : Oblivious R) (scope : Scope) (d : Css.Declaration)
    (h : ∀ request, Asks (fun _ => True) scope d request → Alike R (r.slot request) (q.slot request))
    (obj : Object) :
    Alike R (convertDeclaration r scope obj d) (convertDeclaration q scope obj d) := by
  cases hname : d.property.isEmpty with
  | true =>
      unfold convertDeclaration
      by_cases hblock : d.isBlockSlot = true
      · simp only [hname, hblock, if_true]
        refine (h _ (.block hname hblock)).bind fun answer => ?_
        rcases answer with _ | ⟨v, other, styles⟩ <;> exact .pure _
      · simp only [hname, hblock, if_true, Bool.false_eq_true, if_false]
        exact .pure _
  | false =>
      cases hfixed : Css.Slot.present d.property with
      | true =>
          unfold convertDeclaration
          simp only [hname, hfixed, Bool.false_eq_true, if_false, if_true]
          exact (Alike.report hR _ _).bind fun _ => .pure _
      | false =>
          rw [convertDeclaration_named hname hfixed, convertDeclaration_named hname hfixed]
          refine Alike.bind ?_ fun _ => ?_
          · split
            · exact .mark hR _
            · exact .pure _
          · unfold setValue
            by_cases hslots : Css.Slot.present (stripImportant d.value).1 = true
            · have hd : HasSlots d (camelCase d.property) (stripImportant d.value).1 :=
                ⟨hname, hfixed, rfl, rfl, hslots⟩
              simp only [hslots, if_true]
              exact alike_setDynamic scope _ _ (fun hw => h _ (.whole hd hw))
                (fun hw he request hr => h request (.part hd hw he hr))
                (fun hw _ he _ hm ht request hr => h request (.longhand hd hw he hm ht hr)) obj
            · simp only [hslots, Bool.false_eq_true, if_false]
              exact .pure _

theorem alike_fillSelector (h : ∀ index, Alike R (r.selector index) (q.selector index))
    (selector : String) (indices : List Nat) :
    Alike R (fillSelector r selector indices) (fillSelector q selector indices) := by
  induction indices generalizing selector with
  | nil => exact .pure _
  | cons index indices ih =>
      refine (h index).bind fun text => ?_
      cases text with
      | none => exact .pure _
      | some text => exact ih _

theorem alike_mergeBody (obj : Object) (path : List Key) (body : Object) :
    Alike R (mergeBody obj path body) (mergeBody obj path body) := by
  unfold mergeBody
  cases obj.mergeAt path body with
  | ok o => exact .pure o
  | error f => exact .throw f

/-- Adds a nested rule to an object, block by block. -/
def convertBlocks (r : Resolver τ) (child : Css.Rule) (blocks : List (Scope × List Key))
    (obj : Object) : Work τ Object :=
  blocks.foldlM
    (fun obj block => do
      let body ← convertRule r block.1 child
      mergeBody obj block.2 body)
    obj

theorem convertBlocks_cons (r : Resolver τ) (child : Css.Rule) (block : Scope × List Key)
    (blocks : List (Scope × List Key)) (obj : Object) :
    convertBlocks r child (block :: blocks) obj =
      (convertRule r block.1 child >>= fun body => mergeBody obj block.2 body) >>=
        convertBlocks r child blocks :=
  List.foldlM_cons

/-- Adds a nested rule whose selector has been filled; at-rules without a counterpart are dropped. -/
def addFilled (r : Resolver τ) (scope : Scope) (child : Css.Rule) (obj : Object) :
    Option String → Work τ Object
  | none => pure obj
  | some selector =>
    if Css.isAtRule selector && (nestedPaths? selector).isNone then do
      Work.trace (·.inspection selector "dropped" "at-rule without a StyleX equivalent")
      return obj
    else convertBlocks r child (blocksOf scope selector) obj

/-- Adds a nested rule. -/
def addNested (r : Resolver τ) (scope : Scope) (obj : Object) (child : Css.Rule) : Work τ Object :=
  fillSelector r child.selector (Css.Slot.indices child.selector) >>= addFilled r scope child obj

/-- Nested rules are added one after the other. -/
theorem convertNested_eq_foldlM (r : Resolver τ) (scope : Scope) (rules : List Css.Rule)
    (obj : Object) : convertNested r scope obj rules = rules.foldlM (addNested r scope) obj := by
  induction rules generalizing obj with
  | nil => rw [convertNested, List.foldlM_nil]
  | cons child rest ih =>
      rw [convertNested, List.foldlM_cons, addNested, bind_assoc]
      refine congrArg _ (funext fun filled => ?_)
      cases filled with
      | none => simp [addFilled, ih]
      | some selector =>
          cases hpaths : nestedPaths? selector with
          | some paths =>
              simp [addFilled, hpaths, convertBlocks, blocksOf, List.foldlM_map, ih]
          | none =>
              by_cases hat : Css.isAtRule selector = true
              · simp [addFilled, hpaths, hat, ih]
              · simp [addFilled, hpaths, hat, convertBlocks, blocksOf, ih]

theorem alike_convertBlocks (child : Css.Rule) (blocks : List (Scope × List Key))
    (h : ∀ block ∈ blocks, Alike R (convertRule r block.1 child) (convertRule q block.1 child))
    (obj : Object) :
    Alike R (convertBlocks r child blocks obj) (convertBlocks q child blocks obj) :=
  .foldlM blocks (fun block hb obj =>
    (h block hb).bind fun body => alike_mergeBody obj block.2 body) obj

theorem alike_addFilled (hR : Oblivious R) (scope : Scope) (child : Css.Rule)
    (h : ∀ selector, ∀ block ∈ blocksOf scope selector,
      Alike R (convertRule r block.1 child) (convertRule q block.1 child))
    (obj : Object) (filled : Option String) :
    Alike R (addFilled r scope child obj filled) (addFilled q scope child obj filled) := by
  cases filled with
  | none => exact .pure obj
  | some selector =>
      unfold addFilled
      by_cases hdrop : (Css.isAtRule selector && (nestedPaths? selector).isNone) = true
      · simp only [hdrop, if_true]
        exact (Alike.trace hR _ _).bind fun _ => .pure obj
      · simp only [hdrop, Bool.false_eq_true, if_false]
        exact alike_convertBlocks child _ (h selector) obj

theorem alike_addNested (hR : Oblivious R)
    (hselector : ∀ index, Alike R (r.selector index) (q.selector index))
    (scope : Scope) (child : Css.Rule)
    (h : ∀ selector, ∀ block ∈ blocksOf scope selector,
      Alike R (convertRule r block.1 child) (convertRule q block.1 child))
    (obj : Object) : Alike R (addNested r scope obj child) (addNested q scope obj child) :=
  (alike_fillSelector hselector _ _).bind fun filled => alike_addFilled hR scope child h obj filled

/-- Resolvers that treat the placed slots alike convert a rule alike. -/
theorem alike_convertRule (hR : Oblivious R)
    (hselector : ∀ index, Alike R (r.selector index) (q.selector index))
    (rule : Css.Rule) (scope : Scope)
    (h : ∀ request, Placed scope rule request → Alike R (r.slot request) (q.slot request)) :
    Alike R (convertRule r scope rule) (convertRule q scope rule) := by
  induction rule using Css.Rule.induction generalizing scope with
  | step rule ih =>
      obtain ⟨selector, declarations, nested, atRules⟩ := rule
      rw [convertRule, convertRule]
      refine Alike.bind ?_ fun obj => ?_
      · exact .foldlM _ (fun d hd obj =>
          alike_convertDeclaration hR scope d (fun request hr => h request (.own hd hr)) obj) []
      · rw [convertNested_eq_foldlM, convertNested_eq_foldlM]
        exact .foldlM _ (fun child hc obj =>
          alike_addNested hR hselector scope child
            (fun _ block hb => ih child hc block.1 fun request hr => h request (.nested hc hb hr))
            obj) obj

/-- Resolvers that treat the placed slots alike convert a style sheet alike. -/
theorem alike_convert (hR : Oblivious R)
    (hselector : ∀ index, Alike R (r.selector index) (q.selector index)) (rule : Css.Rule)
    (h : ∀ request, Placed {} rule request → Alike R (r.slot request) (q.slot request)) :
    Alike R (convert r rule) (convert q rule) := by
  refine (alike_convertRule hR hselector rule {} h).bind fun raw => ?_
  refine Alike.bind (.forIn _ (fun place _ => ?_) _) fun _ => .pure _
  exact (Alike.report hR _ _).bind fun _ => .pure _

end

end Restyle.Style
