import Restyle.Component.Record
import Restyle.Interpolation.Handlers
import Restyle.Proofs.Building
import Restyle.Proofs.Literals

/-!
# Agreement of template builders

A value with one slot becomes a template literal in three places.  Where texts and expressions are joined, the
start of an expression in a text is escaped too.  A style function and an inline style escape the whole value
before its slot is filled, and only backslashes and backticks.  The three agree on the values without the start
of an expression in their text.
-/

namespace Restyle.Css.Slot

open TemplateLiteral (escape)

/-! ## Filling an escaped text -/

theorem flatMap_escape_of_plain {cs : List Char} (h : ∀ c ∈ cs, escape c = [c]) : cs.flatMap escape = cs := by
  induction cs with
  | nil => rfl
  | cons c cs ih =>
      obtain ⟨hc, hcs⟩ := List.forall_mem_cons.mp h
      rw [List.flatMap_cons, hc, ih hcs, List.singleton_append]

/-- A text is plain, or plain up to the first character that is escaped. -/
theorem plain_or_escaped (cs : List Char) :
    (∀ c ∈ cs, escape c = [c]) ∨
      ∃ front c rest, cs = front ++ c :: rest ∧ (∀ d ∈ front, escape d = [d]) ∧ escape c = ['\\', c] ∧
        isMarkChar c = false := by
  induction cs with
  | nil => exact .inl nofun
  | cons c cs ih =>
      by_cases hc : c = '\\' ∨ c = '\x60'
      · refine .inr ⟨[], c, cs, rfl, nofun, if_pos hc, ?_⟩
        rcases hc with rfl | rfl <;> decide
      · have hplain : escape c = [c] := if_neg hc
        rcases ih with hcs | ⟨front, d, rest, rfl, hfront, hd⟩
        · exact .inl (List.forall_mem_cons.mpr ⟨hplain, hcs⟩)
        · exact .inr ⟨c :: front, d, rest, rfl, List.forall_mem_cons.mpr ⟨hplain, hfront⟩, hd⟩

/-- Escaping keeps the marks. -/
theorem read?_flatMap_escape (cs : List Char) :
    read? (cs.flatMap escape) = (read? cs).map fun (index, mark, rest) => (index, mark, rest.flatMap escape) := by
  have hrest {ds : List Char} (hds : ∀ c ∈ ds, escape c = [c]) {index : Nat} {mark rest : List Char}
      (hread : read? ds = some (index, mark, rest)) : rest.flatMap escape = rest := by
    obtain ⟨-, -, -, -, -, rfl⟩ := read?_eq_some_iff.mp hread
    exact flatMap_escape_of_plain fun c hc => hds c (List.mem_append_right mark hc)
  rcases plain_or_escaped cs with hplain | ⟨front, c, rest, rfl, hfront, hc, hsign⟩
  · rw [flatMap_escape_of_plain hplain]
    cases hread : read? cs with
    | none => rfl
    | some found =>
        obtain ⟨index, mark, rest⟩ := found
        simp only [Option.map_some, hrest hplain hread]
  · rw [List.flatMap_append, List.flatMap_cons, flatMap_escape_of_plain hfront, hc, List.cons_append,
      read?_append_sign (by decide : isMarkChar '\\' = false), read?_append_sign hsign]
    cases hread : read? front with
    | none => rfl
    | some found =>
        obtain ⟨index, mark, more⟩ := found
        simp only [Option.map_some, List.flatMap_append, List.flatMap_cons, hc, hrest hfront hread]
        rfl

theorem read?_sign {c : Char} (h : isMarkChar c = false) (cs : List Char) : read? (c :: cs) = none :=
  read?_append_sign h [] cs

theorem piecesFrom_of_none {c : Char} {cs : List Char} (h : read? (c :: cs) = none) (pending : List Char) :
    piecesFrom 0 pending (c :: cs) = piecesFrom 0 (c :: pending) cs := by
  rw [piecesFrom, h]

theorem piecesFrom_of_read? {cs : List Char} {index : Nat} {written rest : List Char}
    (h : read? cs = some (index, written, rest)) (pending : List Char) :
    piecesFrom 0 pending cs = .text pending.reverse :: .slot index written :: piecesFrom 0 [] rest := by
  obtain ⟨digits, -, -, -, hwritten, rfl⟩ := read?_eq_some_iff.mp h
  obtain ⟨c, cs, rfl⟩ : ∃ c cs, written = c :: cs := ⟨_, _, hwritten⟩
  rw [List.cons_append] at h ⊢
  rw [piecesFrom, h]
  dsimp only
  rw [piecesFrom_eq_drop, List.length_cons, Nat.add_sub_cancel, List.drop_left]

/-- A piece of an escaped text. -/
def Piece.escaped : Piece → Piece
  | .text cs => .text (cs.flatMap escape)
  | .slot index written => .slot index written

theorem pieces_mark (index : Nat) : pieces (mark index) = [.text [], .slot index (mark index), .text []] := by
  have hread := read?_mark index []
  rw [List.append_nil] at hread
  exact piecesFrom_of_read? hread []

theorem piecesFrom_flatMap_escape (pending cs : List Char) :
    piecesFrom 0 (pending.reverse.flatMap escape).reverse (cs.flatMap escape) =
      (piecesFrom 0 pending cs).map Piece.escaped := by
  -- by induction on the length: after a mark the cutting goes on behind it
  induction hlength : cs.length using Nat.strong_induction_on generalizing pending cs with
  | _ length ih =>
      have hread := read?_flatMap_escape cs
      cases hcs : read? cs with
      | some found =>
          obtain ⟨index, written, rest⟩ := found
          have hrest := ih rest.length (hlength ▸ read?_rest_length hcs) [] rest rfl
          rw [hcs] at hread
          rw [piecesFrom_of_read? hread, piecesFrom_of_read? hcs, List.map_cons, List.map_cons, List.reverse_reverse]
          exact congrArg _ (congrArg _ hrest)
      | none =>
          cases cs with
          | nil => simp [piecesFrom, Piece.escaped]
          | cons c cs =>
              have hmore := ih cs.length (hlength ▸ Nat.lt_succ_self _) (c :: pending) cs rfl
              rw [piecesFrom_of_none hcs, ← hmore, List.reverse_cons, List.flatMap_append, List.reverse_append,
                List.flatMap_singleton, List.flatMap_cons]
              rw [hcs, Option.map_none, List.flatMap_cons] at hread
              by_cases hc : c = '\\' ∨ c = '\x60'
              · have hescape : escape c = ['\\', c] := if_pos hc
                have hsign : isMarkChar c = false := by rcases hc with rfl | rfl <;> decide
                rw [hescape, List.cons_append, List.singleton_append, piecesFrom_of_none (read?_sign (by decide) _),
                  piecesFrom_of_none (read?_sign hsign _)]
                rfl
              · have hescape : escape c = [c] := if_neg hc
                rw [hescape, List.singleton_append] at hread ⊢
                rw [piecesFrom_of_none hread]
                rfl

/-- Escaping works on the text around the slots and leaves the slots alone. -/
theorem pieces_flatMap_escape (cs : List Char) : pieces (cs.flatMap escape) = (pieces cs).map Piece.escaped :=
  piecesFrom_flatMap_escape [] cs

end Restyle.Css.Slot

namespace Restyle.TemplateLiteral

open Css.Slot (mark pieces)

/-! ## Starts of expressions in a text -/

/-- What an expression in a template literal starts with. -/
def slotSign : List Char := ['$', '{']

/-- A text without the start of an expression has nothing more to escape. -/
theorem flatMap_escape_of_not_isInfix {cs : List Char} (h : ¬ slotSign <:+: cs) :
    cs.flatMap escape = written cs := by
  induction cs using written_induction with
  | nil => rfl
  | slot cs => exact absurd (List.prefix_append slotSign cs).isInfix h
  | cons c cs hslot ih =>
      rw [List.flatMap_cons, written_cons hslot, ih (mt (·.trans (List.suffix_cons c cs).isInfix) h)]

/-- The first start of an expression in a text has only escaped text before it. -/
theorem exists_of_isInfix {cs : List Char} (h : slotSign <:+: cs) :
    ∃ front more, cs = front ++ '$' :: '{' :: more ∧ front.flatMap escape = written front := by
  induction cs using written_induction with
  | nil => cases List.infix_nil.mp h
  | slot cs => exact ⟨[], cs, rfl, rfl⟩
  | cons c cs hslot ih =>
      rcases List.infix_cons_iff.mp h with hprefix | hinfix
      · obtain ⟨hc, rest, hcs⟩ := List.cons_prefix_cons.mp hprefix
        exact absurd (by rw [← hcs]; rfl) (hslot hc.symm)
      · obtain ⟨front, more, rfl, hfront⟩ := ih hinfix
        have hnext : c = '$' → front.head? ≠ some '{' := by
          intro hc hhead
          obtain ⟨front, rfl⟩ := List.head?_eq_some_iff.mp hhead
          exact hslot hc rfl
        exact ⟨c :: front, more, rfl, by rw [List.flatMap_cons, written_cons hnext, hfront]⟩

theorem unifyLines_append_slot (front more : List Char) :
    unifyLines (front ++ '$' :: more) = unifyLines front ++ '$' :: unifyLines more := by
  induction front with
  | nil => exact unifyLines_cons (by decide) more
  | cons c front ih =>
      rw [List.cons_append]
      by_cases hreturn : c = '\r'
      · have hhead : (front ++ '$' :: more).head? = some '\n' ↔ front.head? = some '\n' := by
          cases front with
          | nil => simp
          | cons d front => rfl
        rw [hreturn, unifyLines_return, unifyLines_return]
        simp only [hhead]
        split
        · exact ih
        · rw [ih, List.cons_append]
      · rw [unifyLines_cons hreturn, unifyLines_cons hreturn, ih, List.cons_append]

/-! ## Values of template literals -/

theorem exists_embed {reader : ExpressionReader} {more : List Char} {l : Reading}
    (h : bodyFrom? reader 0 ('$' :: '{' :: more) = some l) : ∃ code rest, l = Reading.embed code rest := by
  rw [bodyFrom?] at h
  split at h
  · split at h
    · obtain ⟨rest, -, rfl⟩ := Option.map_eq_some_iff.mp h
      exact ⟨_, rest, rfl⟩
    · cases h
  · cases h

/-- After escaped text and the start of an expression, the value goes on with the value of an expression. -/
theorem value_of_slot {reader : ExpressionReader} {front more : List Char} {l : Reading}
    (hread : bodyFrom? reader 0 (written front ++ '$' :: '{' :: more) = some l) {value : Nat → String → String}
    {place : Nat} {v : List Char} (hvalue : l.valueFrom? value place = some v) :
    ∃ code rest, v = unifyLines front ++ ((value place code).toList ++ rest) := by
  rw [bodyFrom?_append (isClosed_written front) reader (by simp)] at hread
  obtain ⟨inner, hinner, rfl⟩ := Option.map_eq_some_iff.mp hread
  obtain ⟨code, rest, rfl⟩ := exists_embed hinner
  rw [valueFrom?_prepend rfl (cook?_written front), valueFrom?_embed, Option.map_map] at hvalue
  obtain ⟨w, -, rfl⟩ := Option.map_eq_some_iff.mp hvalue
  exact ⟨code, w, rfl⟩

/-- The value of the text of a template literal, for values of the expressions. -/
def valueOf? (reader : ExpressionReader) (scope : String → String) (code : String) : Option (List Char) :=
  (read? reader code.toList).bind fun l => l.value? fun _ expression => scope expression

/-- Two template literals denote the same text, whatever the values of the expressions are. -/
def Agree (reader : ExpressionReader) (left right : String) : Prop :=
  ∀ scope, ∃ value, valueOf? reader scope left = some value ∧ valueOf? reader scope right = some value

/-! ## A text with one expression in it -/

/-- A text before an expression, the expression, and a text after it. -/
def around (before after : List Char) (expression : String) : List Style.Value :=
  [.text (String.ofList before), .js expression, .text (String.ofList after)]

theorem alternates_around {reader : ExpressionReader} {expression : String} (h : Takes reader expression)
    (before after : List Char) : Alternates reader (around before after expression) :=
  .text (fun _ hpart => by cases hpart; rfl) (.code h (.text nofun .nil))

theorem insideOf_around (before after : List Char) (expression : String) :
    insideOf (around before after expression) ++ ['\x60'] =
      written before ++ '$' :: '{' :: (expression.toList ++ '}' :: (written after ++ ['\x60'])) := by
  simp only [around, insideOf_text, insideOf_code, String.toList_ofList]
  simp [insideOf]

theorem joinParts_around {before after : List Char} (h : before ≠ [] ∨ after ≠ []) (expression : String) :
    ∃ code, Style.joinParts (around before after expression) = .js code ∧
      code.toList = '\x60' :: (written before ++ '$' :: '{' ::
        (expression.toList ++ '}' :: (written after ++ ['\x60']))) := by
  have htwo : 2 ≤ ((around before after expression).filter fun part => !Style.isEmptyText part).length := by
    have hkept {cs : List Char} (hcs : cs ≠ []) : (!Style.isEmptyText (.text (String.ofList cs))) = true := by
      simpa [Style.isEmptyText] using hcs
    have hexpression : (!Style.isEmptyText (.js expression)) = true := rfl
    rcases h with h | h <;>
    · simp only [around, List.filter_cons, hkept h, hexpression, if_true]
      split <;> simp
  obtain ⟨code, hjoin, hcode⟩ := joinParts_eq ⟨expression, by simp [around]⟩ htwo
  exact ⟨code, hjoin, hcode.trans (congrArg _ (insideOf_around before after expression))⟩

/-- A text with its only slot filled, where backslashes and backticks are escaped and nothing else is. -/
theorem toList_slotTemplate {text : String} {before after : List Char} {index : Nat}
    (h : pieces text.toList = [.text before, .slot index (mark index), .text after]) (expression : String) :
    (Interpolation.slotTemplate text index expression).toList =
      '\x60' :: (before.flatMap escape ++ '$' :: '{' ::
        (expression.toList ++ '}' :: (after.flatMap escape ++ ['\x60']))) := by
  have hpieces : pieces (Style.escapeBackticks text).toList =
      [.text (before.flatMap escape), .slot index (mark index), .text (after.flatMap escape)] := by
    rw [toList_escapeBackticks, Css.Slot.pieces_flatMap_escape, h]
    rfl
  have hquote : "\x60".toList = ['\x60'] := rfl
  rw [Interpolation.slotTemplate, String.toList_append, String.toList_append, hquote, Css.Slot.toList_fill hpieces,
    toList_templateSlot]
  simp

theorem templateAround_eq (text : String) (index : Nat) (expression : String) :
    Component.templateAround text index expression = Interpolation.slotTemplate text index expression :=
  rfl

theorem valueOf?_eq {reader : ExpressionReader} {code : String} {inside : List Char}
    (h : code.toList = '\x60' :: inside) (scope : String → String) :
    valueOf? reader scope code =
      (bodyFrom? reader 0 inside).bind fun l => l.valueFrom? (fun _ expression => scope expression) 0 := by
  rw [valueOf?, h]
  rfl

theorem valueOf?_around {reader : ExpressionReader} {expression : String} (hreader : Takes reader expression)
    {before after : List Char} {code : String}
    (h : code.toList = '\x60' :: (written before ++ '$' :: '{' ::
        (expression.toList ++ '}' :: (written after ++ ['\x60'])))) (scope : String → String) :
    valueOf? reader scope code =
      some (unifyLines before ++ ((scope expression).toList ++ unifyLines after)) := by
  have hparts := alternates_around hreader before after
  rw [valueOf?_eq h, ← insideOf_around, bodyFrom?_insideOf hparts, Option.bind_some, valueFrom?_readingOf hparts]
  simp [around, unified, concatenation, Style.spelled]

/-- Templates that escape less agree with joined parts exactly if no expression starts in the text. -/
theorem agree_slotTemplate_iff {reader : ExpressionReader} {expression : String} (hreader : Takes reader expression)
    {text : String} {before after : List Char} {index : Nat}
    (htext : pieces text.toList = [.text before, .slot index (mark index), .text after]) {code : String}
    (hcode : code.toList = '\x60' :: (written before ++ '$' :: '{' ::
        (expression.toList ++ '}' :: (written after ++ ['\x60'])))) :
    Agree reader (Interpolation.slotTemplate text index expression) code ↔
      ¬ slotSign <:+: before ∧ ¬ slotSign <:+: after := by
  have htemplate := toList_slotTemplate htext expression
  constructor
  · intro hagree
    -- Where another expression starts, its value may be a letter, and the joined parts have a dollar sign there.
    obtain ⟨value, hleft, hright⟩ := hagree fun _ => "a"
    rw [valueOf?_around hreader hcode] at hright
    rw [valueOf?_eq htemplate, Option.bind_eq_some_iff] at hleft
    obtain ⟨l, hread, hvalue⟩ := hleft
    have hbefore : ¬ slotSign <:+: before := by
      intro hinfix
      obtain ⟨front, more, rfl, hfront⟩ := exists_of_isInfix hinfix
      rw [List.flatMap_append, hfront, List.append_assoc] at hread
      obtain ⟨_, rest, rfl⟩ := value_of_slot hread hvalue
      rw [Option.some.injEq, unifyLines_append_slot, List.append_assoc] at hright
      exact absurd (List.cons.inj (List.append_cancel_left hright)).1 (by decide)
    refine ⟨hbefore, fun hinfix => ?_⟩
    obtain ⟨front, more, rfl, hfront⟩ := exists_of_isInfix hinfix
    rw [flatMap_escape_of_not_isInfix hbefore, bodyFrom?_append (isClosed_written before) reader (by simp),
      bodyFrom?_slot hreader, Option.map_map, List.flatMap_append, hfront, List.append_assoc] at hread
    obtain ⟨inner, hinner, rfl⟩ := Option.map_eq_some_iff.mp hread
    rw [Function.comp_apply, valueFrom?_prepend rfl (cook?_written before), valueFrom?_embed, Option.map_map] at hvalue
    obtain ⟨tail, htail, rfl⟩ := Option.map_eq_some_iff.mp hvalue
    obtain ⟨_, rest, rfl⟩ := value_of_slot hinner htail
    rw [Option.some.injEq, unifyLines_append_slot] at hright
    have hcancel := List.append_cancel_left (List.append_cancel_left (List.append_cancel_left hright))
    exact absurd (List.cons.inj hcancel).1 (by decide)
  · rintro ⟨hbefore, hafter⟩ scope
    rw [flatMap_escape_of_not_isInfix hbefore, flatMap_escape_of_not_isInfix hafter, ← hcode] at htemplate
    rw [String.toList_inj.mp htemplate]
    exact ⟨_, valueOf?_around hreader hcode scope, valueOf?_around hreader hcode scope⟩

/-! ## Style functions and inline styles -/

/-- The text that a style function makes its value of: the whole value, or the part that names a border property. -/
def valueText (r : Style.SlotRequest) : String :=
  if Style.borderTarget r.property r.tokens r.tokenIndex != r.property then r.token else r.value

/-- The parameter for a prop: its name without dollar signs in front, unless it has no other. -/
def paramFor (prop : String) : String :=
  if (Text.dropLeading '$' prop).isEmpty then prop else Text.dropLeading '$' prop

/-- A text whose only slot has text around it, blanks at both ends aside. -/
structure IsAround (text : String) (index : Nat) (before after : List Char) : Prop where
  pieces_eq : pieces (Text.strip text).toList = [.text before, .slot index (mark index), .text after]
  more : before ≠ [] ∨ after ≠ []

/-- A prop that is a part of a value outside of pseudo-elements. -/
structure IsPropAround (c : Interpolation.Classified) (place : Interpolation.Place) (before after : List Char)
    (param : String) : Prop where
  param_eq : paramFor (c.path.head?.getD "") = param
  isBlock : place.isBlock = false
  pseudoElement : (place.request.scope.pseudoElement.any fun e => !e.isEmpty) = false
  text : IsAround (valueText place.request) place.request.index before after

/-- An expression that is a part of a value of the component itself. -/
structure IsInlineAround (place : Interpolation.Place) (before after : List Char) : Prop where
  isBlock : place.isBlock = false
  isNested : place.isNested = false
  isFullValue : place.request.isFullValue = false
  text : IsAround place.request.value place.request.index before after

theorem IsAround.indices {text : String} {index : Nat} {before after : List Char}
    (h : IsAround text index before after) : Css.Slot.indices (Text.strip text) = [index] := by
  rw [Css.Slot.indices, h.pieces_eq]
  rfl

theorem IsAround.others {text : String} {index : Nat} {before after : List Char}
    (h : IsAround text index before after) : Css.Slot.others text index = false := by
  have hindices := h.indices
  rw [Css.Slot.indices_eq, Text.strip, String.toList_ofList, Css.Slot.slotsIn_trim] at hindices
  rw [Css.Slot.others, Css.Slot.indices_eq, hindices]
  simp

theorem IsAround.ne_mark {text : String} {index : Nat} {before after : List Char}
    (h : IsAround text index before after) : (Text.strip text == Css.Slot.markText index) = false := by
  rw [beq_eq_false_iff_ne]
  intro heq
  have hpieces := h.pieces_eq
  rw [heq, Css.Slot.markText, String.toList_ofList, Css.Slot.pieces_mark] at hpieces
  obtain ⟨hbefore, hafter⟩ : [] = before ∧ [] = after := by simpa using hpieces
  rcases h.more with hmore | hmore
  · exact hmore hbefore.symm
  · exact hmore hafter.symm

theorem exists_decideProp {c : Interpolation.Classified} {place : Interpolation.Place} {before after : List Char}
    {param : String} (h : IsPropAround c place before after param) :
    ∃ v, Interpolation.decideProp c place = .dynamic v ∧ v.paramName = param ∧
      v.expression = Interpolation.slotTemplate (Text.strip (valueText place.request)) place.request.index param := by
  have hothers := h.text.others
  have hmark := h.text.ne_mark
  obtain ⟨rfl, hblock, helement, -⟩ := h
  unfold Interpolation.decideProp
  unfold valueText at hothers hmark ⊢
  simp only [hblock, helement, hothers, hmark, Bool.false_eq_true, if_false]
  exact ⟨_, rfl, rfl, rfl⟩

theorem exists_recordBail {place : Interpolation.Place} {before after : List Char}
    (h : IsInlineAround place before after) (component : Component) (reason : DiagnosticKind) {props : List String}
    (hprops : props ≠ []) (expression : String) (classified : Interpolation.Classified) :
    ∃ entry, (Component.recordBail component reason props (some expression) classified place).component.inlineStyles =
        component.inlineStyles ++ [entry] ∧ entry.property = place.request.property ∧
      entry.expression =
        Interpolation.slotTemplate (Text.strip place.request.value) place.request.index expression := by
  have hindices := h.text.indices
  have hprops : props.isEmpty = false := List.isEmpty_eq_false_iff.mpr hprops
  obtain ⟨hblock, hnested, hfull, -⟩ := h
  have hothers : ([place.request.index].any (· != place.request.index)) = false := by simp
  simp only [Component.recordBail, hprops, hblock, hnested, hfull, hindices, hothers, Bool.or_self, Bool.and_false,
    Bool.false_eq_true, if_false]
  obtain ⟨deps, hframe⟩ := Component.addPropDependencies_frame _ props
  exact ⟨_, by rw [hframe], rfl, templateAround_eq ..⟩

/--
A prop in a value becomes a parameter, and an expression in a value that is not converted goes to the `style` prop.
Both expressions denote what the text before the slot, the expression and the text after it are joined to, exactly
if no expression starts in the text of the value.
-/
theorem templates_agree_iff {reader : ExpressionReader} {expression : String} (hreader : Takes reader expression)
    {before after : List Char} (hmore : before ≠ [] ∨ after ≠ []) :
    ∃ code, Style.joinParts (around before after expression) = .js code ∧
      (∀ c place, IsPropAround c place before after expression →
        ∃ v, Interpolation.decideProp c place = .dynamic v ∧ v.paramName = expression ∧
          (Agree reader v.expression code ↔ ¬ slotSign <:+: before ∧ ¬ slotSign <:+: after)) ∧
      ∀ place component reason props classified, IsInlineAround place before after → props ≠ [] →
        ∃ entry : Component.InlineStyle,
          (Component.recordBail component reason props (some expression) classified place).component.inlineStyles =
              component.inlineStyles ++ [entry] ∧ entry.property = place.request.property ∧
            (Agree reader entry.expression code ↔ ¬ slotSign <:+: before ∧ ¬ slotSign <:+: after) := by
  obtain ⟨code, hjoin, hcode⟩ := joinParts_around hmore expression
  refine ⟨code, hjoin, fun c place hplace => ?_, fun place component reason props classified hplace hprops => ?_⟩
  · obtain ⟨v, hdecide, hparam, hexpression⟩ := exists_decideProp hplace
    refine ⟨v, hdecide, hparam, ?_⟩
    rw [hexpression]
    exact agree_slotTemplate_iff hreader hplace.text.pieces_eq hcode
  · obtain ⟨entry, hrecord, hproperty, hexpression⟩ :=
      exists_recordBail hplace component reason hprops expression classified
    refine ⟨entry, hrecord, hproperty, ?_⟩
    rw [hexpression]
    exact agree_slotTemplate_iff hreader hplace.text.pieces_eq hcode

/-- A declaration with a value for its first slot. -/
def declared (property value : String) : Interpolation.Place where
  component := "Button"
  styleKey := "button"
  request := { index := 0, property, value, token := value, tokens := [] }

/-- A component without styles. -/
def bareButton : Component where
  name := "Button"
  styleKey := "button"
  base := "button"

theorem templates_agree_iff_margin :
    ∃ code, Style.joinParts (around "1px ".toList " \\9 $".toList "x") = .js code ∧
      (∃ v, Interpolation.decideProp { source := "p => p.$x", path := ["$x"] }
            (declared "margin" " 1px __INTERPOLATION_0__ \\9 $ ") = .dynamic v ∧
          v.paramName = "x" ∧ Agree (balanced 0) v.expression code) ∧
      ∃ entry : Component.InlineStyle,
        (Component.recordBail bareButton .arrowUnrecognizedBody ["x"] (some "x") { source := "p => p.x" }
            (declared "margin" " 1px __INTERPOLATION_0__ \\9 $ ")).component.inlineStyles = [entry] ∧
          Agree (balanced 0) entry.expression code := by
  have htext : IsAround " 1px __INTERPOLATION_0__ \\9 $ " 0 "1px ".toList " \\9 $".toList :=
    ⟨rfl, .inl (by decide)⟩
  have hplain : ¬ slotSign <:+: "1px ".toList ∧ ¬ slotSign <:+: " \\9 $".toList := by decide
  have htakes : Takes (balanced 0) "x" := fun _ => rfl
  obtain ⟨code, hjoin, hprop, hinline⟩ := templates_agree_iff htakes htext.more
  obtain ⟨v, hdecide, hparam, hagree⟩ := hprop { source := "p => p.$x", path := ["$x"] }
    (declared "margin" " 1px __INTERPOLATION_0__ \\9 $ ") ⟨by decide, by decide, by decide, htext⟩
  obtain ⟨entry, hrecord, -, hsame⟩ := hinline (declared "margin" " 1px __INTERPOLATION_0__ \\9 $ ") bareButton
    .arrowUnrecognizedBody ["x"] { source := "p => p.x" } ⟨by decide, by decide, rfl, htext⟩ (by decide)
  exact ⟨code, hjoin, ⟨v, hdecide, hparam, hagree.mpr hplain⟩, entry, hrecord, hsame.mpr hplain⟩

/-- In a style function, a text of a value that looks like an expression becomes one. -/
theorem not_agree_dollar :
    ¬ ∀ reader expression before after code c place v, Takes reader expression →
      IsPropAround c place before after expression →
      Style.joinParts (around before after expression) = .js code →
      Interpolation.decideProp c place = .dynamic v → Agree reader v.expression code := by
  intro hall
  have htext : IsAround "\\$\x7bb\x7d __INTERPOLATION_0__" 0 "\\$\x7bb\x7d ".toList [] := ⟨rfl, .inl (by decide)⟩
  have hplace : IsPropAround { source := "p => p.x", path := ["x"] }
      (declared "content" "\\$\x7bb\x7d __INTERPOLATION_0__") "\\$\x7bb\x7d ".toList [] "x" :=
    ⟨by decide, by decide, by decide, htext⟩
  have htakes : Takes (balanced 0) "x" := fun _ => rfl
  obtain ⟨code, hjoin, hcode⟩ := joinParts_around htext.more "x"
  obtain ⟨v, hdecide, -, hexpression⟩ := exists_decideProp hplace
  have hagree := hall _ _ _ _ _ _ _ _ htakes hplace hjoin hdecide
  rw [hexpression] at hagree
  have hplain := (agree_slotTemplate_iff htakes htext.pieces_eq hcode).mp hagree
  exact absurd hplain.1 (by decide)

end Restyle.TemplateLiteral
