import Restyle.Proofs.Bindings
import Restyle.Proofs.Evaluating
import Restyle.Proofs.Meaning

/-!
# Bodies in terms of the props

The body of a function of the props is written without its parameter by taking away every access to a member of
it that stands in the text of the body, wherever that is.  The text that is left has the value of the function for
all props exactly if it reads as the body with the accesses of its tree, and nothing else, replaced by names.
-/

namespace Restyle.Text

/-! ## What a scan leaves -/

/-- Whether a character stands in a reading that starts somewhere in a text. -/
def inReading {α : Type} (read? : Option Char → List Char → Option (α × Nat)) (cs : List Char) (i : Nat) : Bool :=
  (List.range (i + 1)).any fun start =>
    (read? (cs.take start).getLast? (cs.drop start)).any fun (_, n) => i < start + n

section

variable {α : Type} {read? : Option Char → List Char → Option (α × Nat)}

/-- No reading starts inside of another one. -/
def Apart (read? : Option Char → List Char → Option (α × Nat)) : Prop :=
  ∀ last pre post a n, read? last (pre ++ post) = some (a, n) → pre ≠ [] → pre.length < n →
    read? (pre.getLast?.or last) post = none

/-- Whether a reading that starts before a place reaches a character. -/
def Reached (read? : Option Char → List Char → Option (α × Nat)) (cs : List Char) (place i : Nat) : Prop :=
  ∃ start < place, ∃ a n, read? (cs.take start).getLast? (cs.drop start) = some (a, n) ∧ i < start + n

theorem reached_succ_iff {cs : List Char} {place i : Nat} : Reached read? cs (place + 1) i ↔
    Reached read? cs place i ∨
      ∃ a n, read? (cs.take place).getLast? (cs.drop place) = some (a, n) ∧ i < place + n := by
  constructor
  · rintro ⟨start, hstart, h⟩
    rcases Nat.lt_succ_iff_lt_or_eq.mp hstart with hlt | rfl
    · exact .inl ⟨start, hlt, h⟩
    · exact .inr h
  · rintro (⟨start, hstart, h⟩ | h)
    · exact ⟨start, Nat.lt_succ_of_lt hstart, h⟩
    · exact ⟨place, Nat.lt_succ_self place, h⟩

/-- What a character stands in starts at the character at the latest. -/
theorem inReading_iff_reached {cs : List Char} {i : Nat} :
    inReading read? cs i = true ↔ Reached read? cs (i + 1) i := by
  simp [inReading, Reached, Option.any_eq_true]

/-- No reading starts where one reaches that has started before. -/
theorem read?_eq_none_of_reached (hapart : Apart read?) {pre post : List Char}
    (h : Reached read? (pre ++ post) pre.length pre.length) : read? pre.getLast? post = none := by
  obtain ⟨start, hstart, a, n, hread, hn⟩ := h
  have hsplit : pre = pre.take start ++ pre.drop start := (List.take_append_drop start pre).symm
  have hmid : pre.drop start ≠ [] := by
    intro hnil
    have := List.length_drop (i := start) (l := pre)
    rw [hnil, List.length_nil] at this
    omega
  rw [List.take_append_of_le_length hstart.le, List.drop_append_of_le_length hstart.le] at hread
  have hnone := hapart _ _ _ _ _ hread hmid (by rw [List.length_drop]; omega)
  rwa [← List.getLast?_append, ← hsplit] at hnone

/--
What a scan leaves of the rest of a text, if the readings that it has come across reach as far as it still has to
skip.
-/
theorem removeFrom_eq (hapart : Apart read?) (hpos : ∀ last cs a n, read? last cs = some (a, n) → 0 < n)
    {cs pre post : List Char} (hcs : cs = pre ++ post) {skip : Nat}
    (hskip : ∀ i, pre.length ≤ i → (Reached read? cs pre.length i ↔ i < pre.length + skip)) :
    removeFrom (fun last cs => (read? last cs).map (·.2)) pre.getLast? skip post =
      ((post.zipIdx pre.length).filter fun (_, i) => !inReading read? cs i).map (·.1) := by
  induction post generalizing pre skip with
  | nil => cases skip <;> rfl
  | cons c post ih =>
      have hhere : read? (cs.take pre.length).getLast? (cs.drop pre.length) = read? pre.getLast? (c :: post) := by
        rw [hcs, List.take_left, List.drop_left]
      have hin : inReading read? cs pre.length = true ↔ Reached read? cs (pre.length + 1) pre.length :=
        inReading_iff_reached
      have hlength : (pre ++ [c]).length = pre.length + 1 := List.length_append
      have hrest {skip' : Nat} (h : ∀ i, pre.length + 1 ≤ i →
          (Reached read? cs (pre.length + 1) i ↔ i < pre.length + 1 + skip')) :
          removeFrom (fun last cs => (read? last cs).map (·.2)) (some c) skip' post =
            ((post.zipIdx (pre.length + 1)).filter fun (_, i) => !inReading read? cs i).map (·.1) := by
        have hcs' : cs = (pre ++ [c]) ++ post := by
          rw [hcs, List.append_assoc]
          rfl
        rw [← hlength] at h ⊢
        rw [← List.getLast?_concat (l := pre)]
        exact ih hcs' h
      simp only [reached_succ_iff, hhere] at hin hrest
      rw [List.zipIdx_cons]
      cases skip with
      | succ skip =>
          -- the character belongs to a reading that has started before, so none starts here
          have hreached := (hskip pre.length (Nat.le_refl _)).mpr (by omega)
          have hnone : read? pre.getLast? (c :: post) = none := read?_eq_none_of_reached hapart (hcs ▸ hreached)
          rw [removeFrom, hrest, List.filter_cons_of_neg (by simp [hin.mpr (.inl hreached)])]
          intro i hi
          rw [hskip i (by omega), hnone]
          simp only [reduceCtorEq, false_and, exists_false, or_false]
          omega
      | zero =>
          rw [Nat.add_zero] at hskip
          have hbefore : ∀ i, pre.length ≤ i → ¬ Reached read? cs pre.length i := fun i hi h => by
            have := (hskip i hi).mp h
            omega
          rw [removeFrom]
          cases hread : read? pre.getLast? (c :: post) with
          | some reading =>
              obtain ⟨a, n⟩ := reading
              have hn := hpos _ _ _ _ hread
              rw [hread] at hin hrest
              have hmem : inReading read? cs pre.length = true := hin.mpr (.inr ⟨a, n, rfl, by omega⟩)
              rw [List.filter_cons_of_neg (by simp [hmem])]
              refine hrest fun i hi => ?_
              simp only [hbefore i (by omega), false_or, Option.some.injEq, Prod.mk.injEq]
              constructor
              · rintro ⟨_, _, ⟨rfl, rfl⟩, h⟩
                omega
              · exact fun h => ⟨a, n, ⟨rfl, rfl⟩, by omega⟩
          | none =>
              rw [hread] at hin hrest
              have hout : inReading read? cs pre.length = false := by
                rw [← Bool.not_eq_true, hin]
                rintro (h | ⟨_, _, h, _⟩)
                · exact hbefore _ (Nat.le_refl _) h
                · cases h
              rw [List.filter_cons_of_pos (by simp [hout]), List.map_cons]
              refine congrArg _ (hrest fun i hi => ?_)
              simp only [hbefore i (by omega), reduceCtorEq, false_and, exists_false, or_false, false_iff]
              omega

/-- A scan leaves the characters that stand in no reading. -/
theorem removeFrom_eq_filter (hapart : Apart read?) (hpos : ∀ last cs a n, read? last cs = some (a, n) → 0 < n)
    (cs : List Char) :
    removeFrom (fun last cs => (read? last cs).map (·.2)) none 0 cs =
      (cs.zipIdx.filter fun (_, i) => !inReading read? cs i).map (·.1) := by
  have hcs : cs = [] ++ cs := rfl
  refine removeFrom_eq hapart hpos hcs fun i _ => ?_
  exact iff_of_false (fun ⟨_, hstart, _⟩ => Nat.not_lt_zero _ hstart) (by simp)

end

end Restyle.Text

namespace Restyle.Interpolation

/-- An access is the name of the value, a question mark or none, and a dot. -/
theorem accessOf?_spec {param : String} {last : Option Char} {cs rest : List Char}
    (h : accessOf? param last cs = some ((), rest)) :
    ∃ mark, (mark = [] ∨ mark = ['?']) ∧ cs = param.toList ++ mark ++ '.' :: rest := by
  unfold accessOf? at h
  simp only [Option.bind_eq_bind] at h
  split at h
  · cases h
  obtain ⟨after, hparam, h⟩ := Option.bind_eq_some_iff.mp h
  obtain ⟨rest', hdot, h⟩ := Option.bind_eq_some_iff.mp h
  cases h
  rw [Text.after?_eq_some hparam]
  replace hdot := Text.after?_eq_some hdot
  cases hmark : Text.after? ['?'] after with
  | none =>
      rw [hmark, Option.getD_none] at hdot
      exact ⟨[], .inl rfl, by rw [hdot]; simp⟩
  | some more =>
      rw [hmark, Option.getD_some] at hdot
      exact ⟨['?'], .inr rfl, by rw [Text.after?_eq_some hmark, hdot]; simp⟩

/-- The reader of the scan that takes accesses away. -/
def readAccess? (param : String) (last : Option Char) (cs : List Char) : Option (Unit × Nat) :=
  (accessOf? param last cs).map fun (_, rest) => ((), cs.length - rest.length)

theorem readAccess?_spec {param : String} {last : Option Char} {cs : List Char} {n : Nat}
    (h : readAccess? param last cs = some ((), n)) :
    ∃ mark rest, (mark = [] ∨ mark = ['?']) ∧ cs = param.toList ++ (mark ++ '.' :: rest) ∧
      n = param.toList.length + mark.length + 1 := by
  obtain ⟨⟨⟨⟩, rest⟩, haccess, heq⟩ := Option.map_eq_some_iff.mp h
  cases heq
  obtain ⟨mark, hmark, rfl⟩ := accessOf?_spec haccess
  exact ⟨mark, rest, hmark, List.append_assoc .., by simp; omega⟩

/-- No access starts inside of another one, if the name of the value is spelled without its marks. -/
theorem apart_readAccess? {param : String} (hnonempty : param ≠ "") (hdot : '.' ∉ param.toList)
    (hquestion : '?' ∉ param.toList) : Text.Apart (readAccess? param) := by
  intro last pre post _ n h hpre hlength
  obtain ⟨mark, rest, hmark, heq, rfl⟩ := readAccess?_spec h
  rw [← Option.not_isSome_iff_eq_none]
  intro hsome
  obtain ⟨⟨⟨⟩, m⟩, hother⟩ := Option.isSome_iff_exists.mp hsome
  obtain ⟨mark', rest', -, hpost, -⟩ := readAccess?_spec hother
  have hpos : 0 < pre.length := List.length_pos_iff.mpr hpre
  -- the sign behind the name of the first access would be in the name of the second one
  obtain ⟨sign, hsign, hnot⟩ : ∃ sign, (mark ++ '.' :: rest)[0]? = some sign ∧ sign ∉ param.toList := by
    rcases hmark with rfl | rfl
    · exact ⟨'.', rfl, hdot⟩
    · exact ⟨'?', rfl, hquestion⟩
  have hparam : 0 < param.toList.length :=
    List.length_pos_iff.mpr fun hnil => hnonempty (String.toList_eq_nil_iff.mp hnil)
  rcases Nat.lt_or_ge param.toList.length pre.length with hlt | hle
  · -- the second access would start with the dot of the first one
    have hmark' : mark = ['?'] := by
      rcases hmark with rfl | rfl
      · rw [List.length_nil] at hlength
        omega
      · rfl
    subst hmark'
    have hdotAt : (pre ++ post)[pre.length]? = some '.' := by
      have hpre' : pre.length = param.toList.length + 1 := by
        simp only [List.length_cons, List.length_nil] at hlength
        omega
      rw [heq, hpre', List.getElem?_append_right (by omega)]
      simp
    rw [List.getElem?_append_right (Nat.le_refl _), Nat.sub_self, hpost, List.getElem?_append_left hparam] at hdotAt
    exact hdot (List.mem_of_getElem? hdotAt)
  · have hsignAt : (pre ++ post)[param.toList.length]? = some sign := by
      rw [heq, List.getElem?_append_right (Nat.le_refl _), Nat.sub_self, hsign]
    rw [List.getElem?_append_right hle, hpost, List.getElem?_append_left (by omega)] at hsignAt
    exact hnot (List.mem_of_getElem? hsignAt)

/-- Whether a character of a text stands in an access to a member of a value of the given name. -/
def inAccess (param text : String) (i : Nat) : Bool :=
  Text.inReading (readAccess? param) text.toList i

/-- The text without the characters that stand in accesses. -/
def withoutAccesses (param text : String) : String :=
  String.ofList ((text.toList.zipIdx.filter fun (_, i) => !inAccess param text i).map (·.1))

/-- The scan takes the accesses away, wherever they stand, and nothing else. -/
theorem removeAll_accessOf? {param : String} (hnonempty : param ≠ "") (hdot : '.' ∉ param.toList)
    (hquestion : '?' ∉ param.toList) (text : String) :
    String.ofList (Text.removeAll (accessOf? param) text.toList) = withoutAccesses param text := by
  have hreader : (fun last cs => (accessOf? param last cs).map fun ((_ : Unit), rest) => cs.length - rest.length) =
      fun last cs => (readAccess? param last cs).map (·.2) := by
    funext last cs
    rw [readAccess?, Option.map_map]
    rfl
  have hpos : ∀ last cs a n, readAccess? param last cs = some (a, n) → 0 < n := by
    intro last cs a n h
    obtain ⟨mark, rest, -, -, rfl⟩ := readAccess?_spec h
    omega
  have hfilter := Text.removeFrom_eq_filter (apart_readAccess? hnonempty hdot hquestion) hpos text.toList
  rw [← hreader] at hfilter
  exact congrArg String.ofList hfilter

end Restyle.Interpolation

namespace Restyle.Inlining

open Restyle.Interpolation (inlineExpression? withoutAccesses)
open Restyle.Module (patternNames statementNames)
open Restyle.Script (isAsync isVariable)
open Restyle.Tsx (Node)

/-! ## Names -/

/-- What a function takes its argument as. -/
def parameterPattern? (f : Node) : Option Node :=
  match f.child? .parameter with
  | some single => some single
  | none =>
    match ((f.child? .parameters).map Node.operands).getD [] with
    | [item] =>
      if item.kind == .requiredParameter || item.kind == .optionalParameter then
        some ((item.child? .pattern).getD item)
      else some item
    | _ => none

/-- The key under which an entry of a pattern takes a prop as it is. -/
def keyOf? (name : String) (entry : Node) : Option String :=
  match entry.kind with
  | .shorthandPattern => if entry.text == name then some entry.text else none
  | .pairPattern => do
    let value ← entry.child? .value
    let key ← entry.child? .key
    if value.isIdentifier && value.text == name then
      match key.kind with
      | .propertyIdentifier => some key.text
      | .string => some (Tsx.stringValue key.text)
      | _ => none
    else none
  | _ => none

/-- What a name in the body of a function of the props stands for. -/
def nameIn (f : Node) (name : String) : Name :=
  match parameterPattern? f with
  | some pattern =>
    if pattern.kind == .objectPattern then
      match pattern.named.findSome? (keyOf? name) with
      | some key => .prop key
      | none => if (patternNames pattern).contains name then .part name else .around name
    else if pattern.text == name then .props
    else .around name
  | none => .around name

/-- What a name stands for where some props are taken out of the props under their own names. -/
def nameOut (taken : List String) (name : String) : Name :=
  if taken.contains name then .prop name else .around name

theorem apart_nameOut (taken : List String) : Apart (nameOut taken) := by
  intro name
  unfold nameOut
  split <;> exact nofun

/-! ## Values -/

section

variable {V : Type} (rules : Rules) (E : Evaluator V)

/-- The value of the call of a function with the given body. -/
def callValue (f body : Node) : V :=
  let v := E.read ((rules.tree body).value rules E (nameIn f))
  if isAsync f then E.async v else v

/-- The value of a text where some props are taken out of the props. -/
def textValue? (taken : List String) (text : String) : Option V :=
  (Tsx.readExpression text).toOption.map fun n => E.read ((rules.tree n).value rules E (nameOut taken))

end

/-- A text has the value of the call of a function for all props, whatever makes up the values. -/
def Computes (rules : Rules) (taken : List String) (f body : Node) (text : String) : Prop :=
  ∀ (V : Type) (E : Evaluator V), textValue? rules E taken text = some (callValue rules E f body)

/-- A text reads as the body of a function with the accesses to the props replaced by names. -/
def ReadsInlined (rules : Rules) (taken : List String) (f body : Node) (text : String) : Prop :=
  ∃ n, Tsx.readExpression text = .ok n ∧
    (rules.tree body).isInlined rules true (nameIn f) (nameOut taken) (rules.tree n) = true

theorem toOption_eq_some_iff {ε α : Type} {x : Except ε α} {a : α} : x.toOption = some a ↔ x = .ok a := by
  cases x <;> simp [Except.toOption]

/-- What is read from a place is no promise. -/
theorem read_term_ne_async {rules : Rules} {names : String → Name} (h : Apart names) (t : Tree) (v : Term) :
    termEvaluator.read (t.term rules names) ≠ .async v := by
  have hread : termEvaluator.read (t.term rules names) = t.term rules names :=
    Term.read_of_prop?_eq_none (prop?_term h t)
  rw [hread]
  intro hvalue
  cases t with
  | leaf kind text =>
      rw [term_leaf] at hvalue
      unfold Evaluator.ofLeaf at hvalue
      split at hvalue <;> cases hvalue
  | node head parts =>
      rw [term_node] at hvalue
      cases hvalue

theorem computes_iff (rules : Rules) (taken : List String) (f body : Node) (text : String) :
    Computes rules taken f body text ↔ isAsync f = false ∧ ReadsInlined rules taken f body text := by
  constructor
  · intro h
    obtain ⟨n, hn, hvalue⟩ := Option.map_eq_some_iff.mp (h Term termEvaluator)
    cases hasync : isAsync f with
    | true =>
        rw [callValue, hasync, if_pos rfl] at hvalue
        exact absurd hvalue (read_term_ne_async (apart_nameOut taken) _ _)
    | false =>
        refine ⟨rfl, n, toOption_eq_some_iff.mp hn, (forall_read_value_eq_iff rules (apart_nameOut taken) ..).mp ?_⟩
        intro V E
        have hE := h V E
        rw [textValue?, callValue, hasync, if_neg Bool.false_ne_true, hn, Option.map_some] at hE
        exact (Option.some.inj hE).symm
  · rintro ⟨hasync, n, hn, hinlined⟩ V E
    rw [textValue?, callValue, hasync, if_neg Bool.false_ne_true, toOption_eq_some_iff.mpr hn, Option.map_some]
    exact congrArg some ((forall_read_value_eq_iff rules (apart_nameOut taken) ..).mpr hinlined V E).symm

/-! ## The body of a function -/

theorem inlineExpression?_spec {n : Node} {text : String} (h : inlineExpression? n = some text) :
    ∃ f body, n.arrow? = some f ∧ f.body = some body ∧
      text = match f.param.filter fun p => !p.isEmpty with
        | some param => String.ofList (Text.removeAll (Interpolation.accessOf? param) body.text.toList)
        | none => body.text := by
  unfold inlineExpression? at h
  simp only [Option.bind_eq_bind, Option.bind_eq_some_iff] at h
  obtain ⟨f, hf, body, hbody, h⟩ := h
  refine ⟨f, body, hf, hbody, ?_⟩
  split at h
  · cases h
  cases hparam : f.param.filter fun p => !p.isEmpty with
  | some param =>
      rw [hparam] at h
      dsimp only at h
      split at h
      · cases h
      · exact (Option.some.inj h).symm
  | none =>
      rw [hparam] at h
      exact (Option.some.inj h).symm

/-- The name of a variable is spelled without the marks of an access. -/
theorem not_mem_of_isVariable {name : String} (h : isVariable name = true) {c : Char}
    (hc : Tsx.isNameChar c = false) : c ∉ name.toList := by
  unfold isVariable at h
  rw [Bool.and_eq_true, Bool.and_eq_true, List.all_eq_true] at h
  exact fun hmem => Bool.false_ne_true (hc.symm.trans (h.1.2 c hmem))

theorem ne_empty_of_isVariable {name : String} (h : isVariable name = true) : name ≠ "" := by
  rintro rfl
  exact absurd h (by decide)

theorem whole_nameOut (taken : List String) : Whole (nameOut taken) := by
  intro name part
  unfold nameOut
  split <;> exact nofun

/-- Where the text reads as the body with accesses replaced, the literals of the body are those of the text. -/
theorem ReadsInlined.literals_eq {rules : Rules} {taken : List String} {f body n : Node} {text : String}
    (h : ReadsInlined rules taken f body text) (hn : Tsx.readExpression text = .ok n) :
    (rules.tree n).literals = (rules.tree body).literals := by
  obtain ⟨m, hm, hinlined⟩ := h
  cases hm.symm.trans hn
  exact (Tree.literals_eq hinlined).symm

/-- Where the text reads as the body with accesses replaced, the body takes the props as they are. -/
theorem ReadsInlined.nameIn_ne_part {rules : Rules} {taken : List String} {f body : Node} {text : String}
    (h : ReadsInlined rules taken f body text) {x : String} (hx : x ∈ (rules.tree body).freeNames) (part : String) :
    nameIn f x ≠ .part part := by
  obtain ⟨m, -, hinlined⟩ := h
  exact Tree.name_ne_part (whole_nameOut taken) hinlined x hx part

/--
The text for a function is its body without the accesses to the parameter that stand in the text of the body.  It
has the value of the call for all props, given those that are taken out of them, exactly if the function is not
asynchronous and the text reads as the body with the accesses to the props in its tree, and nothing else, replaced
by names.  So no literal of the body may have lost a character, and the body may use nothing that a pattern makes
of the props other than the props as they are.
-/
theorem inline_computes_iff (rules : Rules) (taken : List String) {n : Node} {text : String}
    (h : inlineExpression? n = some text) :
    ∃ f body, n.arrow? = some f ∧ f.body = some body ∧
      (∀ param, f.param = some param → isVariable param = true → text = withoutAccesses param body.text) ∧
      (f.param = none → text = body.text) ∧
      (Computes rules taken n.unwrap body text ↔
        isAsync n.unwrap = false ∧ ReadsInlined rules taken n.unwrap body text) ∧
      (Computes rules taken n.unwrap body text →
        (∀ m, Tsx.readExpression text = .ok m → (rules.tree m).literals = (rules.tree body).literals) ∧
          ∀ x ∈ (rules.tree body).freeNames, ∀ part, nameIn n.unwrap x ≠ .part part) := by
  obtain ⟨f, body, hf, hbody, htext⟩ := inlineExpression?_spec h
  refine ⟨f, body, hf, hbody, fun param hparam hvariable => ?_, fun hparam => ?_, computes_iff .., fun hcomputes => ?_⟩
  · have hne := ne_empty_of_isVariable hvariable
    have hfilter : (f.param.filter fun p => !p.isEmpty) = some param := by
      rw [hparam, Option.filter_some, if_pos (by simpa [String.isEmpty_iff] using hne)]
    rw [htext, hfilter]
    exact Interpolation.removeAll_accessOf? hne (not_mem_of_isVariable hvariable (by decide))
      (not_mem_of_isVariable hvariable (by decide)) _
  · rw [htext, hparam]
    rfl
  · have hreads := ((computes_iff ..).mp hcomputes).2
    exact ⟨fun m hm => hreads.literals_eq hm, fun x hx part => hreads.nameIn_ne_part hx part⟩

/-! ## Functions of the props -/

/-- The names that the parameters of a function bind. -/
def parameterNames (f : Node) : List String :=
  match f.child? .parameter with
  | some single => patternNames single
  | none =>
    (((f.child? .parameters).map Node.operands).getD []).flatMap fun item =>
      patternNames ((item.child? .pattern).getD item)

/-- The rules for expressions in which functions and blocks bind names. -/
def plainRules : Rules where
  binds n :=
    match n.kind with
    | .arrowFunction | .functionExpression => parameterNames n
    | .statementBlock => n.named.flatMap statementNames
    | _ => []
  isPlace head role :=
    match head.kind with
    | .call => role == some .function
    | .assignment => role == some .left
    | .operation => role == some .left || head.signs.any ["++", "--"].contains
    | .unary => head.tokens == ["delete"]
    | .jsxOpening | .jsxClosing | .jsxSelfClosing => role == some .name
    | _ => false
  isPlace_member head role h := by rw [h]

/-- A function that computes with a prop and puts a unit behind it. -/
def sizedFunction : Node := Script.expression "p => p.size * 2 + \"px\""

/-- Whether a text is given for a function and reads as its body with accesses replaced. -/
def inlinesWell (rules : Rules) (taken : List String) (n : Node) (text : String) : Bool :=
  inlineExpression? n == some text && !isAsync n.unwrap &&
    (n.arrow?.bind (·.body)).any fun body => (Tsx.readExpression text).toOption.any fun m =>
      (rules.tree body).isInlined rules true (nameIn n.unwrap) (nameOut taken) (rules.tree m)

/-- The text without the parameter has the value of the function. -/
theorem computes_sizedFunction :
    inlineExpression? sizedFunction = some "size * 2 + \"px\"" ∧
      ∃ f body, sizedFunction.arrow? = some f ∧ f.body = some body ∧
        Computes plainRules ["size"] sizedFunction.unwrap body "size * 2 + \"px\"" := by
  have hchecks : inlinesWell plainRules ["size"] sizedFunction "size * 2 + \"px\"" = true := by decide +kernel
  simp only [inlinesWell, Bool.and_eq_true, beq_iff_eq, Bool.not_eq_true', Option.any_eq_true,
    Option.bind_eq_some_iff] at hchecks
  obtain ⟨⟨htext, hasync⟩, body, ⟨f, hf, hbody⟩, m, hm, hinlined⟩ := hchecks
  obtain ⟨f', body', hf', hbody', -, -, hiff, -⟩ := inline_computes_iff plainRules ["size"] htext
  cases hf.symm.trans hf'
  cases hbody.symm.trans hbody'
  exact ⟨htext, f, body, hf, hbody, hiff.mpr ⟨hasync, m, toOption_eq_some_iff.mp hm, hinlined⟩⟩

/-- Values of sums of texts. -/
inductive Shown where
  | props
  | text (s : String)
  | other
  deriving DecidableEq

/-- The evaluator of sums of texts, for given props and values that a pattern makes of them. -/
def textEvaluator (prop part : String → Shown) : Evaluator Shown where
  name
    | .props => .props
    | .prop key => prop key
    | .part name => part name
    | _ => .other
  shorthand _ _ := .other
  leaf
    | .string, text => .text (Tsx.stringValue text)
    | .propertyIdentifier, text | .token, text => .text text
    | _, _ => .other
  node _
    | [(_, .props), (_, .text key)] => prop key
    | [(_, .text a), (_, .text "+"), (_, .text b)] => .text (a ++ b)
    | _ => .other
  read := id
  async _ := .other
  read_prop _ _ _ := rfl

/-- A function with the name of its parameter and a dot in a string. -/
def quotingFunction : Node := Script.expression "p => \"p.\" + p.y"

/-- A function that gives a prop a default. -/
def defaultingFunction : Node := Script.expression "(\x7b size = \"1\" \x7d) => size + \"px\""

/-- Whether a text is given for a function but has another value than its call. -/
def differs (rules : Rules) (E : Evaluator Shown) (taken : List String) (n : Node) (text : String)
    (value expected : Shown) : Bool :=
  inlineExpression? n == some text && textValue? rules E taken text == some value && value != expected &&
    (n.arrow?.bind (·.body)).any fun body => callValue rules E n.unwrap body == expected

theorem not_computes_of_differs {rules : Rules} {E : Evaluator Shown} {taken : List String} {n : Node} {text : String}
    {value expected : Shown} (h : differs rules E taken n text value expected = true) :
    inlineExpression? n = some text ∧
      ∃ f body, n.arrow? = some f ∧ f.body = some body ∧ ¬ Computes rules taken n.unwrap body text := by
  simp only [differs, Bool.and_eq_true, beq_iff_eq, bne_iff_ne, Option.any_eq_true, Option.bind_eq_some_iff] at h
  obtain ⟨⟨⟨htext, hvalue⟩, hne⟩, body, ⟨f, hf, hbody⟩, hcall⟩ := h
  refine ⟨htext, f, body, hf, hbody, fun hcomputes => hne ?_⟩
  have heq := hcomputes Shown E
  rw [hvalue, hcall] at heq
  exact Option.some.inj heq

/-- A string loses characters, and a default is lost. -/
theorem not_computes_quotingFunction_defaultingFunction :
    (inlineExpression? quotingFunction = some "\"\" + y" ∧
      ∃ f body, quotingFunction.arrow? = some f ∧ f.body = some body ∧
        ¬ Computes plainRules ["y"] quotingFunction.unwrap body "\"\" + y") ∧
    inlineExpression? defaultingFunction = some "size + \"px\"" ∧
      ∃ f body, defaultingFunction.arrow? = some f ∧ f.body = some body ∧
        ¬ Computes plainRules ["size"] defaultingFunction.unwrap body "size + \"px\"" := by
  -- for the props with y = "a" the call gives "p.a", and for those without a size it gives "1px"
  have hdiffer : (differs plainRules
      (textEvaluator (fun key => if key = "y" then .text "a" else .other) fun _ => .other)
      ["y"] quotingFunction "\"\" + y" (.text "a") (.text "p.a") &&
    differs plainRules (textEvaluator (fun _ => .other) fun _ => .text "1")
      ["size"] defaultingFunction "size + \"px\"" .other (.text "1px")) = true := by decide +kernel
  rw [Bool.and_eq_true] at hdiffer
  exact ⟨not_computes_of_differs hdiffer.1, not_computes_of_differs hdiffer.2⟩

end Restyle.Inlining
