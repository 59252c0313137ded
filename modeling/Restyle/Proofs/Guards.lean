import Restyle.Proofs.Decision
import Restyle.Proofs.Trees

/-!
# Guards of variants

A test of a prop becomes two variants behind guards, which are texts.  A guard is read back and evaluated
over the props that the component takes apart.  The guards select the branch that the test selects only
under conditions, which are worked out exactly.
-/

namespace Restyle.Script

open Restyle.Tsx (Node)
open Restyle.Interpolation (Branch Classified PropTest Surroundings branchNames branchesOf classify
  classifyArrow? classifyCall? comparisons decideConditional propTest? propsPath?)

/-! ## Guards -/

/-- What a guard says about a variable. -/
inductive Demand where
  | truth
  | negation
  | equal (p : Primitive)
  | different (p : Primitive)

/-- Whether a value meets a demand. -/
def Demand.holds : Demand → Value → Bool
  | .truth, v => v.truthy
  | .negation, v => !v.truthy
  | .equal p, v => v.same p
  | .different p, v => !v.same p

/-- The demand that follows the name of a variable. -/
def demand? (E : Engine) : List Char → Option Demand
  | [] => some .truth
  | ' ' :: '=' :: '=' :: '=' :: ' ' :: literal => (E.read (String.ofList literal)).map .equal
  | ' ' :: '!' :: '=' :: '=' :: ' ' :: literal => (E.read (String.ofList literal)).map .different
  | _ => none

/-- The variable at the front of a text, with what follows it. -/
def leadingName? (cs : List Char) : Option (String × List Char) :=
  let name := String.ofList (cs.takeWhile Tsx.isNameChar)
  if isVariable name then some (name, cs.dropWhile Tsx.isNameChar) else none

/-- A guard as a variable and a demand. -/
def guard? (E : Engine) (text : String) : Option (String × Demand) :=
  match text.toList with
  | '!' :: cs =>
    (leadingName? cs).bind fun (name, rest) => if rest.isEmpty then some (name, .negation) else none
  | cs => (leadingName? cs).bind fun (name, rest) => (demand? E rest).map fun demand => (name, demand)

theorem isVariable_of_leadingName? {cs rest : List Char} {name : String}
    (h : leadingName? cs = some (name, rest)) : isVariable name = true := by
  unfold leadingName? at h
  dsimp only at h
  split at h
  · next hname =>
      cases h
      exact hname
  · cases h

theorem isVariable_of_guard? {E : Engine} {text name : String} {demand : Demand}
    (h : guard? E text = some (name, demand)) : isVariable name = true := by
  unfold guard? at h
  split at h
  · obtain ⟨⟨name', rest⟩, hname, h⟩ := Option.bind_eq_some_iff.mp h
    dsimp only at h
    split at h
    · cases h
      exact isVariable_of_leadingName? hname
    · cases h
  · obtain ⟨⟨name', rest⟩, hname, h⟩ := Option.bind_eq_some_iff.mp h
    obtain ⟨d, -, heq⟩ := Option.map_eq_some_iff.mp h
    cases heq
    exact isVariable_of_leadingName? hname

/-- A demand that some values meet and others do not. -/
def Demand.Open (demand : Demand) : Prop :=
  ∀ b, ∃ v, demand.holds v = b

theorem open_of_demand? {E : Engine} {cs : List Char} {demand : Demand}
    (h : demand? E cs = some demand) : demand.Open := by
  unfold demand? at h
  split at h
  · cases h
    exact fun b => ⟨.ofBool b, rfl⟩
  · next literal =>
      obtain ⟨p, hp, rfl⟩ := Option.map_eq_some_iff.mp h
      have hsame : p.same p = true := same_self fun e => E.read_ne_nan _ (e ▸ hp)
      intro b
      cases b with
      | true => exact ⟨.primitive p, hsame⟩
      | false => exact ⟨.object 0 [] .undefined, rfl⟩
  · next literal =>
      obtain ⟨p, hp, rfl⟩ := Option.map_eq_some_iff.mp h
      have hsame : p.same p = true := same_self fun e => E.read_ne_nan _ (e ▸ hp)
      intro b
      cases b with
      | true => exact ⟨.object 0 [] .undefined, rfl⟩
      | false => exact ⟨.primitive p, by simp [Demand.holds, Value.same, hsame]⟩
  · cases h

theorem open_of_guard? {E : Engine} {text name : String} {demand : Demand}
    (h : guard? E text = some (name, demand)) : demand.Open := by
  unfold guard? at h
  split at h
  · obtain ⟨⟨name', rest⟩, -, h⟩ := Option.bind_eq_some_iff.mp h
    dsimp only at h
    split at h
    · cases h
      exact fun b => ⟨.ofBool !b, by simp [Demand.holds, Value.ofBool, Value.truthy, Primitive.truthy]⟩
    · cases h
  · obtain ⟨⟨name', rest⟩, -, h⟩ := Option.bind_eq_some_iff.mp h
    obtain ⟨d, hd, heq⟩ := Option.map_eq_some_iff.mp h
    cases heq
    exact open_of_demand? hd

/-- A variable ends at the first character that is not part of a name. -/
theorem leadingName?_append {name : String} (h : isVariable name = true) (rest : List Char)
    (hrest : ∀ c ∈ rest.head?, Tsx.isNameChar c = false) :
    leadingName? (name.toList ++ rest) = some (name, rest) := by
  have hall : ∀ c ∈ name.toList, Tsx.isNameChar c = true := by
    unfold isVariable at h
    simp only [Bool.and_eq_true, List.all_eq_true] at h
    exact h.1.2
  have htake : rest.takeWhile Tsx.isNameChar = [] := by
    cases rest with
    | nil => rfl
    | cons c cs => simp [hrest c rfl]
  have hdrop : rest.dropWhile Tsx.isNameChar = rest := by
    cases rest with
    | nil => rfl
    | cons c cs => simp [hrest c rfl]
  unfold leadingName?
  rw [List.takeWhile_append_of_pos hall, List.dropWhile_append_of_pos hall, htake, hdrop,
    List.append_nil, String.ofList_toList]
  simp [h]

theorem guard?_negation (E : Engine) {name : String} (h : isVariable name = true) :
    guard? E ("!" ++ name) = some (name, .negation) := by
  have hname := leadingName?_append h [] nofun
  rw [List.append_nil] at hname
  unfold guard?
  rw [show ("!" ++ name).toList = '!' :: name.toList from String.toList_append ..]
  simp [hname]

theorem guard?_leadingName (E : Engine) {name : String} (h : isVariable name = true) (rest : String)
    (hrest : ∀ c ∈ rest.toList.head?, Tsx.isNameChar c = false) :
    guard? E (name ++ rest) = (demand? E rest.toList).map fun demand => (name, demand) := by
  have hname := leadingName?_append h _ hrest
  unfold guard?
  rw [String.toList_append]
  split
  · next cs heq =>
      have hstart : Tsx.isNameStart '!' = false := by decide
      cases hcs : name.toList with
      | nil => simp [isVariable, hcs] at h
      | cons c tail =>
          rw [hcs] at heq
          cases heq
          simp [isVariable, hcs, hstart] at h
  · rw [hname]
    rfl

theorem guard?_truth (E : Engine) {name : String} (h : isVariable name = true) :
    guard? E name = some (name, .truth) := by
  have hname := guard?_leadingName E h "" nofun
  rwa [String.append_empty] at hname

theorem guard?_equal (E : Engine) {name : String} (h : isVariable name = true) (literal : String) :
    guard? E (name ++ " === " ++ literal) = (E.read literal).map fun p => (name, .equal p) := by
  have hchars : (" === " ++ literal).toList = ' ' :: '=' :: '=' :: '=' :: ' ' :: literal.toList :=
    String.toList_append ..
  rw [String.append_assoc, guard?_leadingName E h, hchars, demand?, String.ofList_toList, Option.map_map]
  · rfl
  · rw [hchars]
    rintro c ⟨⟩
    decide

theorem guard?_different (E : Engine) {name : String} (h : isVariable name = true)
    (literal : String) :
    guard? E (name ++ " !== " ++ literal) = (E.read literal).map fun p => (name, .different p) := by
  have hchars : (" !== " ++ literal).toList = ' ' :: '!' :: '=' :: '=' :: ' ' :: literal.toList :=
    String.toList_append ..
  rw [String.append_assoc, guard?_leadingName E h, hchars, demand?, String.ofList_toList, Option.map_map]
  · rfl
  · rw [hchars]
    rintro c ⟨⟩
    decide

/-! ## The guards of a test -/

/-- What the guard of the branch for true demands of the tested prop. -/
def demandOf? (E : Engine) (c : Classified) : Option Demand :=
  match c.comparison with
  | some (operator, value) =>
    (E.read (Style.literalCode value)).map
      (if operator == "===" || operator == "==" then .equal else .different)
  | none => some (if c.negated then .negation else .truth)

/-- The opposite demand. -/
def Demand.opposite : Demand → Demand
  | .truth => .negation
  | .negation => .truth
  | .equal p => .different p
  | .different p => .equal p

theorem holds_opposite (demand : Demand) (v : Value) :
    demand.opposite.holds v = !demand.holds v := by
  cases demand <;> simp [Demand.opposite, Demand.holds]

/-- The guard of one of the two branches. -/
def guardOf (c : Classified) (isTrue : Bool) : String :=
  if isTrue then (branchNames c "").1.2 else (branchNames c "").2.2

theorem guardOf_eq (c : Classified) (styleKey : String) :
    (branchNames c styleKey).1.2 = guardOf c true ∧ (branchNames c styleKey).2.2 = guardOf c false := by
  unfold guardOf branchNames
  cases c.comparison with
  | none => cases c.negated <;> exact ⟨rfl, rfl⟩
  | some comparison =>
      dsimp only
      split <;> exact ⟨rfl, rfl⟩

/-- The guards of a test of a variable demand what the test says and its opposite. -/
theorem guard?_guardOf (E : Engine) {c : Classified} {prop : String} (hpath : c.path.head? = some prop)
    (h : isVariable prop = true) (isTrue : Bool) :
    guard? E (guardOf c isTrue) = (demandOf? E c).map fun demand =>
      (prop, if isTrue then demand else demand.opposite) := by
  unfold guardOf branchNames demandOf?
  rw [hpath]
  dsimp only [Option.getD_some]
  cases c.comparison with
  | none =>
      cases c.negated <;> cases isTrue <;>
        simp [guard?_truth E h, guard?_negation E h, Demand.opposite]
  | some comparison =>
      obtain ⟨operator, value⟩ := comparison
      dsimp only
      cases operator == "===" || operator == "==" <;> cases isTrue <;>
        simp [guard?_equal E h, guard?_different E h, Option.map_map, Function.comp_def,
          Demand.opposite]

/-! ## Where the test comes from -/

/-- A classified expression carries the test of a function of the props. -/
structure Carries (n : Node) (c : Classified) (f : Tsx.Arrow) (test : Node) (t : PropTest) : Prop where
  parameter_eq : n.unwrap.parameter? = some (f.param, f.destructured)
  test_eq : test? n.unwrap = some test
  read : propTest? f test = some t
  path_eq : c.path = t.path
  comparison_eq : c.comparison = t.comparison
  negated_eq : c.negated = t.negated

theorem classifyArrow?_conditional {around : Surroundings} {base c : Classified} {f : Tsx.Arrow}
    {body : Node} (h : classifyArrow? around base f body = some c) (hc : c.tag = .conditional) :
    ∃ test t, testIn? body = some test ∧ propTest? f test = some t ∧ c.path = t.path ∧
      c.comparison = t.comparison ∧ c.negated = t.negated := by
  unfold classifyArrow? at h
  split at h
  · split at h
    · split at h <;> cases h <;> cases hc
    · cases h
      cases hc
    · cases h
  · split at h
    · next hkind =>
        simp only [Option.bind_eq_bind, Option.bind_eq_some_iff, Option.pure_def] at h
        obtain ⟨t, ⟨test, htest, ht⟩, truthy, -, falsy, -, h⟩ := h
        cases h
        exact ⟨test, t, by simp [testIn?, hkind, htest], ht, rfl, rfl, rfl⟩
    · next hkind =>
        simp only [Option.bind_eq_bind, Option.bind_eq_some_iff, Option.pure_def] at h
        obtain ⟨left, hleft, right, -, h⟩ := h
        split at h
        · obtain ⟨t, ht, truthy, -, h⟩ := by simpa only [Option.bind_eq_some_iff] using h
          cases h
          exact ⟨left, t, by simp [testIn?, hkind, hleft], ht, rfl, rfl, rfl⟩
        · split at h
          · obtain ⟨path, -, fallback, -, h⟩ := by simpa only [Option.bind_eq_some_iff] using h
            cases h
            cases hc
          · cases h
    · cases h

theorem arrow?_spec {n : Node} {f : Tsx.Arrow} (h : n.unwrap.arrow? = some f) :
    n.unwrap.parameter? = some (f.param, f.destructured) ∧
      ∀ b, f.body = some b → ∃ body, n.unwrap.child? .body = some body ∧ b = body.unwrap := by
  unfold Node.arrow? at h
  rw [Node.unwrap_unwrap] at h
  dsimp only at h
  split at h
  · simp only [Option.bind_eq_bind, Option.bind_eq_some_iff, Option.pure_def] at h
    obtain ⟨⟨param, destructured⟩, hparameter, body, hbody, h⟩ := h
    cases h
    refine ⟨hparameter, fun b hb => ⟨body, hbody, ?_⟩⟩
    dsimp only at hb
    split at hb <;> cases hb
    rfl
  · cases h

theorem exists_carries {around : Surroundings} {index : Int} {n : Node}
    (h : (classify around index n).tag = .conditional) :
    ∃ f test t, Carries n (classify around index n) f test t := by
  unfold classify at h ⊢
  dsimp only at h ⊢
  split at h
  · split at h
    · cases h
    · split at h <;> cases h
  next hname =>
    rw [if_neg hname]
    split at h
    · next f hf =>
        obtain ⟨hparameter, hbody⟩ := arrow?_spec hf
        cases hb : f.body with
        | none =>
            rw [hb] at h
            cases h
        | some b =>
            obtain ⟨body, hchild, rfl⟩ := hbody b hb
            rw [hb, Option.bind_some] at h
            rw [Option.bind_some]
            cases hc : classifyArrow? around _ f body.unwrap with
            | none =>
                rw [hc] at h
                cases h
            | some c =>
                rw [hc] at h
                obtain ⟨test, t, htest, hread, hpath, hcomparison, hnegated⟩ :=
                  classifyArrow?_conditional hc h
                refine ⟨f, test, t, hparameter, ?_, hread, hpath, hcomparison, hnegated⟩
                rw [test?, hchild, Option.bind_some, htest]
    · next hf =>
        cases hcall : classifyCall? around _ n.unwrap with
        | none =>
            rw [hcall] at h
            cases h
        | some c =>
            rw [hcall] at h
            unfold classifyCall? at hcall
            simp only [Option.bind_eq_bind, Option.bind_eq_some_iff, Option.pure_def] at hcall
            obtain ⟨⟨callee, arguments⟩, -, path, -, first, -, binding, -, hcall⟩ := hcall
            cases hcall
            cases h

/-- A prop, maybe with a default, that has the given name or is bound to it as to a variable. -/
def Binding.IsProp (name : String) : Binding → Prop
  | .props => False
  | .prop key => key = name ∨ isVariable name = true
  | .withDefault key _ => key = name

/-- Whether a binding takes the prop of the given name, without a default. -/
def Binding.isProp (name : String) : Binding → Bool
  | .prop key => key == name
  | _ => false

theorem Binding.eq_of_isProp {name : String} {b : Binding} (h : b.isProp name = true) : b = .prop name := by
  cases b with
  | prop key => rw [eq_of_beq h]
  | _ => cases h

theorem isProp_of_entryBinding? {E : Engine} {name : String} {entry : Node} {b : Binding}
    (h : entryBinding? E name entry = some b) : b.IsProp name := by
  unfold entryBinding? at h
  split at h
  · next hname =>
      split at h
      · split at h <;> cases h
        exact .inl rfl
      · split at h <;> cases h
        rfl
      · split at h <;> cases h
        exact .inr hname
      · cases h
  · cases h

/-- A pattern binds its names to props, as far as they are names of variables. -/
theorem entryBinding?_of_mem {pattern : Node} {name : String} (E : Engine)
    (h : name ∈ pattern.boundNames) :
    (isVariable name = false ∧ pattern.named.findSome? (entryBinding? E name) = none) ∨
      ∃ b, pattern.named.findSome? (entryBinding? E name) = some b ∧ b.IsProp name := by
  cases hfind : pattern.named.findSome? (entryBinding? E name) with
  | some b =>
      obtain ⟨entry, -, hb⟩ := List.exists_of_findSome?_eq_some hfind
      exact .inr ⟨b, rfl, isProp_of_entryBinding? hb⟩
  | none =>
      refine .inl ⟨?_, rfl⟩
      obtain ⟨entry, hentry, hname⟩ := List.mem_filterMap.mp h
      have hnone := List.findSome?_eq_none_iff.mp hfind entry hentry
      unfold entryBinding? at hnone
      split at hname
      · next hkind =>
          cases hname
          simpa [hkind] using hnone
      · next hkind => simpa [hkind, hname] using hnone
      · next hkind => simpa [hkind, hname] using hnone
      · cases hname

/-- A parameter is the props, and the names that it binds are props. -/
theorem binding?_of_parameter? (E : Engine) {f : Node} {param : Option String} {names : List String}
    (h : f.parameter? = some (param, names)) :
    (∀ p, param = some p → binding? E f p = some .props ∧
      ∀ name b, binding? E f name = some b → b = .props) ∧
    ∀ name ∈ names, (isVariable name = false ∧ binding? E f name = none) ∨
      ∃ b, binding? E f name = some b ∧ b.IsProp name := by
  have hprops : ∀ (text name : String) (b : Binding),
      (if (text == name) = true then some Binding.props else none) = some b → b = .props := by
    intro text name b hb
    split at hb <;> cases hb
    rfl
  unfold Node.parameter? at h
  unfold binding?
  cases hsingle : f.child? .parameter with
  | some single =>
      simp only [hsingle] at h ⊢
      cases h
      refine ⟨fun p hp => ?_, fun _ hname => absurd hname List.not_mem_nil⟩
      cases hp
      exact ⟨if_pos (beq_self_eq_true _), hprops _⟩
  | none =>
      simp only [hsingle] at h ⊢
      generalize ((f.child? .parameters).map Node.operands).getD [] = items at h ⊢
      split at h
      · cases h
        exact ⟨fun _ hp => absurd hp (Option.some_ne_none _).symm, fun _ hname => absurd hname List.not_mem_nil⟩
      · next item =>
          dsimp only at h ⊢
          generalize (if (item.kind == .requiredParameter || item.kind == .optionalParameter) = true then
            (item.child? .pattern).getD item else item) = pattern at h ⊢
          generalize pattern.kind = kind at h ⊢
          split at h
          · cases h
            refine ⟨fun p hp => ?_, fun _ hname => absurd hname List.not_mem_nil⟩
            cases hp
            exact ⟨if_pos (beq_self_eq_true _), hprops _⟩
          · cases h
            exact ⟨fun _ hp => absurd hp (Option.some_ne_none _).symm, fun name hname => entryBinding?_of_mem E hname⟩
          · cases h
      · cases h

/-- The way from a tested name to the value that is tested; there is none from a name that is unbound. -/
theorem eval_of_propsPath? (E : Engine) {f : Node} {a : Tsx.Arrow} {r : Node} {path : List String}
    (hparameter : f.parameter? = some (a.param, a.destructured))
    (hpath : propsPath? a r = some path) :
    ∃ name rest, path = name :: rest ∧
      ((isVariable name = false ∧ ∀ props, eval E (namesIn E f props) r = none) ∨
      (source E f name).IsProp name ∧ ∀ props w, Reaches ((source E f name).value E props) rest w →
        eval E (namesIn E f props) r = some w) := by
  obtain ⟨hprops, hnames⟩ := binding?_of_parameter? E hparameter
  unfold propsPath? at hpath
  simp only [Option.bind_eq_bind, Option.bind_eq_some_iff] at hpath
  obtain ⟨full, hfull, hpath⟩ := hpath
  cases full with
  | nil => cases hpath
  | cons first rest =>
      dsimp only at hpath
      split at hpath
      · next hparam =>
          obtain ⟨p, hp, hfirst⟩ : ∃ p, a.param = some p ∧ p = first := by
            cases hp : a.param with
            | none => simp [hp] at hparam
            | some p => exact ⟨p, rfl, by simp [hp] at hparam; exact hparam.2⟩
          subst hfirst
          obtain ⟨hself, hother⟩ := hprops p hp
          cases rest with
          | nil => cases hpath
          | cons name keys =>
              cases hpath
              have hsource : source E f name = .prop name := by
                unfold source
                cases hb : binding? E f name with
                | none => rfl
                | some b => rw [hother name b hb]
              refine ⟨name, keys, rfl, .inr ⟨by rw [hsource]; exact .inl rfl, fun props w hreach => ?_⟩⟩
              rw [hsource] at hreach
              refine eval_of_path E _ hfull (v := .ofProps props) ?_ ⟨0, props, _, rfl, hreach⟩
              rw [namesIn, hself]
              rfl
      · split at hpath
        · next hmem =>
            cases hpath
            refine ⟨first, rest, rfl, ?_⟩
            rcases hnames first (by simpa using hmem) with ⟨hname, hb⟩ | ⟨b, hb, hprop⟩
            · refine .inl ⟨hname, fun props => eval_of_unbound E _ hfull ?_⟩
              rw [namesIn, hb]
              rfl
            · have hsource : source E f first = b := by
                unfold source
                rw [hb]
                cases b with
                | props => cases hprop
                | prop key => rfl
                | withDefault key d => rfl
              refine .inr ⟨by rw [hsource]; exact hprop, fun props w hreach => ?_⟩
              rw [hsource] at hreach
              refine eval_of_path E _ hfull ?_ hreach
              rw [namesIn, hb]
              rfl
        · cases hpath

/-! ## What the test makes of a value -/

/-- The literal that the test of a function compares with. -/
def literalOf? (n : Node) : Option Node :=
  (test? n.unwrap).bind compared?

/-- Whether the test of a classified expression lets a value pass. -/
def passes (E : Engine) (n : Node) (c : Classified) : Value → Bool :=
  outcome E { path := c.path, comparison := c.comparison, negated := c.negated } (literalOf? n)

/-- The comparison of a classified expression, with the literal in the source. -/
structure ComparesIn (n : Node) (c : Classified) (operator : String) (value : Style.Value) (l : Node) :
    Prop where
  comparison_eq : c.comparison = some (operator, value)
  known : operator ∈ comparisons
  literal_eq : literalOf? n = some l

/-- A test reads a prop, follows the rest of its path, and selects by the value at the end. -/
theorem selection_of_conditional (E : Engine) {around : Surroundings} {index : Int} {n : Node}
    {c : Classified} (hc : classify around index n = c) (h : c.tag = .conditional) :
    (∃ name rest, c.path = name :: rest ∧
      ((isVariable name = false ∧ ∀ props, selection E n props = none) ∨
      (source E n.unwrap name).IsProp name ∧
        ∀ props w, Reaches ((source E n.unwrap name).value E props) rest w →
          selection E n props = some (passes E n c w))) ∧
    (c.comparison = none ∨ ∃ operator value l, ComparesIn n c operator value l) := by
  subst hc
  obtain ⟨f, test, t, hcarries⟩ := exists_carries h
  obtain ⟨⟨r, hr, heval⟩, hcomparison⟩ := propTest?_spec E hcarries.read
  have hliteral : literalOf? n = compared? test := by
    rw [literalOf?, hcarries.test_eq, Option.bind_some]
  have hpasses : passes E n (classify around index n) = outcome E t (compared? test) := by
    unfold passes
    rw [hliteral, hcarries.path_eq, hcarries.comparison_eq, hcarries.negated_eq]
  constructor
  · obtain ⟨name, rest, hpath, hcases⟩ := eval_of_propsPath? E hcarries.parameter_eq hr
    refine ⟨name, rest, hcarries.path_eq.trans hpath, ?_⟩
    rcases hcases with ⟨hname, hnone⟩ | ⟨hsource, hreach⟩
    · refine .inl ⟨hname, fun props => ?_⟩
      rw [selection, hcarries.test_eq, Option.bind_some, heval, hnone props]
      rfl
    · refine .inr ⟨hsource, fun props w hw => ?_⟩
      rw [selection, hcarries.test_eq, Option.bind_some, heval, hreach props w hw, hpasses]
      rfl
  · rcases hcomparison with hnone | ⟨operator, value, l, hl⟩
    · exact .inl (hcarries.comparison_eq.trans hnone)
    · exact .inr ⟨operator, value, l, hcarries.comparison_eq.trans hl.comparison_eq, hl.known,
        hliteral.trans hl.literal_eq⟩

theorem passes_plain (E : Engine) {n : Node} {c : Classified} (h : c.comparison = none) (v : Value) :
    passes E n c v = (v.truthy != c.negated) := by
  unfold passes
  rw [outcome_plain E h]

theorem passes_comparison (E : Engine) {n l : Node} {c : Classified} {operator : String}
    {value : Style.Value} (h : ComparesIn n c operator value l) (v : Value) :
    passes E n c v = E.compare operator v (constant E l) := by
  unfold passes
  rw [h.literal_eq, outcome_comparison E h.comparison_eq]

/-- A plain object. -/
def someObject : Value := .object 0 [] .undefined

/-- Both branches of a test can be selected. -/
theorem exists_passes (E : Engine) {n : Node} {c : Classified}
    (h : c.comparison = none ∨ ∃ operator value l, ComparesIn n c operator value l) (b : Bool) :
    ∃ v, passes E n c v = b := by
  rcases h with hnone | ⟨operator, value, l, hl⟩
  · refine ⟨.ofBool (b != c.negated), ?_⟩
    rw [passes_plain E hnone]
    cases b <;> cases c.negated <;> rfl
  · have hnan := constant_ne_nan E l
    have hsame : Value.same (.primitive (constant E l)) (constant E l) = true := same_self hnan
    have halike : Value.alike E.number (.primitive (constant E l)) (constant E l) = true :=
      alike_self E.number hnan
    have hobject : someObject.alike E.number (constant E l) = false :=
      alike_object_undefined E.number 0 [] _
    have hknown := hl.known
    simp only [comparisons, List.mem_cons, List.not_mem_nil, or_false] at hknown
    simp only [passes_comparison E hl]
    rcases hknown with rfl | rfl | rfl | rfl <;> cases b
    · exact ⟨someObject, rfl⟩
    · exact ⟨.primitive (constant E l), hsame⟩
    · exact ⟨.primitive (constant E l), by simp [Engine.compare, hsame]⟩
    · exact ⟨someObject, rfl⟩
    · exact ⟨someObject, hobject⟩
    · exact ⟨.primitive (constant E l), halike⟩
    · exact ⟨.primitive (constant E l), by simp [Engine.compare, halike]⟩
    · exact ⟨someObject, by simp [Engine.compare, hobject]⟩

/-! ## Guards that agree with their test -/

/-- The guard of a branch can be read, and it holds exactly for the props that select the branch. -/
def GuardAgrees (E : Engine) (n : Node) (guard : String) (isTrue : Bool) (props : Table Value) : Prop :=
  ∃ name demand, guard? E guard = some (name, demand) ∧
    (demand.holds (Value.field props name) = true ↔ selection E n props = some isTrue)

/-- The compared literal is written as a text with an equal value. -/
def KeepsLiteral (E : Engine) (n : Node) (value : Style.Value) : Prop :=
  ∃ l p, literalOf? n = some l ∧ E.read (Style.literalCode value) = some p ∧
    p.same (constant E l) = true

/-- The compared literal is empty, and it is written as null. -/
def KeepsEmptiness (E : Engine) (n : Node) (value : Style.Value) : Prop :=
  ∃ l, literalOf? n = some l ∧ E.read (Style.literalCode value) = some .null ∧
    (constant E l).isEmpty = true

/-- A comparison without conversions. -/
def isStrict (operator : String) : Bool :=
  operator == "===" || operator == "!=="

/--
A test whose guards say what it says.  It reads a prop itself, under the name of the prop, which is that of
a variable; and a comparison is a strict one with a literal that keeps its value.  A name with a default is
never undefined, so that a loose comparison with an empty literal will do; but then the default has to pass
the test exactly if undefined passes the guard.
-/
inductive Faithful (E : Engine) (n : Node) (c : Classified) : Prop where
  | plain {prop : String} : c.path = [prop] → isVariable prop = true →
      source E n.unwrap prop = .prop prop →
      (∀ operator value, c.comparison = some (operator, value) →
        isStrict operator = true ∧ KeepsLiteral E n value) → Faithful E n c
  | defaulted {prop : String} {default : Node} {demand : Demand} : c.path = [prop] →
      isVariable prop = true → source E n.unwrap prop = .withDefault prop default →
      (∀ operator value, c.comparison = some (operator, value) →
        isStrict operator = true ∧ KeepsLiteral E n value ∨
          isStrict operator = false ∧ KeepsEmptiness E n value) →
      demandOf? E c = some demand →
      passes E n c (E.default default) = demand.holds (.primitive .undefined) → Faithful E n c

/-- Whether a test reads a prop itself and does not compare it, by computation. -/
def isPlainTest (E : Engine) (n : Node) (c : Classified) (prop : String) : Bool :=
  c.path == [prop] && isVariable prop && c.comparison.isNone && (source E n.unwrap prop).isProp prop

theorem faithful_of_isPlainTest {E : Engine} {n : Node} {c : Classified} {prop : String}
    (h : isPlainTest E n c prop = true) : Faithful E n c := by
  simp only [isPlainTest, Bool.and_eq_true, beq_iff_eq, Option.isNone_iff_eq_none] at h
  obtain ⟨⟨⟨hpath, hvariable⟩, hcomparison⟩, hsource⟩ := h
  refine .plain hpath hvariable (Binding.eq_of_isProp hsource) fun operator value h => ?_
  cases hcomparison.symm.trans h

/-- A strict comparison with a literal that keeps its value is what the guard demands. -/
theorem holds_of_keepsLiteral (E : Engine) {n : Node} {c : Classified} {demand : Demand}
    (hd : demandOf? E c = some demand)
    (hc : c.comparison = none ∨ ∃ operator value l, ComparesIn n c operator value l)
    (h : ∀ operator value, c.comparison = some (operator, value) →
      isStrict operator = true ∧ KeepsLiteral E n value) (v : Value) :
    demand.holds v = passes E n c v := by
  rcases hc with hnone | ⟨operator, value, l, hl⟩
  · rw [passes_plain E hnone]
    rw [demandOf?, hnone] at hd
    cases hd
    cases c.negated <;> simp [Demand.holds]
  · obtain ⟨hstrict, l', p, hl', hp, hsame⟩ := h operator value hl.comparison_eq
    cases hl.literal_eq.symm.trans hl'
    have hcongr := same_congr hsame v
    rw [passes_comparison E hl]
    rw [demandOf?, hl.comparison_eq] at hd
    dsimp only at hd
    rw [hp] at hd
    simp only [isStrict, Bool.or_eq_true, beq_iff_eq] at hstrict
    rcases hstrict with rfl | rfl
    · cases hd
      exact hcongr
    · cases hd
      simp [Demand.holds, Engine.compare, hcongr]

/-- A loose comparison with an empty literal differs from its guard on undefined alone. -/
theorem holds_of_keepsEmptiness (E : Engine) {n l : Node} {c : Classified} {demand : Demand}
    {operator : String} {value : Style.Value} (hd : demandOf? E c = some demand)
    (hl : ComparesIn n c operator value l) (hloose : isStrict operator = false)
    (h : KeepsEmptiness E n value) {v : Value} (hv : v ≠ .primitive .undefined) :
    demand.holds v = passes E n c v := by
  obtain ⟨l', hl', hp, hempty⟩ := h
  cases hl.literal_eq.symm.trans hl'
  have hnull : v.same .null = v.alike E.number (constant E l) := by
    cases v with
    | object => simp [Value.same, Value.alike, hempty]
    | primitive p =>
        cases p <;> simp_all [Value.same, Value.alike, Primitive.same, Primitive.alike,
          Primitive.isEmpty]
  rw [passes_comparison E hl]
  rw [demandOf?, hl.comparison_eq] at hd
  dsimp only at hd
  rw [hp] at hd
  have hknown := hl.known
  simp only [comparisons, List.mem_cons, List.not_mem_nil, or_false] at hknown
  rcases hknown with rfl | rfl | rfl | rfl
  · cases hloose
  · cases hloose
  · cases hd
    exact hnull
  · cases hd
    simp [Demand.holds, Engine.compare, hnull]

/-- Primitives that are equal to the same values, undefined maybe excepted, are equal. -/
theorem same_of_agree {p q : Primitive} (hp : p ≠ .number .nan) (hq : q ≠ .number .nan)
    (h : ∀ v : Value, v ≠ .primitive .undefined → v.same p = v.same q) : p.same q = true := by
  by_cases hundefined : p = .undefined
  · subst hundefined
    by_cases hq' : q = .undefined
    · rw [hq']
      rfl
    · have hsame := h (.primitive q) (by simpa using hq')
      rw [show Value.same (.primitive q) q = true from same_self hq] at hsame
      cases q with
      | undefined => rfl
      | _ => cases hsame
  · have hsame := h (.primitive p) (by simpa using hundefined)
    rw [show Value.same (.primitive p) p = true from same_self hp] at hsame
    exact hsame.symm

/-- A strict and a loose equality agree only on null and an empty literal. -/
theorem null_of_agree (read : String → Double) {p q : Primitive} (hq : q ≠ .number .nan)
    (h : ∀ v : Value, v ≠ .primitive .undefined → v.same p = v.alike read q) :
    p = .null ∧ q.isEmpty = true := by
  have hempty : q.isEmpty = true := by
    cases hfull : q.isEmpty with
    | true => rfl
    | false =>
        -- An object that is turned into the literal is loosely equal to it, and strictly to nothing.
        have hobject := h (.object 0 [] q) nofun
        rw [alike_object_self read 0 [] hq hfull] at hobject
        cases hobject
  have hnull := h (.primitive .null) (by simp)
  simp only [Value.same, Value.alike, Primitive.alike, hempty, Bool.or_true, if_true] at hnull
  cases p <;> first | exact ⟨rfl, hempty⟩ | cases hnull

/-- What agreement with the guard on all values that are defined says about a comparison. -/
theorem keeps_of_agree (E : Engine) {n l : Node} {c : Classified} {demand : Demand}
    {operator : String} {value : Style.Value} (hd : demandOf? E c = some demand)
    (hl : ComparesIn n c operator value l)
    (h : ∀ v : Value, v ≠ .primitive .undefined → demand.holds v = passes E n c v) :
    isStrict operator = true ∧ KeepsLiteral E n value ∨
      isStrict operator = false ∧ KeepsEmptiness E n value := by
  rw [demandOf?, hl.comparison_eq] at hd
  obtain ⟨p, hp, rfl⟩ := Option.map_eq_some_iff.mp hd
  have hnan : p ≠ .number .nan := fun e => E.read_ne_nan _ (e ▸ hp)
  simp only [passes_comparison E hl] at h
  have hknown := hl.known
  simp only [comparisons, List.mem_cons, List.not_mem_nil, or_false] at hknown
  have hstrict (h : ∀ v : Value, v ≠ .primitive .undefined → v.same p = v.same (constant E l)) :
      KeepsLiteral E n value :=
    ⟨l, p, hl.literal_eq, hp, same_of_agree hnan (constant_ne_nan E l) h⟩
  have hloose (h : ∀ v : Value, v ≠ .primitive .undefined →
      v.same p = v.alike E.number (constant E l)) : KeepsEmptiness E n value := by
    obtain ⟨rfl, hempty⟩ := null_of_agree E.number (constant_ne_nan E l) h
    exact ⟨l, hl.literal_eq, hp, hempty⟩
  rcases hknown with rfl | rfl | rfl | rfl
  · exact .inl ⟨rfl, hstrict h⟩
  · exact .inl ⟨rfl, hstrict fun v hv => Bool.not_inj (h v hv)⟩
  · exact .inr ⟨rfl, hloose h⟩
  · exact .inr ⟨rfl, hloose fun v hv => Bool.not_inj (h v hv)⟩

/-- Undefined tells a loose comparison with an empty literal from its guard. -/
theorem not_holds_undefined (E : Engine) {n l : Node} {c : Classified} {demand : Demand}
    {operator : String} {value : Style.Value} (hd : demandOf? E c = some demand)
    (hl : ComparesIn n c operator value l) (hloose : isStrict operator = false)
    (h : KeepsEmptiness E n value) :
    demand.holds (.primitive .undefined) ≠ passes E n c (.primitive .undefined) := by
  obtain ⟨l', hl', hp, hempty⟩ := h
  cases hl.literal_eq.symm.trans hl'
  have halike : Value.alike E.number (.primitive .undefined) (constant E l) = true := by
    simp [Value.alike, Primitive.alike, Primitive.isEmpty] at hempty ⊢
    exact hempty
  rw [passes_comparison E hl]
  rw [demandOf?, hl.comparison_eq] at hd
  dsimp only at hd
  rw [hp] at hd
  have hknown := hl.known
  simp only [comparisons, List.mem_cons, List.not_mem_nil, or_false] at hknown
  rcases hknown with rfl | rfl | rfl | rfl
  · cases hloose
  · cases hloose
  · cases hd
    simp [Demand.holds, Engine.compare, Value.same, Primitive.same, halike]
  · cases hd
    simp [Demand.holds, Engine.compare, Value.same, Primitive.same, halike]

theorem holds_polarity (demand : Demand) (isTrue : Bool) (v : Value) (b : Bool) :
    ((if isTrue then demand else demand.opposite).holds v = true ↔ some b = some isTrue) ↔
      demand.holds v = b := by
  cases isTrue <;> cases b <;> simp [holds_opposite]

/-- A value from which a path leads to the given one. -/
def nested : List String → Value → Value
  | [], w => w
  | key :: keys, w => .object 0 [(key, nested keys w)] .undefined

theorem field_cons (key : String) (v : Value) (props : Table Value) :
    Value.field ((key, v) :: props) key = v := by
  simp [Value.field, Table.get?]

theorem field_cons_of_ne {key name : String} (h : key ≠ name) (v : Value) (props : Table Value) :
    Value.field ((key, v) :: props) name = Value.field props name := by
  simp [Value.field, Table.get?, h]

theorem reaches_nested (keys : List String) (w : Value) : Reaches (nested keys w) keys w := by
  induction keys with
  | nil => rfl
  | cons key keys ih => exact ⟨0, _, _, rfl, by rwa [field_cons]⟩

/-- The prop that a binding takes. -/
def Binding.key? : Binding → Option String
  | .props => none
  | .prop key | .withDefault key _ => some key

theorem Binding.IsProp.exists_key {name : String} {b : Binding} (h : b.IsProp name) :
    ∃ key, b.key? = some key := by
  cases b with
  | props => cases h
  | prop key => exact ⟨key, rfl⟩
  | withDefault key default => exact ⟨key, rfl⟩

theorem Binding.value_of_key? (E : Engine) {b : Binding} {key : String} (h : b.key? = some key)
    {props : Table Value} (hdefined : Value.field props key ≠ .primitive .undefined) :
    b.value E props = Value.field props key := by
  cases b with
  | props => cases h
  | prop k =>
      cases h
      rfl
  | withDefault k default =>
      cases h
      rw [Binding.value]
      split
      · next hundefined => exact absurd hundefined hdefined
      · rfl

/-- Guards do not look into objects. -/
theorem holds_object (demand : Demand) (identity identity' : Nat) (properties properties' : Table Value)
    (converted converted' : Primitive) :
    demand.holds (.object identity properties converted) =
      demand.holds (.object identity' properties' converted') := by
  cases demand <;> rfl

/-- A guard that agrees with its test names the only prop on the path of the test. -/
theorem path_of_agree (E : Engine) {n : Node} {c : Classified} {guard name first : String}
    {rest : List String} {demand : Demand} {isTrue : Bool} (hguard : guard? E guard = some (name, demand))
    (hagree : ∀ props, demand.holds (Value.field props name) = true ↔ selection E n props = some isTrue)
    (hsource : (source E n.unwrap first).IsProp first)
    (hreach : ∀ props w, Reaches ((source E n.unwrap first).value E props) rest w →
      selection E n props = some (passes E n c w))
    (hboth : ∀ b, ∃ v, passes E n c v = b) :
    (source E n.unwrap first).key? = some name ∧ rest = [] := by
  obtain ⟨key, hkey⟩ := hsource.exists_key
  have hselect : ∀ props w, Value.field props key = nested rest w →
      nested rest w ≠ .primitive .undefined → selection E n props = some (passes E n c w) := by
    intro props w hfield hdefined
    refine hreach props w ?_
    rw [Binding.value_of_key? E hkey (hfield ▸ hdefined), hfield]
    exact reaches_nested rest w
  have hname : key = name := by
    -- Otherwise the prop of the guard is free to contradict the test of an object.
    refine Classical.byContradiction fun hne => ?_
    have hdefined : nested rest someObject ≠ .primitive .undefined := by
      cases rest <;> exact nofun
    obtain ⟨v, hv⟩ := open_of_guard? hguard (passes E n c someObject != isTrue)
    have hsame := hagree [(key, nested rest someObject), (name, v)]
    rw [field_cons_of_ne hne, field_cons, hv, hselect _ someObject (field_cons ..) hdefined] at hsame
    cases hp : passes E n c someObject <;> cases isTrue <;> simp [hp] at hsame
  subst hname
  refine ⟨hkey, ?_⟩
  cases rest with
  | nil => rfl
  | cons next rest =>
      -- On objects the guard is constant, but the test looks into them.
      obtain ⟨w, hw⟩ := hboth true
      obtain ⟨w', hw'⟩ := hboth false
      have htrue := hagree [(key, nested (next :: rest) w)]
      have hfalse := hagree [(key, nested (next :: rest) w')]
      rw [field_cons, hselect _ w (field_cons ..) nofun, hw] at htrue
      rw [field_cons, hselect _ w' (field_cons ..) nofun, hw'] at hfalse
      have hobject : demand.holds (nested (next :: rest) w) = demand.holds (nested (next :: rest) w') :=
        holds_object ..
      rw [hobject] at htrue
      have hcontra := htrue.symm.trans hfalse
      cases isTrue <;> simp at hcontra

/-- A test that says what its guards say is faithful. -/
theorem faithful_of_holds (E : Engine) {n : Node} {c : Classified} {prop : String} {demand : Demand}
    (hcomparison : c.comparison = none ∨ ∃ operator value l, ComparesIn n c operator value l)
    (hpath : c.path = [prop]) (hvariable : isVariable prop = true)
    (hkey : (source E n.unwrap prop).key? = some prop) (hd : demandOf? E c = some demand)
    (hholds : ∀ props, demand.holds (Value.field props prop) =
      passes E n c ((source E n.unwrap prop).value E props)) : Faithful E n c := by
  have hdefined : ∀ v : Value, v ≠ .primitive .undefined → demand.holds v = passes E n c v := by
    intro v hv
    have hprops := hholds [(prop, v)]
    rwa [Binding.value_of_key? E hkey (by rwa [field_cons]), field_cons] at hprops
  have hundefined := hholds []
  cases hb : source E n.unwrap prop with
  | props =>
      rw [hb] at hkey
      cases hkey
  | prop key =>
      rw [hb] at hkey hundefined
      cases hkey
      refine .plain hpath hvariable hb fun operator value hc => ?_
      rcases hcomparison with hnone | ⟨operator', value', l, hl⟩
      · cases hnone.symm.trans hc
      · cases hl.comparison_eq.symm.trans hc
        rcases keeps_of_agree E hd hl hdefined with hstrict | ⟨hloose, hempty⟩
        · exact hstrict
        · exact absurd hundefined (not_holds_undefined E hd hl hloose hempty)
  | withDefault key default =>
      rw [hb] at hkey hundefined
      cases hkey
      refine .defaulted hpath hvariable hb (fun operator value hc => ?_) hd hundefined.symm
      rcases hcomparison with hnone | ⟨operator', value', l, hl⟩
      · cases hnone.symm.trans hc
      · cases hl.comparison_eq.symm.trans hc
        exact keeps_of_agree E hd hl hdefined

theorem exists_demandOf? (E : Engine) {n : Node} {c : Classified}
    (h : ∀ operator value, c.comparison = some (operator, value) →
      isStrict operator = true ∧ KeepsLiteral E n value) : ∃ demand, demandOf? E c = some demand := by
  unfold demandOf?
  cases hc : c.comparison with
  | none => exact ⟨_, rfl⟩
  | some comparison =>
      obtain ⟨-, l, p, -, hp, -⟩ := h comparison.1 comparison.2 hc
      exact ⟨_, by dsimp only; rw [hp]; rfl⟩

/-- A faithful test says what its guards say. -/
theorem holds_of_faithful (E : Engine) {n : Node} {c : Classified}
    (hcomparison : c.comparison = none ∨ ∃ operator value l, ComparesIn n c operator value l)
    (h : Faithful E n c) :
    ∃ prop demand, c.path = [prop] ∧ isVariable prop = true ∧ demandOf? E c = some demand ∧
      ∀ props, demand.holds (Value.field props prop) =
        passes E n c ((source E n.unwrap prop).value E props) := by
  cases h with
  | @plain prop hpath hvariable hsource hkeeps =>
      obtain ⟨demand, hd⟩ := exists_demandOf? E hkeeps
      refine ⟨prop, demand, hpath, hvariable, hd, fun props => ?_⟩
      rw [hsource]
      exact holds_of_keepsLiteral E hd hcomparison hkeeps _
  | @defaulted prop default demand hpath hvariable hsource hkeeps hd hdefault =>
      refine ⟨prop, demand, hpath, hvariable, hd, fun props => ?_⟩
      rw [hsource, Binding.value]
      split
      · next hundefined => rw [hundefined, hdefault]
      · next hdefined =>
          rcases hcomparison with hnone | ⟨operator, value, l, hl⟩
          · exact holds_of_keepsLiteral E hd (.inl hnone) (by rw [hnone]; exact nofun) _
          · rcases hkeeps operator value hl.comparison_eq with hstrict | ⟨hloose, hempty⟩
            · refine holds_of_keepsLiteral E hd (.inr ⟨_, _, _, hl⟩) (fun operator' value' hc => ?_) _
              cases hl.comparison_eq.symm.trans hc
              exact hstrict
            · exact holds_of_keepsEmptiness E hd hl hloose hempty hdefined

/-- The guard of a branch agrees with the test for all props exactly if the test is faithful. -/
theorem guardAgrees_iff (E : Engine) {around : Surroundings} {index : Int} {n : Node} {c : Classified}
    (hc : classify around index n = c) (htag : c.tag = .conditional) (isTrue : Bool) :
    (∀ props, GuardAgrees E n (guardOf c isTrue) isTrue props) ↔ Faithful E n c := by
  obtain ⟨⟨first, rest, hpath, hcases⟩, hcomparison⟩ := selection_of_conditional E hc htag
  constructor
  · intro h
    obtain ⟨name, demand, hguard, hagree⟩ : ∃ name demand,
        guard? E (guardOf c isTrue) = some (name, demand) ∧
        ∀ props, demand.holds (Value.field props name) = true ↔ selection E n props = some isTrue := by
      obtain ⟨name, demand, hguard, -⟩ := h []
      refine ⟨name, demand, hguard, fun props => ?_⟩
      obtain ⟨name', demand', hguard', hprops⟩ := h props
      cases hguard.symm.trans hguard'
      exact hprops
    rcases hcases with ⟨-, hnone⟩ | ⟨hsource, hreach⟩
    · obtain ⟨v, hv⟩ := open_of_guard? hguard true
      have hselect := (hagree [(name, v)]).mp (by rw [field_cons, hv])
      rw [hnone] at hselect
      cases hselect
    · obtain ⟨hkey, rfl⟩ := path_of_agree E hguard hagree hsource hreach (exists_passes E hcomparison)
      have hname : first = name := by
        cases hb : source E n.unwrap first with
        | props =>
            rw [hb] at hkey
            cases hkey
        | withDefault key default =>
            rw [hb] at hkey hsource
            cases hkey
            exact hsource.symm
        | prop key =>
            rw [hb] at hkey hsource
            cases hkey
            rcases hsource with heq | hvariable
            · exact heq.symm
            · rw [guard?_guardOf E (by rw [hpath]; rfl) hvariable] at hguard
              obtain ⟨d, -, heq⟩ := Option.map_eq_some_iff.mp hguard
              exact (Prod.mk.inj heq).1
      subst hname
      have hvariable := isVariable_of_guard? hguard
      rw [guard?_guardOf E (by rw [hpath]; rfl) hvariable] at hguard
      obtain ⟨d, hd, heq⟩ := Option.map_eq_some_iff.mp hguard
      cases heq
      have hholds : ∀ props, d.holds (Value.field props first) =
          passes E n c ((source E n.unwrap first).value E props) := by
        intro props
        have hprops := hagree props
        rw [hreach props _ rfl] at hprops
        exact (holds_polarity ..).mp hprops
      exact faithful_of_holds E hcomparison hpath hvariable hkey hd hholds
  · intro h
    obtain ⟨prop, demand, hprop, hvariable, hd, hholds⟩ := holds_of_faithful E hcomparison h
    cases hpath.symm.trans hprop
    intro props
    refine ⟨first, if isTrue then demand else demand.opposite, ?_, ?_⟩
    · rw [guard?_guardOf E (by rw [hpath]; rfl) hvariable, hd]
      rfl
    · rcases hcases with ⟨hname, -⟩ | ⟨-, hreach⟩
      · rw [hvariable] at hname
        cases hname
      · rw [hreach props _ rfl, holds_polarity]
        exact hholds props

/-! ## Variants -/

/-- The name of one of the two branches. -/
def branchName (c : Classified) (styleKey : String) (isTrue : Bool) : String :=
  if isTrue then (branchNames c styleKey).1.1 else (branchNames c styleKey).2.1

theorem branchName_injective (c : Classified) (styleKey : String) {a b : Bool}
    (h : branchName c styleKey a = branchName c styleKey b) : a = b := by
  -- One of the two names has three characters more.
  have hlength : (branchName c styleKey true).length ≠ (branchName c styleKey false).length := by
    have hnot : "Not".length = 3 := by decide
    unfold branchName branchNames
    cases c.comparison with
    | none => cases c.negated <;> simp [String.length_append, hnot]
    | some comparison =>
        dsimp only
        cases comparison.1 == "===" || comparison.1 == "==" <;> simp [String.length_append, hnot]
  cases a <;> cases b
  · rfl
  · exact absurd (congrArg String.length h).symm hlength
  · exact absurd (congrArg String.length h) hlength
  · rfl

/-- The branches of a test have its two names, with the guards that go with them. -/
theorem variant_of_decideConditional {c : Classified} {place : Interpolation.Place} {prop : String}
    {compared base : Style.Value} {variants : List Branch}
    (h : decideConditional c place = .ok (.variant prop compared base variants)) :
    ∀ b ∈ variants, ∃ isTrue, b.name = branchName c place.styleKey isTrue ∧
      b.guard = guardOf c isTrue := by
  obtain ⟨htrue, hfalse⟩ := guardOf_eq c place.styleKey
  obtain ⟨-, hbranches, -⟩ := Interpolation.decideConditional_eq_variant_iff.mp h
  intro b hb
  obtain ⟨value, hmem, -⟩ := Interpolation.mem_of_branchesOf hbranches b hb
  rcases List.mem_cons.mp hmem with heq | hmem
  · have hnames := congrArg Prod.fst heq
    exact ⟨true, congrArg Prod.fst hnames, (congrArg Prod.snd hnames).trans htrue⟩
  · split at hmem
    · have hnames := congrArg Prod.fst (List.mem_singleton.mp hmem)
      exact ⟨false, congrArg Prod.fst hnames, (congrArg Prod.snd hnames).trans hfalse⟩
    · cases hmem

/-- The variants of a decision. -/
def variantsOf : Except Fault Interpolation.Decision → List Branch
  | .ok (.variant _ _ _ variants) => variants
  | _ => []

theorem eq_variant_of_mem {decision : Except Fault Interpolation.Decision} {b : Branch}
    (h : b ∈ variantsOf decision) :
    ∃ prop compared base, decision = .ok (.variant prop compared base (variantsOf decision)) := by
  unfold variantsOf at h ⊢
  split at h
  · exact ⟨_, _, _, rfl⟩
  · cases h

/--
The variants that a test becomes are selected by their guards as the test selects its branches, for all
props, exactly if the test is faithful.
-/
theorem guards_select_iff (E : Engine) {around : Surroundings} {index : Int} {n : Node} {c : Classified}
    {place : Interpolation.Place} (hc : classify around index n = c) (htag : c.tag = .conditional)
    (hne : variantsOf (decideConditional c place) ≠ []) :
    (∀ props, ∀ b ∈ variantsOf (decideConditional c place), ∀ isTrue,
      b.name = branchName c place.styleKey isTrue → GuardAgrees E n b.guard isTrue props) ↔
      Faithful E n c := by
  have hvariants : ∀ b ∈ variantsOf (decideConditional c place), ∃ isTrue,
      b.name = branchName c place.styleKey isTrue ∧ b.guard = guardOf c isTrue := by
    intro b hb
    obtain ⟨prop, compared, base, h⟩ := eq_variant_of_mem hb
    exact variant_of_decideConditional h b hb
  constructor
  · intro hagree
    obtain ⟨b, hb⟩ := List.exists_mem_of_ne_nil _ hne
    obtain ⟨isTrue, hname, hguard⟩ := hvariants b hb
    refine (guardAgrees_iff E hc htag isTrue).mp fun props => ?_
    rw [← hguard]
    exact hagree props b hb isTrue hname
  · intro hfaithful props b hb isTrue hname
    obtain ⟨isTrue', hname', hguard⟩ := hvariants b hb
    cases branchName_injective c place.styleKey (hname'.symm.trans hname)
    rw [hguard]
    exact (guardAgrees_iff E hc htag _).mpr hfaithful props

/-! ## An engine -/

/-- A number that is one. -/
def ofNumber (x : Double) : Primitive :=
  if x = .nan then .undefined else .number x

theorem ofNumber_ne_nan (x : Double) : ofNumber x ≠ .number .nan := by
  unfold ofNumber
  split
  · exact nofun
  · next hx => exact fun h => hx (Primitive.number.inj h)

/-- The primitive that a literal denotes. -/
def ofLiteral : Style.Value → Primitive
  | .bool b => .bool b
  | .int n => ofNumber (Double.ofInt n)
  | .float x => ofNumber x
  | .text s => .text s
  | _ => .null

theorem ofLiteral_ne_nan (value : Style.Value) : ofLiteral value ≠ .number .nan := by
  unfold ofLiteral
  split
  · exact nofun
  · exact ofNumber_ne_nan _
  · exact ofNumber_ne_nan _
  · exact nofun
  · exact nofun

/-- An engine without properties of primitives, in which only literals are defaults. -/
def plainEngine : Engine where
  number s := (Double.ofText? s).getD .nan
  literal n := if n.kind == .undefinedLiteral then .undefined else (n.plainLiteral?.map ofLiteral).getD .null
  read text := ((Tsx.readExpression text).toOption.bind Node.literal?).map ofLiteral
  property _ _ := .primitive .undefined
  emptyAccess n := if n.children.any fun c => c.text == "?." then some (.primitive .undefined) else none
  key := Node.text
  default n := .primitive ((n.literal?.map ofLiteral).getD .undefined)
  other _ := none
  literal_ne_nan n := by
    split
    · exact nofun
    · cases n.plainLiteral? with
      | none => exact nofun
      | some value => exact ofLiteral_ne_nan value
  read_ne_nan text h := by
    obtain ⟨value, -, heq⟩ := Option.map_eq_some_iff.mp h
    exact ofLiteral_ne_nan value heq

/-- The tree of an expression. -/
def expression (text : String) : Node :=
  (Tsx.readExpression text).toOption.getD (Tsx.Source.read text).root

/-- The place of a slot that is the whole value of a declaration. -/
def colorPlace : Interpolation.Place where
  component := "Button"
  styleKey := "button"
  request := {
    index := 0, property := "color", value := Css.Slot.markText 0, token := Css.Slot.markText 0
    tokens := [Css.Slot.markText 0], isFullValue := true }

/-- A test of a prop itself. -/
def flatTest : Node := expression "p => p.active ? \"red\" : \"blue\""

/-- The guards for a prop itself select as its test does. -/
theorem guards_flatTest : (classify {} 0 flatTest).tag = .conditional ∧
    variantsOf (decideConditional (classify {} 0 flatTest) colorPlace) ≠ [] ∧
    ∀ props, ∀ b ∈ variantsOf (decideConditional (classify {} 0 flatTest) colorPlace), ∀ isTrue,
      b.name = branchName (classify {} 0 flatTest) colorPlace.styleKey isTrue →
        GuardAgrees plainEngine flatTest b.guard isTrue props := by
  have hchecks : ((classify {} 0 flatTest).tag == .conditional &&
      !(variantsOf (decideConditional (classify {} 0 flatTest) colorPlace)).isEmpty &&
      (classify {} 0 flatTest).path == ["active"] && (classify {} 0 flatTest).comparison.isNone &&
      (match source plainEngine flatTest.unwrap "active" with
      | .prop key => key == "active"
      | _ => false)) = true := by
    decide +kernel
  simp only [Bool.and_eq_true, beq_iff_eq, Bool.not_eq_true', List.isEmpty_eq_false_iff,
    Option.isNone_iff_eq_none] at hchecks
  obtain ⟨⟨⟨⟨htag, hne⟩, hpath⟩, hcomparison⟩, hsource⟩ := hchecks
  refine ⟨htag, hne, (guards_select_iff plainEngine rfl htag hne).mpr ?_⟩
  refine .plain hpath (by decide) ?_ fun operator value h => ?_
  · split at hsource
    · next key heq => rw [heq, eq_of_beq hsource]
    · cases hsource
  · cases hcomparison.symm.trans h

/-- A test of a property of a prop. -/
def deepTest : Node := expression "p => p.a.b ? \"red\" : \"blue\""

/-- The guard for a property of a prop asks for the prop alone. -/
theorem guards_deepTest : (classify {} 0 deepTest).tag = .conditional ∧
    (∃ b ∈ variantsOf (decideConditional (classify {} 0 deepTest) colorPlace),
      b.name = branchName (classify {} 0 deepTest) colorPlace.styleKey true ∧ b.guard = "a") ∧
    ¬ GuardAgrees plainEngine deepTest "a" true
      [("a", .object 1 [("b", .ofBool false)] (.text "[object Object]"))] := by
  have hchecks : ((classify {} 0 deepTest).tag == .conditional &&
      (variantsOf (decideConditional (classify {} 0 deepTest) colorPlace)).any (fun b =>
        b.name == branchName (classify {} 0 deepTest) colorPlace.styleKey true && b.guard == "a") &&
      selection plainEngine deepTest
        [("a", .object 1 [("b", .ofBool false)] (.text "[object Object]"))] == some false) = true := by
    decide +kernel
  simp only [Bool.and_eq_true, beq_iff_eq, List.any_eq_true] at hchecks
  obtain ⟨⟨htag, hbranch⟩, hselection⟩ := hchecks
  refine ⟨htag, hbranch, ?_⟩
  rintro ⟨name, demand, hguard, hiff⟩
  rw [guard?_truth plainEngine (by decide)] at hguard
  cases hguard
  rw [hselection] at hiff
  cases hiff.mp rfl

end Restyle.Script
