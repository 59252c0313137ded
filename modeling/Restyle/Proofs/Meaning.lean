import Restyle.Proofs.Guards

/-!
# What classified expressions mean

A class of a function of the props stands for a value: what the recorded path leads to in the props, a
literal that it selects, or both combined.  This value is compared with that of a call of the function.  The
two agree for all props as long as the function reads the prop under the name that is recorded; a pattern
that gives the prop another name, or a default, spoils that.
-/

namespace Restyle.Script

open Restyle.Tsx (Node)
open Restyle.Interpolation (Classified Surroundings branchValue? classify classifyArrow? classifyCall?
  propTest? propsPath?)

/-! ## Walking along a path -/

/-- Whether a value is one of the two empty ones. -/
def Value.isEmpty : Value → Bool
  | .primitive p => p.isEmpty
  | .object .. => false

/-- A property of a value; those of an empty value are undefined. -/
def Engine.step (E : Engine) : Value → String → Value
  | .primitive p, key => if p.isEmpty then .primitive .undefined else E.property p key
  | .object _ properties _, key => Value.field properties key

/-- The value that a path leads to. -/
def Engine.walk (E : Engine) : Value → List String → Value
  | v, [] => v
  | v, key :: keys => E.walk (E.step v key) keys

/-- No value that a path leads through is empty. -/
def Engine.Clear (E : Engine) : Value → List String → Prop
  | _, [] => True
  | v, key :: keys => v.isEmpty = false ∧ E.Clear (E.step v key) keys

/-- Accesses to properties of empty values fail or give nothing. -/
def Engine.Regular (E : Engine) : Prop :=
  ∀ access v, E.emptyAccess access = some v → v = .primitive .undefined

theorem walk_nested (E : Engine) (keys : List String) (w : Value) : E.walk (nested keys w) keys = w := by
  induction keys with
  | nil => rfl
  | cons key keys ih =>
      show E.walk (Value.field [(key, nested keys w)] key) keys = w
      rw [field_cons, ih]

theorem clear_nested (E : Engine) (keys : List String) (w : Value) : E.Clear (nested keys w) keys := by
  induction keys with
  | nil => trivial
  | cons key keys ih =>
      refine ⟨rfl, ?_⟩
      show E.Clear (Value.field [(key, nested keys w)] key) keys
      rwa [field_cons]

theorem clear_ofProps (E : Engine) (props : Table Value) (name : String) (rest : List String) :
    E.Clear (.ofProps props) (name :: rest) ↔ E.Clear (Value.field props name) rest :=
  ⟨And.right, fun h => ⟨rfl, h⟩⟩

/-- What is left of a value after a row of accesses, each of which may fail. -/
def Engine.chase (E : Engine) : Value → List (Node × String) → Option Value
  | v, [] => some v
  | v, (access, key) :: steps => (E.get access v key).bind (E.chase · steps)

theorem chase_snoc (E : Engine) (v : Value) (steps : List (Node × String)) (access : Node) (key : String) :
    E.chase v (steps ++ [(access, key)]) = (E.chase v steps).bind fun w => E.get access w key := by
  induction steps generalizing v with
  | nil => simp [Engine.chase]
  | cons step steps ih =>
      obtain ⟨a, k⟩ := step
      rw [List.cons_append, Engine.chase, Engine.chase, Option.bind_assoc]
      exact congrArg (Option.bind (E.get a v k)) (funext ih)

theorem get_of_isEmpty_eq_false (E : Engine) (access : Node) {v : Value} (h : v.isEmpty = false)
    (key : String) : E.get access v key = some (E.step v key) := by
  cases v with
  | object => rfl
  | primitive p =>
      cases p with
      | undefined => cases h
      | null => cases h
      | bool b => rfl
      | number x => rfl
      | text s => rfl

theorem step_of_get {E : Engine} (hE : E.Regular) {access : Node} {v w : Value} {key : String}
    (h : E.get access v key = some w) : E.step v key = w := by
  cases hv : v.isEmpty with
  | false =>
      rw [get_of_isEmpty_eq_false E access hv] at h
      exact Option.some.inj h
  | true =>
      cases v with
      | object => cases hv
      | primitive p =>
          cases p with
          | undefined => exact (hE _ _ h).symm
          | null => exact (hE _ _ h).symm
          | bool b => cases hv
          | number x => cases hv
          | text s => cases hv

/-- A row of accesses gives the value at its end, or it fails on an empty value on its way. -/
theorem chase_spec {E : Engine} (hE : E.Regular) (v : Value) (steps : List (Node × String)) :
    (∀ w, E.chase v steps = some w → w = E.walk v (steps.map (·.2))) ∧
      (E.Clear v (steps.map (·.2)) → E.chase v steps = some (E.walk v (steps.map (·.2)))) := by
  induction steps generalizing v with
  | nil => exact ⟨fun w hw => (Option.some.inj hw).symm, fun _ => rfl⟩
  | cons step steps ih =>
      obtain ⟨access, key⟩ := step
      obtain ⟨hvalue, hclear⟩ := ih (E.step v key)
      constructor
      · intro w hw
        obtain ⟨x, hx, hw⟩ := Option.bind_eq_some_iff.mp hw
        rw [← step_of_get hE hx] at hw
        exact hvalue w hw
      · rintro ⟨hv, hrest⟩
        rw [Engine.chase, get_of_isEmpty_eq_false E access hv, Option.bind_some]
        exact hclear hrest

/-- The evaluation of a path is a row of accesses from the name at its front. -/
theorem eval_chase (E : Engine) {n : Node} {name : String} {keys : List String}
    (h : n.path? = some (name :: keys)) :
    ∃ steps : List (Node × String), steps.map (·.2) = keys ∧
      ∀ names, eval E names n = (names name).bind (E.chase · steps) := by
  induction n using Node.induction generalizing keys with
  | step n ih =>
      rw [Node.path?_eq] at h
      -- one more access after a path
      have hsnoc : ∀ (o access : Node) (before : List String) (key : String), o ∈ n.children →
          o.path? = some before → before ++ [key] = name :: keys →
          ∃ steps : List (Node × String), steps.map (·.2) = keys ∧ ∀ names,
            (eval E names o).bind (fun v => E.get access v key) = (names name).bind (E.chase · steps) := by
        intro o access before key ho hbefore heq
        obtain ⟨rest, rfl⟩ := exists_of_snoc (ne_nil_of_path? hbefore) heq
        obtain ⟨steps, hsteps, heval⟩ := ih o ho hbefore
        refine ⟨steps ++ [(access, key)], ?_, fun names => ?_⟩
        · rw [List.map_append, hsteps]
          exact (List.cons.inj heq).2
        · rw [heval, Option.bind_assoc]
          exact congrArg (Option.bind (names name)) (funext fun v => (chase_snoc E v steps access key).symm)
      cases hwrapper : n.isWrapper with
      | true =>
          obtain ⟨c, hc, hinner⟩ := Node.exists_inner? hwrapper
          simp only [hwrapper, if_true, hinner, Option.bind_some] at h
          obtain ⟨steps, hsteps, heval⟩ := ih c hc h
          refine ⟨steps, hsteps, fun names => ?_⟩
          rw [← heval, eval_eq E names n]
          simp [hwrapper, hinner]
      | false =>
          simp only [hwrapper, Bool.false_eq_true, if_false] at h
          split at h
          · next hk =>
              cases h
              exact ⟨[], rfl, fun names => by simp [eval_eq, hwrapper, hk, Engine.chase]⟩
          · next hk =>
              cases h
              exact ⟨[], rfl, fun names => by simp [eval_eq, hwrapper, hk, Engine.chase]⟩
          · next hk =>
              simp only [Option.bind_eq_bind, Option.bind_eq_some_iff, Option.pure_def,
                Option.some.injEq] at h
              obtain ⟨before, ⟨o, ho, hbefore⟩, property, hproperty, h⟩ := h
              obtain ⟨steps, hsteps, heval⟩ :=
                hsnoc o n before property.text (List.mem_of_find?_eq_some ho) hbefore h
              refine ⟨steps, hsteps, fun names => ?_⟩
              rw [← heval, eval_eq]
              simp [hwrapper, hk, ho, hproperty]
          · next hk =>
              simp only [Option.bind_eq_bind, Option.bind_eq_some_iff] at h
              obtain ⟨before, ⟨o, ho, hbefore⟩, index, hindex, h⟩ := h
              split at h
              · next hstring =>
                  have hkind : index.unwrap.kind = .string := by simpa using hstring
                  obtain ⟨steps, hsteps, heval⟩ :=
                    hsnoc o n before _ (List.mem_of_find?_eq_some ho) hbefore (Option.some.inj h)
                  refine ⟨steps, hsteps, fun names => ?_⟩
                  rw [← heval, eval_eq]
                  simp [hwrapper, hk, ho, hindex, hkind]
              · cases h
          · cases h

/-! ## Calls -/

/-- Whether a function is asynchronous: a word stands before its first part. -/
def isAsync (f : Node) : Bool :=
  f.children.head?.any fun part => decide (f.start < part.start)

/-- The value of an expression that may be a literal. -/
def operand (E : Engine) (names : String → Option Value) (n : Node) : Option Value :=
  if n.literal?.isSome then some (.primitive (constant E n)) else eval E names n

/-- The value of the body of a function. -/
def bodyValue (E : Engine) (names : String → Option Value) (body : Node) : Option Value :=
  match body.kind with
  | .ternary => do
    let v ← (body.child? .condition).bind (eval E names)
    (body.child? (if v.truthy then .consequence else .alternative)).bind (operand E names)
  | .binary => do
    let v ← (body.child? .left).bind (eval E names)
    let operator ← body.child? .operator
    let right := (body.child? .right).bind (operand E names)
    if operator.text == "&&" then (if v.truthy then right else some v)
    else if operator.text == "||" then (if v.truthy then some v else right)
    else if operator.text == "??" then (if v.isEmpty then right else some v)
    else eval E names body
  | _ => eval E names body

/-- The value that a call of a function with props gives; an asynchronous function gives only a promise. -/
def call (E : Engine) (n : Node) (props : Table Value) : Option Value :=
  if isAsync n.unwrap then none
  else (n.unwrap.child? .body).bind fun body => bodyValue E (namesIn E n.unwrap props) body.unwrap

/-! ## What is recorded -/

/-- The path from the props. -/
def recordedPath (c : Classified) : List String :=
  if c.tag = .themeAccess then "theme" :: c.path else c.path

/-- What a comparison with a decoded literal gives. -/
def Engine.compareWith (E : Engine) (operator : String) (w : Value) : Value → Bool
  | .primitive p => E.compare operator w p
  | .object .. => false

/-- Whether the recorded test lets a value pass. -/
def verdict (E : Engine) (decode : Style.Value → Value) (c : Classified) (w : Value) : Bool :=
  match c.comparison with
  | some (operator, value) => E.compareWith operator w (decode value)
  | none => w.truthy != c.negated

/--
The values that a class stands for, given the value that the recorded path leads to.  Where there is no branch
for false, any value that counts as false will do.
-/
def Yields (E : Engine) (decode : Style.Value → Value) (c : Classified) (w v : Value) : Prop :=
  match c.tag with
  | .themeAccess | .propAccess => v = w
  | .conditional =>
    if verdict E decode c w then v = decode c.truthy
    else if c.hasFalsyBranch then v = decode c.falsy
    else v.truthy = false
  | .logical =>
    if c.operator = some "??" then v = if w.isEmpty then decode c.fallback else w
    else v = if w.truthy then w else decode c.fallback
  | _ => False

/-- The values that a class stands for with given props. -/
def Denotes (E : Engine) (decode : Style.Value → Value) (c : Classified) (props : Table Value)
    (v : Value) : Prop :=
  Yields E decode c (E.walk (.ofProps props) (recordedPath c)) v

/-- The parts of a body that may be literals. -/
def literalsIn (body : Node) : List Node :=
  [Tsx.Role.consequence, .alternative, .right].filterMap body.child? ++
    ((testIn? body).bind compared?).toList

/-- The literals of a function are decoded to their values. -/
def Decodes (E : Engine) (decode : Style.Value → Value) (around : Surroundings) (body : Node) : Prop :=
  ∀ l ∈ literalsIn body, ∀ value, branchValue? around l = some value →
    ∀ names, operand E names l = some (decode value)

theorem mem_literalsIn {body l : Node} {role : Tsx.Role} (hl : body.child? role = some l)
    (hrole : role ∈ [Tsx.Role.consequence, .alternative, .right]) : l ∈ literalsIn body :=
  List.mem_append_left _ (List.mem_filterMap.mpr ⟨role, hrole, hl⟩)

theorem branchValue?_of_literal? {n : Node} {value : Style.Value} (h : n.literal? = some value)
    (around : Surroundings) : branchValue? around n = some value := by
  rw [branchValue?, h]

/-- A test that is recorded as a conditional. -/
structure Records (c : Classified) (t : Interpolation.PropTest) : Prop where
  tag_eq : c.tag = .conditional
  path_eq : c.path = t.path
  comparison_eq : c.comparison = t.comparison
  negated_eq : c.negated = t.negated

theorem Records.recordedPath_eq {c : Classified} {t : Interpolation.PropTest} (h : Records c t) :
    recordedPath c = t.path := by
  rw [recordedPath, h.tag_eq, if_neg nofun, h.path_eq]

/-- The recorded test is the test in the source. -/
theorem Records.verdict_eq {E : Engine} {decode : Style.Value → Value} {around : Surroundings}
    {body test : Node} {c : Classified} {t : Interpolation.PropTest} (hc : Records c t)
    (hdecode : Decodes E decode around body) (htest : testIn? body = some test)
    (h : t.comparison = none ∨ ∃ operator value l, Compares test t operator value l) (w : Value) :
    verdict E decode c w = outcome E t (compared? test) w := by
  rcases h with hnone | ⟨operator, value, l, hl⟩
  · rw [outcome_plain E hnone, verdict, hc.comparison_eq, hnone, hc.negated_eq]
  · have hmem : l ∈ literalsIn body := by
      refine List.mem_append_right _ (Option.mem_toList.mpr ?_)
      rw [htest, Option.bind_some, hl.literal_eq]
    have hvalue := hdecode l hmem value (branchValue?_of_literal? hl.value_eq around) fun _ => none
    rw [operand, hl.value_eq, Option.isSome_some, if_pos rfl] at hvalue
    simp only [hl.literal_eq, outcome_comparison E hl.comparison_eq, verdict, hc.comparison_eq,
      hl.comparison_eq, ← Option.some.inj hvalue]
    rfl

/-! ## Bodies -/

/-- A body is classified right if it is a function of the value at the end of the recorded path, and its values
are those that the class stands for. -/
def BodyAgrees (E : Engine) (decode : Style.Value → Value) (f : Tsx.Arrow) (body : Node)
    (c : Classified) : Prop :=
  ∃ (r : Node) (G : Value → Value), propsPath? f r = some (recordedPath c) ∧
    (∀ names, bodyValue E names body = (eval E names r).map G) ∧ ∀ w, Yields E decode c w (G w)

theorem bodyValue_of_path? (E : Engine) (names : String → Option Value) {body : Node}
    (hplain : body.isWrapper = false) {path : List String} (h : body.path? = some path) :
    bodyValue E names body = eval E names body := by
  rw [Node.path?_eq, hplain, if_neg Bool.false_ne_true] at h
  unfold bodyValue
  split at h
  · next hk => rw [hk]
  · next hk => rw [hk]
  · next hk => rw [hk]
  · next hk => rw [hk]
  · cases h

theorem exists_path?_of_propsPath? {f : Tsx.Arrow} {n : Node} {path : List String}
    (h : propsPath? f n = some path) : ∃ full, n.path? = some full := by
  simp only [propsPath?, Option.bind_eq_bind, Option.bind_eq_some_iff] at h
  obtain ⟨full, hfull, -⟩ := h
  exact ⟨full, hfull⟩

section

variable {E : Engine} {decode : Style.Value → Value} {around : Surroundings} {base c : Classified}
  {f : Tsx.Arrow} {body : Node}

/-- A body that only reads a path. -/
theorem bodyAgrees_access {path : List String} (hplain : body.isWrapper = false)
    (h : propsPath? f body = some path) (hpath : recordedPath c = path)
    (htag : c.tag = .themeAccess ∨ c.tag = .propAccess) : BodyAgrees E decode f body c := by
  obtain ⟨full, hfull⟩ := exists_path?_of_propsPath? h
  refine ⟨body, id, hpath ▸ h, fun names => ?_, fun w => ?_⟩
  · rw [bodyValue_of_path? E names hplain hfull, Option.map_id, id]
  · rcases htag with htag | htag <;> simp [Yields, htag]

theorem yields_conditional {w v : Value} (h : c.tag = .conditional) :
    Yields E decode c w v ↔
      if verdict E decode c w then v = decode c.truthy
      else if c.hasFalsyBranch then v = decode c.falsy
      else v.truthy = false := by
  rw [Yields, h]

/-- A body that selects one of two literals. -/
theorem bodyAgrees_ternary {test yes no : Node} {t : Interpolation.PropTest}
    (hdecode : Decodes E decode around body) (hkind : body.kind = .ternary)
    (htest : body.child? .condition = some test) (ht : propTest? f test = some t) (hc : Records c t)
    (hyes : body.child? .consequence = some yes) (htruthy : branchValue? around yes = some c.truthy)
    (hno : body.child? .alternative = some no) (hfalsy : branchValue? around no = some c.falsy)
    (hboth : c.hasFalsyBranch = true) : BodyAgrees E decode f body c := by
  obtain ⟨⟨r, F, hr, heval, htruth⟩, hcomparison⟩ := propTest?_eval E ht
  have hverdict : ∀ w, verdict E decode c w = (F w).truthy := by
    intro w
    rw [htruth, hc.verdict_eq hdecode (by simp [testIn?, hkind, htest]) hcomparison]
  have hvalue := fun names => hdecode yes (mem_literalsIn hyes (by simp)) _ htruthy names
  have hother := fun names => hdecode no (mem_literalsIn hno (by simp)) _ hfalsy names
  refine ⟨r, fun w => if (F w).truthy then decode c.truthy else decode c.falsy,
    hc.recordedPath_eq ▸ hr, fun names => ?_, fun w => ?_⟩
  · rw [bodyValue, hkind]
    simp only [htest, Option.bind_eq_bind, Option.bind_some, heval]
    cases eval E names r with
    | none => rfl
    | some w =>
        rw [Option.map_some, Option.bind_some, Option.map_some]
        cases (F w).truthy
        · exact (congrArg (Option.bind · (operand E names)) hno).trans (hother names)
        · exact (congrArg (Option.bind · (operand E names)) hyes).trans (hvalue names)
  · rw [yields_conditional hc.tag_eq, hverdict, hboth]
    cases hw : (F w).truthy with
    | true => simp [hw]
    | false => simp [hw]

/-- A body that has a literal for true alone. -/
theorem bodyAgrees_conjunction {test yes operator : Node} {t : Interpolation.PropTest}
    (hdecode : Decodes E decode around body) (hkind : body.kind = .binary)
    (hoperator : body.child? .operator = some operator) (hand : operator.text = "&&")
    (htest : body.child? .left = some test) (ht : propTest? f test = some t) (hc : Records c t)
    (hyes : body.child? .right = some yes) (htruthy : branchValue? around yes = some c.truthy)
    (hone : c.hasFalsyBranch = false) : BodyAgrees E decode f body c := by
  obtain ⟨⟨r, F, hr, heval, htruth⟩, hcomparison⟩ := propTest?_eval E ht
  have hverdict : ∀ w, verdict E decode c w = (F w).truthy := by
    intro w
    rw [htruth, hc.verdict_eq hdecode (by simp [testIn?, hkind, htest]) hcomparison]
  have hvalue := fun names => hdecode yes (mem_literalsIn hyes (by simp)) _ htruthy names
  refine ⟨r, fun w => if (F w).truthy then decode c.truthy else F w, hc.recordedPath_eq ▸ hr,
    fun names => ?_, fun w => ?_⟩
  · rw [bodyValue, hkind]
    simp only [htest, hoperator, hyes, hand, Option.bind_eq_bind, Option.bind_some, heval, hvalue]
    cases eval E names r with
    | none => rfl
    | some w =>
        rw [Option.map_some, Option.bind_some, Option.map_some]
        cases (F w).truthy <;> rfl
  · rw [yields_conditional hc.tag_eq, hverdict, hone]
    cases hw : (F w).truthy with
    | true => simp [hw]
    | false => simp [hw]

/-- A body that has a literal in place of a value. -/
theorem bodyAgrees_logical {left right operator : Node} {path : List String} {fallback : Style.Value}
    (hdecode : Decodes E decode around body) (hkind : body.kind = .binary)
    (hoperator : body.child? .operator = some operator)
    (hor : operator.text = "||" ∨ operator.text = "??") (hleft : body.child? .left = some left)
    (hpath : propsPath? f left = some path) (hright : body.child? .right = some right)
    (hfallback : right.literal? = some fallback) :
    BodyAgrees E decode f body
      { base with tag := .logical, path, fallback, operator := some operator.text } := by
  have hvalue := fun names => hdecode right (mem_literalsIn hright (by simp)) _
    (branchValue?_of_literal? hfallback around) names
  rcases hor with hor | hor
  · refine ⟨left, fun w => if w.truthy then w else decode fallback, hpath, fun names => ?_, fun w => ?_⟩
    · rw [bodyValue, hkind]
      simp only [hleft, hoperator, hright, hor, Option.bind_eq_bind, Option.bind_some, hvalue]
      cases eval E names left with
      | none => rfl
      | some w =>
          rw [Option.bind_some, Option.map_some]
          cases w.truthy <;> rfl
    · simp [Yields, hor]
  · refine ⟨left, fun w => if w.isEmpty then decode fallback else w, hpath, fun names => ?_, fun w => ?_⟩
    · rw [bodyValue, hkind]
      simp only [hleft, hoperator, hright, hor, Option.bind_eq_bind, Option.bind_some, hvalue]
      cases eval E names left with
      | none => rfl
      | some w =>
          rw [Option.bind_some, Option.map_some]
          cases w.isEmpty <;> rfl
    · simp [Yields, hor]

/-- Every body that gets a class is classified right. -/
theorem bodyAgrees_of_classifyArrow? (hdecode : Decodes E decode around body)
    (hplain : body.isWrapper = false) (hbase : base.hasFalsyBranch = true)
    (h : classifyArrow? around base f body = some c) : BodyAgrees E decode f body c := by
  unfold classifyArrow? at h
  split at h
  · next path hpath =>
      split at h
      · next rest =>
          split at h
          · cases h
            exact bodyAgrees_access hplain hpath rfl (.inr rfl)
          · cases h
            exact bodyAgrees_access hplain hpath rfl (.inl rfl)
      · cases h
        exact bodyAgrees_access hplain hpath rfl (.inr rfl)
      · cases h
  · split at h
    · next hkind =>
        simp only [Option.bind_eq_bind, Option.bind_eq_some_iff, Option.pure_def] at h
        obtain ⟨t, ⟨test, htest, ht⟩, truthy, ⟨yes, hyes, htruthy⟩, falsy, ⟨no, hno, hfalsy⟩, h⟩ := h
        cases h
        exact bodyAgrees_ternary hdecode hkind htest ht ⟨rfl, rfl, rfl, rfl⟩ hyes htruthy hno hfalsy hbase
    · next hkind =>
        simp only [Option.bind_eq_bind, Option.bind_eq_some_iff, Option.pure_def] at h
        obtain ⟨left, hleft, right, hright, h⟩ := h
        have hoperator : ∀ text, ((body.child? .operator).map Node.text).getD "" = text → text ≠ "" →
            ∃ operator, body.child? .operator = some operator ∧ operator.text = text := by
          intro text htext hne
          cases hchild : body.child? .operator with
          | none =>
              rw [hchild] at htext
              exact absurd htext.symm hne
          | some operator =>
              rw [hchild] at htext
              exact ⟨operator, rfl, htext⟩
        split at h
        · next hand =>
            obtain ⟨operator, hchild, htext⟩ := hoperator "&&" (eq_of_beq hand) (by decide)
            obtain ⟨t, ht, truthy, htruthy, h⟩ := by simpa only [Option.bind_eq_some_iff] using h
            cases h
            exact bodyAgrees_conjunction hdecode hkind hchild htext hleft ht ⟨rfl, rfl, rfl, rfl⟩ hright htruthy rfl
        · split at h
          · next hor =>
              obtain ⟨path, hpath, fallback, hfallback, h⟩ := by
                simpa only [Option.bind_eq_some_iff] using h
              rw [Bool.or_eq_true, beq_iff_eq, beq_iff_eq] at hor
              have hne : ((body.child? .operator).map Node.text).getD "" ≠ "" := by
                rcases hor with hor | hor <;> rw [hor] <;> decide
              obtain ⟨operator, hchild, htext⟩ := hoperator _ rfl hne
              cases h
              rw [← htext] at hor ⊢
              exact bodyAgrees_logical hdecode hkind hchild hor hleft hpath hright hfallback
          · cases h
    · cases h

end

/-! ## Where a name comes from -/

/-- What the first name of a recorded path is read from: a prop of the parameter, or a name that it binds. -/
def origin? (E : Engine) (f : Node) (name : String) : Option Binding :=
  match f.parameter? with
  | some (some _, _) => some (.prop name)
  | _ => binding? E f name

theorem parameter?_exclusive {f : Node} {param : Option String} {names : List String}
    (h : f.parameter? = some (param, names)) : param = none ∨ names = [] := by
  unfold Node.parameter? at h
  split at h
  · cases h
    exact .inr rfl
  · split at h
    · cases h
      exact .inl rfl
    · dsimp only at h
      split at h
      · cases h
        exact .inr rfl
      · cases h
        exact .inl rfl
      · cases h
    · cases h

/-- The recorded path is followed from what its first name is read from. -/
theorem eval_of_origin (E : Engine) {f r : Node} {a : Tsx.Arrow} {path : List String}
    (hparameter : f.parameter? = some (a.param, a.destructured)) (hpath : propsPath? a r = some path) :
    ∃ name, ∃ steps : List (Node × String), path = name :: steps.map (·.2) ∧
      (∀ b, origin? E f name = some b → b.IsProp name) ∧
      ∀ props, eval E (namesIn E f props) r =
        (origin? E f name).bind fun b => E.chase (b.value E props) steps := by
  obtain ⟨hprops, hnames⟩ := binding?_of_parameter? E hparameter
  unfold propsPath? at hpath
  simp only [Option.bind_eq_bind, Option.bind_eq_some_iff] at hpath
  obtain ⟨full, hfull, hpath⟩ := hpath
  cases full with
  | nil => cases hpath
  | cons first rest =>
      obtain ⟨steps, hsteps, heval⟩ := eval_chase E hfull
      dsimp only at hpath
      split at hpath
      · next hparam =>
          obtain ⟨p, hp, rfl⟩ : ∃ p, a.param = some p ∧ p = first := by
            cases hp : a.param with
            | none => simp [hp] at hparam
            | some p => exact ⟨p, rfl, by simp [hp] at hparam; exact hparam.2⟩
          cases rest with
          | nil => cases hpath
          | cons name keys =>
              cases hpath
              obtain ⟨step, steps, rfl, rfl, rfl⟩ := List.map_eq_cons_iff.mp hsteps
              have horigin : origin? E f step.2 = some (.prop step.2) := by
                rw [origin?, hparameter, hp]
              refine ⟨step.2, steps, rfl, fun b hb => ?_, fun props => ?_⟩
              · cases horigin.symm.trans hb
                exact .inl rfl
              · rw [heval, horigin, namesIn, (hprops p hp).1]
                rfl
      · split at hpath
        · next hmem =>
            cases hpath
            have hdestructured : first ∈ a.destructured := by simpa using hmem
            have hnone : a.param = none :=
              (parameter?_exclusive hparameter).resolve_right (List.ne_nil_of_mem hdestructured)
            have horigin : origin? E f first = binding? E f first := by
              rw [origin?, hparameter, hnone]
            refine ⟨first, steps, by rw [hsteps], fun b hb => ?_, fun props => ?_⟩
            · rw [horigin] at hb
              rcases hnames first hdestructured with ⟨-, hnone⟩ | ⟨b', hb', hprop⟩
              · cases hnone.symm.trans hb
              · cases hb'.symm.trans hb
                exact hprop
            · rw [heval, horigin, namesIn, Option.bind_map]
              rfl
        · cases hpath

/-! ## Functions of the props -/

/-- The classes of functions of the props. -/
def functionTags : List Interpolation.Tag :=
  [.themeAccess, .propAccess, .conditional, .logical]

theorem exists_classifyArrow? {around : Surroundings} {index : Int} {n : Node} {c : Classified}
    (hc : classify around index n = c) (htag : c.tag ∈ functionTags) :
    ∃ f base body, n.unwrap.parameter? = some (f.param, f.destructured) ∧
      n.unwrap.child? .body = some body ∧ base.hasFalsyBranch = true ∧
      classifyArrow? around base f body.unwrap = some c := by
  have hraw : ∀ tag : Interpolation.Tag, tag ∉ functionTags → c.tag ≠ tag := by
    rintro tag hnot rfl
    exact hnot htag
  unfold classify at hc
  dsimp only at hc
  split at hc
  · split at hc
    · exact absurd (congrArg Classified.tag hc).symm (hraw .keyframesRef (by decide))
    · split at hc
      · exact absurd (congrArg Classified.tag hc).symm (hraw .helperCall (by decide))
      · exact absurd (congrArg Classified.tag hc).symm (hraw .raw (by decide))
  split at hc
  · next f hf =>
      obtain ⟨hparameter, hbody⟩ := arrow?_spec hf
      cases hb : f.body with
      | none =>
          rw [hb] at hc
          exact absurd (congrArg Classified.tag hc).symm (hraw .raw (by decide))
      | some b =>
          obtain ⟨body, hchild, rfl⟩ := hbody b hb
          rw [hb, Option.bind_some] at hc
          cases harrow : classifyArrow? around
              { source := n.text, index, param := f.param, node := some n } f body.unwrap with
          | none =>
              rw [harrow] at hc
              exact absurd (congrArg Classified.tag hc).symm (hraw .raw (by decide))
          | some c' =>
              rw [harrow] at hc
              cases hc
              exact ⟨f, _, body, hparameter, hchild, rfl, harrow⟩
  · next hf =>
      cases hcall : classifyCall? around { source := n.text, index, node := some n } n.unwrap with
      | none =>
          rw [hcall] at hc
          exact absurd (congrArg Classified.tag hc).symm (hraw .raw (by decide))
      | some c' =>
          rw [hcall] at hc
          unfold classifyCall? at hcall
          simp only [Option.bind_eq_bind, Option.bind_eq_some_iff, Option.pure_def] at hcall
          obtain ⟨⟨callee, arguments⟩, -, path, -, first, -, binding, -, hcall⟩ := hcall
          rw [Option.getD_some, ← Option.some.inj hcall] at hc
          exact absurd (congrArg Classified.tag hc).symm (hraw .helperCall (by decide))

/-- The literals in the body of a function are decoded to their values. -/
def DecodesIn (E : Engine) (decode : Style.Value → Value) (around : Surroundings) (n : Node) : Prop :=
  ∀ body, n.unwrap.child? .body = some body → Decodes E decode around body.unwrap

/--
The value of a call is among those that the class stands for with the same props, and there is one unless the
recorded path leads through an empty value.
-/
structure Sound (E : Engine) (decode : Style.Value → Value) (n : Node) (c : Classified) : Prop where
  agrees : ∀ props v, call E n props = some v → Denotes E decode c props v
  returns : ∀ props, E.Clear (.ofProps props) (recordedPath c) → (call E n props).isSome = true

/--
How a function gets at the recorded path: it reads the prop under its own name; or with a default, which gives
what nothing would give; or else it tests another prop, but its value depends on none.
-/
inductive ReadsRecorded (E : Engine) (decode : Style.Value → Value) (n : Node) (c : Classified) : Prop where
  | direct {name : String} {rest : List String} : recordedPath c = name :: rest →
      origin? E n.unwrap name = some (.prop name) → ReadsRecorded E decode n c
  | defaulted {name : String} {rest : List String} {default : Node} : recordedPath c = name :: rest →
      origin? E n.unwrap name = some (.withDefault name default) →
      (∀ v, call E n [] = some v → Denotes E decode c [] v) → ReadsRecorded E decode n c
  | indifferent : c.tag = .conditional →
      (∀ props, ∃ v, call E n props = some v ∧ ∀ props', Denotes E decode c props' v) →
      ReadsRecorded E decode n c

section

variable {E : Engine} {decode : Style.Value → Value} {around : Surroundings} {index : Int} {n : Node}
  {c : Classified}

/-- A call follows the recorded path from where its first name is read, and goes on as the class says. -/
theorem call_eq (hc : classify around index n = c) (htag : c.tag ∈ functionTags)
    (hdecode : DecodesIn E decode around n) (hsync : isAsync n.unwrap = false) :
    ∃ name, ∃ steps : List (Node × String), ∃ G : Value → Value,
      recordedPath c = name :: steps.map (·.2) ∧
      (∀ b, origin? E n.unwrap name = some b → b.IsProp name) ∧
      (∀ props, call E n props =
        ((origin? E n.unwrap name).bind fun b => E.chase (b.value E props) steps).map G) ∧
      ∀ w, Yields E decode c w (G w) := by
  obtain ⟨f, base, body, hparameter, hbody, hbase, harrow⟩ := exists_classifyArrow? hc htag
  obtain ⟨r, G, hr, hvalue, hyields⟩ := bodyAgrees_of_classifyArrow? (hdecode body hbody)
    (Node.isWrapper_unwrap body) hbase harrow
  obtain ⟨name, steps, hpath, hprop, heval⟩ := eval_of_origin E hparameter hr
  refine ⟨name, steps, G, hpath, hprop, fun props => ?_, hyields⟩
  rw [call, hsync, if_neg Bool.false_ne_true, hbody, Option.bind_some, hvalue, heval]

/-- Only a class that selects a literal stands for the same value wherever its path leads. -/
theorem conditional_of_yields (htag : c.tag ∈ functionTags) {v : Value}
    (h : ∀ w, Yields E decode c w v) : c.tag = .conditional := by
  have hobject : ∀ identity, Yields E decode c (.object identity [] .undefined) v := fun _ => h _
  cases htag' : c.tag with
  | conditional => rfl
  | themeAccess =>
      simp only [Yields, htag'] at hobject
      cases (hobject 0).symm.trans (hobject 1)
  | propAccess =>
      simp only [Yields, htag'] at hobject
      cases (hobject 0).symm.trans (hobject 1)
  | logical =>
      simp only [Yields, htag', Value.isEmpty, Value.truthy, Bool.false_eq_true, if_true, if_false,
        ite_self] at hobject
      cases (hobject 0).symm.trans (hobject 1)
  | _ => rw [htag'] at htag; exact absurd htag (by decide)

/-- The value of a class depends on the prop that is recorded alone. -/
theorem denotes_iff {name : String} {rest : List String} (h : recordedPath c = name :: rest)
    (props : Table Value) (v : Value) :
    Denotes E decode c props v ↔ Yields E decode c (E.walk (Value.field props name) rest) v := by
  rw [Denotes, h]
  rfl

/-- From some props a path leads through objects alone. -/
theorem exists_clear (E : Engine) (path : List String) : ∃ props, E.Clear (.ofProps props) path := by
  cases path with
  | nil => exact ⟨[], trivial⟩
  | cons name rest =>
      refine ⟨[(name, nested rest someObject)], (clear_ofProps ..).mpr ?_⟩
      rw [field_cons]
      exact clear_nested E rest someObject

/-- A call that follows the path from the recorded prop is as the class says. -/
theorem agrees_of_chase (hE : E.Regular) {name : String} {steps : List (Node × String)} {G : Value → Value}
    (hpath : recordedPath c = name :: steps.map (·.2)) (hyields : ∀ w, Yields E decode c w (G w))
    {props : Table Value} (hcall : call E n props = (E.chase (Value.field props name) steps).map G) :
    (∀ v, call E n props = some v → Denotes E decode c props v) ∧
      (E.Clear (.ofProps props) (recordedPath c) → (call E n props).isSome = true) := by
  obtain ⟨hvalue, hclear⟩ := chase_spec hE (Value.field props name) steps
  rw [hcall]
  constructor
  · intro v hv
    obtain ⟨w, hw, rfl⟩ := Option.map_eq_some_iff.mp hv
    rw [denotes_iff hpath, ← hvalue w hw]
    exact hyields w
  · intro h
    rw [hpath, clear_ofProps] at h
    rw [hclear h]
    rfl

/-- A default comes into play only for an undefined prop, and then the other props do not matter. -/
theorem sound_of_defaulted (hE : E.Regular) {name : String} {default : Node}
    {steps : List (Node × String)} {G : Value → Value}
    (hpath : recordedPath c = name :: steps.map (·.2)) (hyields : ∀ w, Yields E decode c w (G w))
    (hcall : ∀ props, call E n props =
      (E.chase ((Binding.withDefault name default).value E props) steps).map G)
    (hempty : ∀ v, call E n [] = some v → Denotes E decode c [] v) : Sound E decode n c := by
  have hprops : ∀ props, (∀ v, call E n props = some v → Denotes E decode c props v) ∧
      (E.Clear (.ofProps props) (recordedPath c) → (call E n props).isSome = true) := by
    intro props
    by_cases hfield : Value.field props name = .primitive .undefined
    · have hsame : call E n props = call E n [] := by
        rw [hcall, hcall, Binding.value, Binding.value, hfield]
        rfl
      constructor
      · intro v hv
        have hnone := hempty v (hsame ▸ hv)
        rw [denotes_iff hpath] at hnone ⊢
        rwa [hfield]
      · intro hclear
        rw [hpath, clear_ofProps, hfield] at hclear
        rw [hcall]
        cases steps with
        | nil => rfl
        | cons step steps => cases hclear.1
    · refine agrees_of_chase hE hpath hyields ?_
      rw [hcall, Binding.value_of_key? E rfl hfield]
  exact ⟨fun props => (hprops props).1, fun props => (hprops props).2⟩

/-- If another prop is read than the one that is recorded, the value has to suit all values of both. -/
theorem indifferent_of_renamed {name key : String} {steps : List (Node × String)} {G : Value → Value}
    (htag : c.tag ∈ functionTags) (hpath : recordedPath c = name :: steps.map (·.2)) (hkey : key ≠ name)
    (hcall : ∀ props, call E n props = (E.chase (Value.field props key) steps).map G)
    (h : Sound E decode n c) : ReadsRecorded E decode n c := by
  -- props that combine what is read with what is recorded
  have hmixed : ∀ props y, ∃ mixed, call E n mixed = call E n props ∧ Value.field mixed name = y := by
    intro props y
    refine ⟨[(key, Value.field props key), (name, y)], ?_, ?_⟩
    · rw [hcall, hcall, field_cons]
    · rw [field_cons_of_ne hkey, field_cons]
  have hsuits : ∀ props, ∃ v, call E n props = some v ∧
      ∀ y, Yields E decode c (E.walk y (steps.map (·.2))) v := by
    intro props
    obtain ⟨mixed, hmixedCall, hfield⟩ := hmixed props (nested (steps.map (·.2)) someObject)
    have hreturns := h.returns mixed (by
      rw [hpath, clear_ofProps, hfield]
      exact clear_nested E _ someObject)
    rw [hmixedCall] at hreturns
    obtain ⟨v, hv⟩ := Option.isSome_iff_exists.mp hreturns
    refine ⟨v, hv, fun y => ?_⟩
    obtain ⟨mixed, hmixedCall, hfield⟩ := hmixed props y
    have hdenotes := h.agrees mixed v (hmixedCall.trans hv)
    rwa [denotes_iff hpath, hfield] at hdenotes
  refine .indifferent ?_ fun props => ?_
  · obtain ⟨v, -, hv⟩ := hsuits []
    have hall : ∀ w, Yields E decode c w v := by
      intro w
      have hw := hv (nested (steps.map (·.2)) w)
      rwa [walk_nested] at hw
    exact conditional_of_yields htag hall
  · obtain ⟨v, hv, hyields⟩ := hsuits props
    exact ⟨v, hv, fun props' => (denotes_iff hpath props' v).mpr (hyields _)⟩

/--
A class is sound exactly if the function gives its value at once and reads the prop that is recorded, under
its own name and with no default that matters, or has a value that depends on no prop.
-/
theorem classify_sound_iff (hE : E.Regular) (hc : classify around index n = c) (htag : c.tag ∈ functionTags)
    (hdecode : DecodesIn E decode around n) :
    Sound E decode n c ↔ isAsync n.unwrap = false ∧ ReadsRecorded E decode n c := by
  obtain ⟨clear, hclear⟩ := exists_clear E (recordedPath c)
  have hvalue : Sound E decode n c → call E n clear ≠ none := by
    intro h hnone
    have hreturns := h.returns clear hclear
    rw [hnone] at hreturns
    cases hreturns
  cases hsync : isAsync n.unwrap with
  | true =>
      refine iff_of_false (fun h => hvalue h ?_) fun h => nomatch h.1
      rw [call, hsync, if_pos rfl]
  | false =>
      obtain ⟨name, steps, G, hpath, hprop, hcall, hyields⟩ := call_eq hc htag hdecode hsync
      constructor
      · intro h
        refine ⟨rfl, ?_⟩
        cases horigin : origin? E n.unwrap name with
        | none =>
            refine absurd ?_ (hvalue h)
            rw [hcall, horigin]
            rfl
        | some b =>
            simp only [horigin, Option.bind_some] at hcall
            cases b with
            | props => cases hprop _ horigin
            | withDefault key default =>
                cases (hprop _ horigin : key = name)
                exact .defaulted hpath horigin (h.agrees [])
            | prop key =>
                by_cases hkey : key = name
                · cases hkey
                  exact .direct hpath horigin
                · exact indifferent_of_renamed htag hpath hkey hcall h
      · rintro ⟨-, h⟩
        cases h with
        | direct hpath' horigin =>
            cases hpath.symm.trans hpath'
            simp only [horigin, Option.bind_some] at hcall
            exact ⟨fun props => (agrees_of_chase hE hpath hyields (hcall props)).1,
              fun props => (agrees_of_chase hE hpath hyields (hcall props)).2⟩
        | defaulted hpath' horigin hempty =>
            cases hpath.symm.trans hpath'
            simp only [horigin, Option.bind_some] at hcall
            exact sound_of_defaulted hE hpath hyields hcall hempty
        | indifferent _ hsame =>
            refine ⟨fun props v hv => ?_, fun props _ => ?_⟩
            · obtain ⟨v', hv', hdenotes⟩ := hsame props
              cases hv'.symm.trans hv
              exact hdenotes props
            · obtain ⟨v, hv, -⟩ := hsame props
              rw [hv]
              rfl

end

theorem regular_plainEngine : plainEngine.Regular := by
  intro access v h
  dsimp only [plainEngine] at h
  split at h <;> cases h
  rfl

/-- Literals stand for themselves. -/
def decodePlain (value : Style.Value) : Value :=
  .primitive (ofLiteral value)

/-- A function that takes a prop apart and compares it. -/
def comparingFunction : Node := expression "({ state }) => state === \"on\" ? \"red\" : \"blue\""

/-- Whether a name stands for the prop of a key. -/
def Binding.isPropOf (key : String) : Binding → Bool
  | .prop k => k == key
  | _ => false

theorem Binding.eq_of_isPropOf {key : String} {b : Binding} (h : b.isPropOf key = true) : b = .prop key := by
  cases b with
  | prop k => rw [eq_of_beq h]
  | props => cases h
  | withDefault => cases h

/-- A prop that is taken from the props under its own name is classified right. -/
theorem sound_comparingFunction :
    Sound plainEngine decodePlain comparingFunction (classify {} 0 comparingFunction) := by
  have hchecks : (functionTags.contains (classify {} 0 comparingFunction).tag &&
      recordedPath (classify {} 0 comparingFunction) == ["state"] &&
      (origin? plainEngine comparingFunction.unwrap "state").any (Binding.isPropOf "state") &&
      !isAsync comparingFunction.unwrap &&
      ((comparingFunction.unwrap.child? .body).any fun body =>
        (literalsIn body.unwrap).all fun l =>
          l.literal?.any fun value => constant plainEngine l == ofLiteral value)) = true := by
    decide +kernel
  simp only [Bool.and_eq_true, List.contains_iff_mem, beq_iff_eq, Bool.not_eq_true', Option.any_eq_true,
    List.all_eq_true] at hchecks
  obtain ⟨⟨⟨⟨htag, hpath⟩, b, horigin, hprop⟩, hsync⟩, body, hbody, hliterals⟩ := hchecks
  refine (classify_sound_iff regular_plainEngine rfl htag ?_).mpr ⟨hsync, .direct hpath ?_⟩
  · intro body' hbody' l hl value hvalue names
    cases hbody.symm.trans hbody'
    obtain ⟨value', hvalue', hconstant⟩ := hliterals l hl
    cases (branchValue?_of_literal? hvalue' {}).symm.trans hvalue
    rw [operand, hvalue', Option.isSome_some, if_pos rfl, hconstant]
    rfl
  · rw [horigin, Binding.eq_of_isPropOf hprop]

/-- A function that gives a prop another name. -/
def renamingFunction : Node := expression "({ color: c }) => c"

/-- Whether a value is a text. -/
def Value.isText (text : String) : Value → Bool
  | .primitive p => p == .text text
  | .object .. => false

theorem Value.eq_of_isText {text : String} {v : Value} (h : v.isText text = true) :
    v = .primitive (.text text) := by
  cases v with
  | primitive p => rw [eq_of_beq h]
  | object => cases h

/-- A prop under another name is classified as one that the function does not read. -/
theorem not_sound_renamingFunction :
    (classify {} 0 renamingFunction).tag = .propAccess ∧
      ¬ Sound plainEngine decodePlain renamingFunction (classify {} 0 renamingFunction) := by
  have hchecks : ((classify {} 0 renamingFunction).tag == .propAccess &&
      recordedPath (classify {} 0 renamingFunction) == ["c"] &&
      (call plainEngine renamingFunction [("color", .primitive (.text "red"))]).any (Value.isText "red")) =
        true := by
    decide +kernel
  simp only [Bool.and_eq_true, beq_iff_eq, Option.any_eq_true] at hchecks
  obtain ⟨⟨htag, hpath⟩, v, hv, htext⟩ := hchecks
  refine ⟨htag, fun h => ?_⟩
  have hdenotes := h.agrees _ _ hv
  rw [denotes_iff hpath, Yields, htag, Value.eq_of_isText htext] at hdenotes
  cases hdenotes

end Restyle.Script
