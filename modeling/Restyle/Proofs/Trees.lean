import Restyle.Proofs.Layout
import Restyle.Proofs.Script

/-!
# Readers of expressions

What is read from an expression does not depend on the wrappers around it.  A path that is read from a
chain of accesses is the way that its evaluation takes.
-/

namespace Restyle.Tsx.Node

/-! ## Wrappers -/

/-- The first child that is no token. -/
def inner? (n : Node) : Option Node :=
  n.children.find? fun c => c.kind != .token

theorem exists_inner? {n : Node} (h : n.isWrapper = true) : ∃ c ∈ n.children, n.inner? = some c := by
  have hnamed : n.named ≠ [] := by
    intro hnil
    unfold isWrapper at h
    rw [hnil] at h
    split at h <;> simp at h
  cases hinner : n.inner? with
  | some c => exact ⟨c, List.mem_of_find?_eq_some hinner, rfl⟩
  | none =>
      refine absurd (List.filter_eq_nil_iff.mpr fun c hc => ?_) hnamed
      exact List.find?_eq_none.mp hinner c hc

/-- A search among children gives what is read from the child that is found. -/
theorem search_eq {β : Type} {p : Node → Bool} {F : Node → β} {G : List Node → β}
    (hG : ∀ n ns, G (n :: ns) = if p n then F n else G ns) (children : List Node) :
    G children = match children.find? p with
      | some c => F c
      | none => G [] := by
  induction children with
  | nil => rfl
  | cons n ns ih =>
      rw [hG, List.find?_cons]
      cases p n with
      | true => rfl
      | false => exact ih

/-- A search for the first child that is no token. -/
theorem search_inner {β : Type} {F : Node → Option β} {G : List Node → Option β} (hnil : G [] = none)
    (hG : ∀ n ns, G (n :: ns) = if n.kind == .token then G ns else F n) (n : Node) :
    G n.children = n.inner?.bind F := by
  have hG' : ∀ n ns, G (n :: ns) = if (n.kind != .token) = true then F n else G ns := by
    intro n ns
    rw [hG]
    cases hk : n.kind == .token <;> simp [bne, hk]
  rw [search_eq hG']
  show _ = (n.children.find? fun c => c.kind != .token).bind F
  cases n.children.find? fun c => c.kind != .token with
  | none => exact hnil
  | some c => rfl

/-- A search for the first child that plays a part. -/
theorem search_part {β : Type} {role : Role} {F : Node → Option β} {G : List Node → Option β}
    (hnil : G [] = none)
    (hG : ∀ n ns, G (n :: ns) = if n.role == some role then F n else G ns) (n : Node) :
    G n.children = (n.child? role).bind F := by
  rw [search_eq hG]
  show _ = (n.children.find? fun c => c.role == some role).bind F
  cases n.children.find? fun c => c.role == some role with
  | none => exact hnil
  | some c => rfl

theorem unwrap_of_plain {n : Node} (h : n.isWrapper = false) : n.unwrap = n := by
  obtain ⟨kind, role, start, stop, text, children⟩ := n
  rw [unwrap]
  simp [h]

theorem unwrap_of_wrapper {n c : Node} (h : n.isWrapper = true) (hc : n.inner? = some c) :
    n.unwrap = c.unwrap := by
  have hfirst : unwrapFirst n.children = some c.unwrap := by
    rw [search_inner (G := unwrapFirst) (F := fun c => some c.unwrap) rfl
      (fun n ns => by rw [unwrapFirst]) n, hc]
    rfl
  obtain ⟨kind, role, start, stop, text, children⟩ := n
  rw [unwrap]
  simp [h, hfirst]

theorem isWrapper_unwrap (n : Node) : n.unwrap.isWrapper = false := by
  induction n using induction with
  | step n ih =>
      cases hwrapper : n.isWrapper with
      | true =>
          obtain ⟨c, hc, hinner⟩ := exists_inner? hwrapper
          rw [unwrap_of_wrapper hwrapper hinner]
          exact ih c hc
      | false => rwa [unwrap_of_plain hwrapper]

@[simp] theorem unwrap_unwrap (n : Node) : n.unwrap.unwrap = n.unwrap :=
  unwrap_of_plain (isWrapper_unwrap n)

theorem path?_eq (n : Node) : n.path? =
    if n.isWrapper then n.inner?.bind path?
    else
      match n.kind with
      | .identifier | .this => some [n.text]
      | .member => do
        let before ← (n.child? .object).bind path?
        let property ← n.child? .property
        return before ++ [property.text]
      | .subscript => do
        let before ← (n.child? .object).bind path?
        let index ← n.child? .index
        if index.unwrap.kind == .string then return before ++ [stringValue index.unwrap.text]
        else none
      | _ => none := by
  have hfirst : pathFirst? n.children = n.inner?.bind path? :=
    search_inner rfl (fun n ns => by rw [pathFirst?]) n
  have hobject : pathObject? n.children = (n.child? .object).bind path? :=
    search_part rfl (fun n ns => by rw [pathObject?]) n
  rw [← hfirst, ← hobject]
  obtain ⟨kind, role, start, stop, text, children⟩ := n
  exact path?.eq_def _

end Restyle.Tsx.Node

namespace Restyle.Script

open Restyle.Tsx (Node)
open Restyle.Interpolation (PropTest comparisonTest? comparisons propTest? propTestArgument?
  propTestFirst? propsPath?)

theorem propTest?_eq (f : Tsx.Arrow) (n : Node) : propTest? f n =
    if n.isWrapper then n.inner?.bind (propTest? f)
    else
      match n.kind with
      | .unary =>
        if (n.child? .operator).any fun op => op.text == "!" then
          ((n.child? .argument).bind (propTest? f)).bind fun inner =>
            if inner.comparison.isSome then none
            else some { path := inner.path, negated := !inner.negated }
        else none
      | .binary => comparisonTest? f n
      | _ => (propsPath? f n).map fun path => { path := path } := by
  have hfirst : propTestFirst? f n.children = n.inner?.bind (propTest? f) :=
    Node.search_inner rfl (fun n ns => by rw [propTestFirst?]) n
  have hargument : propTestArgument? f n.children = (n.child? .argument).bind (propTest? f) :=
    Node.search_part rfl (fun n ns => by rw [propTestArgument?]) n
  rw [← hfirst, ← hargument]
  obtain ⟨kind, role, start, stop, text, children⟩ := n
  generalize hresult : propTest? f ⟨kind, role, start, stop, text, children⟩ = result
  unfold propTest? at hresult
  exact hresult.symm

theorem eval_eq (E : Engine) (names : String → Option Value) (n : Node) : eval E names n =
    if n.isWrapper then n.inner?.bind (eval E names)
    else
      match n.kind with
      | .identifier | .this => names n.text
      | .member => do
        let object ← (n.child? .object).bind (eval E names)
        let property ← n.child? .property
        E.get n object property.text
      | .subscript => do
        let object ← (n.child? .object).bind (eval E names)
        let index ← n.child? .index
        if index.unwrap.kind == .string then E.get n object (Tsx.stringValue index.unwrap.text)
        else E.other n
      | .unary => do
        let v ← (n.child? .argument).bind (eval E names)
        if (n.child? .operator).any fun op => op.text == "!" then some (.ofBool !v.truthy)
        else E.other n
      | .binary => do
        let v ← (n.child? .left).bind (eval E names)
        let operator ← n.child? .operator
        let right ← n.child? .right
        if comparisons.contains operator.text then
          some (.ofBool (E.compare operator.text v (constant E right)))
        else E.other n
      | _ => E.other n := by
  have hfirst : evalFirst E names n.children = n.inner?.bind (eval E names) :=
    Node.search_inner rfl (fun n ns => by rw [evalFirst]) n
  have hpart : ∀ role, evalPart E names role n.children = (n.child? role).bind (eval E names) :=
    fun role => Node.search_part rfl (fun n ns => by rw [evalPart]) n
  rw [← hfirst, ← hpart, ← hpart, ← hpart]
  obtain ⟨kind, role, start, stop, text, children⟩ := n
  exact eval.eq_def _ _ _

/-! ## Paths -/

theorem path?_ne_nil (n : Node) : n.path? ≠ some [] := by
  induction n using Node.induction with
  | step n ih =>
      intro h
      rw [Node.path?_eq] at h
      split at h
      · next hwrapper =>
          obtain ⟨c, hc, hinner⟩ := Node.exists_inner? hwrapper
          rw [hinner] at h
          exact ih c hc h
      · split at h
        · cases h
        · cases h
        · simp only [Option.bind_eq_bind, Option.bind_eq_some_iff, Option.pure_def,
            Option.some.injEq] at h
          obtain ⟨before, -, property, -, h⟩ := h
          simp at h
        · simp only [Option.bind_eq_bind, Option.bind_eq_some_iff] at h
          obtain ⟨before, -, index, -, h⟩ := h
          split at h <;> simp at h
        · cases h

/-- A value is reached from another one by properties of objects. -/
def Reaches : Value → List String → Value → Prop
  | v, [], w => v = w
  | v, key :: keys, w =>
    ∃ identity properties converted, v = .object identity properties converted ∧
      Reaches (Value.field properties key) keys w

theorem reaches_snoc {v w : Value} {keys : List String} {key : String}
    (h : Reaches v (keys ++ [key]) w) :
    ∃ identity properties converted, Reaches v keys (.object identity properties converted) ∧
      Value.field properties key = w := by
  induction keys generalizing v with
  | nil =>
      obtain ⟨identity, properties, converted, rfl, h⟩ := h
      exact ⟨identity, properties, converted, rfl, h⟩
  | cons first keys ih =>
      obtain ⟨identity, properties, converted, rfl, h⟩ := h
      obtain ⟨i, ps, c, hreach, hfield⟩ := ih h
      exact ⟨i, ps, c, ⟨identity, properties, converted, rfl, hreach⟩, hfield⟩

theorem exists_of_snoc {name key : String} {before keys : List String} (hne : before ≠ [])
    (h : before ++ [key] = name :: keys) : ∃ rest, before = name :: rest := by
  cases before with
  | nil => exact absurd rfl hne
  | cons first rest =>
      cases h
      exact ⟨rest, rfl⟩

/-- The value before the last access of a path that leads somewhere. -/
theorem reaches_before {v w : Value} {name key : String} {before keys : List String}
    (hne : before ≠ []) (h : before ++ [key] = name :: keys) (hreach : Reaches v keys w) :
    ∃ rest identity properties converted, before = name :: rest ∧
      Reaches v rest (.object identity properties converted) ∧ Value.field properties key = w := by
  cases before with
  | nil => exact absurd rfl hne
  | cons first rest =>
      cases h
      obtain ⟨identity, properties, converted, hobject, hfield⟩ := reaches_snoc hreach
      exact ⟨rest, identity, properties, converted, rfl, hobject, hfield⟩

theorem ne_nil_of_path? {o : Node} {before : List String} (h : o.path? = some before) :
    before ≠ [] := by
  rintro rfl
  exact path?_ne_nil o h

/-- A path from a name that stands for nothing has no value. -/
theorem eval_of_unbound (E : Engine) (names : String → Option Value) {n : Node} {name : String}
    {keys : List String} (hpath : n.path? = some (name :: keys)) (hname : names name = none) :
    eval E names n = none := by
  induction n using Node.induction generalizing keys with
  | step n ih =>
      rw [Node.path?_eq] at hpath
      rw [eval_eq]
      cases hwrapper : n.isWrapper with
      | true =>
          obtain ⟨c, hc, hinner⟩ := Node.exists_inner? hwrapper
          simp only [hwrapper, if_true, hinner, Option.bind_some] at hpath ⊢
          exact ih c hc hpath
      | false =>
          simp only [hwrapper, Bool.false_eq_true, if_false] at hpath ⊢
          split at hpath
          · next hk =>
              cases hpath
              simp [hk, hname]
          · next hk =>
              cases hpath
              simp [hk, hname]
          · next hk =>
              simp only [Option.bind_eq_bind, Option.bind_eq_some_iff, Option.pure_def,
                Option.some.injEq] at hpath
              obtain ⟨before, ⟨o, ho, hbefore⟩, property, -, hpath⟩ := hpath
              obtain ⟨rest, rfl⟩ := exists_of_snoc (ne_nil_of_path? hbefore) hpath
              simp [hk, ho, ih o (List.mem_of_find?_eq_some ho) hbefore]
          · next hk =>
              simp only [Option.bind_eq_bind, Option.bind_eq_some_iff] at hpath
              obtain ⟨before, ⟨o, ho, hbefore⟩, index, -, hpath⟩ := hpath
              split at hpath
              · obtain ⟨rest, rfl⟩ := exists_of_snoc (ne_nil_of_path? hbefore) (Option.some.inj hpath)
                simp [hk, ho, ih o (List.mem_of_find?_eq_some ho) hbefore]
              · cases hpath
          · cases hpath

/-- Where all values on the way are objects, a path leads to the value at its end. -/
theorem eval_of_path (E : Engine) (names : String → Option Value) {n : Node} {name : String}
    {keys : List String} {v w : Value} (hpath : n.path? = some (name :: keys))
    (hname : names name = some v) (hreach : Reaches v keys w) : eval E names n = some w := by
  induction n using Node.induction generalizing keys w with
  | step n ih =>
      rw [Node.path?_eq] at hpath
      rw [eval_eq]
      cases hwrapper : n.isWrapper with
      | true =>
          obtain ⟨c, hc, hinner⟩ := Node.exists_inner? hwrapper
          simp only [hwrapper, if_true, hinner, Option.bind_some] at hpath ⊢
          exact ih c hc hpath hreach
      | false =>
          simp only [hwrapper, Bool.false_eq_true, if_false] at hpath ⊢
          split at hpath
          · next hk =>
              cases hpath
              cases hreach
              simp [hk, hname]
          · next hk =>
              cases hpath
              cases hreach
              simp [hk, hname]
          · next hk =>
              simp only [Option.bind_eq_bind, Option.bind_eq_some_iff, Option.pure_def,
                Option.some.injEq] at hpath
              obtain ⟨before, ⟨o, ho, hbefore⟩, property, hproperty, hpath⟩ := hpath
              obtain ⟨rest, identity, properties, converted, rfl, hobject, rfl⟩ :=
                reaches_before (ne_nil_of_path? hbefore) hpath hreach
              have hvalue := ih o (List.mem_of_find?_eq_some ho) hbefore hobject
              simp [hk, ho, hvalue, hproperty, Engine.get]
          · next hk =>
              simp only [Option.bind_eq_bind, Option.bind_eq_some_iff] at hpath
              obtain ⟨before, ⟨o, ho, hbefore⟩, index, hindex, hpath⟩ := hpath
              split at hpath
              · next hstring =>
                  have hkind : index.unwrap.kind = .string := by simpa using hstring
                  obtain ⟨rest, identity, properties, converted, rfl, hobject, rfl⟩ :=
                    reaches_before (ne_nil_of_path? hbefore) (Option.some.inj hpath) hreach
                  have hvalue := ih o (List.mem_of_find?_eq_some ho) hbefore hobject
                  simp [hk, ho, hvalue, hindex, hkind, Engine.get]
              · cases hpath
          · cases hpath

/-! ## Tests -/

/-- The literal that a test compares with. -/
def compared? (n : Node) : Option Node :=
  n.unwrap.child? .right

/-- What a test makes of the value that it reads, with the literal that it compares with. -/
def outcome (E : Engine) (t : PropTest) (literal : Option Node) (v : Value) : Bool :=
  match t.comparison, literal with
  | some (operator, _), some l => E.compare operator v (constant E l)
  | _, _ => v.truthy != t.negated

theorem outcome_plain (E : Engine) {t : PropTest} (h : t.comparison = none) (literal : Option Node) :
    outcome E t literal = fun v => v.truthy != t.negated := by
  funext v
  simp [outcome, h]

theorem outcome_comparison (E : Engine) {t : PropTest} {operator : String} {value : Style.Value}
    (h : t.comparison = some (operator, value)) (l : Node) :
    outcome E t (some l) = fun v => E.compare operator v (constant E l) := by
  funext v
  simp [outcome, h]

theorem comparisonTest?_spec {f : Tsx.Arrow} {n : Node} {t : PropTest}
    (h : comparisonTest? f n = some t) :
    ∃ operator left right value, n.child? .operator = some operator ∧
      comparisons.contains operator.text = true ∧ n.child? .left = some left ∧
      n.child? .right = some right ∧ propsPath? f left = some t.path ∧ right.literal? = some value ∧
      t.comparison = some (operator.text, value) ∧ t.negated = false := by
  unfold comparisonTest? at h
  simp only [Option.bind_eq_bind, Option.bind_eq_some_iff] at h
  obtain ⟨operator, hoperator, h⟩ := h
  split at h
  · simp at h
  next hmem =>
    simp only [Option.bind_eq_some_iff, Option.pure_def] at h
    obtain ⟨left, hleft, right, hright, path, hpath, value, hvalue, h⟩ := h
    cases h
    exact ⟨operator, left, right, value, hoperator, by simpa using hmem, hleft, hright, hpath, hvalue,
      rfl, rfl⟩

/-- The literal of a comparison is the one that the test compares with. -/
structure Compares (n : Node) (t : PropTest) (operator : String) (value : Style.Value) (l : Node) :
    Prop where
  comparison_eq : t.comparison = some (operator, value)
  known : operator ∈ comparisons
  literal_eq : compared? n = some l
  value_eq : l.literal? = some value

/-- A test is a function of the value that one path leads to. -/
theorem propTest?_eval (E : Engine) {f : Tsx.Arrow} {n : Node} {t : PropTest}
    (h : propTest? f n = some t) :
    (∃ (r : Node) (F : Value → Value), propsPath? f r = some t.path ∧
      (∀ names, eval E names n = (eval E names r).map F) ∧
      ∀ w, (F w).truthy = outcome E t (compared? n) w) ∧
    (t.comparison = none ∨ ∃ operator value l, Compares n t operator value l) := by
  induction n using Node.induction generalizing t with
  | step n ih =>
      rw [propTest?_eq] at h
      cases hwrapper : n.isWrapper with
      | true =>
          obtain ⟨c, hc, hinner⟩ := Node.exists_inner? hwrapper
          have hcompared : compared? n = compared? c := by
            unfold compared?
            rw [Node.unwrap_of_wrapper hwrapper hinner]
          simp only [hwrapper, if_true, hinner, Option.bind_some] at h
          obtain ⟨⟨r, F, hr, heval, htruth⟩, hcomparison⟩ := ih c hc h
          refine ⟨⟨r, F, hr, fun names => ?_, fun w => by rw [hcompared, htruth]⟩, ?_⟩
          · rw [← heval names, eval_eq E names n]
            simp [hwrapper, hinner]
          · rcases hcomparison with hnone | ⟨operator, value, l, hl⟩
            · exact .inl hnone
            · exact .inr ⟨operator, value, l, { hl with literal_eq := hcompared.trans hl.literal_eq }⟩
      | false =>
          have hself : n.unwrap = n := Node.unwrap_of_plain hwrapper
          simp only [hwrapper, Bool.false_eq_true, if_false] at h
          split at h
          · next hk =>
              split at h
              · next hoperator =>
                  simp only [Option.bind_eq_some_iff] at h
                  obtain ⟨inner, ⟨a, ha, hinner⟩, h⟩ := h
                  split at h
                  · cases h
                  next hplain =>
                    cases h
                    obtain ⟨⟨r, F, hr, heval, htruth⟩, -⟩ := ih a (List.mem_of_find?_eq_some ha) hinner
                    have hnone : inner.comparison = none := by simpa using hplain
                    simp only [outcome_plain E hnone] at htruth
                    refine ⟨⟨r, fun w => .ofBool !(F w).truthy, hr, fun names => ?_, fun w => ?_⟩, .inl rfl⟩
                    · have harg := heval names
                      rw [eval_eq]
                      cases hw : eval E names r <;> simp_all
                    · rw [outcome_plain E rfl]
                      show (!(F w).truthy) = (w.truthy != !inner.negated)
                      rw [htruth]
                      cases w.truthy <;> cases inner.negated <;> rfl
              · cases h
          · next hk =>
              obtain ⟨operator, left, right, value, hoperator, hknown, hleft, hright, hpath, hvalue,
                hcomparison, hplain⟩ := comparisonTest?_spec h
              have hcompared : compared? n = some right := by
                unfold compared?
                rw [hself, hright]
              refine ⟨⟨left, fun w => .ofBool (E.compare operator.text w (constant E right)), hpath,
                fun names => ?_, fun w => ?_⟩, .inr ⟨operator.text, value, right, ?_⟩⟩
              · rw [eval_eq]
                cases hv : eval E names left <;> simp_all
              · rw [hcompared, outcome_comparison E hcomparison]
                rfl
              · exact ⟨hcomparison, by simpa using hknown, hcompared, hvalue⟩
          · simp only [Option.map_eq_some_iff] at h
            obtain ⟨path, hpath, h⟩ := h
            cases h
            refine ⟨⟨n, id, hpath, fun names => by rw [Option.map_id, id], fun w => ?_⟩, .inl rfl⟩
            rw [outcome_plain E rfl]
            simp

/-- A test reads one path, and all else about it is in the parts that were read from it. -/
theorem propTest?_spec (E : Engine) {f : Tsx.Arrow} {n : Node} {t : PropTest}
    (h : propTest? f n = some t) :
    (∃ r, propsPath? f r = some t.path ∧ ∀ names,
      (eval E names n).map Value.truthy = (eval E names r).map (outcome E t (compared? n))) ∧
    (t.comparison = none ∨ ∃ operator value l, Compares n t operator value l) := by
  obtain ⟨⟨r, F, hr, heval, htruth⟩, hcomparison⟩ := propTest?_eval E h
  refine ⟨⟨r, hr, fun names => ?_⟩, hcomparison⟩
  rw [heval, Option.map_map]
  exact congrArg (Option.map · (eval E names r)) (funext htruth)

theorem opposite_ne_nan {p : Primitive} (h : p ≠ .number .nan) : opposite p ≠ .number .nan := by
  cases p with
  | number x =>
      intro hneg
      cases x with
      | nan => exact h rfl
      | finite s m e => cases hneg
      | infinite s => cases hneg
  | _ => exact nofun

/-- No literal stands for what is not a number. -/
theorem constant_ne_nan (E : Engine) (n : Node) : constant E n ≠ .number .nan := by
  have hfirst : ∀ ns : List Node, (∀ c ∈ ns, constant E c ≠ .number .nan) →
      constantFirst E ns ≠ .number .nan := by
    intro ns h
    induction ns with
    | nil => exact nofun
    | cons n ns ih =>
        rw [constantFirst]
        split
        · exact ih fun c hc => h c (List.mem_cons_of_mem n hc)
        · exact h n List.mem_cons_self
  have hargument : ∀ ns : List Node, (∀ c ∈ ns, constant E c ≠ .number .nan) →
      constantArgument E ns ≠ .number .nan := by
    intro ns h
    induction ns with
    | nil => exact nofun
    | cons n ns ih =>
        rw [constantArgument]
        split
        · exact h n List.mem_cons_self
        · exact ih fun c hc => h c (List.mem_cons_of_mem n hc)
  induction n using Node.induction with
  | step n ih =>
      obtain ⟨kind, role, start, stop, text, children⟩ := n
      unfold constant
      dsimp only
      split
      · exact hfirst children ih
      split
      · exact opposite_ne_nan (hargument children ih)
      · exact E.literal_ne_nan _

end Restyle.Script
