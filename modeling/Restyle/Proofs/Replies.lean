import Restyle.Proofs.Decision

/-!
# Decisions and the imports they request

A decision asks the adapter at most once.  A question that ends in giving up leaves the requested imports as
they were, and a decision that is made from the answer requests the imports of this answer and no others.
Without a question nothing is requested.
-/

namespace Restyle.Interpolation

open Adapter (CallQuery CallResult ContractFault ImportSpec Query ValueQuery ValueResult)
open Style (Object)

/-! ## Decisions made from answers -/

/-- Whether a slot is given up. -/
def Decision.isBail : Decision → Bool
  | .bail .. => true
  | _ => false

/-- The traces after one more question. -/
def Traces.asked (t : Traces) (q : Query) : Traces :=
  { t with queries := t.queries ++ [q] }

/-- The traces after a request for imports. -/
def Traces.requested (t : Traces) (specs : List ImportSpec) : Traces :=
  { t with imports := t.imports.extend specs }

/-- The checked answer of the adapter to a question for a value. -/
def Environment.value (env : Environment) (q : ValueQuery) : Except ContractFault (Option ValueResult) :=
  Adapter.answer ValueResult.ofData? (env.adapter.resolveValue q)

/-- The checked answer of the adapter to a question for a call. -/
def Environment.call (env : Environment) (q : CallQuery) : Except ContractFault (Option CallResult) :=
  Adapter.answer CallResult.ofData? (env.adapter.resolveCall q)

/--
A decision that is made from the answer to a question, and the imports of this answer: the expression of the
answer, as a value or as a style of its own, or the styles of its text in the scope of the slot.
-/
inductive MadeFrom (env : Environment) (place : Place) : Query → List ImportSpec → Decision → Prop
  | value {q : ValueQuery} {result : ValueResult} (h : env.value q = .ok (some result)) :
      MadeFrom env place (.value q) result.imports (.convert (.js result.expr))
  | call {q : CallQuery} {result : CallResult} (h : env.call q = .ok (some result))
      (husage : result.usage = .create) :
      MadeFrom env place (.call q) result.imports (.convert (.js result.expr))
  | style {q : CallQuery} {result : CallResult} (h : env.call q = .ok (some result))
      (husage : result.usage = .props) :
      MadeFrom env place (.call q) result.imports (.reference result.expr)
  | block {q : CallQuery} {result : CallResult} {css : String} {styles out : Object}
      (h : env.call q = .ok (some result)) (husage : result.usage = .props) (htext : result.cssText = some css)
      (hstyles : blockStyles css = .ok (.ok styles)) (hout : scopeStyles? styles place = some out) :
      MadeFrom env place (.call q) result.imports (.convert (.obj out))

/-- What comes of a question: giving up, or a decision that is made from the answer and requests its imports. -/
inductive Replied (env : Environment) (place : Place) (q : Query) (t : Traces) : Decision → Traces → Prop
  | refused (reason : DiagnosticKind) (props : List String) (inline : Option String) :
      Replied env place q t (.bail reason props inline) t
  | taken {specs : List ImportSpec} {d : Decision} (h : MadeFrom env place q specs d) :
      Replied env place q t d (t.requested specs)

/-- What a decision leaves behind: the traces as they were, or a question with what comes of it. -/
inductive Leaves (env : Environment) (place : Place) (t : Traces) : Decision → Traces → Prop
  | unasked (d : Decision) : Leaves env place t d t
  | asked {q : Query} {d : Decision} {t' : Traces} (h : Replied env place q (t.asked q) d t') :
      Leaves env place t d t'

/-! ## Runs -/

/-- Every run that ends well is so related to the traces before and after it; a fault requests nothing. -/
def Runs {α : Type} (P : Traces → α → Traces → Prop) (work : Deciding α) : Prop :=
  ∀ t, match work.run t with
    | (.ok a, t') => P t a t'
    | (.error _, t') => t'.imports = t.imports

section

variable {α β : Type} {P R : Traces → α → Traces → Prop}

theorem runs_pure {a : α} (h : ∀ t, P t a t) : Runs P (pure a) :=
  h

theorem runs_lift {x : Except Fault α} (h : ∀ t a, x = .ok a → P t a t) : Runs P (liftM x : Deciding α) := by
  intro t
  cases x with
  | error fault => rfl
  | ok a => exact h t a rfl

theorem Runs.map {Q : Traces → β → Traces → Prop} {work : Deciding α} (h : Runs P work) {f : α → β}
    (hsub : ∀ t a t', P t a t' → Q t (f a) t') : Runs Q (do return f (← work)) := by
  intro t
  have hwork := h t
  rw [Work.run_bind]
  revert hwork
  rcases work.run t with ⟨fault | a, t'⟩
  · exact id
  · exact hsub t a t'

/-- What is read without leaving traces. -/
theorem runs_lift_bind {x : Except Fault β} {next : β → Deciding α}
    (h : ∀ b, x = .ok b → Runs P (next b)) : Runs P ((liftM x : Deciding β) >>= next) := by
  intro t
  cases x with
  | error fault => rfl
  | ok b => exact h b rfl t

/-- A question leaves itself behind, and what follows it replies. -/
theorem runs_ask {ask : Deciding β} {answer : β} {q : Query} {next : β → Deciding α}
    (hask : ∀ t, ask.run t = (.ok answer, t.asked q)) (hnext : Runs R (next answer))
    (hsub : ∀ t a t', R (t.asked q) a t' → P t a t') : Runs P (ask >>= next) := by
  intro t
  rw [Work.run_bind_ok next (hask t)]
  have hwork := hnext (t.asked q)
  revert hwork
  rcases (next answer).run (t.asked q) with ⟨fault | a, t'⟩
  · exact id
  · exact hsub t a t'

end

theorem run_askValue (env : Environment) (q : ValueQuery) (t : Traces) :
    (Deciding.askValue env q).run t = (.ok (env.value q), t.asked (.value q)) :=
  rfl

theorem run_askCall (env : Environment) (q : CallQuery) (t : Traces) :
    (Deciding.askCall env q).run t = (.ok (env.call q), t.asked (.call q)) :=
  rfl

/-! ## Replies -/

section

variable {env : Environment} {place : Place}

theorem replies_bail {q : Query} {reason : DiagnosticKind} {props : List String} {inline : Option String} :
    Runs (Replied env place q) (pure (.bail reason props inline)) :=
  runs_pure fun _ => .refused reason props inline

theorem replies_convertTo {q : Query} {expr : String} {specs : List ImportSpec}
    (h : MadeFrom env place q specs (.convert (.js expr))) :
    Runs (Replied env place q) (Deciding.convertTo expr specs) :=
  fun _ => .taken h

theorem replies_request {q : Query} {specs : List ImportSpec} {d : Decision} (h : MadeFrom env place q specs d) :
    Runs (Replied env place q) (do Deciding.request specs; return d) :=
  fun _ => .taken h

/-- An answer is taken if it passes a test, such as that it holds an expression. -/
theorem replies_tested {q : ValueQuery} {result : ValueResult} {passes : Bool} (h : env.value q = .ok (some result))
    (reason : DiagnosticKind) :
    Runs (Replied env place (.value q))
      (if passes then Deciding.convertTo result.expr result.imports else return .bail reason) := by
  split
  · exact replies_convertTo (.value h)
  · exact replies_bail

variable {q : CallQuery} {result : CallResult}

theorem replies_decideValueCall (h : env.call q = .ok (some result)) :
    Runs (Replied env place (.call q)) (decideValueCall place result) := by
  unfold decideValueCall
  dsimp only
  split
  · exact replies_bail
  next husage =>
  split
  · exact replies_bail
  split
  · exact replies_bail
  · exact replies_convertTo (.call h (by simpa using husage))

theorem replies_decideBlockCall (h : env.call q = .ok (some result)) :
    Runs (Replied env place (.call q)) (decideBlockCall place result) := by
  unfold decideBlockCall
  dsimp only
  split
  · exact replies_bail
  next husage =>
  have hprops : result.usage = .props := by simpa using husage
  split
  · split
    · exact replies_bail
    split
    · exact replies_bail
    next css hcss =>
    have htext : result.cssText = some css := (Option.filter_eq_some_iff.mp hcss).1
    refine runs_lift_bind fun styles hstyles => ?_
    rcases styles with problem | styles
    · exact replies_bail
    · dsimp only
      split
      · exact replies_bail
      · next out hout => exact replies_request (.block h hprops htext hstyles hout)
  · split
    · exact replies_bail
    · exact replies_request (.style h hprops)

end

/-! ## Handlers -/

/-- What a handler leaves behind that may leave the slot to the fallback. -/
def LeavesIfAny (env : Environment) (place : Place) (t : Traces) : Option Decision → Traces → Prop
  | some d, t' => Leaves env place t d t'
  | none, t' => t' = t

/-- What comes of a question of such a handler: it leaves no slot to the fallback. -/
def RepliedAny (env : Environment) (place : Place) (q : Query) (t : Traces) : Option Decision → Traces → Prop
  | some d, t' => Replied env place q t d t'
  | none, _ => False

section

variable {env : Environment} {place : Place}

theorem RepliedAny.leaves {q : Query} {t t' : Traces} {d? : Option Decision}
    (h : RepliedAny env place q (t.asked q) d? t') : LeavesIfAny env place t d? t' := by
  cases d? with
  | some d => exact .asked h
  | none => exact h.elim

theorem leaves_pure (d : Decision) : Runs (Leaves env place) (pure d) :=
  runs_pure fun _ => .unasked d

theorem leaves_decideTheme (c : Classified) : Runs (Leaves env place) (decideTheme env c place) := by
  refine runs_ask (run_askValue env _) ?_ fun _ _ _ => .asked
  generalize hanswer : env.value _ = answer
  rcases answer with _ | _ | result
  · exact replies_bail
  · exact replies_bail
  · exact replies_tested hanswer _

theorem leaves_decideLogical (c : Classified) : Runs (Leaves env place) (decideLogical env c place) := by
  unfold decideLogical
  split
  · refine runs_ask (run_askValue env _) ?_ fun _ _ _ => .asked
    generalize hanswer : env.value _ = answer
    rcases answer with _ | _ | result
    · exact replies_bail
    · exact replies_bail
    · exact replies_tested hanswer _
  · exact leaves_pure _

theorem leaves_decideHelper (c : Classified) : Runs (Leaves env place) (decideHelper env c place) := by
  unfold decideHelper
  split
  · split
    · exact leaves_pure _
    split <;> exact leaves_pure _
  split
  · exact leaves_pure _
  · refine runs_ask (run_askCall env _) ?_ fun _ _ _ => .asked
    generalize hanswer : env.call _ = answer
    rcases answer with _ | _ | result
    · exact replies_bail
    · exact replies_bail
    · dsimp only
      split
      · exact replies_decideBlockCall hanswer
      · exact replies_decideValueCall hanswer

theorem leavesIfAny_pure (d : Decision) : Runs (LeavesIfAny env place) (pure (some d)) :=
  runs_pure fun _ => .unasked d

theorem leavesIfAny_none : Runs (LeavesIfAny env place) (pure none) :=
  runs_pure fun _ => rfl

theorem leavesIfAny_decideName? (c : Classified) : Runs (LeavesIfAny env place) (decideName? env c place) := by
  unfold decideName?
  split
  · exact leavesIfAny_none
  split
  · exact leavesIfAny_none
  · exact leavesIfAny_none
  split
  · exact leavesIfAny_pure _
  split
  · exact leavesIfAny_pure _
  · next binding _ =>
    refine runs_ask (R := RepliedAny env place _) (run_askValue env _) ?_ fun _ _ _ => RepliedAny.leaves
    -- the text of the question does not matter
    generalize ({ kind := .importedValue, path := _, property := _, importSource := _ } : ValueQuery) = q
    generalize hanswer : env.value q = answer
    rcases answer with _ | _ | result
    · exact replies_bail.map fun _ _ _ h => h
    · exact replies_bail.map fun _ _ _ h => h
    · dsimp only
      split
      · exact (replies_convertTo (.value hanswer)).map fun _ _ _ h => h
      · exact replies_bail.map fun _ _ _ h => h

/-- The handler for the class of a slot. -/
theorem leavesIfAny_decideByTag (c : Classified) : Runs (LeavesIfAny env place) (decideByTag env c place) := by
  unfold decideByTag
  split
  · exact (leaves_decideTheme c).map fun _ _ _ h => h
  · exact leavesIfAny_pure _
  · exact (runs_lift fun _ d _ => .unasked d).map fun _ _ _ h => h
  · exact (leaves_decideLogical c).map fun _ _ _ h => h
  · exact leavesIfAny_pure _
  · exact (leaves_decideHelper c).map fun _ _ _ h => h
  · exact leavesIfAny_decideName? c

/-- A decision leaves the traces as they were, or a question with what comes of it. -/
theorem leaves_decide (c : Classified) : Runs (Leaves env place) (decide env c place) := by
  unfold decide
  split
  · exact leaves_pure _
  · refine (leavesIfAny_decideByTag c).map fun t d? t' h => ?_
    cases d? with
    | some d => exact h
    | none =>
        cases h
        exact .unasked _

end

theorem MadeFrom.isBail {env : Environment} {place : Place} {q : Query} {specs : List ImportSpec} {d : Decision}
    (h : MadeFrom env place q specs d) : d.isBail = false := by
  cases h <;> rfl

/--
Giving up requests no imports.  A decision of another kind requests none either, unless it is made from the answer
to a question: then it requests the imports of this answer.
-/
theorem imports_decide {env : Environment} {c : Classified} {place : Place} {t t' : Traces} {d : Decision}
    (h : (decide env c place).run t = (.ok d, t')) :
    (d.isBail = true → t'.imports.specs = t.imports.specs) ∧
      (d.isBail = false →
        (t'.queries = t.queries ∧ t'.imports = t.imports) ∨
        ∃ q specs, t'.queries = t.queries ++ [q] ∧ MadeFrom env place q specs d ∧
          t'.imports = t.imports.extend specs) := by
  have hruns : Runs (Leaves env place) (decide env c place) := leaves_decide c
  have hleaves := hruns t
  rw [h] at hleaves
  cases hleaves with
  | unasked => exact ⟨fun _ => rfl, fun _ => .inl ⟨rfl, rfl⟩⟩
  | asked hreplied =>
      cases hreplied with
      | refused => exact ⟨fun _ => rfl, fun h => by cases h⟩
      | taken hmade =>
          refine ⟨fun hbail => ?_, fun _ => .inr ⟨_, _, rfl, hmade, rfl⟩⟩
          rw [hmade.isBail] at hbail
          cases hbail

/-- The import that the adapter below asks for. -/
def tokensImport : ImportSpec where
  source := { value := "./tokens" }
  names := [{ imported := "tokens" }]

/-- An adapter that knows one token. -/
def tokensAdapter : ProjectAdapter where
  resolveValue _ :=
    .obj [("expr", .str "tokens.primary"),
      ("imports", .list [.obj [("from", .obj [("value", .str "./tokens")]),
        ("names", .list [.obj [("imported", .str "tokens")]])]])]

/-- A slot for a color of the theme. -/
def primaryColor : Classified where
  tag := .themeAccess
  source := "p => p.theme.colors.primary"
  path := ["colors", "primary"]

/-- The value of a color. -/
def colorPlace : Place where
  component := "Button"
  styleKey := "button"
  request := { index := 0, property := "color", value := "__INTERPOLATION_0__", token := "", tokens := [] }

/-- The question for it. -/
def colorQuery : ValueQuery where
  kind := .theme
  path := "colors.primary"
  property := some "color"

theorem imports_decide_primaryColor :
    ∃ t', (decide { adapter := tokensAdapter } primaryColor colorPlace).run {} =
        (.ok (.convert (.js "tokens.primary")), t') ∧
      t'.imports = ({} : Adapter.ImportSink).extend [tokensImport] ∧
      ((t'.queries = [] ∧ t'.imports = {}) ∨
        ∃ q specs, t'.queries = [] ++ [q] ∧
          MadeFrom { adapter := tokensAdapter } colorPlace q specs (.convert (.js "tokens.primary")) ∧
          t'.imports = ({} : Adapter.ImportSink).extend specs) := by
  have hexpr : Tsx.isExpression "tokens.primary" = true := by decide +kernel
  have hasked : (Deciding.askValue { adapter := tokensAdapter } colorQuery).run {} =
      (.ok (.ok (some { expr := "tokens.primary", imports := [tokensImport] })),
        ({} : Traces).asked (.value colorQuery)) := rfl
  have htheme : (decideTheme { adapter := tokensAdapter } primaryColor colorPlace).run {} =
      (.ok (.convert (.js "tokens.primary")),
        (({} : Traces).asked (.value colorQuery)).requested [tokensImport]) := by
    refine (Work.run_bind_ok _ hasked).trans ?_
    dsimp only
    rw [if_pos hexpr]
    rfl
  have hrun : (decide { adapter := tokensAdapter } primaryColor colorPlace).run {} = _ :=
    Work.run_bind_ok _ (Work.run_bind_ok _ htheme)
  exact ⟨_, hrun, rfl, (imports_decide hrun).2 rfl⟩

end Restyle.Interpolation
