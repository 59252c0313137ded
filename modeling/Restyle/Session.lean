import Restyle.Diagnostic
import Restyle.Trace

/-!
# Sessions

The work on a module collects diagnostics and a trace.  A session holds both, together with whatever
the owner of the work keeps for itself; what has been collected survives a fault.
-/

namespace Restyle

/-- Why a piece of work stops. -/
inductive Fault where
  /-- An entry is looked up in a value that is no object. -/
  | lookupInLeaf
  /-- An entry is written into a value that is no object. -/
  | writeToLeaf
  /-- A static block stands where a value has to be rendered. -/
  | blockValue
  /-- A name is looked up that is not there. -/
  | missingName (name : String)
  /-- A body gets new entries while it is read. -/
  | changedWhileRead
  deriving DecidableEq, Repr

/-- What the work on one module has collected, and the state of its owner. -/
structure Session (τ : Type) where
  diagnostics : Diagnostics := {}
  trace : Trace := {}
  important : List String := []
  store : τ

/-- Work that may stop with a fault and keeps what it has collected. -/
abbrev Work (τ : Type) := ExceptT Fault (StateM (Session τ))

namespace Work

variable {τ : Type}

/-- Reports a diagnostic. -/
def report (d : Diagnostic) : Work τ Unit :=
  modify fun s => { s with diagnostics := s.diagnostics.report d }

/-- Adds to the trace. -/
def trace (f : Trace → Trace) : Work τ Unit :=
  modify fun s => { s with trace := f s.trace }

/-- The state of the owner. -/
def store : Work τ τ := do
  return (← get).store

/-- Changes the state of the owner. -/
def update (f : τ → τ) : Work τ Unit :=
  modify fun s => { s with store := f s.store }

/-- Work with a state of its own on what has been collected so far. -/
def on {σ α : Type} (state : σ) (work : Work σ α) : Work τ (α × σ) := do
  let outer ← get
  let (result, inner) :=
    work.run { diagnostics := outer.diagnostics, trace := outer.trace, store := state }
  set { outer with diagnostics := inner.diagnostics, trace := inner.trace }
  match result with
  | .ok a => return (a, inner.store)
  | .error f => throw f

/-- Work as a phase of the trace; a fault leaves the phase open. -/
def phase {α : Type} (name detail : String) (work : Work τ α) : Work τ α := do
  trace (·.startPhase name detail)
  let a ← work
  trace (·.endPhase)
  return a

/-- Lifts a computation that may fail. -/
def ofExcept {α : Type} : Except Fault α → Work τ α
  | .ok a => return a
  | .error f => throw f

end Work

end Restyle
