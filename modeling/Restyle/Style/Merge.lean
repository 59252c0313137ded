import Restyle.Session
import Restyle.Style.Value

/-!
# Merging style objects

Objects are merged entry by entry: nested objects are merged in turn, everything else is replaced.  The
conditional map of a property counts as one value and is replaced as a whole.

Merging takes over the objects of the source without copying them.  Where one source is merged into several
targets these share its nested objects, and what is merged into one of them later shows in the others.
-/

namespace Restyle.Style

mutual

/-- Merges `source` into `target`; later entries win and keep the places of earlier ones. -/
def Object.merge (target : Object) : Object → Object
  | [] => target
  | (key, value) :: rest =>
    Object.merge (target.set key (mergeValue (target.get? key) value)) rest

/-- The value a key has after merging, given the value it had. -/
def mergeValue (old : Option Value) : Value → Value
  | .obj source =>
    match old with
    | some (.obj target) =>
      if Object.isConditional source then .obj source else .obj (Object.merge target source)
    | _ => .obj source
  | value => value

end

/-- Merging into a value that is no object fails on the first entry. -/
def mergeIntoLeaf : Object → Except Fault Unit
  | [] => .ok ()
  | (_, value) :: _ => .error (if value.isObject then .lookupInLeaf else .writeToLeaf)

/--
Merges `source` into the object reached by a path of keys, creating the objects on the way.  A value on
the path that is no object is a fault, unless it ends the path and there is nothing to merge.
-/
def Object.mergeAt (target : Object) : List Key → Object → Except Fault Object
  | [], source => .ok (target.merge source)
  | key :: path, source =>
    match target.get? key with
    | none => do return target.set key (.obj (← Object.mergeAt [] path source))
    | some (.obj inner) => do return target.set key (.obj (← Object.mergeAt inner path source))
    | some _ =>
      if path.isEmpty then do
        mergeIntoLeaf source
        return target
      else .error .lookupInLeaf

/-- Merging nothing changes nothing. -/
@[simp] theorem Object.merge_nil (target : Object) : Object.merge target [] = target := by
  simp [Object.merge]

/-- Merging is done entry by entry, from the left. -/
theorem Object.merge_cons (target : Object) (key : Key) (value : Value) (rest : Object) :
    Object.merge target ((key, value) :: rest) =
      Object.merge (target.set key (mergeValue (target.get? key) value)) rest := by
  simp [Object.merge]

/-! ## Shared objects -/

/--
A value in which every object knows its source.  Objects of one source that stand at the same path are one and
the same object, wherever they have been merged into.
-/
inductive Shared where
  | leaf (value : Value)
  | node (source : Nat) (entries : List (Key × Shared))

namespace Shared

/-- The entries of an object whose nested objects may be shared. -/
abbrev Entries := List (Key × Shared)

/-- Sets the value of a key: a present key keeps its place, a new one goes to the end. -/
def put (o : Entries) (key : Key) (value : Shared) : Entries :=
  if (o.lookup key).isSome then o.map fun (k, v) => (k, if k = key then value else v)
  else o ++ [(key, value)]

mutual

/-- A value of a source that has been merged nowhere yet. -/
def ofValue (source : Nat) : Value → Shared
  | .obj entries => .node source (ofObject source entries)
  | value => .leaf value

/-- The entries of a source that has been merged nowhere yet. -/
def ofObject (source : Nat) : Object → Entries
  | [] => []
  | (key, value) :: rest => (key, ofValue source value) :: ofObject source rest

end

mutual

/-- What a shared value looks like by itself. -/
def toValue : Shared → Value
  | .leaf value => value
  | .node _ entries => .obj (toObject entries)

/-- What shared entries look like by themselves. -/
def toObject : Entries → Object
  | [] => []
  | (key, value) :: rest => (key, value.toValue) :: toObject rest

end

mutual

/-- Merges entries in place; objects of the source are taken over as they are. -/
def merge (target : Entries) : Entries → Entries
  | [] => target
  | (key, value) :: rest => merge (put target key (mergeValue (target.lookup key) value)) rest

/-- The value a key has after merging in place, given the value it had. -/
def mergeValue (old : Option Shared) : Shared → Shared
  | .leaf value => .leaf value
  | .node source entries =>
    match old with
    | some (.node known target) =>
      if Object.isConditional (toObject entries) then .node source entries
      else .node known (merge target entries)
    | _ => .node source entries

end

mutual

/-- Entries after something has been merged into others: the objects that both share have changed. -/
def follow (changed : Entries) : Entries → Entries
  | [] => []
  | (key, value) :: rest => (key, followValue (changed.lookup key) value) :: follow changed rest

/-- A value after something has been merged into the one that stands at the same path elsewhere. -/
def followValue (changed : Option Shared) : Shared → Shared
  | .leaf value => .leaf value
  | .node source entries =>
    match changed with
    | some (.node other now) => .node source (if source = other then now else follow now entries)
    | _ => .node source entries

end

end Shared

end Restyle.Style
