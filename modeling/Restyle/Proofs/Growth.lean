import Restyle.Lowering.Passes

/-!
# Bodies that grow while they are read

A body with raised weight is merged into the styles around it entry by entry.  Where the same selector
stands inside of the body, the body is merged into itself while it is read, which is possible only as
long as no body in the row gets a new key.
-/

namespace Restyle.Style.Object

/-- A key is present exactly when it is among the keys. -/
theorem has_iff_mem_keys (o : Object) (key : Key) : o.has key = true ↔ key ∈ o.keys := by
  unfold has keys
  induction o with
  | nil => simp
  | cons entry o ih =>
      obtain ⟨k, v⟩ := entry
      by_cases h : k = key
      · simp [get?, h]
      · have h' : key ≠ k := fun e => h e.symm
        simp [get?, h, h', ih]

/-- Merging entries under keys that are all there already adds no key. -/
theorem keys_merge (target source : Object) (h : ∀ k ∈ source.keys, k ∈ target.keys) :
    (target.merge source).keys = target.keys := by
  induction source generalizing target with
  | nil => rw [merge_nil]
  | cons entry source ih =>
      obtain ⟨k, v⟩ := entry
      have hk : k ∈ target.keys := h k List.mem_cons_self
      have hset : (target.set k (mergeValue (target.get? k) v)).keys = target.keys := by
        rw [keys_set, if_pos hk]
      rw [merge_cons, ih _ fun k' hk' => ?_, hset]
      rw [hset]
      exact h k' (List.mem_cons_of_mem k hk')

end Restyle.Style.Object

namespace Restyle.Lowering

open Restyle.Style (Key Value Object)

/-- Somewhere in a row of bodies, one brings a key that the body around it does not have. -/
inductive Grows (key : Key) : List Object → Prop where
  | here {outer inner : Object} {rest : List Object} {k : Key} :
      k ∈ inner.keys → k ≠ key → outer.has k = false → Grows key (outer :: inner :: rest)
  | deeper {outer inner : Object} {rest : List Object} :
      Grows key (inner :: rest) → Grows key (outer :: inner :: rest)

/-- What is read of a body that keeps its keys has the keys of the body. -/
theorem keys_entriesAround (key : Key) {before after : Object} (h : after.keys = before.keys) :
    (entriesAround key before after).keys = before.keys := by
  have htake : (before.takeWhile fun entry => entry.1 != key).map (·.1) =
      before.keys.takeWhile (· != key) := by
    rw [Object.keys, List.takeWhile_map]
    rfl
  have hdrop : (after.dropWhile fun entry => entry.1 != key).map (·.1) =
      after.keys.dropWhile (· != key) := by
    rw [Object.keys, List.dropWhile_map]
    rfl
  show (before.takeWhile (fun entry => entry.1 != key) ++ after.dropWhile fun entry => entry.1 != key).map
    (·.1) = before.keys
  rw [List.map_append, htake, hdrop, h, List.takeWhile_append_dropWhile]

/-- A body brings its own keys into the body around it, other than the selector itself. -/
theorem keys_brought (key : Key) {inner settled : Object} (h : settled.keys = inner.keys) :
    Object.keys ((entriesAround key inner settled).filter fun (k, _) => k != key) =
      inner.keys.filter (· != key) := by
  rw [← keys_entriesAround key h]
  unfold Object.keys
  rw [List.filter_map]
  rfl

theorem all_brought_iff (key : Key) {inner settled : Object} (h : settled.keys = inner.keys)
    (body : Object) :
    (((entriesAround key inner settled).filter fun (k, _) => k != key).all
      fun (k, _) => Object.has body k) = true ↔ ∀ k ∈ inner.keys, k ≠ key → k ∈ body.keys := by
  have hmap : (((entriesAround key inner settled).filter fun (k, _) => k != key).all
      fun (k, _) => Object.has body k) =
      (Object.keys ((entriesAround key inner settled).filter fun (k, _) => k != key)).all body.has := by
    unfold Object.keys
    rw [List.all_map]
    rfl
  rw [hmap, keys_brought key h]
  simp [List.all_eq_true, Object.has_iff_mem_keys, Decidable.or_iff_not_imp_left]

/-- A row of bodies is absorbed unless it grows, and then without new keys. -/
theorem absorb?_spec (key : Key) (row : List Object) (body : Object) :
    (absorb? key body row = none ↔ Grows key (body :: row)) ∧
      ∀ settled, absorb? key body row = some settled → settled.keys = body.keys := by
  induction row generalizing body with
  | nil =>
      refine ⟨iff_of_false nofun nofun, fun settled h => ?_⟩
      cases h
      rfl
  | cons inner deeper ih =>
      obtain ⟨hnone, hkeys⟩ := ih inner
      cases hinner : absorb? key inner deeper with
      | none =>
          have habsorb : absorb? key body (inner :: deeper) = none := by
            rw [absorb?, hinner]
            rfl
          exact ⟨iff_of_true habsorb (.deeper (hnone.mp hinner)), fun _ h => by
            cases habsorb.symm.trans h⟩
      | some settled =>
          have hsteady : ¬ Grows key (inner :: deeper) := by
            rw [← hnone, hinner]
            exact nofun
          have hall := all_brought_iff key (hkeys settled hinner) body
          rw [absorb?, hinner]
          simp only [Option.bind_eq_bind, Option.bind_some]
          constructor
          · by_cases hfit : ∀ k ∈ inner.keys, k ≠ key → k ∈ body.keys
            · rw [if_pos (hall.mpr hfit)]
              refine iff_of_false nofun fun h => ?_
              cases h with
              | here hk hne hlacks =>
                  have hhas := (Object.has_iff_mem_keys body _).mpr (hfit _ hk hne)
                  cases hlacks.symm.trans hhas
              | deeper h => exact hsteady h
            · rw [if_neg (mt hall.mp hfit)]
              refine iff_of_true rfl ?_
              simp only [Classical.not_forall] at hfit
              obtain ⟨k, hk, hne, hlacks⟩ := hfit
              refine .here hk hne ?_
              rw [← Object.has_iff_mem_keys] at hlacks
              simpa using hlacks
          · intro merged hmerged
            split at hmerged
            · next hfit =>
                cases hmerged
                refine Object.keys_merge _ _ fun k hk => ?_
                rw [keys_brought key (hkeys settled hinner)] at hk
                obtain ⟨hmem, hne⟩ := List.mem_filter.mp hk
                exact hall.mp hfit k hmem (by simpa using hne)
            · cases hmerged

/-- The body of a selector is merged into itself, and grows while it is read. -/
def ReadsGrowing (styles : Object) (selector : String) (body : Object) : Prop :=
  ∃ own inner, Object.get? styles (.name selector) = some (.obj own) ∧
    Object.isConditional own = false ∧ Object.get? body (.name selector) = some (.obj inner) ∧
    Grows (.name selector) (body :: inner :: nestedBodiesIn (.name selector) inner)

theorem readEntries?_eq_none_iff (styles : Object) (selector : String) (body : Object) :
    readEntries? styles selector body = none ↔ ReadsGrowing styles selector body := by
  unfold readEntries? ReadsGrowing
  dsimp only
  split
  · next own inner hown hinner =>
      rw [hown, hinner]
      cases hcond : Object.isConditional own with
      | true =>
          refine iff_of_false nofun ?_
          rintro ⟨_, _, h, hplain, -⟩
          cases h
          cases hcond.symm.trans hplain
      | false =>
          simp only [Bool.false_eq_true, if_false, Option.map_eq_none_iff, (absorb?_spec _ _ _).1]
          constructor
          · exact fun h => ⟨own, inner, rfl, hcond, rfl, h⟩
          · rintro ⟨_, _, h, -, h', hgrows⟩
            cases h
            cases h'
            exact hgrows
  · next hother =>
      refine iff_of_false nofun ?_
      rintro ⟨own, inner, hown, -, hinner, -⟩
      exact hother own inner hown hinner

end Restyle.Lowering
