import Restyle.Proofs.Folding
import Restyle.Proofs.Lowering
import Mathlib.Data.List.Induction

/-!
# Entries that selectors add

Selectors for children, for components inside, for attributes and for siblings add entries to their
component.  Several selectors may name the same entry; then the keys of a later one replace those of the
earlier ones, whatever is in them.  The further entries that lowering leaves behind are those of the
component with all additions played back, so the last addition that names a key decides what it has.
-/

namespace Restyle.Style

namespace Object

theorem set_of_not_mem {o : Object} {key : Key} (h : key ∉ o.keys) (value : Value) :
    o.set key value = o ++ [(key, value)] := by
  induction o with
  | nil => rfl
  | cons entry o ih =>
      obtain ⟨k, v⟩ := entry
      have hne : k ≠ key := fun heq => h (heq ▸ List.mem_cons_self)
      have hrest : key ∉ keys o := fun hmem => h (List.mem_cons.mpr (.inr hmem))
      rw [set, if_neg hne, ih hrest]
      rfl

theorem foldl_set_eq_append {entries o : Object} (hentries : entries.keys.Nodup)
    (hfresh : ∀ key ∈ entries.keys, key ∉ o.keys) :
    entries.foldl (fun o entry => o.set entry.1 entry.2) o = o ++ entries := by
  induction entries generalizing o with
  | nil => exact (List.append_nil o).symm
  | cons entry entries ih =>
      obtain ⟨key, value⟩ := entry
      obtain ⟨hkey, hrest⟩ := List.nodup_cons.mp hentries
      obtain ⟨hnew, hfresh⟩ := List.forall_mem_cons.mp hfresh
      have hset := set_of_not_mem hnew value
      rw [List.foldl_cons, ih hrest, hset, List.append_assoc]
      · rfl
      · intro k hk hmem
        rw [keys_set, if_neg hnew] at hmem
        rcases List.mem_append.mp hmem with hmem | hmem
        · exact hfresh k hk hmem
        · cases List.mem_singleton.mp hmem
          exact hkey hk

/-- Entries that are set one after the other win over those that were there. -/
theorem get?_foldl_set {entries : Object} (h : entries.keys.Nodup) (o : Object) (key : Key) :
    (entries.foldl (fun o entry => o.set entry.1 entry.2) o).get? key =
      (entries.get? key).or (o.get? key) := by
  induction entries generalizing o with
  | nil => rfl
  | cons entry entries ih =>
      obtain ⟨k, v⟩ := entry
      obtain ⟨hfresh, hrest⟩ := List.nodup_cons.mp h
      rw [List.foldl_cons, ih hrest, get?_cons]
      by_cases hk : k = key
      · subst hk
        rw [if_pos rfl, (get?_eq_none_iff entries k).mpr hfresh, Option.none_or, get?_set_self,
          Option.some_or]
      · rw [if_neg hk, get?_set_of_ne o v hk]

/-- Changing values in their places changes what is found under their keys. -/
theorem get?_map {f : Key × Value → Key × Value} (hf : ∀ entry, (f entry).1 = entry.1) (o : Object) (key : Key) :
    get? (o.map f) key = (o.get? key).map fun value => (f (key, value)).2 := by
  induction o with
  | nil => rfl
  | cons entry o ih =>
      obtain ⟨k, v⟩ := entry
      rw [List.map_cons, show f (k, v) = (k, (f (k, v)).2) from Prod.ext (hf _) rfl, get?_cons, get?_cons, ih]
      by_cases hk : k = key
      · subst hk
        rw [if_pos rfl, if_pos rfl, Option.map_some]
      · rw [if_neg hk, if_neg hk]

/-- The key at which reading inside of an object starts. -/
def topKey (path : List Key) (property : Key) : Key :=
  path.headD property

/-- What an object holds depends on its value for the first key alone. -/
theorem held?_congr {o o' : Object} {path : List Key} {property : Key}
    (h : o.get? (topKey path property) = o'.get? (topKey path property)) (condition : Key) :
    o.held? path property condition = o'.held? path property condition := by
  cases path with
  | nil => rw [held?, held?, choice?, choice?, show o.get? property = o'.get? property from h]
  | cons key path => rw [held?, held?, show o.get? key = o'.get? key from h]

end Object

end Restyle.Style

namespace Restyle.Lowering

open Restyle.Style (Key Value Object)
open Restyle.Component (TargetKind AttributeOperator SiblingRelation)
open Work (Keeps Stores NeverStops)

/-! ## Additions -/

/-- The body of a selector: an object with distinct keys that is not the conditional map of a property. -/
structure Body (o : Object) : Prop where
  distinct : o.keys.Nodup
  unconditional : o.isConditional = false

/-- What a selector selects. -/
inductive Target where
  | children (kind : TargetKind)
  | component (name : String)
  | attribute (attr : String) (operator : AttributeOperator) (value : Option String)
  | sibling (relation : SiblingRelation) (className : Option String)
  deriving DecidableEq

/--
A body that is added to an entry: inside of a pseudo-element, or under a condition, with the values of
another component where the condition does not hold.
-/
structure Addition where
  target : Target
  entry : String
  element : Option Key := none
  condition : Option Key := none
  fallbacks : Object := []
  body : Object

namespace Addition

/-- An entry of the body as it is added; a pseudo-element is not put under the condition. -/
def place (a : Addition) (entry : Key × Value) : Key × Value :=
  match a.condition with
  | none => entry
  | some condition =>
    if entry.1.isPseudoElement then entry
    else (entry.1, .obj [(Key.default, baseValue a.fallbacks entry.1), (condition, entry.2)])

/-- The styles that are added. -/
def styles (a : Addition) : Object :=
  match a.element with
  | some element => [(element, .obj a.body)]
  | none => a.body.map a.place

theorem styles_plain (target : Target) (entry : String) (body : Object) :
    styles { target, entry, body } = body :=
  List.map_id body

theorem keys_map_place (a : Addition) : Object.keys (a.body.map a.place) = a.body.keys := by
  rw [Object.keys, Object.keys, List.map_map]
  refine List.map_congr_left fun entry _ => ?_
  show (a.place entry).1 = entry.1
  unfold place
  split
  · rfl
  · split <;> rfl

theorem nodup_keys_styles {a : Addition} (h : a.body.keys.Nodup) : a.styles.keys.Nodup := by
  unfold styles
  split
  · exact List.pairwise_singleton _ _
  · rwa [a.keys_map_place]

/-- Puts styles into an entry: into the one that is there, or a new one. -/
def putEntry (t : Table Object) (entry : String) (styles : Object) : Table Object :=
  match t.get? entry with
  | some known => t.set entry (styles.foldl (fun o (key, value) => o.set key value) known)
  | none => t.set entry styles

/-- Further entries after an addition. -/
def addTo (t : Table Object) (a : Addition) : Table Object :=
  putEntry t a.entry a.styles

theorem extraStyles_addExtra (c : Component) (entry : String) (styles : Object) :
    (c.addExtra entry styles).extraStyles = putEntry c.extraStyles entry styles := by
  unfold Component.addExtra putEntry
  cases c.extraStyles.get? entry <;> rfl

/-- Whether an addition names a key of an entry. -/
def names (a : Addition) (entry : String) (key : Key) : Bool :=
  a.entry == entry && a.styles.has key

/-- An entry, which is empty if it is not there. -/
def entryOf (t : Table Object) (entry : String) : Object :=
  (t.get? entry).getD []

theorem get?_addTo {a : Addition} (h : a.body.keys.Nodup) (t : Table Object) (entry : String) (key : Key) :
    (entryOf (addTo t a) entry).get? key =
      if a.names entry key then a.styles.get? key else (entryOf t entry).get? key := by
  have hstyles := nodup_keys_styles h
  by_cases hentry : a.entry = entry
  · subst hentry
    have hnames : a.names a.entry key = (a.styles.get? key).isSome := by
      rw [names, beq_self_eq_true, Bool.true_and, Object.has]
    have hput : (entryOf (addTo t a) a.entry).get? key =
        (a.styles.get? key).or ((entryOf t a.entry).get? key) := by
      unfold addTo putEntry entryOf
      cases t.get? a.entry with
      | none => rw [Table.get?_set_self, Option.getD_some, Option.getD_none, Object.get?_nil, Option.or_none]
      | some known =>
          rw [Table.get?_set_self, Option.getD_some, Option.getD_some]
          exact Object.get?_foldl_set hstyles known key
    rw [hput, hnames]
    cases a.styles.get? key <;> rfl
  · have hnames : a.names entry key = false := by
      rw [names, beq_false_of_ne hentry, Bool.false_and]
    have hother : (addTo t a).get? entry = t.get? entry := by
      unfold addTo putEntry
      split <;> exact Table.get?_set_of_ne _ _ hentry
    rw [hnames, if_neg Bool.false_ne_true, entryOf, hother, entryOf]

/-! ### Values of an addition -/

/--
The value that an addition gives to a property under a condition, inside of the objects along a path.  It is
that of the body: inside of the pseudo-element of the addition, or under its condition unless the body has it
inside of a pseudo-element.
-/
def value? (a : Addition) (path : List Key) (property condition : Key) : Option Value :=
  match a.element, path with
  | some element, key :: path => if key = element then a.body.held? path property condition else none
  | some _, [] => none
  | none, path =>
    match a.condition with
    | none => a.body.held? path property condition
    | some own =>
      if (Object.topKey path property).isPseudoElement then a.body.held? path property condition
      else if condition = own then a.body.held? path property Key.default
      else none

/-- What additions are like: the body of a selector, which is plain where it is put under a condition. -/
structure WellFormed (a : Addition) : Prop where
  distinct : a.body.keys.Nodup
  inElement : a.element.isSome = true → a.body.isConditional = false
  branch : ∀ condition, a.condition = some condition → condition.isBranch = true
  plain : a.condition.isSome = true →
    ∀ key value, a.body.get? key = some value → key.isPseudoElement = true ∨ value.isObject = false

theorem wellFormed_plain {body : Object} (h : Body body) (target : Target) (entry : String) :
    WellFormed { target, entry, body } :=
  ⟨h.distinct, nofun, nofun, nofun⟩

theorem get?_map_place (a : Addition) (key : Key) :
    Object.get? (a.body.map a.place) key = (a.body.get? key).map fun value => (a.place (key, value)).2 := by
  refine Object.get?_map (fun entry => ?_) a.body key
  unfold place
  split
  · rfl
  · split <;> rfl

theorem held?_map_place_of_kept {a : Addition} {path : List Key} {property : Key}
    (h : ∀ value, a.place (Object.topKey path property, value) = (Object.topKey path property, value))
    (condition : Key) :
    Object.held? (a.body.map a.place) path property condition = a.body.held? path property condition := by
  refine Object.held?_congr ?_ condition
  rw [a.get?_map_place]
  cases a.body.get? (Object.topKey path property) with
  | none => rfl
  | some value => rw [Option.map_some, h]

/-- What stands under the condition of an addition is the plain value of the body. -/
theorem choice?_map_place {a : Addition} (h : a.WellFormed) {property own : Key} {value : Value}
    (hown : a.condition = some own) (hproperty : ¬ property.isPseudoElement = true)
    (hvalue : a.body.choice? property Key.default = some value) :
    Object.choice? (a.body.map a.place) property own = some value := by
  have hbranch := h.branch own hown
  have hne := Key.ne_default_of_isBranch hbranch
  rw [Object.choice?] at hvalue ⊢
  rw [a.get?_map_place]
  cases hget : a.body.get? property with
  | none =>
      rw [hget] at hvalue
      cases hvalue
  | some v =>
      have hobject := (h.plain (by rw [hown]; rfl) _ _ hget).resolve_left hproperty
      rw [hget, Style.choose_plain hobject, if_pos rfl] at hvalue
      cases hvalue
      have hmap : Object.isConditional
          [(Key.default, baseValue a.fallbacks property), (own, value)] = true := by
        simp [Object.isConditional, Object.has, Object.get?_cons, Key.isCondition_default,
          Key.isCondition_of_isBranch hbranch]
      have hplace : a.place (property, value) = (property,
          .obj [(Key.default, baseValue a.fallbacks property), (own, value)]) := by
        simp only [place, hown]
        exact if_neg hproperty
      rw [Option.map_some, hplace, Style.choose_conditional hmap, Object.get?_cons,
        if_neg (Ne.symm hne), Object.get?_cons, if_pos rfl]

/-- The styles that are added hold the values of the addition. -/
theorem held?_of_value? {a : Addition} (h : a.WellFormed) {path : List Key} {property condition : Key}
    {value : Value} (hvalue : a.value? path property condition = some value) :
    a.styles.held? path property condition = some value := by
  unfold value? at hvalue
  unfold styles
  cases helement : a.element with
  | some element =>
      rw [helement] at hvalue
      cases path with
      | nil => cases hvalue
      | cons key path =>
          dsimp only at hvalue ⊢
          split at hvalue
          · next hkey =>
              subst hkey
              simp only [Object.held?, Object.get?_cons, if_pos, h.inElement (by rw [helement]; rfl)]
              exact hvalue
          · cases hvalue
  | none =>
      rw [helement] at hvalue
      dsimp only at hvalue ⊢
      split at hvalue
      · next hnone =>
          rw [held?_map_place_of_kept fun value => by rw [place, hnone], hvalue]
      next own hown =>
      split at hvalue
      · next htop =>
          rw [held?_map_place_of_kept fun value => by simp only [place, hown, if_pos htop], hvalue]
      next htop =>
      split at hvalue
      · next hcondition =>
          subst hcondition
          cases path with
          | nil => exact choice?_map_place h hown htop hvalue
          | cons key path =>
              -- only a plain value is put under the condition, so there is no object to go into
              simp only [Object.held?] at hvalue
              split at hvalue
              · next inner hget =>
                  rcases h.plain (by rw [hown]; rfl) _ _ hget with hpseudo | hobject
                  · exact absurd hpseudo htop
                  · cases hobject
              · cases hvalue
      · cases hvalue

/-- The last addition that names a key of an entry. -/
def lastNaming (additions : List Addition) (entry : String) (key : Key) : Option Addition :=
  (additions.filter fun a => a.names entry key).getLast?

theorem lastNaming_append_singleton (additions : List Addition) (a : Addition) (entry : String)
    (key : Key) : lastNaming (additions ++ [a]) entry key =
      if a.names entry key then some a else lastNaming additions entry key := by
  rw [lastNaming, List.filter_append, List.filter_cons, List.filter_nil]
  split
  · rw [List.getLast?_append, List.getLast?_singleton, Option.some_or]
  · rw [List.append_nil, lastNaming]

/-- The last addition that names a key of an entry decides what it has in the end. -/
theorem get?_foldl_addTo {additions : List Addition} (h : ∀ a ∈ additions, a.body.keys.Nodup)
    (t : Table Object) (entry : String) (key : Key) :
    (entryOf (additions.foldl addTo t) entry).get? key =
      match lastNaming additions entry key with
      | some a => a.styles.get? key
      | none => (entryOf t entry).get? key := by
  induction additions using List.reverseRecOn with
  | nil => rfl
  | append_singleton additions a ih =>
      have hrest : ∀ b ∈ additions, b.body.keys.Nodup := fun b hb => h b (List.mem_append_left _ hb)
      have ha := h a (List.mem_append_right _ List.mem_cons_self)
      rw [List.foldl_append, List.foldl_cons, List.foldl_nil, get?_addTo ha, ih hrest,
        lastNaming_append_singleton]
      split <;> rfl

end Addition

/-! ## What the selectors of a pass add -/

/-- What a selector with its body adds to a component. -/
abbrev Adder := Settings → Arena → Component → String → Object → List Addition

/-- A selector for children adds its body. -/
def childAdditions (_ : Settings) (_ : Arena) (c : Component) (selector : String) (body : Object) :
    List Addition :=
  match childTarget? (stripSelf selector) with
  | some (kind, ending) => [{ target := .children kind, entry := c.styleKey ++ ending, body }]
  | none => []

/-- Whether an entry for a component inside is not reported. -/
def isKept (condition : Option Key) (entry : Key × Value) : Bool :=
  condition.isNone || entry.1.isPseudoElement || !entry.2.isObject

/-- A selector for a component inside adds what it does not report of its body. -/
def insideAdditions (_ : Settings) (arena : Arena) (c : Component) (selector : String) (body : Object) :
    List Addition :=
  match descendant? (stripSelf selector) with
  | some (pseudo, target, own) =>
    let condition := insideCondition pseudo own
    let kept := body.filter (isKept condition)
    if (pseudo.isSome && own.isSome) || kept.isEmpty then []
    else
      [{ target := .component target
         entry := Style.styleKey target ++ "In" ++ Text.upperFirst c.name
         condition
         fallbacks := ((arena.get? target).map (·.styles)).getD []
         body := kept }]
  | none => []

/-- A selector for an attribute adds its body, inside of the pseudo-element that it names. -/
def attributeAdditions (_ : Settings) (_ : Arena) (c : Component) (selector : String) (body : Object) :
    List Addition :=
  match attributeTest? (Text.strip selector) with
  | some test =>
    [{ target := .attribute test.attr test.operator test.value
       entry := c.styleKey ++ attributeSuffix test.attr test.value
       element := test.element.map Key.name
       body }]
  | none => []

/-- A selector for a sibling adds its body, unless it sets values behind a marker. -/
def siblingAdditions (settings : Settings) (_ : Arena) (c : Component) (selector : String)
    (body : Object) : List Addition :=
  let add (relation : SiblingRelation) (className : Option String) (ending : String) : List Addition :=
    [{ target := .sibling relation className, entry := c.styleKey ++ ending, body }]
  match sibling? (Text.strip selector) with
  | some (none, .adjacent) => add .adjacent none "AdjacentSibling"
  | some (some name, .general) => add .general (some name) ("SiblingAfter" ++ Style.camelize name)
  | some (none, .general) => if settings.relationMarkers then [] else add .general none "SiblingAfter"
  | _ => []

/-- The further entries of a component whose selector is lowered are those that an adder tells. -/
def Records (pass : Pass) (adder : Adder) : Prop :=
  ∀ settings arena c selector body lowered, Body body →
    pass.lower? settings arena c selector body = some lowered →
      lowered.component.extraStyles =
        (adder settings arena c selector body).foldl Addition.addTo c.extraStyles

theorem records_universal : Records universal childAdditions := by
  intro settings arena c selector body lowered _ h
  obtain ⟨kind, ending, htarget, rfl⟩ := universal_eq_some h
  unfold childAdditions
  rw [htarget]
  simp only [List.foldl_cons, List.foldl_nil, Addition.addTo, Addition.styles_plain]
  exact Addition.extraStyles_addExtra c _ body

theorem records_attributes : Records attributes attributeAdditions := by
  intro settings arena c selector body lowered _ h
  obtain ⟨test, htest, rfl⟩ := attributes_eq_some h
  unfold attributeAdditions
  rw [htest]
  cases helement : test.element with
  | none =>
      simp only [addAttributeEntry, helement, Option.map_none, List.foldl_cons, List.foldl_nil, Addition.addTo,
        Addition.styles_plain]
      exact Addition.extraStyles_addExtra c _ body
  | some element =>
      simp only [addAttributeEntry, helement, Option.map_some, List.foldl_cons, List.foldl_nil, Addition.addTo]
      exact Addition.extraStyles_addExtra c _ _

/-- The entries for a component inside are what is not reported, each in its place. -/
theorem overrideEntries_eq {condition : Option Key} (hcondition : condition ≠ some Key.default)
    (fallbacks : Object) (selector : String) (a : Addition) (ha : a.condition = condition)
    (hfallbacks : a.fallbacks = fallbacks) (body : Object) (l : Lowered) (out : Object) :
    (overrideEntries condition fallbacks selector body l out).2 =
      ((body.filter (isKept condition)).map a.place).foldl (fun o entry => o.set entry.1 entry.2) out := by
  induction body generalizing l out with
  | nil => rfl
  | cons entry rest ih =>
      obtain ⟨key, value⟩ := entry
      cases condition with
      | none =>
          have hkept : isKept none (key, value) = true := rfl
          have hplace : a.place (key, value) = (key, value) := by rw [Addition.place, ha]
          rw [overrideEntries, ih, List.filter_cons_of_pos hkept, List.map_cons, List.foldl_cons, hplace]
      | some condition =>
          have hne : Key.default ≠ condition := fun heq => hcondition (heq ▸ rfl)
          simp only [overrideEntries]
          split
          · next helement =>
              have hkept : isKept (some condition) (key, value) = true := by simp [isKept, helement]
              have hplace : a.place (key, value) = (key, value) := by
                simp [Addition.place, ha, helement]
              rw [ih, List.filter_cons_of_pos hkept, List.map_cons, List.foldl_cons, hplace]
          · next helement =>
              have helement' : key.isPseudoElement = false := by simpa using helement
              split
              · next hobject =>
                  have hkept : ¬ isKept (some condition) (key, value) = true := by
                    simp [isKept, helement', hobject]
                  rw [ih, List.filter_cons_of_neg hkept]
              · next hobject =>
                  have hobject' : value.isObject = false := by simpa using hobject
                  have hkept : isKept (some condition) (key, value) = true := by simp [isKept, hobject']
                  have hplace : a.place (key, value) =
                      (key, .obj [(Key.default, baseValue fallbacks key), (condition, value)]) := by
                    simp [Addition.place, ha, hfallbacks, helement']
                  have hentry : Object.set [(Key.default, baseValue fallbacks key)] condition value =
                      [(Key.default, baseValue fallbacks key), (condition, value)] := by
                    rw [Object.set, if_neg hne, Object.set]
                  rw [ih, List.filter_cons_of_pos hkept, List.map_cons, List.foldl_cons, hplace, hentry]

/-- What is read as a pseudo class is one. -/
theorem isBranch_of_pseudo? {cs rest : List Char} {p : String} (h : pseudo? cs = some (p, rest)) :
    (Key.name p).isBranch = true := by
  have hcolon : isSelectorChar ':' = false := by decide
  have hname : ∀ c tail, isSelectorChar c = true →
      (Key.name (String.ofList (':' :: c :: tail))).isBranch = true := by
    intro c tail hc
    have hne : c ≠ ':' := by
      rintro rfl
      cases hcolon.symm.trans hc
    simp [Key.isBranch, Key.isCondition, Key.isPseudoClass, Key.default, Text.hasLead, Text.startsWith,
      Text.after?, Ne.symm hne, String.ext_iff]
  simp only [pseudo?, Option.bind_eq_bind, Option.bind_eq_some_iff] at h
  obtain ⟨after, -, ⟨name, rest'⟩, hrun, h⟩ := h
  unfold run? at hrun
  dsimp only at hrun
  split at hrun
  · cases hrun
  next hsome =>
  obtain ⟨c, tail, hpart⟩ :=
    List.exists_cons_of_ne_nil (List.isEmpty_eq_false_iff.mp (Bool.eq_false_iff.mpr hsome))
  have hc : isSelectorChar c = true :=
    List.all_eq_true.mp List.all_takeWhile c (hpart ▸ List.mem_cons_self : c ∈ after.takeWhile isSelectorChar)
  rw [hpart] at hrun
  obtain ⟨rfl, rfl⟩ := Prod.mk.inj (Option.some.inj hrun)
  dsimp only at h
  split at h
  · split at h <;> cases h <;> exact hname c _ hc
  · cases h
    exact hname c _ hc

/-- What is read after the pseudo state of the parent is the same with and without one. -/
theorem isBranch_of_componentRef? {cs : List Char} {target own : String} {before pseudo : Option String}
    (h : ((componentRef? cs).bind fun (name, rest) =>
      if rest.isEmpty then some (before, name, none)
      else
        match pseudo? rest with
        | some (own, []) => some (before, name, some own)
        | _ => none) = some (pseudo, target, some own)) : (Key.name own).isBranch = true := by
  obtain ⟨⟨name, rest⟩, -, h⟩ := Option.bind_eq_some_iff.mp h
  dsimp only at h
  split at h
  · cases h
  · split at h
    · next hown =>
        cases h
        exact isBranch_of_pseudo? hown
    · cases h

theorem isBranch_of_descendant? {text target own : String} {pseudo : Option String}
    (h : descendant? text = some (pseudo, target, some own)) : (Key.name own).isBranch = true := by
  unfold descendant? at h
  simp only [Option.bind_eq_bind] at h
  split at h
  · obtain ⟨⟨p, rest⟩, -, h⟩ := Option.bind_eq_some_iff.mp h
    obtain ⟨more, -, h⟩ := Option.bind_eq_some_iff.mp h
    exact isBranch_of_componentRef? h
  · exact isBranch_of_componentRef? h

theorem isBranch_insideCondition {text target : String} {pseudo own : Option String} {condition : Key}
    (h : descendant? text = some (pseudo, target, own))
    (hcondition : insideCondition pseudo own = some condition) : condition.isBranch = true := by
  cases pseudo with
  | some p =>
      cases hcondition
      rfl
  | none =>
      cases own with
      | none => cases hcondition
      | some o =>
          cases hcondition
          exact isBranch_of_descendant? h

/-- The entries for a component inside are what is kept of the body, each in its place. -/
theorem insideEntries_eq {arena : Arena} {c : Component} {selector target : String} {body : Object}
    {pseudo own : Option String} (hread : descendant? (stripSelf selector) = some (pseudo, target, own))
    (hbody : Body body) (entry : String) :
    (insideEntries arena c selector body pseudo target own).2 =
      Addition.styles {
        target := .component target
        entry
        condition := insideCondition pseudo own
        fallbacks := ((arena.get? target).map (·.styles)).getD []
        body := body.filter (isKept (insideCondition pseudo own)) } := by
  have hne : insideCondition pseudo own ≠ some Key.default := by
    intro hdefault
    exact Key.ne_default_of_isBranch (isBranch_insideCondition hread hdefault) rfl
  have hkept : Object.keys (body.filter (isKept (insideCondition pseudo own))) |>.Nodup :=
    (List.filter_sublist.map _).nodup hbody.distinct
  rw [insideEntries, overrideEntries_eq hne _ selector
    { target := .component target
      entry
      condition := insideCondition pseudo own
      fallbacks := ((arena.get? target).map (·.styles)).getD []
      body := body.filter (isKept (insideCondition pseudo own)) } rfl rfl body]
  refine (Object.foldl_set_eq_append ?_ fun _ _ => List.not_mem_nil).trans (List.nil_append _)
  rwa [Addition.keys_map_place]

theorem records_descendant : Records descendant insideAdditions := by
  intro settings arena c selector body lowered hbody h
  obtain ⟨pseudo, target, own, hread, -, hlowered⟩ := descendant_eq_some h
  have hentries : ∀ entry, (insideEntries arena c selector body pseudo target own).2 = _ :=
    insideEntries_eq hread hbody
  have hempty : (insideEntries arena c selector body pseudo target own).2.isEmpty =
      (body.filter (isKept (insideCondition pseudo own))).isEmpty := by
    rw [hentries "", Addition.styles, List.isEmpty_map]
  unfold insideAdditions
  rw [hread]
  dsimp only
  rw [← hempty]
  cases hlowered with
  | both hboth =>
      rw [hboth, Bool.true_or, if_pos rfl]
      rfl
  | nothing hone hnone =>
      rw [hone, hnone, Bool.false_or, if_pos rfl, insideEntries_component]
      rfl
  | entry hone hsome =>
      rw [hone, hsome, Bool.false_or, if_neg Bool.false_ne_true, List.foldl_cons, List.foldl_nil, Addition.addTo,
        ← hentries]
      exact Addition.extraStyles_addExtra c _ _

theorem records_siblings : Records siblings siblingAdditions := by
  intro settings arena c selector body lowered _ h
  have hentry : ∀ relation target ending className,
      (addSiblingEntry { c with hasSiblingPattern := true } body relation ending className).extraStyles =
        Addition.addTo c.extraStyles { target, entry := c.styleKey ++ ending, body } := by
    intro relation target ending className
    rw [Addition.addTo, Addition.styles_plain]
    exact Addition.extraStyles_addExtra { c with hasSiblingPattern := true } (c.styleKey ++ ending) body
  obtain ⟨className, relation, hread, hlowered⟩ := siblings_eq_some h
  unfold siblingAdditions
  rw [hread]
  cases hlowered with
  | lost => rfl
  | next | later => exact hentry _ _ _ _
  | marked hmarkers =>
      obtain ⟨styles, hmarked⟩ :=
        addMarkerValues_component selector body { component := { c with hasSiblingPattern := true } }
      rw [hmarkers, hmarked]
      rfl
  | flagged hmarkers =>
      rw [hmarkers]
      exact hentry _ _ _ _

end Restyle.Lowering
