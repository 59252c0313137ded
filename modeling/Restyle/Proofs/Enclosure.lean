import Restyle.Proofs.Slots

/-!
# Blocks around declarations

A style object is read as a list of settings: a property gets a value inside of certain blocks.  The
conversion of a rule hands a scope down to its slots; it is compared here with the blocks that really
stand around a slot.
-/

namespace Restyle.Style

/-! ## Settings -/

/-- The blocks around a declaration: raw selectors, pseudo-elements and conditions. -/
structure Enclosure where
  selectors : List String := []
  elements : List String := []
  conditions : List String := []

namespace Enclosure

/-- The blocks around and those inside of them. -/
def append (e f : Enclosure) : Enclosure :=
  { selectors := e.selectors ++ f.selectors
    elements := e.elements ++ f.elements
    conditions := e.conditions ++ f.conditions }

/-- Inside of a condition. -/
def under (e : Enclosure) (condition : String) : Enclosure :=
  { e with conditions := e.conditions ++ [condition] }

/-- Inside of a pseudo-element. -/
def inElement (e : Enclosure) (element : String) : Enclosure :=
  { e with elements := e.elements ++ [element] }

/-- Inside of a raw selector. -/
def inSelector (e : Enclosure) (selector : String) : Enclosure :=
  { e with selectors := e.selectors ++ [selector] }

/-- Inside of the block of a key. -/
def enter (e : Enclosure) (key : Key) : Enclosure :=
  if key.isPseudoElement then e.inElement key.text
  else if key.isCondition then e.under key.text
  else e.inSelector key.text

/-- Inside of the value that a map has for a condition. -/
def choose (e : Enclosure) (condition : Key) : Enclosure :=
  if condition = Key.default then e else e.under condition.text

theorem append_empty (e : Enclosure) : e.append {} = e := by
  simp [append]

theorem append_enter (e f : Enclosure) (key : Key) : (e.append f).enter key = e.append (f.enter key) := by
  unfold enter
  split
  · simp [append, inElement]
  · split <;> simp [append, under, inSelector]

theorem append_choose (e f : Enclosure) (condition : Key) :
    (e.append f).choose condition = e.append (f.choose condition) := by
  unfold choose
  split
  · rfl
  · simp [append, under]

end Enclosure

/-- A property gets a value inside of blocks. -/
structure Setting where
  around : Enclosure
  property : Key
  value : Value

/-- A setting inside of further blocks. -/
def Setting.inside (e : Enclosure) (s : Setting) : Setting :=
  { s with around := e.append s.around }

mutual

/-- The settings of an object inside of blocks. -/
def settings (e : Enclosure) : Object → List Setting
  | [] => []
  | (key, v) :: rest => settingsAt e key v ++ settings e rest

/-- The settings of the value of a key; no value leaves the property alone. -/
def settingsAt (e : Enclosure) (key : Key) : Value → List Setting
  | .null => []
  | .obj entries =>
    if Object.isConditional entries then choices e key entries else settings (e.enter key) entries
  | .bool b => [⟨e, key, .bool b⟩]
  | .int n => [⟨e, key, .int n⟩]
  | .float x => [⟨e, key, .float x⟩]
  | .text s => [⟨e, key, .text s⟩]
  | .js code => [⟨e, key, .js code⟩]
  | .block css => [⟨e, key, .block css⟩]
  | .list items => [⟨e, key, .list items⟩]

/-- The settings of the conditional map of a property. -/
def choices (e : Enclosure) (property : Key) : Object → List Setting
  | [] => []
  | (condition, v) :: rest => settingsAt (e.choose condition) property v ++ choices e property rest

end

mutual

/-- Further blocks around an object stand around each of its settings. -/
theorem settings_append (e f : Enclosure) :
    ∀ o : Object, settings (e.append f) o = (settings f o).map (Setting.inside e)
  | [] => by rw [settings, settings, List.map_nil]
  | (key, v) :: rest => by
      rw [settings, settings, List.map_append, settingsAt_append e f key v, settings_append e f rest]

theorem settingsAt_append (e f : Enclosure) (key : Key) :
    ∀ v : Value, settingsAt (e.append f) key v = (settingsAt f key v).map (Setting.inside e)
  | .null => by rw [settingsAt, settingsAt, List.map_nil]
  | .obj entries => by
      rw [settingsAt, settingsAt]
      split
      · exact choices_append e f key entries
      · rw [Enclosure.append_enter]
        exact settings_append e (f.enter key) entries
  | .bool _ | .int _ | .float _ | .text _ | .js _ | .block _ | .list _ => by
      rw [settingsAt, settingsAt]
      rfl

theorem choices_append (e f : Enclosure) (property : Key) :
    ∀ o : Object, choices (e.append f) property o = (choices f property o).map (Setting.inside e)
  | [] => by rw [choices, choices, List.map_nil]
  | (condition, v) :: rest => by
      rw [choices, choices, List.map_append, Enclosure.append_choose,
        settingsAt_append e (f.choose condition) property v, choices_append e f property rest]

end

theorem settings_eq_map (e : Enclosure) (o : Object) :
    settings e o = (settings {} o).map (Setting.inside e) := by
  rw [← settings_append, Enclosure.append_empty]

/-- Different blocks around an object make a difference if it has settings at all. -/
theorem settings_eq_iff (e f : Enclosure) (o : Object) :
    settings e o = settings f o ↔ settings {} o = [] ∨ e = f := by
  rw [settings_eq_map e, settings_eq_map f]
  constructor
  · intro h
    cases hsettings : settings {} o with
    | nil => exact .inl rfl
    | cons s rest =>
        rw [hsettings] at h
        have happend : e.append s.around = f.append s.around :=
          congrArg Setting.around (List.cons.inj h).1
        refine .inr ?_
        obtain ⟨selectors, elements, conditions⟩ := e
        obtain ⟨selectors', elements', conditions'⟩ := f
        simp only [Enclosure.append, Enclosure.mk.injEq, List.append_cancel_right_eq] at happend
        rw [happend.1, happend.2.1, happend.2.2]
  · rintro (h | rfl)
    · rw [h, List.map_nil, List.map_nil]
    · rfl

/-- The key of a condition that is no default. -/
def IsConditionKey (key : String) : Prop :=
  (Key.name key).isCondition = true ∧ key ≠ "default"

/-- A value for one condition is set under it. -/
theorem settingsAt_condition (e : Enclosure) (property : Key) {condition : String}
    (h : IsConditionKey condition) (v : Value) :
    settingsAt e property (.obj (Object.set [(Key.default, .null)] (.name condition) v)) =
      settingsAt (e.under condition) property v := by
  have hne : Key.name condition ≠ Key.default := fun e => h.2 (Key.name.inj e)
  have hmap : Object.set [(Key.default, .null)] (.name condition) v =
      [(Key.default, .null), (.name condition, v)] := by
    simp [Object.set, Ne.symm hne]
  have hconditional : Object.isConditional [(Key.default, .null), (.name condition, v)] = true := by
    have hdefault : Key.default.isCondition = true := by decide
    simp [Object.isConditional, Object.has, Object.get?, h.1, hdefault]
  rw [hmap, settingsAt, if_pos hconditional]
  simp [choices, settingsAt, Enclosure.choose, hne, Key.text]

/-! ## Keys of nested rules -/

theorem pseudoClass?_spec {cs written rest : List Char} (h : pseudoClass? cs = some (written, rest)) :
    ∃ c tail, written = ':' :: c :: tail ∧ c ≠ ':' := by
  unfold pseudoClass? at h
  split at h
  · next rest' =>
      dsimp only at h
      cases hname : rest'.takeWhile isPseudoNameChar with
      | nil => simp [hname] at h
      | cons c name =>
          have hc : c ≠ ':' := by
            rintro rfl
            have hmem : ':' ∈ rest'.takeWhile isPseudoNameChar := by rw [hname]; exact List.mem_cons_self ..
            have hall := List.all_eq_true.mp (List.all_takeWhile (p := isPseudoNameChar) (l := rest'))
            exact absurd (hall _ hmem) (by decide)
          rw [hname] at h
          simp only [List.isEmpty_cons, Bool.false_eq_true, if_false] at h
          split at h
          · split at h <;> cases h <;> exact ⟨c, _, rfl, hc⟩
          · cases h
            exact ⟨c, _, rfl, hc⟩
  · cases h

theorem pseudoClasses_spec {fuel : Nat} {cs : List Char} (h : (pseudoClasses fuel cs).1 ≠ []) :
    ∃ c tail, (pseudoClasses fuel cs).1 = ':' :: c :: tail ∧ c ≠ ':' := by
  cases fuel with
  | zero => exact absurd rfl h
  | succ fuel =>
      rw [pseudoClasses] at h ⊢
      cases hclass : pseudoClass? cs with
      | none => simp [hclass] at h
      | some found =>
          obtain ⟨written, rest⟩ := found
          obtain ⟨c, tail, rfl, hc⟩ := pseudoClass?_spec hclass
          exact ⟨c, _, rfl, hc⟩

theorem isConditionKey_of_classes {cs : List Char} {c : Char} (hc : c ≠ ':') :
    IsConditionKey (String.ofList (':' :: c :: cs)) := by
  refine ⟨?_, fun h => ?_⟩
  · have hc' : ¬ ':' = c := fun e => hc e.symm
    simp [Key.isCondition, Key.isPseudoClass, Text.hasLead, Text.startsWith, Text.after?, hc']
  · have hlist := congrArg String.toList h
    simp at hlist

/-- The keys on the path of a pseudo selector are a pseudo-element and a condition. -/
theorem key_of_pseudoPath? {selector : String} {path : List String} (h : pseudoPath? selector = some path) :
    ∀ key ∈ path, (Key.name key).isPseudoElement = true ∨ IsConditionKey key := by
  unfold pseudoPath? at h
  dsimp only at h
  split at h
  · next rest _ =>
      have hclasses : ∀ key ∈ (if (pseudoClasses rest.length rest).1.isEmpty = true then []
          else [String.ofList (pseudoClasses rest.length rest).1]), IsConditionKey key := by
        intro key hkey
        split at hkey
        · cases hkey
        · next hne =>
            obtain ⟨c, tail, heq, hc⟩ := pseudoClasses_spec (fun hnil => hne (by rw [hnil]; rfl))
            cases List.mem_singleton.mp hkey
            rw [heq]
            exact isConditionKey_of_classes hc
      split at h
      · cases h
        exact fun key hkey => .inr (hclasses key hkey)
      · split at h
        · next helement =>
            cases h
            intro key hkey
            rcases List.mem_cons.mp hkey with rfl | hkey
            · refine .inl ?_
              unfold isPseudoElementText at helement
              split at helement
              · next name heq =>
                  rw [heq]
                  simp [Key.isPseudoElement, Text.hasLead, Text.startsWith, Text.after?]
              · cases helement
            · exact .inr (hclasses key hkey)
        · cases h
  · cases h

theorem exists_of_mapM_eq_some {α β : Type} {f : α → Option β} {xs : List α} {ys : List β}
    (h : xs.mapM f = some ys) : ∀ y ∈ ys, ∃ x ∈ xs, f x = some y := by
  induction xs generalizing ys with
  | nil =>
      cases h
      exact nofun
  | cons x xs ih =>
      simp only [List.mapM_cons, Option.bind_eq_bind, Option.bind_eq_some_iff, Option.pure_def] at h
      obtain ⟨y, hy, rest, hrest, h⟩ := h
      cases h
      intro z hz
      rcases List.mem_cons.mp hz with rfl | hz
      · exact ⟨x, List.mem_cons_self .., hy⟩
      · obtain ⟨x', hx', hz'⟩ := ih hrest z hz
        exact ⟨x', List.mem_cons_of_mem _ hx', hz'⟩

/-- The keys on the paths of a nested rule are pseudo-elements and conditions. -/
theorem key_of_nestedPaths? {selector : String} {paths : List (List String)} {path : List String}
    (h : nestedPaths? selector = some paths) (hpath : path ∈ paths) :
    ∀ key ∈ path, (Key.name key).isPseudoElement = true ∨ IsConditionKey key := by
  unfold nestedPaths? at h
  split at h
  · split at h
    · next hat =>
        cases h
        cases List.mem_singleton.mp hpath
        intro key hkey
        cases List.mem_singleton.mp hkey
        refine .inr ⟨by simp [Key.isCondition, Key.isConditionAtRule, hat], ?_⟩
        rintro rfl
        exact absurd hat (by decide)
    · cases h
  · split at h
    · cases h
    · obtain ⟨part, -, hp⟩ := exists_of_mapM_eq_some h path hpath
      exact key_of_pseudoPath? hp

/-! ## The scope of a slot -/

/-- Inside of the blocks along a path. -/
def Enclosure.along (e : Enclosure) : List String → Enclosure
  | [] => e
  | key :: path =>
    if (Key.name key).isPseudoElement then (e.inElement key).along path else (e.under key).along path

/--
The requests for the slots of a rule and of all rules below it, with the scope that the conversion has for
the rule, the blocks around the rule, and the blocks around the slot.
-/
inductive PlacedIn : Enclosure → Scope → Css.Rule → Enclosure → SlotRequest → Prop where
  | own {e : Enclosure} {scope : Scope} {rule : Css.Rule} {d : Css.Declaration} {request : SlotRequest} :
      d ∈ rule.declarations → Asks (fun _ => True) scope d request → PlacedIn e scope rule e request
  | inPath {e f : Enclosure} {scope : Scope} {rule child : Css.Rule} {selector : String}
      {paths : List (List String)} {path : List String} {request : SlotRequest} :
      child ∈ rule.nested → nestedPaths? selector = some paths → path ∈ paths →
      PlacedIn (e.along path) (scope.enter path) child f request → PlacedIn e scope rule f request
  | inRaw {e f : Enclosure} {scope : Scope} {rule child : Css.Rule} {selector : String}
      {request : SlotRequest} :
      child ∈ rule.nested → nestedPaths? selector = none → Css.isAtRule selector = false →
      PlacedIn (e.inSelector selector) { selector := selector } child f request →
      PlacedIn e scope rule f request

/-- A slot with blocks around it is asked for. -/
theorem PlacedIn.placed {e f : Enclosure} {scope : Scope} {rule : Css.Rule} {request : SlotRequest}
    (h : PlacedIn e scope rule f request) : Placed scope rule request := by
  induction h with
  | own hd hasks => exact .own hd hasks
  | @inPath e f scope rule child selector paths path request hchild hpaths hpath _ ih =>
      have hblock : (scope.enter path, path.map Key.name) ∈ blocksOf scope selector := by
        rw [blocksOf, hpaths]
        exact List.mem_map_of_mem hpath
      exact .nested hchild hblock ih
  | @inRaw e f scope rule child selector request hchild hpaths hat _ ih =>
      have hblock : ({ selector := selector }, [.name selector]) ∈ blocksOf scope selector := by
        rw [blocksOf, hpaths, hat]
        exact List.mem_singleton_self _
      exact .nested hchild hblock ih

/-- Every slot that is asked for has blocks around it. -/
theorem exists_placedIn {scope : Scope} {rule : Css.Rule} {request : SlotRequest}
    (h : Placed scope rule request) (e : Enclosure) : ∃ f, PlacedIn e scope rule f request := by
  induction h generalizing e with
  | own hd hasks => exact ⟨e, .own hd hasks⟩
  | @nested scope inner rule child selector path request hchild hblock _ ih =>
      unfold blocksOf at hblock
      cases hpaths : nestedPaths? selector with
      | some paths =>
          rw [hpaths] at hblock
          obtain ⟨keys, hkeys, heq⟩ := List.mem_map.mp hblock
          cases heq
          obtain ⟨f, hf⟩ := ih (e.along keys)
          exact ⟨f, .inPath hchild hpaths hkeys hf⟩
      | none =>
          rw [hpaths] at hblock
          dsimp only at hblock
          split at hblock
          · cases hblock
          · next hat =>
              cases List.mem_singleton.mp hblock
              obtain ⟨f, hf⟩ := ih (e.inSelector selector)
              exact ⟨f, .inRaw hchild hpaths (by simpa using hat) hf⟩

theorem scope_of_asksPiece {answered : SlotRequest → Prop} {base request : SlotRequest}
    {pieces : List Css.Slot.Piece} (h : AsksPiece answered base pieces request) :
    request.scope = base.scope := by
  induction h with
  | slot => rfl
  | afterText _ ih => exact ih
  | afterSlot _ _ ih => exact ih

/-- The slots of a declaration have its scope. -/
theorem scope_of_asks {answered : SlotRequest → Prop} {scope : Scope} {d : Css.Declaration}
    {request : SlotRequest} (h : Asks answered scope d request) : request.scope = scope := by
  cases h with
  | block => rfl
  | whole => rfl
  | part _ _ _ hpiece => exact scope_of_asksPiece hpiece
  | longhand _ _ _ _ _ hpiece => exact scope_of_asksPiece hpiece

/--
The scope of a conversion fits the blocks that really stand around: outside of raw selectors it has all
their conditions and the innermost pseudo-element.
-/
structure Fits (e : Enclosure) (scope : Scope) : Prop where
  conditions : ∀ key ∈ scope.conditions, IsConditionKey key
  element : ∀ key, scope.pseudoElement = some key → key.isEmpty = false
  plain : e.selectors = [] →
    scope.conditions = e.conditions ∧ scope.pseudoElement = e.elements.getLast?

theorem Fits.along {e : Enclosure} {scope : Scope} (h : Fits e scope) {path : List String}
    (hpath : ∀ key ∈ path, (Key.name key).isPseudoElement = true ∨ IsConditionKey key) :
    Fits (e.along path) (scope.enter path) := by
  induction path generalizing e scope with
  | nil => exact h
  | cons key path ih =>
      have hkey := hpath key (List.mem_cons_self ..)
      have hrest : ∀ k ∈ path, (Key.name k).isPseudoElement = true ∨ IsConditionKey k :=
        fun k hk => hpath k (List.mem_cons_of_mem _ hk)
      rw [Enclosure.along, Scope.enter]
      split
      · next helement =>
          refine ih ⟨h.conditions, fun k hk => ?_, fun hplain => ?_⟩ hrest
          · cases hk
            cases hempty : key.isEmpty with
            | false => rfl
            | true =>
                rw [String.isEmpty_iff.mp hempty] at helement
                exact absurd helement (by decide)
          · exact ⟨(h.plain hplain).1, by simp [Enclosure.inElement]⟩
      · next helement =>
          refine ih ⟨fun k hk => ?_, h.element, fun hplain => ?_⟩ hrest
          · rcases List.mem_append.mp hk with hk | hk
            · exact h.conditions k hk
            · cases List.mem_singleton.mp hk
              exact hkey.resolve_left helement
          · obtain ⟨hconditions, hlast⟩ := h.plain hplain
            exact ⟨by rw [Enclosure.under, hconditions], hlast⟩

/-- The scope of every slot fits the blocks around it. -/
theorem fits_of_placedIn {e f : Enclosure} {scope : Scope} {rule : Css.Rule} {request : SlotRequest}
    (h : PlacedIn e scope rule f request) (hfits : Fits e scope) : Fits f request.scope := by
  induction h with
  | own _ hasks => rwa [scope_of_asks hasks]
  | inPath _ hpaths hpath _ ih => exact ih (hfits.along (key_of_nestedPaths? hpaths hpath))
  | inRaw _ _ _ _ ih => exact ih ⟨nofun, nofun, fun hplain => by simp [Enclosure.inSelector] at hplain⟩

theorem fits_empty : Fits {} {} :=
  ⟨nofun, nofun, fun _ => ⟨rfl, rfl⟩⟩

end Restyle.Style
