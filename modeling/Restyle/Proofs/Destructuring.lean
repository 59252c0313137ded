import Restyle.Emit.Wrapper
import Restyle.Proofs.Defaults
import Restyle.Proofs.Flattening
import Restyle.Proofs.Guards
import Restyle.Proofs.Scoping

/-!
# Props that a wrapper binds

A function component takes its props apart and refers to some of them by their names: in the guards of its
styles, in the calls of its style functions and in its inline styles, where the accesses to the props are
replaced by the names alone.  What decisions make a component refer to is recorded at the same time, and
nothing on the way to the wrapper loses a record.  So a name that is referred to is bound, but for two gaps:
`as` is never bound under its own name, and the scan that records the props of an inline style passes over
accesses that the scan that replaces them finds.
-/

namespace Restyle.Text

/-- What a scan collects has been read somewhere. -/
theorem exists_read_of_mem_collectFrom {α : Type} {read? : Option Char → List Char → Option (α × Nat)} {a : α}
    {last : Option Char} {skip : Nat} {cs : List Char} (h : a ∈ collectFrom read? last skip cs) :
    ∃ last post n, read? last post = some (a, n) := by
  induction cs generalizing last skip with
  | nil =>
      cases skip <;> cases h
  | cons c cs ih =>
      cases skip with
      | succ skip => exact ih h
      | zero =>
          rw [collectFrom] at h
          split at h
          · next b n hread =>
              rcases List.mem_cons.mp h with rfl | h
              · exact ⟨last, c :: cs, n, hread⟩
              · exact ih h
          · exact ih h

end Restyle.Text

namespace Restyle.Interpolation

open Restyle.Tsx (Node)

/-! ## What decisions refer to -/

/-- The name after the dot of an access; blanks and comments may stand before it. -/
def nameAfter? (cs : List Char) : Option String :=
  let rest := (Tsx.Cursor.skip { rest := cs }).2.rest
  (Tsx.nameLength? rest).map fun n => String.ofList (rest.take n)

/-- The names after the accesses to members of a value of the given name. -/
def accessNames (param text : String) : List String :=
  (Text.collect
    (fun last cs => (accessOf? param last cs).map fun (_, rest) => (nameAfter? rest, rest)) text.toList).filterMap id

/-- A guard that tests a prop: by its truth, or by comparing it with a literal or with null. -/
inductive Tests (prop : String) : String → Prop where
  | truth : Tests prop prop
  | negation : Tests prop ("!" ++ prop)
  | equal (literal : String) : Tests prop (prop ++ " === " ++ literal)
  | different (literal : String) : Tests prop (prop ++ " !== " ++ literal)
  | given : Tests prop (prop ++ " != null")

theorem tests_branches {c : Classified} {styleKey : String} {branch : (String × String) × Style.Value}
    (h : branch ∈ c.branches styleKey) : Tests (c.path.head?.getD "") branch.1.2 := by
  have hboth : Tests (c.path.head?.getD "") (branchNames c styleKey).1.2 ∧
      Tests (c.path.head?.getD "") (branchNames c styleKey).2.2 := by
    unfold branchNames
    cases c.comparison with
    | none => cases c.negated <;> exact ⟨by constructor, by constructor⟩
    | some comparison =>
        dsimp only
        split <;> exact ⟨by constructor, by constructor⟩
  rcases List.mem_cons.mp h with rfl | h
  · exact hboth.1
  · split at h
    · rw [List.mem_singleton.mp h]
      exact hboth.2
    · cases h

namespace Classified

/-- The props that are recorded for a slot if what the function in it gives is set inline. -/
def readProps (c : Classified) : List String :=
  if c.tag = .logical then (c.path.take 1).filter (· != "theme")
  else
    let f := c.node.bind Node.arrow?
    propsRead c.source (f.bind (·.param)) ((f.map (·.destructured)).getD [])

/-- The names that remain of the accesses to the props where the body of the function in a slot is set inline. -/
def accessNames (c : Classified) : List String :=
  match c.node.bind Node.arrow? with
  | some { param := some param, body := some body, .. } =>
    if param.isEmpty then [] else Interpolation.accessNames param body.text
  | _ => []

/-- The names that remain of accesses to props which are not recorded. -/
def missedProps (c : Classified) : List String :=
  c.accessNames.filter fun name => !c.readProps.contains name

end Classified

/--
A decision on a slot whose guards test the prop that it names, and whose inline style comes with the props recorded
for the slot.
-/
def Decision.Concerns (c : Classified) : Decision → Prop
  | .variant prop _ _ branches => ∀ b ∈ branches, Tests prop b.guard
  | .bail _ props (some text) => c.node.bind inlineExpression? = some text ∧ props = c.readProps
  | _ => True

theorem concerns_decideConditional {c : Classified} {place : Place} {d : Decision}
    (h : decideConditional c place = .ok d) : d.Concerns c := by
  rcases decideConditional_cases h with ⟨_, _, rfl⟩ | ⟨_, _, _, rfl⟩
  · trivial
  · obtain ⟨-, hbranches, rfl, -⟩ := decideConditional_eq_variant_iff.mp h
    intro b hb
    obtain ⟨value, hmem, -⟩ := mem_of_branchesOf hbranches b hb
    exact tests_branches hmem

theorem concerns_decideProp (c : Classified) (place : Place) : (decideProp c place).Concerns c := by
  rcases decideProp_cases c place with ⟨_, _, heq⟩ | ⟨_, heq⟩ <;>
    · rw [heq]
      trivial

theorem unconditional_concerns (c : Classified) : Unconditional (Decision.Concerns c) :=
  ⟨fun _ _ => trivial, fun _ => trivial, fun _ => trivial, fun _ _ _ _ => trivial⟩

theorem gives_concerns_decideByTag (env : Environment) (c : Classified) (place : Place) :
    Gives (fun d? => ∀ d ∈ d?, Decision.Concerns c d) (decideByTag env c place) := by
  by_cases htest : c.tag = .conditional
  · intro t d? t' hrun d hd
    cases hd
    exact concerns_decideConditional ((handled_conditional_iff htest).mp ⟨t, t', hrun⟩)
  by_cases hprop : c.tag = .propAccess
  · intro t d? t' hrun d hd
    cases hd
    exact (handled_propAccess_iff hprop).mp ⟨t, t', hrun⟩ ▸ concerns_decideProp c place
  · refine gives_decideByTag (unconditional_concerns c) env place htest hprop fun htag => ?_
    cases hinline : c.node.bind inlineExpression? with
    | none => trivial
    | some text => exact ⟨hinline, by rw [Classified.readProps, if_pos htag]⟩

/-- Only raw slots are left to the fallback. -/
theorem gives_none_decideByTag (env : Environment) (c : Classified) (place : Place) :
    Gives (fun d? => d? = none → c.tag = .raw) (decideByTag env c place) := by
  unfold decideByTag
  split
  case h_7 => exact fun _ _ _ _ _ => ‹c.tag = .raw›
  case h_5 => exact gives_pure nofun
  case h_2 => exact gives_pure nofun
  all_goals exact .bind fun _ => gives_pure nofun

theorem concerns_giveUp {c : Classified} (hraw : c.tag = .raw) (withProps : Bool) :
    (giveUp c withProps).Concerns c := by
  unfold giveUp
  cases withProps with
  | false => trivial
  | true =>
      rw [if_pos rfl]
      dsimp only
      split
      · trivial
      · cases hinline : c.node.bind inlineExpression? with
        | none => trivial
        | some text => exact ⟨hinline, by rw [Classified.readProps, if_neg (by rw [hraw]; decide)]⟩

/-- An adapter without handlers of its own. -/
structure ProjectAdapter.BuiltIn (adapter : ProjectAdapter) : Prop where
  handlers : adapter.handlers = []
  fallback : ∀ decide, adapter.fallback ≠ some (.reply decide)

/-- Without other handlers all decisions concern their slots. -/
theorem gives_concerns_decide {env : Environment} (h : env.adapter.BuiltIn) (c : Classified) (place : Place) :
    Gives (Decision.Concerns c) (decide env c place) := by
  have hadapter : decideByAdapter env c place = none := by
    rw [decideByAdapter, h.handlers]
    rfl
  unfold decide
  rw [hadapter]
  dsimp only
  intro t d t' hrun
  obtain ⟨d?, t₁, hd?, hnext⟩ := Work.run_bind_eq_ok hrun
  cases hnext
  cases d? with
  | some d => exact gives_concerns_decideByTag env c place _ _ _ hd? d rfl
  | none =>
      have hraw := gives_none_decideByTag env c place _ _ _ hd? rfl
      show (decideFallback env c place).Concerns c
      unfold decideFallback
      cases hfallback : env.adapter.fallback with
      | none => exact concerns_giveUp hraw _
      | some fallback =>
          cases fallback with
          | behavior b => exact concerns_giveUp hraw _
          | reply decide => exact absurd hfallback (h.fallback decide)

end Restyle.Interpolation

namespace Restyle.Css.Template

/-- The expression of a slot is one of those that the template was read with. -/
theorem expression_mem {α : Type} {segments : List String} {expressions : List α} {template : Template α}
    (hread : read segments expressions = .ok template) {index : Nat} {slot : PlacedSlot α}
    (hslot : template.slot? index = some slot) : slot.expression ∈ expressions := by
  have hplaced : ∀ (places : List (Nat × SlotPlace)) (slot : PlacedSlot α),
      slot ∈ placeSlots expressions places → slot.expression ∈ expressions := by
    intro places slot hslot
    refine List.foldlRecOn (motive := fun found => ∀ slot ∈ found, slot.expression ∈ expressions) places _
      (List.forall_mem_nil _) (fun found hfound entry _ => ?_) slot (List.mem_reverse.mp hslot)
    obtain ⟨index, place⟩ := entry
    dsimp only
    split
    · exact hfound
    split
    · next expression hexpression =>
        exact List.forall_mem_cons.mpr ⟨List.mem_of_getElem? hexpression, hfound⟩
    · exact hfound
  unfold read at hread
  cases hsheet : parseSheet (Slot.join segments) with
  | error e =>
      rw [hsheet] at hread
      cases hread
  | ok root =>
      rw [hsheet] at hread
      cases hread
      exact hplaced _ slot (List.mem_of_find?_eq_some hslot)

end Restyle.Css.Template

namespace Restyle.Component

open Restyle.Interpolation (Branch Classified Decision Place Tests)
open Restyle.Style (SlotRequest)

/-! ## What a component records -/

/-- An inline style with the value that the function in a slot gives. -/
structure InlineStyle.Shows (s : InlineStyle) (c : Classified) : Prop where
  props : s.props = c.readProps
  expression : ∃ text, c.node.bind Interpolation.inlineExpression? = some text ∧
    (s.expression = text ∨ ∃ value index, s.expression = templateAround value index text)

/-- The slots whose functions the inline styles of a component show, one after the other. -/
def Inlines (c : Component) (slots : List Classified) : Prop :=
  List.Forall₂ InlineStyle.Shows c.inlineStyles slots

theorem Inlines.exists_style {c : Component} {slots : List Classified} (h : c.Inlines slots) {slot : Classified}
    (hslot : slot ∈ slots) : ∃ s ∈ c.inlineStyles, s.Shows slot := by
  unfold Inlines at h
  generalize c.inlineStyles = styles at h ⊢
  induction h with
  | nil => cases hslot
  | cons hshows _ ih =>
      rcases List.mem_cons.mp hslot with rfl | hslot
      · exact ⟨_, List.mem_cons_self, hshows⟩
      · obtain ⟨s, hs, hshows⟩ := ih hslot
        exact ⟨s, List.mem_cons_of_mem _ hs, hshows⟩

/-- A component that has recorded the props that it refers to; its inline styles come from certain slots. -/
structure Accounts (Q : Classified → Prop) (c : Component) : Prop where
  guards : ∀ b ∈ c.variants, ∃ prop, Tests prop b.guard ∧ (prop ≠ "" → prop ∈ c.propDependencies)
  entries : ∀ e ∈ c.dynamicEntries, e.propName ≠ "" → e.propName ∈ c.propDependencies
  inline : ∀ s ∈ c.inlineStyles, ∀ prop ∈ s.props, prop ≠ "" → prop ∈ c.propDependencies
  shown : ∃ slots, c.Inlines slots ∧ ∀ slot ∈ slots, Q slot

theorem mem_addPropDependencies (c : Component) (props : List String) (prop : String) :
    prop ∈ (c.addPropDependencies props).propDependencies ↔
      prop ∈ c.propDependencies ∨ prop ∈ props ∧ prop ≠ "" := by
  unfold addPropDependencies
  induction props generalizing c with
  | nil => simp
  | cons p props ih =>
      rw [List.foldl_cons, ih]
      split
      · next hknown =>
          simp only [Bool.or_eq_true, String.isEmpty_iff, List.contains_iff_mem] at hknown
          constructor
          · rintro (h | h)
            · exact .inl h
            · exact .inr ⟨List.mem_cons_of_mem _ h.1, h.2⟩
          · rintro (h | ⟨h, hne⟩)
            · exact .inl h
            · rcases List.mem_cons.mp h with rfl | h
              · exact .inl (hknown.resolve_left hne)
              · exact .inr ⟨h, hne⟩
      · next hfresh =>
          simp only [Bool.or_eq_true, String.isEmpty_iff, not_or] at hfresh
          dsimp only
          rw [List.mem_append, List.mem_singleton, or_assoc, List.mem_cons]
          refine or_congr_right ⟨?_, ?_⟩
          · rintro (rfl | h)
            · exact ⟨.inl rfl, hfresh.1⟩
            · exact ⟨.inr h.1, h.2⟩
          · rintro ⟨rfl | h, hne⟩
            · exact .inl rfl
            · exact .inr ⟨h, hne⟩

theorem mem_foldl_addBranch {branches variants : List Branch} {v : Branch}
    (h : v ∈ branches.foldl addBranch variants) :
    ∃ b, b.guard = v.guard ∧ (b ∈ variants ∨ b ∈ branches) := by
  induction branches generalizing variants with
  | nil => exact ⟨v, rfl, .inl h⟩
  | cons b branches ih =>
      obtain ⟨b', hguard, hmem | hmem⟩ := ih h
      · rcases mem_addBranch hmem with hold | rfl | ⟨known, hknown, rfl⟩
        · exact ⟨b', hguard, .inl hold⟩
        · exact ⟨b', hguard, .inr List.mem_cons_self⟩
        · exact ⟨known, hguard, .inl hknown⟩
      · exact ⟨b', hguard, .inr (List.mem_cons_of_mem _ hmem)⟩

section

variable {Q : Classified → Prop} {c : Component}

/-- What is added to a component that accounts for its props has to be accounted for as well. -/
theorem Accounts.extend (h : c.Accounts Q) {c' : Component}
    (hdeps : ∀ prop ∈ c.propDependencies, prop ∈ c'.propDependencies)
    (hguards : ∀ b ∈ c'.variants, (∃ known ∈ c.variants, known.guard = b.guard) ∨
      ∃ prop, Tests prop b.guard ∧ (prop ≠ "" → prop ∈ c'.propDependencies))
    (hentries : ∀ e ∈ c'.dynamicEntries, e ∈ c.dynamicEntries ∨ (e.propName ≠ "" → e.propName ∈ c'.propDependencies))
    (hinline : c'.inlineStyles = c.inlineStyles ∨ ∃ s slot, c'.inlineStyles = c.inlineStyles ++ [s] ∧ s.Shows slot ∧
      Q slot ∧ ∀ prop ∈ s.props, prop ≠ "" → prop ∈ c'.propDependencies) : c'.Accounts Q := by
  obtain ⟨slots, hshown, hslots⟩ := h.shown
  have hkept : ∀ s ∈ c.inlineStyles, ∀ prop ∈ s.props, prop ≠ "" → prop ∈ c'.propDependencies :=
    fun s hs prop hprop hne => hdeps prop (h.inline s hs prop hprop hne)
  refine ⟨fun b hb => ?_, fun e he => ?_, ?_, ?_⟩
  · rcases hguards b hb with ⟨known, hknown, hguard⟩ | hnew
    · obtain ⟨prop, htests, hrecorded⟩ := h.guards known hknown
      exact ⟨prop, hguard ▸ htests, fun hne => hdeps prop (hrecorded hne)⟩
    · exact hnew
  · rcases hentries e he with hold | hnew
    · exact fun hne => hdeps _ (h.entries e hold hne)
    · exact hnew
  · rcases hinline with hsame | ⟨s, slot, hsame, -, -, hprops⟩
    · exact hsame ▸ hkept
    · rw [hsame]
      exact List.forall_mem_append.mpr ⟨hkept, List.forall_mem_singleton.mpr hprops⟩
  · rcases hinline with hsame | ⟨s, slot, hsame, hshows, hslot, -⟩
    · exact ⟨slots, by rwa [Inlines, hsame], hslots⟩
    · refine ⟨slots ++ [slot], ?_, List.forall_mem_append.mpr ⟨hslots, List.forall_mem_singleton.mpr hslot⟩⟩
      rw [Inlines, hsame]
      exact List.rel_append hshown (.cons hshows .nil)

/-- So is what is added along with the props that it refers to. -/
theorem Accounts.extend_recording (h : c.Accounts Q) {c' : Component} (hdeps : c'.propDependencies = c.propDependencies)
    {props : List String}
    (hguards : ∀ b ∈ c'.variants, (∃ known ∈ c.variants, known.guard = b.guard) ∨ ∃ prop ∈ props, Tests prop b.guard)
    (hentries : ∀ e ∈ c'.dynamicEntries, e ∈ c.dynamicEntries ∨ e.propName ∈ props)
    (hinline : c'.inlineStyles = c.inlineStyles ∨ ∃ s slot, c'.inlineStyles = c.inlineStyles ++ [s] ∧ s.Shows slot ∧
      Q slot ∧ s.props = props) : (c'.addPropDependencies props).Accounts Q := by
  have hmem := mem_addPropDependencies c' props
  obtain ⟨deps, hframe⟩ := addPropDependencies_frame c' props
  rw [hframe] at hmem ⊢
  have hrecorded : ∀ prop ∈ props, prop ≠ "" → prop ∈ deps := fun prop hprop hne => (hmem prop).mpr (.inr ⟨hprop, hne⟩)
  refine h.extend (fun prop hprop => (hmem prop).mpr (.inl (hdeps ▸ hprop))) (fun b hb => ?_) (fun e he => ?_) ?_
  · refine (hguards b hb).imp_right ?_
    rintro ⟨prop, hprop, htests⟩
    exact ⟨prop, htests, hrecorded prop hprop⟩
  · exact (hentries e he).imp_right (hrecorded e.propName)
  · refine hinline.imp_right ?_
    rintro ⟨s, slot, happended, hshows, hslot, rfl⟩
    exact ⟨s, slot, happended, hshows, hslot, hrecorded⟩

/-- Recording a decision keeps the account. -/
theorem Accounts.record (h : c.Accounts Q) {d : Decision} {slot : Classified} (hd : d.Concerns slot) (hslot : Q slot)
    (place : Place) : (c.record d slot place).component.Accounts Q := by
  cases d with
  | convert value =>
      have hsame : (c.record (.convert value) slot place).component = c := by
        unfold Component.record
        dsimp only
        split
        · split <;> rfl
        · rfl
      rwa [hsame]
  | reference code =>
      unfold Component.record
      dsimp only
      split
      · exact h
      · exact ⟨h.guards, h.entries, h.inline, h.shown⟩
  | variant prop compared base branches =>
      show (Component.addPropDependencies { c with variants := branches.foldl addBranch c.variants } [prop]).Accounts Q
      refine h.extend_recording ?_ ?_ (fun e he => .inl he) ?_
      · rfl
      · intro b hb
        obtain ⟨known, hguard, hold | hnew⟩ := mem_foldl_addBranch hb
        · exact .inl ⟨known, hold, hguard⟩
        · exact .inr ⟨prop, List.mem_singleton_self _, hguard ▸ hd known hnew⟩
      · exact .inl rfl
  | dynamic v =>
      show (Component.addPropDependencies { c with dynamicEntries := c.dynamicEntries ++ [dynamicEntry c v place] }
        [(dynamicEntry c v place).propName]).Accounts Q
      refine h.extend_recording ?_ (fun b hb => .inl ⟨b, hb, rfl⟩) ?_ ?_
      · rfl
      · intro e he
        refine (List.mem_append.mp he).imp_right fun hnew => ?_
        rw [List.mem_singleton.mp hnew]
        exact List.mem_singleton_self _
      · exact .inl rfl
  | bail reason props inline =>
      unfold Component.record recordBail
      dsimp only
      split
      · exact h
      split
      · exact h
      next text =>
      split
      · exact h
      refine h.extend_recording ?_ (fun b hb => .inl ⟨b, hb, rfl⟩) (fun e he => .inl he) ?_
      · rfl
      refine .inr ⟨_, slot, rfl, ⟨hd.2, text, hd.1, ?_⟩, hslot, rfl⟩
      dsimp only
      split
      · exact .inl rfl
      · exact .inr ⟨_, _, rfl⟩

end

/-- The account rests on what depends on props alone. -/
theorem Accounts.of_propParts {Q : Classified → Prop} {c c' : Component} (h : c.Accounts Q)
    (hparts : Lowering.propParts c' = Lowering.propParts c) : c'.Accounts Q := by
  simp only [Lowering.propParts, Prod.mk.injEq] at hparts
  obtain ⟨hvariants, hentries, hinline, hdeps⟩ := hparts
  refine h.extend (fun prop hprop => hdeps ▸ hprop) (fun b hb => .inl ⟨b, hvariants ▸ hb, rfl⟩)
    (fun e he => .inl (hentries ▸ he)) (.inl hinline)

theorem outlasts_accounts (Q : Classified → Prop) : Outlasts (Accounts Q) where
  important _ _ h := h.of_propParts rfl
  styles c styles h := by
    refine h.extend (fun _ hprop => hprop) (fun b hb => ?_) (fun e he => .inl he) (.inl rfl)
    obtain ⟨known, hknown, rfl⟩ := List.mem_map.mp hb
    exact .inl ⟨known, hknown, rfl⟩
  passing := by
    rintro c _ ⟨_, _, _, _, rfl⟩ h
    exact h.of_propParts rfl

/-- The slots of a declaration. -/
def slotOf (plant : Plant) (d : Module.StyledDeclaration) (slot : Classified) : Prop :=
  ∃ index n, n ∈ d.template.expressions ∧ slot = Interpolation.classify plant.env.around index n

/-- Without handlers of the adapter, a component that has been built accounts for its props. -/
theorem accounts_build? {plant : Plant} (hplant : plant.env.adapter.BuiltIn) {d : Module.StyledDeclaration}
    {c : Component} {s s' : Session Workshop} (h : (build? plant d).run s = (.ok (some c), s')) :
    c.Accounts (slotOf plant d) := by
  refine (outlasts_accounts _).of_build? (fun template request hread => ?_) h
    ⟨List.forall_mem_nil _, List.forall_mem_nil _, List.forall_mem_nil _, [], .nil, List.forall_mem_nil _⟩
  refine KeepsComponent.resolveSlot fun c slot d hslot ⟨t, t', hrun⟩ hc => ?_
  exact hc.record (Interpolation.gives_concerns_decide hplant _ _ t d t' hrun)
    ⟨_, _, Css.Template.expression_mem hread hslot, rfl⟩ _

end Restyle.Component

namespace Restyle.Interpolation

/-- A text that does not start as an entry of a pattern does which takes `as` under another name. -/
def KeepsName (name : String) : Prop :=
  ∀ more, name.toList ≠ 'a' :: 's' :: ':' :: more

theorem nameAfter?_spec {cs : List Char} {name : String} (h : nameAfter? cs = some name) :
    name ≠ "" ∧ KeepsName name := by
  obtain ⟨n, hn, rfl⟩ := Option.map_eq_some_iff.mp h
  generalize (Tsx.Cursor.skip { rest := cs }).2.rest = rest at hn ⊢
  cases rest with
  | nil => cases hn
  | cons c rest =>
      obtain ⟨k, rfl, hk⟩ : ∃ k, n = k + 1 ∧ (c = 'a' → k = Tsx.nameTail 0 rest) := by
        unfold Tsx.nameLength? at hn
        dsimp only at hn
        split at hn
        · cases hn
          exact ⟨_, Nat.add_comm .., fun _ => rfl⟩
        split at hn
        · next hc =>
            obtain ⟨m, -, rfl⟩ := Option.map_eq_some_iff.mp hn
            refine ⟨_, Nat.add_comm .., ?_⟩
            rintro rfl
            cases hc
        · cases hn
      rw [List.take_succ_cons]
      refine ⟨fun hempty => ?_, fun more heq => ?_⟩
      · have htoList := congrArg String.toList hempty
        rw [String.toList_ofList] at htoList
        cases htoList
      · rw [String.toList_ofList] at heq
        obtain ⟨rfl, htail⟩ := List.cons.inj heq
        -- the name ends before the colon
        obtain ⟨after, rfl⟩ : ∃ after, rest = 's' :: ':' :: after :=
          ⟨_, by rw [← List.take_append_drop k rest, htail]; rfl⟩
        have hone : Tsx.nameTail 0 ('s' :: ':' :: after) = 1 := by
          simp [Tsx.nameTail, show Tsx.isNameChar 's' = true by decide, show Tsx.isNameChar ':' = false by decide]
        rw [hk rfl, hone] at htail
        cases htail

end Restyle.Interpolation

namespace Restyle.Plan

open Restyle.Interpolation (Classified KeepsName Tests)
open Restyle.Script (isVariable leadingName? leadingName?_append)

/-! ## What a wrapper refers to -/

/-- A text without the negation at its front. -/
def dropNegation (cs : List Char) : List Char :=
  match cs with
  | '!' :: cs => cs
  | _ => cs

/--
The prop that a guard or an argument refers to: the name that it starts with, after a negation maybe.  A test of
an attribute starts with an access to the props, and refers to no name.
-/
def referredProp? (text : String) : Option String :=
  (leadingName? (dropNegation text.toList)).bind fun (name, rest) =>
    if rest.head?.any fun c => c == '.' || c == '[' then none else some name

/-- The props that the wrapper of a plan refers to, if its inline styles show what the functions in some slots give. -/
def referredProps (p : ComponentPlan) (slots : List Classified) : List String :=
  p.styleArgs.filterMap (fun a => a.guard.bind referredProp?) ++
    (firstByKey p.component.dynamicEntries).filterMap (fun e => referredProp? e.propName) ++
    slots.flatMap (·.accessNames)

/-- A variable at the front is referred to, unless a member of it is accessed. -/
theorem referredProp?_append {prop : String} (h : isVariable prop = true) (rest : String)
    (hrest : ∀ c ∈ rest.toList.head?, Tsx.isNameChar c = false) :
    referredProp? (prop ++ rest) =
      if rest.toList.head?.any fun c => c == '.' || c == '[' then none else some prop := by
  have hdrop : dropNegation (prop ++ rest).toList = prop.toList ++ rest.toList := by
    rw [String.toList_append]
    unfold dropNegation
    split
    · next cs heq =>
        -- no variable starts with an exclamation mark
        have hstart : Tsx.isNameStart '!' = false := by decide
        cases hcs : prop.toList with
        | nil => simp [isVariable, hcs] at h
        | cons c tail =>
            rw [hcs] at heq
            cases heq
            simp [isVariable, hcs, hstart] at h
    · rfl
  unfold referredProp?
  rw [hdrop, leadingName?_append h _ hrest]
  rfl

theorem referredProp?_negation {prop : String} (h : isVariable prop = true) :
    referredProp? ("!" ++ prop) = some prop := by
  have hname := leadingName?_append h [] nofun
  rw [List.append_nil] at hname
  have hdrop : dropNegation ("!" ++ prop).toList = prop.toList := by
    rw [String.toList_append]
    rfl
  unfold referredProp?
  rw [hdrop, hname]
  rfl

/-- A text that starts with no name refers to nothing. -/
theorem referredProp?_eq_none {text : String} (h : ∀ c ∈ (dropNegation text.toList).head?, Tsx.isNameChar c = false) :
    referredProp? text = none := by
  have htake : (dropNegation text.toList).takeWhile Tsx.isNameChar = [] := by
    generalize dropNegation text.toList = cs at h
    cases cs with
    | nil => rfl
    | cons c cs => simp [h c rfl]
  unfold referredProp? leadingName?
  rw [htake]
  rfl

/-- A test is a negation, or a blank and a comparison follow the prop. -/
theorem shape_of_tests {prop guard : String} (h : Tests prop guard) :
    guard = "!" ++ prop ∨ ∃ rest, guard = prop ++ rest ∧ ∀ c ∈ rest.toList.head?, c = ' ' := by
  have hblank : ∀ (literal : String) (cs : List Char),
      ∀ c ∈ (String.ofList (' ' :: cs) ++ literal).toList.head?, c = ' ' := by
    rintro literal cs c hc
    rw [String.toList_append, String.toList_ofList] at hc
    cases hc
    rfl
  cases h with
  | truth => exact .inr ⟨"", String.append_empty.symm, nofun⟩
  | negation => exact .inl rfl
  | equal literal => exact .inr ⟨" === " ++ literal, String.append_assoc .., hblank literal _⟩
  | different literal => exact .inr ⟨" !== " ++ literal, String.append_assoc .., hblank literal _⟩
  | given =>
      refine .inr ⟨" != null", rfl, ?_⟩
      rintro c ⟨⟩
      rfl

/-- What tests a variable refers to it, and what tests nothing refers to nothing. -/
theorem eq_of_tests {prop guard name : String} (hprop : prop ≠ "" → isVariable prop = true) (h : Tests prop guard)
    (hname : referredProp? guard = some name) : prop ≠ "" ∧ name = prop := by
  have hblank : Tsx.isNameChar ' ' = false := by decide
  by_cases hne : prop = ""
  · subst hne
    have hnone : referredProp? guard = none := by
      refine referredProp?_eq_none ?_
      rcases shape_of_tests h with rfl | ⟨rest, rfl, hrest⟩
      · exact nofun
      · rw [String.empty_append]
        intro c hc
        unfold dropNegation at hc
        split at hc
        · next cs heq =>
            rw [heq] at hrest
            cases hrest '!' rfl
        · rw [hrest c hc, hblank]
    cases hnone.symm.trans hname
  · have hvariable := hprop hne
    refine ⟨hne, ?_⟩
    rcases shape_of_tests h with rfl | ⟨rest, rfl, hrest⟩
    · exact Option.some.inj (hname.symm.trans (referredProp?_negation hvariable))
    · rw [referredProp?_append hvariable rest fun c hc => by rw [hrest c hc, hblank]] at hname
      split at hname
      · cases hname
      · exact (Option.some.inj hname).symm

/-- The test of an attribute refers to no name. -/
theorem referredProp?_attributeGuard (s : Component.AttributeSelector) : referredProp? (attributeGuard s) = none := by
  have haccess : ∀ rest : String, referredProp? (propAccess s.attr ++ rest) = none := by
    intro rest
    have hmember : ∀ mark more : String, mark = "." ∨ mark = "[" →
        referredProp? ("props" ++ (mark ++ more)) = none := by
      rintro mark more (rfl | rfl) <;>
        · rw [referredProp?_append (by decide) _ (by rw [String.toList_append]; rintro c ⟨⟩; decide),
            String.toList_append]
          rfl
    unfold propAccess
    split
    · rw [String.append_assoc, String.append_assoc]
      exact hmember "." _ (.inl rfl)
    · rw [String.append_assoc, String.append_assoc, String.append_assoc]
      exact hmember "[" _ (.inr rfl)
  unfold attributeGuard
  dsimp only
  split <;> simp only [String.append_assoc] <;> exact haccess _

theorem isVariable_of_referredProp? {text name : String} (h : referredProp? text = some name) :
    isVariable name = true := by
  obtain ⟨⟨name', rest⟩, hleading, h⟩ := Option.bind_eq_some_iff.mp h
  dsimp only at h
  split at h
  · cases h
  · cases h
    exact Script.isVariable_of_leadingName? hleading

section

variable {b : Basis} {arena : Arena} {c : Component} {Q : Classified → Prop}

/-- Flags for siblings and recorded props are taken. -/
theorem mem_takenProps {prop : String} (h : prop ∈ c.siblingSelectors.map (·.propName) ++ c.propDependencies)
    (hne : prop ≠ "") : prop ∈ (planComponent b arena c).takenProps := by
  unfold planComponent
  dsimp only
  rw [mem_firstOccurrences, List.mem_filter]
  refine ⟨List.mem_append_left _ (List.mem_append_left _ h), ?_⟩
  simpa using hne

/-- A guard refers to a prop that is taken. -/
theorem mem_takenProps_of_guard (hc : c.Accounts Q)
    (hvariables : ∀ prop ∈ (planComponent b arena c).takenProps, isVariable prop = true) {a : StyleArg}
    (ha : a ∈ (planComponent b arena c).styleArgs) {name : String} (hname : a.guard.bind referredProp? = some name) :
    name ∈ (planComponent b arena c).takenProps := by
  obtain ⟨guard, hguard, hname⟩ := Option.bind_eq_some_iff.mp hname
  have htaken : ∀ prop, (prop ≠ "" → prop ∈ c.siblingSelectors.map (·.propName) ++ c.propDependencies) →
      Tests prop guard → name ∈ (planComponent b arena c).takenProps := by
    intro prop hrecorded htests
    obtain ⟨hne, rfl⟩ := eq_of_tests (fun hne => hvariables _ (mem_takenProps (hrecorded hne) hne)) htests hname
    exact mem_takenProps (hrecorded hne) hne
  rw [styleArgs_eq] at ha
  unfold ownPart at ha
  simp only [List.mem_append, List.mem_filterMap, List.mem_map] at ha
  rcases ha with hinherited | (((hown | ⟨s, -, hattribute⟩) | ⟨s, hs, rfl⟩) | ⟨v, hv, rfl⟩) | ⟨e, he, rfl⟩
  · cases (guard_of_mem_inherited b arena c hinherited).symm.trans hguard
  · cases (guard_of_mem_ownArgs b c hown).symm.trans hguard
  · unfold attributeArg? at hattribute
    dsimp only at hattribute
    split at hattribute
    · split at hattribute <;> cases hattribute
      cases hguard
    · cases hattribute
      cases hguard
      cases (referredProp?_attributeGuard s).symm.trans hname
  · cases hguard
    exact htaken _ (fun _ => List.mem_append_left _ (List.mem_map_of_mem hs)) .truth
  · cases hguard
    obtain ⟨prop, htests, hrecorded⟩ := hc.guards v (List.mem_of_mem_filter hv)
    exact htaken prop (fun hne => List.mem_append_right _ (hrecorded hne)) htests
  · unfold dynamicArg at hguard
    dsimp only at hguard
    split at hguard
    · cases hguard
      exact htaken _ (fun hne => List.mem_append_right _ (hc.entries e (mem_firstByKey he) hne)) .given
    · cases hguard

/-- A wrapper that refers to a prop merges styles from outside with its own. -/
theorem mergesStyles_of_referred (hwrapper : c.needsWrapper = needsWrapper c) {slots : List Classified}
    (hslots : c.Inlines slots) {name : String} (hname : name ∈ referredProps (planComponent b arena c) slots) :
    Emit.mergesStyles (planComponent b arena c) = true := by
  have hneeds : needsWrapper c = true ∧ Emit.isPassthrough (planComponent b arena c) = false := by
    unfold Emit.isPassthrough
    simp only [referredProps, List.mem_append, List.mem_filterMap, List.mem_flatMap] at hname
    rcases hname with (⟨a, ha, hguard⟩ | ⟨e, he, -⟩) | ⟨slot, hslot, -⟩
    · refine ⟨?_, by rw [List.isEmpty_eq_false_iff.mpr (List.ne_nil_of_mem ha), Bool.false_and]⟩
      obtain ⟨guard, hguard, -⟩ := Option.bind_eq_some_iff.mp hguard
      by_contra hplain
      rw [styleArgs_eq, (ownPart_of_plain b c _ (Bool.eq_false_iff.mpr hplain)).1] at ha
      rcases List.mem_append.mp ha with ha | ha
      · cases (guard_of_mem_inherited b arena c ha).symm.trans hguard
      · cases (guard_of_mem_ownArgs b c ha).symm.trans hguard
    · have harg : dynamicArg b e ∈ (planComponent b arena c).styleArgs := by
        rw [styleArgs_eq]
        exact List.mem_append_right _ (List.mem_append_right _ (List.mem_map_of_mem he))
      have hentries : c.dynamicEntries ≠ [] := List.ne_nil_of_mem (mem_firstByKey he)
      exact ⟨by simp [needsWrapper, hentries], by
        rw [List.isEmpty_eq_false_iff.mpr (List.ne_nil_of_mem harg), Bool.false_and]⟩
    · have hinline : c.inlineStyles ≠ [] := by
        intro hnil
        rw [Component.Inlines, hnil] at hslots
        cases hslots
        cases hslot
      exact ⟨by simp [needsWrapper, hinline], by
        rw [show (planComponent b arena c).component.inlineStyles.isEmpty = false from
          List.isEmpty_eq_false_iff.mpr hinline, Bool.and_false]⟩
  unfold Emit.mergesStyles
  rw [hneeds.2, Bool.not_false, Bool.and_true]
  show acceptsStyles b c = true
  rw [acceptsStyles, hwrapper, hneeds.1]
  rfl

/-- The wrapper of a plan binds all props that it refers to. -/
def Binds (p : ComponentPlan) (slots : List Classified) : Prop :=
  ∀ name ∈ referredProps p slots, name ∈ Emit.takenNames p

theorem accessNames_spec {slot : Classified} {name : String} (h : name ∈ slot.accessNames) :
    name ≠ "" ∧ KeepsName name := by
  unfold Classified.accessNames at h
  split at h
  · next param body _ =>
      split at h
      · cases h
      · obtain ⟨name?, hmem, heq⟩ := List.mem_filterMap.mp h
        cases (heq : name? = some name)
        obtain ⟨last, post, n, hread⟩ := Text.exists_read_of_mem_collectFrom hmem
        obtain ⟨⟨found, rest⟩, hread, heq⟩ := Option.map_eq_some_iff.mp hread
        obtain ⟨⟨⟨⟩, rest'⟩, -, hfound⟩ := Option.map_eq_some_iff.mp hread
        exact Interpolation.nameAfter?_spec ((Prod.mk.inj hfound).1.trans (Prod.mk.inj heq).1)
  · cases h

theorem referredProps_spec {p : ComponentPlan} {slots : List Classified} {name : String}
    (h : name ∈ referredProps p slots) : KeepsName name := by
  have hvariable : ∀ text, referredProp? text = some name → KeepsName name := by
    intro text htext more heq
    have hname := isVariable_of_referredProp? htext
    have hcolon : Tsx.isNameChar ':' = false := by decide
    simp [isVariable, heq, hcolon] at hname
  simp only [referredProps, List.mem_append, List.mem_filterMap, List.mem_flatMap] at h
  rcases h with (⟨a, -, hguard⟩ | ⟨e, -, hcalled⟩) | ⟨slot, -, haccess⟩
  · obtain ⟨guard, -, hguard⟩ := Option.bind_eq_some_iff.mp hguard
    exact hvariable guard hguard
  · exact hvariable _ hcalled
  · exact (accessNames_spec haccess).2

/-- The names that a wrapper binds are those of the entries that take a prop under its own name. -/
theorem mem_takenNames_iff {p : ComponentPlan} {name : String} (hname : KeepsName name) :
    name ∈ Emit.takenNames p ↔ (Emit.mergesStyles p = true ∧ (name = "className" ∨ name = "style")) ∨
      name ∈ p.takenProps ∧ name ≠ "className" ∧ name ≠ "style" ∧ name ≠ "as" := by
  have hrenamed : ∀ element : String, name ≠ "as: " ++ Emit.polymorphicName ++ " = " ++ element := by
    rintro element rfl
    exact hname _ (by simp only [String.toList_append]; rfl)
  have hnames : (!(["className", "style", "as"].contains name)) = true ↔
      name ≠ "className" ∧ name ≠ "style" ∧ name ≠ "as" := by
    simp
  unfold Emit.takenNames
  dsimp only
  rw [List.append_assoc, List.mem_append, List.mem_append, List.mem_filter, hnames]
  rw [or_iff_right]
  · refine or_congr_left ?_
    cases Emit.mergesStyles p <;> simp
  · intro h
    split at h
    · exact hrenamed _ (List.mem_singleton.mp h)
    · cases h

/--
A wrapper of a component that accounts for its props binds what it refers to exactly if it refers to no `as`, and
takes for another reason the props of its inline styles that are not recorded.
-/
theorem binds_iff_of_accounts (hc : c.Accounts Q) (hwrapper : c.needsWrapper = needsWrapper c)
    (hvariables : ∀ prop ∈ (planComponent b arena c).takenProps, isVariable prop = true) {slots : List Classified}
    (hslots : c.Inlines slots) :
    Binds (planComponent b arena c) slots ↔ "as" ∉ referredProps (planComponent b arena c) slots ∧
      ∀ slot ∈ slots, ∀ name ∈ slot.missedProps,
        name ∈ "className" :: "style" :: (planComponent b arena c).takenProps := by
  constructor
  · intro h
    refine ⟨fun has => ?_, fun slot hslot name hmissed => ?_⟩
    · have hbound := h _ has
      rw [mem_takenNames_iff (referredProps_spec has)] at hbound
      simp at hbound
    · have hname : name ∈ slot.accessNames := List.mem_of_mem_filter hmissed
      have hreferred : name ∈ referredProps (planComponent b arena c) slots :=
        List.mem_append_right _ (List.mem_flatMap.mpr ⟨slot, hslot, hname⟩)
      rcases (mem_takenNames_iff (accessNames_spec hname).2).mp (h name hreferred) with ⟨-, rfl | rfl⟩ | ⟨htaken, -⟩
      · exact List.mem_cons_self
      · exact List.mem_cons_of_mem _ List.mem_cons_self
      · exact List.mem_cons_of_mem _ (List.mem_cons_of_mem _ htaken)
  · rintro ⟨has, hmissed⟩ name hname
    have htaken : name ∈ "className" :: "style" :: (planComponent b arena c).takenProps := by
      have hlater : ∀ prop, prop ∈ (planComponent b arena c).takenProps →
          prop ∈ "className" :: "style" :: (planComponent b arena c).takenProps :=
        fun prop h => List.mem_cons_of_mem _ (List.mem_cons_of_mem _ h)
      have hmem := hname
      simp only [referredProps, List.mem_append, List.mem_filterMap, List.mem_flatMap] at hmem
      rcases hmem with (⟨a, ha, hguard⟩ | ⟨e, he, hcalled⟩) | ⟨slot, hslot, haccess⟩
      · exact hlater _ (mem_takenProps_of_guard hc hvariables ha hguard)
      · have hrecorded : e.propName ≠ "" → e.propName ∈ (planComponent b arena c).takenProps := fun hne =>
          mem_takenProps (List.mem_append_right _ (hc.entries e (mem_firstByKey he) hne)) hne
        obtain ⟨hne, rfl⟩ := eq_of_tests (fun hne => hvariables _ (hrecorded hne)) .truth hcalled
        exact hlater _ (hrecorded hne)
      · by_cases hread : name ∈ slot.readProps
        · have hne := (accessNames_spec haccess).1
          obtain ⟨s, hs, hshows⟩ := hslots.exists_style hslot
          exact hlater _ (mem_takenProps
            (List.mem_append_right _ (hc.inline s hs name (hshows.props ▸ hread) hne)) hne)
        · exact hmissed slot hslot name (List.mem_filter.mpr ⟨haccess, by simpa using hread⟩)
    have hmerges := mergesStyles_of_referred hwrapper hslots hname
    rw [mem_takenNames_iff (referredProps_spec hname)]
    by_cases hclass : name = "className"
    · exact .inl ⟨hmerges, .inl hclass⟩
    by_cases hstyle : name = "style"
    · exact .inl ⟨hmerges, .inr hstyle⟩
    refine .inr ⟨?_, hclass, hstyle, fun heq => has (heq ▸ hname)⟩
    simpa [hclass, hstyle] using htaken

end

end Restyle.Plan

namespace Restyle.Conversion

open Restyle.Component (Plant)
open Restyle.Interpolation (Classified classify)
open Restyle.Lowering (lowerAll)
open Restyle.Module (Declarations)
open Restyle.Plan (Basis Binds planAll referredProps)
open Restyle.Script (isVariable)

/-! ## The wrappers of a module -/

/-- A component that accounts for its props, with inline styles from the slots of one declaration. -/
def Traced (plant : Plant) (d : Declarations) (c : Component) : Prop :=
  ∃ declaration ∈ d.styled, c.Accounts (Component.slotOf plant declaration)

/-- Lowering leaves what depends on props alone. -/
theorem outlasts_traced (plant : Plant) (d : Declarations) : Lowering.Outlasts (Traced plant d) where
  lowers := by
    rintro pass hpass settings arena c selector body lowered ⟨declaration, hdeclaration, hc⟩ hlower
    exact ⟨declaration, hdeclaration, hc.of_propParts (Lowering.follows_of_lower hpass hlower).propParts⟩
  styles := by
    rintro c styles ⟨declaration, hdeclaration, hc⟩
    exact ⟨declaration, hdeclaration, hc.of_propParts rfl⟩

/-- A plan is that of a component which depends on props as before it was settled. -/
theorem exists_settled {b : Basis} {arena : Arena} {entry : String × ComponentPlan} (h : entry ∈ planAll b arena) :
    ∃ c, Plan.planComponent b (Plan.settle b arena) c = entry.2 ∧ c.needsWrapper = Plan.needsWrapper c ∧
      ∃ original ∈ arena, Lowering.propParts c = Lowering.propParts original.2 := by
  obtain ⟨⟨name, c⟩, hsettled, rfl⟩ := List.mem_map.mp h
  obtain ⟨original, horiginal, heq⟩ := List.mem_map.mp hsettled
  cases heq
  exact ⟨_, rfl, rfl, original, horiginal, rfl⟩

/--
Without handlers of the adapter, the inline styles of a planned component show what the functions in slots of one
declaration give; and its wrapper binds all props that it refers to exactly if it does not refer to `as`, and takes
for another reason the props of inline styles that are not recorded.
-/
theorem binds_iff {plant : Plant} (hplant : plant.env.adapter.BuiltIn) {d : Declarations} {excluded : List String}
    {built : Arena × List String} {s s' : Session Component.Workshop}
    (hbuild : (buildComponents plant d excluded).run s = (.ok built, s')) {settings : Lowering.Settings}
    {t t' : Session Arena} (hstore : t.store = built.1) (hlower : (lowerAll settings).run t = (.ok (), t'))
    {b : Basis} {name : String} {p : ComponentPlan} (hp : (name, p) ∈ planAll b t'.store)
    (hvariables : ∀ prop ∈ p.takenProps, isVariable prop = true) :
    (∃ declaration ∈ d.styled, ∃ slots, p.component.Inlines slots ∧
        ∀ slot ∈ slots, Component.slotOf plant declaration slot) ∧
      ∀ slots, p.component.Inlines slots → (Binds p slots ↔ "as" ∉ referredProps p slots ∧
        ∀ slot ∈ slots, ∀ name ∈ slot.missedProps, name ∈ "className" :: "style" :: p.takenProps) := by
  have hbuilt : t.store.All (Traced plant d) := by
    rw [hstore]
    exact all_buildComponents
      (fun declaration hdeclaration _ _ _ hrun => ⟨declaration, hdeclaration, Component.accounts_build? hplant hrun⟩)
      hbuild
  have htraced := (outlasts_traced plant d).keeps_lowerAll settings t hbuilt
  rw [hlower] at htraced
  obtain ⟨c, hc, hwrapper, original, horiginal, hparts⟩ := exists_settled hp
  dsimp only at hc
  subst hc
  obtain ⟨declaration, hdeclaration, haccounts⟩ := htraced original horiginal
  have hown := haccounts.of_propParts hparts
  refine ⟨⟨declaration, hdeclaration, hown.shown⟩, fun slots hslots => ?_⟩
  exact Plan.binds_iff_of_accounts hown hwrapper hvariables hslots

/-- What holds of a component of some declarations as it is planned. -/
def holdsOfPlan (styled : List Module.StyledDeclaration) (name : String) (check : ComponentPlan → Bool) : Bool :=
  match (Lowering.builtFrom styled).1 with
  | .error _ => false
  | .ok built =>
    match (lowerAll {}).run { store := built.1 } with
    | (.ok (), t) => ((planAll {} t.store).get? name).any check
    | (.error _, _) => false

theorem exists_of_holdsOfPlan {styled : List Module.StyledDeclaration} {name : String}
    {check : ComponentPlan → Bool} (h : holdsOfPlan styled name check = true) :
    ∃ built w t p, Lowering.builtFrom styled = (.ok built, w) ∧
      (lowerAll {}).run { store := built.1 } = (.ok (), t) ∧ (name, p) ∈ planAll {} t.store ∧ check p = true := by
  unfold holdsOfPlan at h
  cases hbuild : Lowering.builtFrom styled with
  | mk result w =>
      rw [hbuild] at h
      cases result with
      | error f => cases h
      | ok built =>
          dsimp only at h
          split at h
          · next t hlower =>
              obtain ⟨p, hp, hcheck⟩ := (Option.any_eq_true _ _).mp h
              exact ⟨built, w, t, p, rfl, hlower, Table.mem_of_get? hp, hcheck⟩
          · cases h

theorem builtIn_iconPlant : Lowering.iconPlant.env.adapter.BuiltIn :=
  ⟨rfl, nofun⟩

/-- A box whose color adds up two props. -/
def sumBox : Module.StyledDeclaration :=
  Lowering.declaration "Box" "div" ["color: ", ";"] ["p => p.a + p.b"]

/-- The slot of the box. -/
def sumSlot : Classified :=
  classify Lowering.iconPlant.env.around 0 (Script.expression "p => p.a + p.b")

/-- The wrapper of the box refers to both props, and binds them. -/
theorem binds_sumBox : ∃ built w t p, Lowering.builtFrom [sumBox] = (.ok built, w) ∧
    (lowerAll {}).run { store := built.1 } = (.ok (), t) ∧ ("Box", p) ∈ planAll {} t.store ∧
    p.component.Inlines [sumSlot] ∧ (∀ prop ∈ p.takenProps, isVariable prop = true) ∧
    referredProps p [sumSlot] = ["a", "b"] ∧ Binds p [sumSlot] := by
  have hslot : sumSlot.readProps = ["a", "b"] ∧ sumSlot.missedProps = [] ∧
      sumSlot.node.bind Interpolation.inlineExpression? = some "a + b" := by
    decide +kernel
  have hcheck : holdsOfPlan [sumBox] "Box" (fun p =>
      decide (p.component.inlineStyles = [{ property := "color", expression := "a + b", props := ["a", "b"] }]) &&
        p.takenProps.all isVariable && decide (referredProps p [sumSlot] = ["a", "b"])) = true := by
    decide +kernel
  obtain ⟨built, w, t, p, hbuild, hlower, hp, hall⟩ := exists_of_holdsOfPlan hcheck
  simp only [Bool.and_eq_true, decide_eq_true_eq, List.all_eq_true] at hall
  obtain ⟨⟨hinline, hvariables⟩, hreferred⟩ := hall
  have hslots : p.component.Inlines [sumSlot] := by
    unfold Component.Inlines
    rw [hinline]
    exact .cons ⟨hslot.1.symm, "a + b", hslot.2.2, .inl rfl⟩ .nil
  refine ⟨built, w, t, p, hbuild, hlower, hp, hslots, hvariables, hreferred, ?_⟩
  refine ((binds_iff builtIn_iconPlant hbuild rfl hlower hp hvariables).2 _ hslots).mpr ⟨?_, ?_⟩
  · rw [hreferred]
    decide
  · rw [List.forall_mem_singleton, hslot.2.1]
    exact List.forall_mem_nil _

/-- The wrappers of the components of some declarations bind what they refer to, if they can be read. -/
def BindsAll (plant : Plant) (d : Declarations) (settings : Lowering.Settings) (b : Basis) (w : Emit.WrapperStyle) :
    Prop :=
  ∀ excluded built s s' t t', (buildComponents plant d excluded).run s = (.ok built, s') → t.store = built.1 →
    (lowerAll settings).run t = (.ok (), t') → ∀ name p, (name, p) ∈ planAll b t'.store →
      (Emit.wrapper w p).isReadable = true → ∀ slots, p.component.Inlines slots → Binds p slots

/-- A box whose color depends on the prop `as`. -/
def asBox : Module.StyledDeclaration :=
  Lowering.declaration "Box" "div" ["color: ", ";"] ["p => p.as ? \"red\" : \"blue\""]

/-- Wrappers without types, in which a function merges styles. -/
def mergingStyle : Emit.WrapperStyle :=
  { isTyped := false, merger := some { functionName := "merge", importSource := "./merge" } }

/-- The text of the wrapper of the box. -/
def asWrapper : String :=
  "function Box(props) \x7b\n  const \x7b className, style, ...rest \x7d = props;\n" ++
    "  return (\n    <div\n      \x7b...rest\x7d\n" ++
    "      \x7b...merge([as && styles.boxAs, !as && styles.boxNotAs], className, style)\x7d\n    />\n  );\n\x7d"

theorem readable_asWrapper : (Module.read asWrapper "wrapper.jsx").hasErrors = false := by
  rw [Module.read, Tsx.Source.read_eq_ofChars (show asWrapper.toList = _ from
    Text.toList_append_of (Text.toList_append_of String.toList_ofList String.toList_ofList) String.toList_ofList)]
  decide +kernel

/-- The wrapper of the box tests `as`, which it does not bind. -/
theorem not_bindsAll_asBox : ¬ BindsAll Lowering.iconPlant { styled := [asBox] } {} {} mergingStyle := by
  have hcheck : holdsOfPlan [asBox] "Box" (fun p =>
      decide ((Emit.wrapper mergingStyle p).text = asWrapper) && decide (p.component.inlineStyles = []) &&
        decide ("as" ∈ referredProps p [] ∧ "as" ∉ Emit.takenNames p)) = true := by
    decide +kernel
  obtain ⟨built, w, t, p, hbuild, hlower, hp, hall⟩ := exists_of_holdsOfPlan hcheck
  simp only [Bool.and_eq_true, decide_eq_true_eq] at hall
  obtain ⟨⟨htext, hinline⟩, hreferred, hunbound⟩ := hall
  have hreadable : (Emit.wrapper mergingStyle p).isReadable = true := by
    show (!(Module.read (Emit.wrapper mergingStyle p).text "wrapper.jsx").hasErrors) = true
    rw [htext, readable_asWrapper]
    rfl
  intro h
  have hslots : p.component.Inlines [] := by
    unfold Component.Inlines
    rw [hinline]
    exact .nil
  exact hunbound (h _ _ _ _ _ _ hbuild rfl hlower _ p hp hreadable [] hslots "as" hreferred)

end Restyle.Conversion
