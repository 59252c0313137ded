import Restyle.Proofs.Standing

/-!
# What lowering carries along

A pass looks at the selectors of one component after the other.  It carries a property of a component along if
the property outlives the lowering of each of its selectors and their removal; the last pass also defines custom
properties in other components, which the property has to outlive as well.  In this way lowering carries along
the variants of a component, and the value that a calm property has outside of all conditions.
-/

namespace Restyle.Lowering

open Restyle.Style (Key Value Object)
open Work (Keeps)

/-! ## What a pass carries along -/

/-- A component of a certain name has a property. -/
def Has (name : String) (R : Component → Prop) (arena : Arena) : Prop :=
  ∃ c, arena.get? name = some c ∧ R c

/--
A property of a component that a pass carries along.  It makes sure of something about the bodies of the
selectors in the styles; it outlives the lowering of a selector with such a body, and the removal of selectors.
-/
structure Carries (pass : Pass) (R : Component → Prop) (B : String → Object → Prop) : Prop where
  bodies : ∀ c, R c → ∀ entry ∈ rawSelectors c.styles, B entry.1 entry.2
  lowers : ∀ settings arena c selector body lowered, R c → B selector body →
    pass.lower? settings arena c selector (currentBody c selector body) = some lowered → R lowered.component
  erases : ∀ c c' selectors, R c → R c' →
    (∀ selector ∈ selectors, selector ∈ (rawSelectors c.styles).map (·.1)) →
      R { c' with styles := eraseAll c'.styles selectors }

/-- What has been taken care of are selectors of the list. -/
theorem mem_of_mem_lowered {pass : Pass} {settings : Settings} {name : String}
    {selectors : List (String × Object)} {s s' : Session Arena} {done : List String}
    (h : (lowerSelectors pass settings name selectors).run s = (.ok done, s')) :
    ∀ selector ∈ done, selector ∈ selectors.map (·.1) := by
  induction selectors generalizing s s' done with
  | nil =>
      cases h
      exact List.forall_mem_nil _
  | cons entry rest ih =>
      obtain ⟨selector, body⟩ := entry
      cases hc : s.store.get? name with
      | none =>
          rw [run_lowerSelectors_absent _ hc] at h
          cases h
          exact List.forall_mem_nil _
      | some c =>
          cases hlower : pass.lower? settings s.store c selector (currentBody c selector body) with
          | none =>
              rw [run_lowerSelectors_skipped rest hc hlower] at h
              exact fun found hfound => List.mem_cons_of_mem _ (ih h found hfound)
          | some lowered =>
              cases hfault : lowered.fault with
              | some f =>
                  rw [run_lowerSelectors_fault hc hlower hfault] at h
                  cases h
              | none =>
                  obtain ⟨s₁, -, hrun⟩ := run_lowerSelectors_lowered rest hc hlower hfault
                  rw [hrun] at h
                  obtain ⟨more, s₂, hmore, h⟩ := Work.run_bind_eq_ok h
                  cases h
                  exact List.forall_mem_cons.mpr
                    ⟨List.mem_cons_self, fun found hfound => List.mem_cons_of_mem _ (ih hmore found hfound)⟩

section

variable {pass : Pass} {R : Component → Prop} {B : String → Object → Prop} {name : String}

theorem Has.set_other {arena : Arena} (h : Has name R arena) {other : String} (hne : other ≠ name)
    (c : Component) : Has name R (arena.set other c) := by
  obtain ⟨d, hd, hR⟩ := h
  exact ⟨d, by rw [Table.get?_set_of_ne _ _ hne, hd], hR⟩

theorem Carries.runOn (h : Carries pass R B) (settings : Settings) (name other : String) :
    Keeps (fun s => Has name R s.store) (runOn pass settings other) := by
  rintro s ⟨c, hc, hR⟩
  by_cases hother : other = name
  case neg => exact ⟨c, (runOn_other pass settings hother s).trans hc, hR⟩
  subst hother
  have hlowered : Keeps (fun s => Has other R s.store)
      (lowerSelectors pass settings other (rawSelectors c.styles)) := by
    refine keeps_lowerSelectors_of_mem _ fun arena d selector body lowered hmem hhas hd hlower => ?_
    obtain ⟨d', hd', hR'⟩ := hhas
    cases hd.symm.trans hd'
    exact ⟨_, Table.get?_set_self _ _ _, h.lowers _ _ _ _ _ _ hR' (h.bodies c hR _ hmem) hlower⟩
  replace hlowered := hlowered s ⟨c, hc, hR⟩
  unfold Lowering.runOn
  rw [Work.run_bind_ok _ (Work.run_store s), hc]
  dsimp only
  cases hrun : (lowerSelectors pass settings other (rawSelectors c.styles)).run s with
  | mk result s' =>
      rw [hrun] at hlowered
      cases result with
      | error f =>
          rw [Work.run_bind_error _ hrun]
          exact hlowered
      | ok done =>
          obtain ⟨c', hc', hR'⟩ := hlowered
          rw [Work.run_bind_ok _ hrun, Work.run_update]
          refine ⟨{ c' with styles := eraseAll c'.styles done }, ?_, ?_⟩
          · dsimp only
            rw [Table.get?_modify_self, hc', Option.map_some]
          · exact h.erases c c' done hR hR' (mem_of_mem_lowered hrun)

theorem Carries.dropLeftovers (h : Carries pass R B) (settings : Settings) (name other : String) :
    Keeps (fun s => Has name R s.store) (dropLeftovers settings other) := by
  rintro s ⟨c, hc, hR⟩
  have hget := get?_dropLeftovers settings other name s
  rw [hc, Option.map_some] at hget
  split at hget
  · exact ⟨_, hget, h.erases c c _ hR hR fun _ hselector => hselector⟩
  · exact ⟨c, hget, hR⟩

/-- A pass with nothing left to do after its visits carries along what its selectors do. -/
theorem Carries.run_of_closed (h : Carries pass R B) (hclosed : pass.finish = fun arena => .ok (arena, []))
    (settings : Settings) (name : String) : Keeps (fun s => Has name R s.store) (pass.run settings) := by
  refine keeps_run (P := Has name R) (fun other => h.runOn settings name other) fun arena done harena hdone => ?_
  rw [hclosed] at hdone
  cases hdone
  exact harena

end

/-! ## Custom properties that are defined in other components -/

/-- The custom properties that a component hangs on get plain values under conditions. -/
def Injecting (c : Component) : Prop :=
  ∀ i ∈ c.injections, (Key.name i.pseudo).isBranch = true ∧ i.value.isObject = false

/-- The parts of a component that depend on props, and the props that they depend on. -/
def propParts (c : Component) : List Interpolation.Branch × List Component.DynamicEntry ×
    List Component.InlineStyle × List String :=
  (c.variants, c.dynamicEntries, c.inlineStyles, c.propDependencies)

/--
A component that depends on props as another one does, and whose custom properties get values as those of the other
do.
-/
structure Follows (c c' : Component) : Prop where
  propParts : propParts c' = propParts c
  injecting : Injecting c → Injecting c'

theorem Follows.of_eq {c c' : Component} (hparts : Lowering.propParts c' = Lowering.propParts c)
    (hinjections : c'.injections = c.injections) : Follows c c' := by
  refine ⟨hparts, fun h => ?_⟩
  unfold Injecting
  rwa [hinjections]

theorem follows_addExtra (c : Component) (key : String) (styles : Object) :
    Follows c (c.addExtra key styles) := by
  unfold Component.addExtra
  split <;> exact .of_eq rfl rfl

theorem follows_bridgeEntries (parent : Component) {pseudo : String}
    (hpseudo : (Key.name pseudo).isBranch = true) (selector : String) (body : Object) {c : Component}
    {l : Lowered} (h : Follows c l.component) :
    Follows c (bridgeEntries parent pseudo selector body l).component := by
  fun_induction bridgeEntries parent pseudo selector body l with
  | case1 l => exact h
  | case2 value rest l name hvalue d varName entry d' d'' ih =>
      refine ih ⟨h.propParts, fun hc i hi => ?_⟩
      rcases List.mem_append.mp hi with hi | hi
      · exact h.injecting hc i hi
      · rw [List.mem_singleton.mp hi]
        exact ⟨hpseudo, hvalue⟩
  | case3 l key value rest _ ih => exact ih h

/-- Nothing that depends on props changes, and every custom property gets a plain value under a condition. -/
theorem Reworked.follows {c d : Component} {selector : String} {body : Object} (h : Reworked c selector body d) :
    Follows c d := by
  cases h with
  | same | raised => exact .of_eq rfl rfl
  | child | inside | tested =>
      have hadd := follows_addExtra c
      exact ⟨(hadd _ _).propParts, (hadd _ _).injecting⟩
  | sibling relation ending =>
      have hadd := follows_addExtra { c with hasSiblingPattern := true } (c.styleKey ++ ending) body
      exact ⟨hadd.propParts, hadd.injecting⟩
  | marked =>
      obtain ⟨styles, hmarked⟩ :=
        addMarkerValues_component selector body { component := { c with hasSiblingPattern := true } }
      rw [hmarked]
      exact .of_eq rfl rfl
  | bridged parent hancestor =>
      exact follows_bridgeEntries parent (isBranch_of_ancestor? hancestor) selector body (.of_eq rfl rfl)

/-- No pass changes what depends on props, and every custom property gets a plain value under a condition. -/
theorem follows_of_lower {pass : Pass} (hpass : pass ∈ allPasses) {settings : Settings} {arena : Arena}
    {c : Component} {selector : String} {body : Object} {lowered : Lowered}
    (h : pass.lower? settings arena c selector body = some lowered) : Follows c lowered.component :=
  (reworked_of_lower hpass h).follows

/-- The entry in which a custom property is defined. -/
def definition (styles : Object) (varName : String) : Value :=
  (Object.get? styles (.name varName)).getD (.obj [(Key.default, .null)])

/-- A property of components that outlives the definition of a custom property in them. -/
def OutlivesDefinitions (R : Component → Prop) : Prop :=
  ∀ (c : Component) varName pseudo value o, R c → (Key.name pseudo).isBranch = true → value.isObject = false →
    definition c.styles varName = .obj o → R (c.setStyle (.name varName) (.obj (Object.set o (.name pseudo) value)))

theorem inject_eq_ok_definition {arena arena' : Arena} {i : Component.VariableInjection}
    (h : inject arena i = .ok (some arena')) :
    ∃ parent o, arena.get? i.target = some parent ∧ definition parent.styles i.varName = .obj o ∧
      arena' = arena.set i.target
        (parent.setStyle (.name i.varName) (.obj (Object.set o (.name i.pseudo) i.value))) := by
  unfold inject at h
  cases hparent : arena.get? i.target with
  | none =>
      rw [hparent] at h
      cases h
  | some parent =>
      rw [hparent] at h
      dsimp only at h
      split at h
      · next o ho =>
          cases h
          exact ⟨parent, o, rfl, ho, rfl⟩
      · cases h

/-- The definition of the custom properties of a row of components carries along what outlives each of them. -/
theorem Has.finish_ancestor {name : String} {R : Component → Prop} (hR : OutlivesDefinitions R) {arena : Arena}
    (hinjecting : arena.All Injecting) (h : Has name R arena)
    {done : Arena × List (String × String × String)} (hdone : ancestor.finish arena = .ok done) :
    Has name R done.1 := by
  refine finish_ancestor_keeps_of_mem (P := Has name R) (fun current next c i hc hi hcurrent hinject => ?_) h hdone
  obtain ⟨entry, hentry, rfl⟩ := List.mem_map.mp hc
  obtain ⟨hpseudo, hvalue⟩ := hinjecting entry hentry i hi
  obtain ⟨parent, o, hparent, hdefinition, rfl⟩ := inject_eq_ok_definition hinject
  by_cases htarget : i.target = name
  · rw [htarget] at hparent ⊢
    obtain ⟨d, hd, hRd⟩ := hcurrent
    cases hparent.symm.trans hd
    exact ⟨_, Table.get?_set_self _ _ _, hR parent _ _ _ o hRd hpseudo hvalue hdefinition⟩
  · exact hcurrent.set_other htarget _

section

variable {pass : Pass} (hpass : pass ∈ allPasses)
include hpass

theorem injecting_runOn (settings : Settings) (name : String) :
    Keeps (fun s => s.store.All Injecting) (runOn pass settings name) := by
  refine keeps_runOn (P := fun arena => arena.All Injecting) ?_ ?_
  · intro arena c selector body lowered h hc hlower
    exact h.set name ((follows_of_lower hpass hlower).injecting (h.of_get? hc))
  · intro arena selectors h
    exact h.modify name fun _ hc => hc

theorem injecting_finish {arena : Arena} (h : arena.All Injecting)
    {done : Arena × List (String × String × String)} (hdone : pass.finish arena = .ok done) :
    done.1.All Injecting := by
  refine finish_keeps hpass (P := fun arena => arena.All Injecting) h (fun done hdone => ?_) hdone
  refine finish_ancestor_keeps (P := fun arena => arena.All Injecting) ?_ h hdone
  intro arena name c key value h hc
  exact Table.All.set h name (h.of_get? hc : Injecting c)

/-- A pass carries along what its selectors do, if it outlives the definition of custom properties. -/
theorem Carries.run {R : Component → Prop} {B : String → Object → Prop} (h : Carries pass R B)
    (hR : OutlivesDefinitions R) (settings : Settings) (name : String) :
    Keeps (fun s => Has name R s.store ∧ s.store.All Injecting) (pass.run settings) := by
  refine keeps_run (P := fun arena => Has name R arena ∧ arena.All Injecting) (fun other s hs => ?_) ?_
  · exact ⟨h.runOn settings name other s hs.1, injecting_runOn hpass settings other s hs.2⟩
  · rintro arena done ⟨hhas, hinjecting⟩ hdone
    refine ⟨finish_keeps hpass hhas (fun done hdone => ?_) hdone, injecting_finish hpass hinjecting hdone⟩
    exact hhas.finish_ancestor hR hinjecting hdone

end

/-! ## What lowering leaves as it is -/

section

variable {R : Component → Prop} {B : String → Object → Prop}

/-- Lowering carries along what all passes do, if it outlives the definition of custom properties. -/
theorem carried_lowerAll (h : ∀ pass ∈ allPasses, Carries pass R B) (hR : OutlivesDefinitions R)
    (settings : Settings) (name : String) :
    Keeps (fun s => Has name R s.store ∧ s.store.All Injecting) (lowerAll settings) := by
  refine keeps_lowerAll_of_parts (P := fun arena => Has name R arena ∧ arena.All Injecting)
    (fun pass hpass => (h pass hpass).run hpass hR settings name) fun other s hs => ⟨?_, ?_⟩
  · exact (h universal (by simp [allPasses])).dropLeftovers settings name other s hs.1
  · refine keeps_dropLeftovers (P := fun arena => arena.All Injecting) ?_ s hs.2
    exact fun arena selectors harena => harena.modify other fun _ hc => hc

/-- No pass touches the variants of a component. -/
theorem carries_variants {pass : Pass} (hpass : pass ∈ allPasses) (variants : List Interpolation.Branch) :
    Carries pass (fun c => c.variants = variants) fun _ _ => True where
  bodies := fun _ _ _ _ => trivial
  lowers := fun _ _ _ _ _ _ hc _ hlower => (congrArg Prod.fst (follows_of_lower hpass hlower).propParts).trans hc
  erases := fun _ _ _ _ hc _ => hc

variable {property : Key} {value? : Option Value}

/-- The passes that come before all others let every value stand. -/
theorem carries_rests {pass : Pass} (hpass : pass = universal ∨ pass = descendant) :
    Carries pass (fun c => Rests property value? c.styles) fun _ _ => True where
  bodies := fun _ _ _ _ => trivial
  lowers := by
    intro settings arena c selector body lowered hc _ hlower
    rcases hpass with rfl | rfl
    · obtain ⟨kind, ending, -, rfl⟩ := universal_eq_some hlower
      show Rests property value? (c.addExtra _ _).styles
      rw [styles_addExtra]
      exact hc
    · rw [restyled_of_descendant hlower]
      exact hc
  erases := fun c c' selectors hc hc' hselectors =>
    hc'.eraseAll fun selector hselector hname => hc.eq_none_of_raw (hselectors selector hselector) hname

/-- A selector that is lowered leaves calm what its body does not name if it is written. -/
theorem Reworked.calm {c d : Component} {selector : String} {body : Object} (h : Reworked c selector body d)
    (hproperty : property.isProperty = true) (hc : Calm property value? c.styles)
    (hbody : isWritten selector = true → body.mentions property = false) : Calm property value? d.styles := by
  cases h with
  | same => exact hc
  | child | inside | tested =>
      show Calm property value? (c.addExtra _ _).styles
      rw [styles_addExtra]
      exact hc
  | sibling relation ending =>
      show Calm property value? (Component.addExtra { c with hasSiblingPattern := true } _ body).styles
      rw [styles_addExtra]
      exact hc
  | marked => exact Calm.addMarkerValues hproperty selector body hc
  | raised hraised hread =>
      have hwritten : isWritten selector = true := by
        rw [isWritten, hraised]
        rfl
      refine hc.raise hproperty (fun p hp => ?_) (mentions_readEntries? (hbody hwritten) hread)
      exact isBranch_of_raised? (hp ▸ hraised)
  | @bridged name pseudo parent hancestor =>
      have hwritten : isWritten selector = true := by
        rw [isWritten, hancestor, Option.isSome_some, Bool.or_true]
      exact Calm.bridgeEntries hproperty parent pseudo selector (hbody hwritten) hc

/-- No pass disturbs a value that no written body names. -/
theorem carries_calm {pass : Pass} (hpass : pass ∈ allPasses) (hproperty : property.isProperty = true) :
    Carries pass (fun c => Calm property value? c.styles)
      fun selector body => isWritten selector = true → body.mentions property = false where
  bodies := fun c hc entry hentry => hc.undisturbed.mentions_body (mem_of_mem_rawSelectors hentry)
  lowers := by
    intro settings arena c selector body lowered hc hbody hlower
    refine (reworked_of_lower hpass hlower).calm hproperty hc fun hwritten => ?_
    unfold currentBody
    split
    · next o hget =>
        split
        · exact hbody hwritten
        · exact hc.undisturbed.mentions_body (mem_of_get? hget) hwritten
    · exact hbody hwritten
  erases := fun c c' selectors hc hc' hselectors =>
    hc'.eraseAll fun selector hselector hname => hc.eq_none_of_raw (hselectors selector hselector) hname

theorem standing?_define {styles o : Object} {varName pseudo : String} (hpseudo : (Key.name pseudo).isBranch = true)
    (value : Value) (h : definition styles varName = .obj o) :
    standing? (styles.set (.name varName) (.obj (Object.set o (.name pseudo) value))) (.name varName) =
      standing? styles (.name varName) := by
  have hget := Object.get?_set_self styles (.name varName) (.obj (Object.set o (.name pseudo) value))
  have hmap := isConditional_set_branch o hpseudo value
  -- what is defined has the default of the map that it goes to
  have hread : ∀ plain, Object.get? o Key.default = some plain → o.isConditional = true →
      baseValue (styles.set (.name varName) (.obj (Object.set o (.name pseudo) value))) (.name varName) = plain := by
    intro plain hplain hconditional
    rw [baseValue_of_map hget (hmap.trans hconditional),
      Object.get?_set_of_ne _ _ (Key.ne_default_of_isBranch hpseudo), hplain, Option.getD_some]
  unfold definition at h
  cases hold : styles.get? (.name varName) with
  | none =>
      rw [hold] at h
      cases h
      rw [standing?_of_none hold, standing?, hread .null rfl rfl]
      rfl
  | some old =>
      rw [hold] at h
      cases (h : old = .obj o)
      cases hconditional : Object.isConditional o with
      | false => rw [standing?_of_body hold hconditional, standing?_of_body hget (hmap.trans hconditional)]
      | true =>
          obtain ⟨plain, hplain⟩ := Option.isSome_iff_exists.mp
            ((Object.has_iff_mem_keys o Key.default).mpr ((Object.isConditional_iff o).mp hconditional).2)
          rw [standing?, hread plain hplain hconditional, standing?, baseValue_of_map hold hconditional, hplain,
            Option.getD_some]

theorem outlivesDefinitions_calm (hproperty : property.isProperty = true) :
    OutlivesDefinitions fun c => Calm property value? c.styles := by
  intro c varName pseudo value o hc hpseudo hvalue hdefinition
  have hne : Key.name pseudo ≠ property :=
    (Key.ne_of_isProperty hproperty (Key.not_isProperty_of_isBranch hpseudo)).symm
  have hdefault : Key.default ≠ property := (Key.ne_of_isProperty hproperty Key.not_isProperty_default).symm
  refine hc.set _ ?_ fun hwritten => Object.mentions_set ?_ hne (Value.mentions_of_not_isObject property hvalue)
  · by_cases hname : Key.name varName = property
    · subst hname
      exact standing?_define hpseudo value hdefinition
    · exact standing?_set_of_ne _ hname _
  · unfold definition at hdefinition
    cases hget : c.styles.get? (.name varName) with
    | none =>
        rw [hget] at hdefinition
        cases hdefinition
        rw [Object.mentions, beq_false_of_ne hdefault]
        rfl
    | some old =>
        rw [hget] at hdefinition
        cases (hdefinition : old = .obj o)
        exact hc.undisturbed _ (mem_of_get? hget) hwritten

end

/-- Lowering leaves the variants of a component as they are. -/
theorem variants_lowerAll (settings : Settings) {s : Session Arena} (hinjecting : s.store.All Injecting)
    {name : String} {c : Component} (hc : s.store.get? name = some c) :
    Has name (fun c' => c'.variants = c.variants) ((lowerAll settings).run s).2.store := by
  refine (carried_lowerAll (fun pass hpass => carries_variants hpass c.variants) ?_ settings name s
    ⟨⟨c, hc, rfl⟩, hinjecting⟩).1
  exact fun d varName pseudo value o hd _ _ _ => hd

/-- A value that no written body names is the same after lowering as before. -/
theorem standing?_lowerAll (settings : Settings) {s : Session Arena} (hinjecting : s.store.All Injecting)
    {name : String} {c : Component} (hc : s.store.get? name = some c) (hdistinct : DistinctKeys c) {property : Key}
    (hproperty : property.isProperty = true) (hundisturbed : Undisturbed c.styles property) :
    Has name (fun c' => standing? c'.styles property = standing? c.styles property)
      ((lowerAll settings).run s).2.store := by
  have hcalm : Calm property (standing? c.styles property) c.styles := ⟨⟨hdistinct, rfl⟩, hundisturbed⟩
  obtain ⟨⟨c', hc', hcalm'⟩, -⟩ := carried_lowerAll (fun pass hpass => carries_calm hpass hproperty)
    (outlivesDefinitions_calm hproperty) settings name s ⟨⟨c, hc, hcalm⟩, hinjecting⟩
  exact ⟨c', hc', hcalm'.standing⟩

end Restyle.Lowering
