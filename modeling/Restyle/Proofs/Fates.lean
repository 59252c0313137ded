import Restyle.Proofs.Outcomes

/-!
# What becomes of declarations

The declaration of a planned component goes away, or a function component takes its place, or it stays as it
is because the function component cannot be read back.  What takes the place of a declaration has been read
without errors; styles, attributes and imports are put into the text unread.
-/

namespace Restyle.Conversion

open Restyle.Module (Edit)
open Restyle.Tsx (Node)

/-- What becomes of the declaration of a component. -/
inductive Fate where
  | removed
  | replaced (text : String)
  | unchanged
  deriving DecidableEq, Repr

/-- The edits of a statement for its fate. -/
def Fate.edits (m : Module) (statement : Node) : Fate → StatementEdits
  | .removed => .removal m statement
  | .replaced text => .replacement statement text
  | .unchanged => {}

namespace Draft

/-- What becomes of the declaration of a component with a plan. -/
def fate (p : Project) (d : Draft) (plan : ComponentPlan) : Fate :=
  if plan.isInline then .removed
  else
    let wrapper := Emit.wrapper (d.wrapperStyle p) plan
    if wrapper.isReadable then .replaced wrapper.text else .unchanged

/-- Whether the plan of a component is carried out. -/
def isCarriedOut (p : Project) (d : Draft) (plan : ComponentPlan) : Bool :=
  d.fate p plan != .unchanged

/-- The edits for the declaration of a component. -/
def fateEdits (p : Project) (d : Draft) (entry : String × ComponentPlan) : StatementEdits :=
  ((d.statement? entry.1).map fun n => (d.fate p entry.2).edits d.source n).getD {}

theorem readable_of_fate {p : Project} {d : Draft} {plan : ComponentPlan} {text : String}
    (h : d.fate p plan = .replaced text) :
    (Module.read text (if d.source.isTyped then "wrapper.tsx" else "wrapper.jsx")).hasErrors = false := by
  unfold fate at h
  split at h
  · cases h
  dsimp only at h
  split at h
  · next hreadable =>
      cases h
      unfold Emit.wrapper at hreadable
      dsimp only at hreadable
      rw [Bool.not_eq_true'] at hreadable
      exact hreadable
  · cases h

theorem fate_of_isInline (p : Project) (d : Draft) {plan : ComponentPlan} (h : plan.isInline = true) :
    d.fate p plan = .removed := by
  unfold fate
  rw [if_pos h]

/-! ## The edits of all components -/

/-- What one plan adds to the edits. -/
theorem carriedOut_eq (p : Project) {d : Draft} (done : ComponentEdits) {name : String} (plan : ComponentPlan)
    {n : Node} (hn : d.statement? name = some n) :
    (d.carriedOut p done name plan).statements = done.statements.append (d.fateEdits p (name, plan)) ∧
      (d.carriedOut p done name plan).plans =
        (if d.isCarriedOut p plan then done.plans.set name plan else done.plans) ∧
      (d.carriedOut p done name plan).failed =
        if d.isCarriedOut p plan then done.failed else done.failed ++ [name] := by
  unfold carriedOut fateEdits isCarriedOut fate
  rw [hn]
  dsimp only [Option.map_some, Option.getD_some]
  split
  · exact ⟨rfl, rfl, rfl⟩
  split
  · exact ⟨rfl, rfl, rfl⟩
  · refine ⟨?_, rfl, rfl⟩
    simp [Fate.edits, StatementEdits.append]

/-- The components that are carried out, those that are not, and the edits, each in the order of the plans. -/
theorem components_eq {d : Draft} (h : d.Faithful) (p : Project) :
    (d.components p).statements = ((d.plans p).map (d.fateEdits p)).foldl StatementEdits.append {} ∧
      (d.components p).plans = (d.plans p).filter (fun entry => d.isCarriedOut p entry.2) ∧
      (d.components p).failed = Table.names ((d.plans p).filter fun entry => !d.isCarriedOut p entry.2) := by
  have hnames : (d.plans p).names = d.arena.names := names_plans p d
  have hdistinct : (d.plans p).names.Nodup := hnames ▸ h.distinct
  have hdeclared : ∀ entry ∈ d.plans p, ∃ n, d.statement? entry.1 = some n := by
    intro entry hentry
    refine exists_statement? (h.declared entry.1 ?_)
    rw [← hnames]
    exact List.mem_map_of_mem hentry
  have hfold : ∀ (plans : Table ComponentPlan) (done : ComponentEdits),
      (∀ entry ∈ plans, ∃ n, d.statement? entry.1 = some n) → plans.names.Nodup →
      (∀ name ∈ plans.names, name ∉ done.plans.names) →
      let after := plans.foldl (fun done entry => d.carriedOut p done entry.1 entry.2) done
      after.statements = (plans.map (d.fateEdits p)).foldl StatementEdits.append done.statements ∧
        after.plans = done.plans ++ plans.filter (fun entry => d.isCarriedOut p entry.2) ∧
        after.failed = done.failed ++ Table.names (plans.filter fun entry => !d.isCarriedOut p entry.2) := by
    intro plans
    induction plans with
    | nil => exact fun done _ _ _ => ⟨rfl, (List.append_nil _).symm, (List.append_nil _).symm⟩
    | cons entry plans ih =>
        intro done hstatements hnodup hfresh
        obtain ⟨name, plan⟩ := entry
        obtain ⟨hnew, hnodup⟩ := List.nodup_cons.mp hnodup
        obtain ⟨⟨n, hn⟩, hstatements⟩ := List.forall_mem_cons.mp hstatements
        obtain ⟨hfirst, hfresh⟩ := List.forall_mem_cons.mp hfresh
        obtain ⟨hedits, hplans, hfailed⟩ := carriedOut_eq p done plan hn
        rw [Table.set_of_not_mem hfirst] at hplans
        have hfresh' : ∀ name' ∈ Table.names plans, name' ∉ (d.carriedOut p done name plan).plans.names := by
          intro name' hname' hmem
          rw [hplans] at hmem
          split at hmem
          · rw [Table.names, List.map_append] at hmem
            rcases List.mem_append.mp hmem with hmem | hmem
            · exact hfresh name' hname' hmem
            · cases List.mem_singleton.mp hmem
              exact hnew hname'
          · exact hfresh name' hname' hmem
        obtain ⟨hedits', hplans', hfailed'⟩ := ih _ hstatements hnodup hfresh'
        refine ⟨hedits'.trans (by rw [hedits]; rfl), hplans'.trans ?_, hfailed'.trans ?_⟩
        · rw [hplans, List.filter_cons]
          dsimp only
          split
          · exact List.append_assoc _ _ _
          · rfl
        · rw [hfailed, List.filter_cons]
          dsimp only
          cases d.isCarriedOut p plan with
          | true => rfl
          | false => exact List.append_assoc _ _ _
  have hall := hfold (d.plans p) {} hdeclared hdistinct fun _ _ => List.not_mem_nil
  simpa [components] using hall

/-! ## One component -/

section

variable {p : Project} {d : Draft} {helpers : StatementEdits} {name : String} {plan : ComponentPlan} {n : Node}

theorem mem_edits_foldl {all : List StatementEdits} {s t : StatementEdits} (ht : t ∈ all) {e : Edit}
    (he : e ∈ t.edits) : e ∈ (all.foldl StatementEdits.append s).edits := by
  induction all generalizing s with
  | nil => cases ht
  | cons u all ih =>
      rcases List.mem_cons.mp ht with rfl | ht
      · have hkept : ∀ (all : List StatementEdits) (s : StatementEdits), e ∈ s.edits →
            e ∈ (all.foldl StatementEdits.append s).edits := fun all s hs =>
          List.foldlRecOn (motive := fun s : StatementEdits => e ∈ s.edits) all _ hs
            fun _ hs _ _ => List.mem_append_left _ hs
        exact hkept all _ (List.mem_append_right _ he)
      · exact ih ht

/-- The edits for the fate of a component are among those of the draft. -/
theorem mem_collected_of_fate (h : d.Faithful) (hmem : (name, plan) ∈ d.plans p) (hn : d.statement? name = some n)
    {e : Edit} (he : e ∈ ((d.fate p plan).edits d.source n).edits) (text : String) :
    e ∈ d.collected p helpers text := by
  have hfate : d.fateEdits p (name, plan) = (d.fate p plan).edits d.source n := by
    unfold fateEdits
    rw [hn]
    rfl
  have hcomponents : e ∈ (d.components p).statements.edits := by
    rw [(components_eq h p).1]
    exact mem_edits_foldl (List.mem_map_of_mem hmem) (hfate ▸ he)
  unfold collected
  exact List.mem_append_left _ (List.mem_append_left _ (List.mem_append_left _ (List.mem_append_left _ hcomponents)))

theorem plan_unique (h : d.Faithful) (hmem : (name, plan) ∈ d.plans p) {plan' : ComponentPlan}
    (hmem' : (name, plan') ∈ d.plans p) : plan = plan' := by
  have hnodup : (d.plans p).names.Nodup := (names_plans p d) ▸ h.distinct
  have hget := Table.get?_of_mem hnodup hmem
  rw [Table.get?_of_mem hnodup hmem'] at hget
  exact (Option.some.inj hget).symm

/-- The components that cannot be carried out are those whose declarations stay. -/
theorem mem_failed_iff (h : d.Faithful) (hmem : (name, plan) ∈ d.plans p) :
    name ∈ (d.components p).failed ↔ d.fate p plan = .unchanged := by
  rw [(components_eq h p).2.2]
  constructor
  · intro hfailed
    obtain ⟨⟨name', plan'⟩, hentry, rfl⟩ := List.mem_map.mp hfailed
    obtain ⟨hentry, hnot⟩ := List.mem_filter.mp hentry
    cases plan_unique h hmem hentry
    simpa [isCarriedOut] using hnot
  · intro hfate
    have hnot : (!d.isCarriedOut p plan) = true := by simp [isCarriedOut, hfate]
    exact List.mem_map.mpr ⟨(name, plan), List.mem_filter.mpr ⟨hmem, hnot⟩, rfl⟩

/-- A statement that is taken away as that of a component has a component whose plan is carried out. -/
theorem mem_taken_components (h : d.Faithful) (hn : n ∈ (d.components p).statements.taken) :
    ∃ entry ∈ d.plans p, d.isCarriedOut p entry.2 = true ∧ d.statement? entry.1 = some n := by
  rw [(components_eq h p).1, StatementEdits.taken_foldl] at hn
  rcases List.mem_append.mp hn with hn | hn
  · cases hn
  obtain ⟨s, hs, hn⟩ := List.mem_flatMap.mp hn
  obtain ⟨entry, hentry, rfl⟩ := List.mem_map.mp hs
  refine ⟨entry, hentry, ?_⟩
  unfold fateEdits at hn
  unfold isCarriedOut
  cases hstatement : d.statement? entry.1 with
  | none =>
      rw [hstatement] at hn
      cases hn
  | some n' =>
      rw [hstatement] at hn
      cases hfate : d.fate p entry.2 with
      | unchanged =>
          rw [hfate] at hn
          cases hn
      | removed =>
          rw [hfate] at hn
          cases List.mem_singleton.mp hn
          exact ⟨rfl, rfl⟩
      | replaced text =>
          rw [hfate] at hn
          cases List.mem_singleton.mp hn
          exact ⟨rfl, rfl⟩

/-- The statement of a component that stays is not taken away as a helper or an import either. -/
theorem not_mem_takenStatements (h : d.Faithful) (hhelpers : helpers.taken.Sublist d.helperStatements)
    (hmem : (name, plan) ∈ d.plans p) (hn : d.statement? name = some n) (hfate : d.fate p plan = .unchanged) :
    n ∉ d.takenStatements p helpers := by
  obtain ⟨c, -, hmakes⟩ := h.makes_statement? hn
  intro htaken
  rcases List.mem_append.mp htaken with htaken | htaken
  · rcases List.mem_append.mp htaken with htaken | htaken
    · obtain ⟨⟨name', plan'⟩, hentry, hcarried, hn'⟩ := mem_taken_components h htaken
      cases h.statement?_injective hn' hn
      cases plan_unique h hmem hentry
      unfold isCarriedOut at hcarried
      rw [hfate] at hcarried
      cases hcarried
    · obtain ⟨k, hmakes'⟩ := h.makes_helper (hhelpers.subset htaken)
      have hdeclared := hmakes.declared
      rw [hmakes'.declared] at hdeclared
      cases hdeclared
  · obtain ⟨s, hs, rfl⟩ := List.mem_map.mp htaken
    have hmem : s ∈ d.imports.statements := (List.mem_filter.mp (List.mem_filter.mp hs).1).1
    rw [h.imports] at hmem
    have hkind := (Module.removable_import hmem).2
    rcases (Module.declared?_spec hmakes.declared).2 with hdeclares | hdeclares | hdeclares <;>
      rw [hkind] at hdeclares <;> cases hdeclares

end

end Draft

/-- How a planned component fares in a conversion with an outcome. -/
inductive Fares (p : Project) (d : Draft) (helpers : StatementEdits) (text : String) (outcome : Outcome)
    (name : String) (n : Node) : Prop where
  /-- Its statement goes away. -/
  | removed (hedit : Edit.deletion (Module.statementRange d.source.bytes n.start n.stop).1
      (Module.statementRange d.source.bytes n.start n.stop).2 ∈ d.collected p helpers text)
      (hconverted : name ∈ outcome.converted) : Fares p d helpers text outcome name n
  /-- A text that reads without errors takes the place of its statement. -/
  | replaced (wrapper : String)
      (hedit : { start := n.start, stop := n.stop, text := wrapper } ∈ d.collected p helpers text)
      (hreadable : (Module.read wrapper
        (if d.source.isTyped then "wrapper.tsx" else "wrapper.jsx")).hasErrors = false)
      (hconverted : name ∈ outcome.converted) : Fares p d helpers text outcome name n
  /-- Its statement is not taken away, and the component counts as skipped. -/
  | unchanged (hstays : n ∉ d.takenStatements p helpers) (hskipped : name ∈ outcome.skipped)
      (hunconverted : name ∉ outcome.converted) : Fares p d helpers text outcome name n

/--
A conversion with a text applies the edits of its draft.  The statement of every planned component goes
away, makes way for a text that reads without errors, or stays, and then the component is skipped.
-/
theorem run_fares {p : Project} {code path : String} {outcome : Outcome} {d : Draft} {helpers : StatementEdits}
    {text : String} (hrun : run p code path = .ok outcome) (h : Emitted p (Module.read code path) d helpers text)
    {out : String} (hout : outcome.code = some out) :
    Edit.applyAll (Text.encode code) (d.collected p helpers text) = .ok out ∧
      ∀ entry ∈ d.plans p, ∃ n, d.statement? entry.1 = some n ∧ Fares p d helpers text outcome entry.1 n := by
  have hfaithful := h.drafted.faithful
  obtain ⟨skipped, outcome', hrun', hverdict, -⟩ := h.run_eq
  rw [hrun] at hrun'
  cases hrun'
  have hcode := congrArg Verdict.code hverdict
  rw [hout] at hcode
  cases hconverted : d.converted p helpers text with
  | error fault =>
      rw [hconverted] at hcode
      cases hcode
  | ok out' =>
      rw [hconverted] at hcode hverdict
      cases hcode
      refine ⟨?_, fun entry hentry => ?_⟩
      · rw [← read_bytes code path, ← h.drafted.source_eq]
        exact hconverted
      obtain ⟨name, plan⟩ := entry
      have hname : name ∈ d.arena.names := by
        rw [← Draft.names_plans p d]
        exact List.mem_map_of_mem hentry
      obtain ⟨n, hn⟩ := Draft.exists_statement? (hfaithful.declared name hname)
      have hmem : ∀ fate, d.fate p plan = fate → ∀ e ∈ (fate.edits d.source n).edits, e ∈ d.collected p helpers text :=
        fun fate hfate e he => Draft.mem_collected_of_fate hfaithful hentry hn (hfate ▸ he) text
      have hfailing := Draft.mem_failed_iff hfaithful hentry
      have hlisted : name ∈ outcome.converted ↔ d.fate p plan ≠ .unchanged := by
        rw [congrArg Verdict.converted hverdict]
        change name ∈ d.arena.names.filter _ ↔ _
        rw [List.mem_filter, and_iff_right hname, Bool.not_eq_true', ← Bool.not_eq_true, List.contains_iff_mem,
          hfailing]
      refine ⟨n, hn, ?_⟩
      cases hfate : d.fate p plan with
      | removed =>
          exact .removed (hmem _ hfate _ (List.mem_singleton_self _)) (hlisted.mpr (by rw [hfate]; nofun))
      | replaced wrapper =>
          exact .replaced wrapper (hmem _ hfate _ (List.mem_singleton_self _)) (Draft.readable_of_fate hfate)
            (hlisted.mpr (by rw [hfate]; nofun))
      | unchanged =>
          have htaken := (Draft.helperEdits_spec hfaithful h.drafted.helpers).2
          refine .unchanged (Draft.not_mem_takenStatements hfaithful htaken hentry hn hfate) ?_ ?_
          · rw [congrArg Verdict.skipped hverdict]
            exact List.mem_append_right _ (hfailing.mpr hfate)
          · exact fun hconverted => hlisted.mp hconverted hfate

/-! ## A text that cannot be read back -/

/-- A module with an attribute that is always there and whose name is a numeral. -/
def numeralModule : String :=
  "import s from \"styled-components\";\nconst A = s.a.attrs(\x7b\"1\": 2\x7d)\x60\x60;\n<A/>;\n"

/-- The attribute is put into the element as it is. -/
theorem emitted_numeralModule : ∃ d helpers text, Emitted {} (Module.read numeralModule "f.tsx") d helpers text ∧
    d.converted {} helpers text = .ok "<a 1=\x7b2\x7d/>;\n" := by
  have hcheck : (emission? {} (Module.read numeralModule "f.tsx")).any (fun e =>
      decide ((e.1.collected {} e.2.1 e.2.2).Perm [.deletion 0 35, .deletion 35 68, ⟨69, 70, "a", 0⟩,
        .insertion 70 " 1=\x7b2\x7d" 0]) && true) = true := by
    rw [Module.read, Tsx.Source.read_eq_ofChars (show numeralModule.toList = _ from String.toList_ofList)]
    decide +kernel
  have hspliced : (Edit.splice (Text.encode numeralModule) 0 [.deletion 0 35, .deletion 35 68, ⟨69, 70, "a", 0⟩,
      .insertion 70 " 1=\x7b2\x7d" 0]).map Text.decode? = .ok (some "<a 1=\x7b2\x7d/>;\n") := by
    decide +kernel
  obtain ⟨d, helpers, text, h, -, hconverted⟩ := exists_emitted hcheck (by decide) hspliced
  exact ⟨d, helpers, text, h, hconverted⟩

/-- The converted text cannot be read, though nothing failed. -/
theorem unreadable_numeralModule : (Module.read numeralModule "f.tsx").hasErrors = false ∧
    ∃ outcome out, run {} numeralModule "f.tsx" = .ok outcome ∧ outcome.success = true ∧
      outcome.code = some out ∧ (Module.read out "f.tsx").hasErrors = true := by
  obtain ⟨d, helpers, text, h, hconverted⟩ := emitted_numeralModule
  obtain ⟨outcome, hrun, hsuccess, hcode⟩ := h.exists_outcome hconverted
  exact ⟨h.convertible.readable, outcome, _, hrun, hsuccess, hcode, by decide +kernel⟩

end Restyle.Conversion
