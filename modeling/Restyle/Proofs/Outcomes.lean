import Restyle.Proofs.Backing
import Restyle.Proofs.Conflicts

/-!
# What comes out of a conversion

A conversion that no stage breaks off has a draft, and its outcome is that of the draft: the module with the
edits of the draft applied to it, or no text and a message where the edits overlap.  They overlap exactly if
an edited element stands in something that another edit takes away as a whole.
-/

namespace Restyle.Conversion

open Restyle.Module (Edit EditFault Imports)
open Work (Stops)

/-! ## Messages -/

/-- The message of a conversion that is abandoned. -/
def alarm (path : String) (fault : EditFault) : Message :=
  { level := .error, text := "Conversion of " ++ path ++ " aborted: " ++ fault.message }

/-- The messages are none of abandoned conversions. -/
def Calm (messages : List Message) : Prop :=
  ∀ message ∈ messages, message.level ≠ .error

theorem Calm.not_alarm {messages : List Message} (h : Calm messages) (path : String) (fault : EditFault) :
    alarm path fault ∉ messages := fun hmem => h _ hmem rfl

theorem Calm.of_warns {s s' : Session (List Message)} (h : Calm s.store) (hwarns : Draft.Warns s s') :
    Calm s'.store := by
  intro message hmessage
  rcases hwarns message hmessage with hmem | hlevel
  · exact h message hmem
  · rw [hlevel]
    decide

/-- The message of an invalid text has another beginning than that of an overlap. -/
theorem head?_message_overlap (start cursor : Nat) :
    (EditFault.message (.overlap start cursor)).toList.head? = some 'O' := by
  have hlead : "Overlapping edit at byte ".toList = 'O' :: "verlapping edit at byte ".toList := by decide
  unfold EditFault.message
  simp only [String.toList_append, hlead, List.append_assoc, List.cons_append, List.head?_cons]

/-- The message of an overlap is not that of an invalid text. -/
theorem eq_overlap_of_alarm {path : String} {start cursor : Nat} {fault : EditFault}
    (h : alarm path (.overlap start cursor) = alarm path fault) : ∃ start cursor, fault = .overlap start cursor := by
  cases fault with
  | overlap start cursor => exact ⟨start, cursor, rfl⟩
  | notText =>
      have htext := congrArg (fun message => (Message.text message).toList) h
      simp only [alarm, String.toList_append, List.append_assoc, List.append_cancel_left_eq] at htext
      have hhead := head?_message_overlap start cursor
      rw [htext] at hhead
      exact absurd hhead (by decide)

/-! ## Drafts -/

/-- A draft of a module, with the edits for its helpers and the text of its registry. -/
structure Drafted (p : Project) (m : Module) (d : Draft) (helpers : StatementEdits) (text : String) : Prop where
  draft : ∃ parts registry, Built p m parts ∧
    Registry.ofComponents parts.helpers.mixins (loweredOf p m parts) = .ok registry ∧
    d = draftOf p m parts registry
  helpers : d.helperEdits p = .ok helpers
  text : (d.dialect p).declaration d.registry = .ok text

theorem declared_draftOf {p : Project} {m : Module} {parts : Parts} (h : Built p m parts) (registry : Registry) :
    (draftOf p m parts registry).Declared := by
  obtain ⟨s, hparts⟩ := h
  intro name hname
  refine (names_buildParts hparts).2 name ?_
  rwa [← Lowering.names_lowerAll (settingsOf p m) { store := parts.arena }]

/-- The drafts of a module that has been read are faithful. -/
theorem Drafted.faithful {p : Project} {code path : String} {d : Draft} {helpers : StatementEdits} {text : String}
    (h : Drafted p (Module.read code path) d helpers text) : d.Faithful := by
  obtain ⟨parts, registry, hbuilt, -, rfl⟩ := h.draft
  have hnames : (loweredOf p (Module.read code path) parts).names = parts.arena.names :=
    Lowering.names_lowerAll (settingsOf p (Module.read code path)) { store := parts.arena }
  exact
    { outline := Module.outline_read code path
      imports := rfl
      declarations := rfl
      distinct := by
        obtain ⟨s, hparts⟩ := hbuilt
        change (loweredOf p (Module.read code path) parts).names.Nodup
        exact hnames ▸ (names_buildParts hparts).1
      declared := declared_draftOf hbuilt registry }

theorem Drafted.source_eq {p : Project} {m : Module} {d : Draft} {helpers : StatementEdits} {text : String}
    (h : Drafted p m d helpers text) : d.source = m := by
  obtain ⟨parts, registry, -, -, rfl⟩ := h.draft
  rfl

/-- The components of a draft are found under their own names. -/
theorem Drafted.named {p : Project} {m : Module} {d : Draft} {helpers : StatementEdits} {text : String}
    (h : Drafted p m d helpers text) : Named d.arena := by
  obtain ⟨parts, registry, ⟨s, hbuilt⟩, -, rfl⟩ := h.draft
  exact Lowering.keeps_named_lowerAll (settingsOf p m) { store := parts.arena } (named_buildParts hbuilt)

/-- A module has one draft at most. -/
theorem Drafted.unique {p : Project} {m : Module} {d d' : Draft} {helpers helpers' : StatementEdits}
    {text text' : String} (h : Drafted p m d helpers text) (h' : Drafted p m d' helpers' text') :
    d = d' ∧ helpers = helpers' ∧ text = text' := by
  obtain ⟨parts, registry, ⟨s, hbuilt⟩, hregistry, rfl⟩ := h.draft
  obtain ⟨parts', registry', ⟨s', hbuilt'⟩, hregistry', rfl⟩ := h'.draft
  rw [hbuilt] at hbuilt'
  cases hbuilt'
  rw [hregistry] at hregistry'
  cases hregistry'
  refine ⟨rfl, ?_, ?_⟩
  · have hhelpers := h.helpers.symm.trans h'.helpers
    cases hhelpers
    rfl
  · have htext := h.text.symm.trans h'.text
    cases htext
    rfl

/-! ## Verdicts -/

/-- The converted text of a draft. -/
def Draft.converted (p : Project) (d : Draft) (helpers : StatementEdits) (text : String) :
    Except EditFault String :=
  Edit.applyAll d.source.bytes (d.collected p helpers text)

/-- The verdict on a module with a draft. -/
def Draft.verdict (p : Project) (d : Draft) (skipped : List String) : Except EditFault String → Verdict
  | .ok code =>
    { code := some code
      converted := d.arena.names.filter fun name => !(d.components p).failed.contains name
      skipped := skipped ++ (d.components p).failed
      styleKeys := Table.names d.registry }
  | .error _ => { success := false }

/-- The messages after a conversion: one of an overlap exactly if edits overlap. -/
def Alarmed (path : String) (messages : List Message) (result : Except EditFault String) : Prop :=
  (∃ start cursor, alarm path (.overlap start cursor) ∈ messages) ↔
    ∃ start cursor, result = .error (.overlap start cursor)

theorem alarmed_of_ok {path : String} {messages : List Message} (h : Calm messages) (code : String) :
    Alarmed path messages (.ok code) :=
  iff_of_false (fun ⟨_, _, hmem⟩ => h.not_alarm _ _ hmem) nofun

/-- A conversion that is abandoned says why. -/
theorem run_abandon (path : String) {s : Session (List Message)} (h : Calm s.store) (fault : EditFault) :
    ∃ s', (abandon path fault.message).run s = (.ok { success := false }, s') ∧
      Alarmed path s'.store (.error fault) := by
  refine ⟨_, rfl, ?_⟩
  constructor
  · rintro ⟨start, cursor, hmem⟩
    rcases List.mem_append.mp hmem with hmem | hmem
    · exact absurd hmem (h.not_alarm _ _)
    · obtain ⟨start, cursor, rfl⟩ := eq_overlap_of_alarm (List.mem_singleton.mp hmem)
      exact ⟨start, cursor, rfl⟩
  · rintro ⟨start, cursor, heq⟩
    cases heq
    exact ⟨start, cursor, List.mem_append_right _ (List.mem_singleton_self _)⟩

/-- Lowered components depend on the built parts alone. -/
theorem run_lowering {p : Project} {m : Module} {parts : Parts} {s : Session (List Message)}
    (h : ¬ Stops (Work.on parts.arena (Lowering.lowerAll (settingsOf p m))) s) :
    ∃ s', (Work.on parts.arena (Lowering.lowerAll (settingsOf p m))).run s =
      (.ok ((), loweredOf p m parts), s') ∧ s'.store = s.store := by
  obtain ⟨⟨_, arena⟩, s₁, hrun⟩ := Work.exists_run_of_not_stops h
  have harena : arena = loweredOf p m parts := by
    obtain ⟨s₂, s₃, hbefore, hafter, hlower⟩ := Work.run_on_eq_ok hrun
    have hstore := Lowering.store_lowerAll (settingsOf p m) s₂
    rw [hlower, hbefore] at hstore
    exact hafter.symm.trans hstore
  subst harena
  refine ⟨s₁, hrun, ?_⟩
  have hstore := congrArg (fun result => result.2.store) hrun
  rw [Work.run_on] at hstore
  split at hstore <;> exact hstore.symm

/-- Built parts are brought to an end with the verdict on their draft. -/
theorem run_finishParts {p : Project} {m : Module} {parts : Parts} {registry : Registry}
    {s : Session (List Message)} (hbuilt : Built p m parts)
    (hlower : ¬ Stops (Work.on parts.arena (Lowering.lowerAll (settingsOf p m))) s)
    (hregistry : Registry.ofComponents parts.helpers.mixins (loweredOf p m parts) = .ok registry)
    {helpers : StatementEdits} {text : String}
    (h : Drafted p m (draftOf p m parts registry) helpers text) (hcalm : Calm s.store) :
    ∃ s', (finishParts p m parts).run s = (.ok ((draftOf p m parts registry).verdict p parts.skipped
        ((draftOf p m parts registry).converted p helpers text)), s') ∧
      Alarmed m.path s'.store ((draftOf p m parts registry).converted p helpers text) := by
  obtain ⟨s₁, hrun, hstore⟩ := run_lowering hlower
  have hphase : (Work.phase "Aggregation" "stylex.create registry"
      (Work.ofExcept (.ok registry)) : Converting Registry).run s₁ =
        (.ok registry, { s₁ with trace := (s₁.trace.startPhase "Aggregation"
          "stylex.create registry").endPhase }) := rfl
  obtain ⟨s₂, hemit, hwarns⟩ := Draft.run_emit p (declared_draftOf hbuilt registry) h.helpers h.text
    { s₁ with trace := (s₁.trace.startPhase "Aggregation" "stylex.create registry").endPhase }
  have hcalm₁ : Calm s₁.store := hstore ▸ hcalm
  have hcalm₂ : Calm s₂.store := Calm.of_warns hcalm₁ hwarns
  unfold finishParts
  rw [Work.run_bind_ok _ hrun]
  dsimp only
  rw [hregistry, Work.run_bind_ok _ hphase]
  cases hresult : (draftOf p m parts registry).converted p helpers text with
  | ok code =>
      unfold Draft.converted at hresult
      rw [hresult] at hemit
      refine ⟨s₂, ?_, alarmed_of_ok hcalm₂ code⟩
      exact Work.run_bind_ok _ hemit
  | error fault =>
      unfold Draft.converted at hresult
      rw [hresult] at hemit
      obtain ⟨s₃, habandon, halarmed⟩ := run_abandon m.path hcalm₂ fault
      exact ⟨s₃, (Work.run_bind_ok _ hemit).trans habandon, halarmed⟩

/-! ## Runs -/

/-- Building parts tells the user nothing. -/
theorem calm_buildParts (plant : Component.Plant) (d : Module.Declarations) (excluded : List String) :
    Work.Keeps (fun s => Calm s.store) (buildParts plant d excluded) :=
  ((Work.Keeps.on _ _).phase _ _).bind fun _ => ((Work.Keeps.on _ _).phase _ _).bind fun _ => .pure _

/-- A convertible module that no stage breaks off has a draft, and gets the verdict on it. -/
theorem run_convertDeclarations {p : Project} {m : Module} (h : ¬ Breaks p m) :
    ∃ d helpers text skipped s, Drafted p m d helpers text ∧
      (convertDeclarations p m (Imports.ofModule m) (declarationsOf m) (findingsOf m)).run (startOf m) =
        (.ok (d.verdict p skipped (d.converted p helpers text)), s) ∧
      Alarmed m.path s.store (d.converted p helpers text) := by
  rw [← stops_convertDeclarations, convertDeclarations_eq] at h
  have hparts : ¬ Stops (buildParts (plantOf p m) (declarationsOf m) (findingsOf m).skipped) (startOf m) :=
    fun hstops => h (Work.stops_bind.mpr (.inl hstops))
  obtain ⟨parts, s, hrun⟩ := Work.exists_run_of_not_stops hparts
  have hbuilt : Built p m parts := ⟨s, hrun⟩
  have hcalm : Calm s.store := by
    have hkept := calm_buildParts (plantOf p m) (declarationsOf m) (findingsOf m).skipped (startOf m) nofun
    rwa [hrun] at hkept
  rw [Work.stops_bind_ok hrun, stops_finishParts hbuilt] at h
  obtain ⟨hgrows, h⟩ := not_or.mp h
  obtain ⟨hwritten, h⟩ := not_or.mp h
  obtain ⟨hfunctions, hprintable⟩ := not_or.mp h
  have hlower : ¬ Stops (Work.on parts.arena (Lowering.lowerAll (settingsOf p m))) s := by
    rw [Work.stops_on, Lowering.stops_lowerAll _ (names_buildParts hrun).1]
    exact fun hx => hx.elim hgrows hwritten
  cases hregistry : Registry.ofComponents parts.helpers.mixins (loweredOf p m parts) with
  | error f => exact absurd ((Registry.ofComponents_error_iff _ _).mp ⟨f, hregistry⟩) hfunctions
  | ok registry =>
      obtain ⟨helpers, text, hhelpers, htext⟩ := Draft.exists_of_printable p
        (d := draftOf p m parts registry) fun hx => hprintable ⟨registry, hregistry, hx⟩
      have hdrafted : Drafted p m (draftOf p m parts registry) helpers text :=
        ⟨⟨parts, registry, hbuilt, hregistry, rfl⟩, hhelpers, htext⟩
      obtain ⟨s', hfinish, halarmed⟩ := run_finishParts hbuilt hlower hregistry hdrafted hcalm
      exact ⟨_, helpers, text, parts.skipped, s', hdrafted, (Work.run_bind_ok _ hrun).trans hfinish, halarmed⟩

theorem run_convertModule {p : Project} {m : Module} (h : Convertible p m) :
    (convertModule p m).run (opening m.path) =
      (convertDeclarations p m (Imports.ofModule m) (declarationsOf m) (findingsOf m)).run (startOf m) := by
  unfold convertModule
  dsimp only
  rw [h.readable, h.imported, if_neg Bool.false_ne_true, if_neg Bool.false_ne_true,
    Work.run_bind_ok _ (Work.run_get _), Work.run_bind_ok _ (Work.run_modify _ _)]
  change ExceptT.run (if (declarationsOf m).isEmpty = true then _ else
    if (p.settings.isStrict && (findingsOf m).found) = true then _ else
      convertDeclarations p m (Imports.ofModule m) (declarationsOf m) (findingsOf m)) (startOf m) = _
  rw [h.declared, h.allowed, if_neg Bool.false_ne_true, if_neg Bool.false_ne_true]

/-- A module is left alone if it is not convertible. -/
theorem run_convertModule_unconverted {p : Project} {m : Module} (h : ¬ Convertible p m) :
    ∃ verdict s, (convertModule p m).run (opening m.path) = (.ok verdict, s) ∧ Calm s.store ∧
      ∀ code, verdict.code = some code → code = m.text := by
  have hinfo : ∀ text, Calm [{ level := .info, text := text }] := fun text message hmem => by
    rw [List.mem_singleton.mp hmem]
    exact nofun
  unfold convertModule
  dsimp only
  by_cases hreadable : m.hasErrors = true
  · rw [if_pos hreadable]
    exact ⟨_, _, rfl, nofun, nofun⟩
  rw [if_neg hreadable]
  by_cases himported : (Imports.ofModule m).libraryNames.isEmpty = true
  · rw [if_pos himported]
    exact ⟨_, _, rfl, nofun, nofun⟩
  rw [if_neg himported, Work.run_bind_ok _ (Work.run_get _), Work.run_bind_ok _ (Work.run_modify _ _)]
  change ∃ verdict s, ExceptT.run (if (declarationsOf m).isEmpty = true then _ else
    if (p.settings.isStrict && (findingsOf m).found) = true then _ else
      convertDeclarations p m (Imports.ofModule m) (declarationsOf m) (findingsOf m)) (startOf m) = _ ∧ _
  by_cases hdeclared : (declarationsOf m).isEmpty = true
  · rw [if_pos hdeclared]
    refine ⟨_, _, rfl, nofun, fun code hcode => ?_⟩
    dsimp only at hcode
    split at hcode <;> cases hcode
    rfl
  rw [if_neg hdeclared]
  by_cases hallowed : (p.settings.isStrict && (findingsOf m).found) = true
  · rw [if_pos hallowed]
    exact ⟨_, _, rfl, hinfo _, nofun⟩
  exact absurd ⟨by simpa using hreadable, by simpa using himported, by simpa using hdeclared,
    by simpa using hallowed⟩ h

theorem read_text (code path : String) : (Module.read code path).text = code := by
  unfold Module.read
  dsimp only
  split <;> rfl

/-- The outcome of a run is the verdict on the module, with the messages on the way. -/
theorem run_eq_ok {p : Project} {code path : String} {verdict : Verdict} {s : Session (List Message)}
    (h : (convertModule p (Module.read code path)).run (opening path) = (.ok verdict, s)) :
    ∃ outcome, run p code path = .ok outcome ∧ outcome.toVerdict = verdict ∧ outcome.messages = s.store := by
  have hopening : (Work.trace (·.startPhase "Transform" path) : Converting Unit).run { store := [] } =
      (.ok (), opening path) := rfl
  unfold run
  dsimp only
  rw [Work.run_bind_ok _ hopening, Work.run_bind_ok _ h]
  exact ⟨_, rfl, rfl, rfl⟩

/-- The draft of a module that is converted without breaking off. -/
structure Emitted (p : Project) (m : Module) (d : Draft) (helpers : StatementEdits) (text : String) : Prop where
  convertible : Convertible p m
  unbroken : ¬ Breaks p m
  drafted : Drafted p m d helpers text

/-- A module whose draft is emitted gets the verdict on the draft. -/
theorem Emitted.run_eq {p : Project} {code path : String} {d : Draft} {helpers : StatementEdits} {text : String}
    (h : Emitted p (Module.read code path) d helpers text) :
    ∃ skipped outcome, run p code path = .ok outcome ∧
      outcome.toVerdict = d.verdict p skipped (d.converted p helpers text) ∧
      Alarmed path outcome.messages (d.converted p helpers text) := by
  obtain ⟨d', helpers', text', skipped, s, hdrafted, hrun, halarmed⟩ := run_convertDeclarations h.unbroken
  obtain ⟨rfl, rfl, rfl⟩ := h.drafted.unique hdrafted
  rw [← run_convertModule h.convertible, read_path] at hrun
  rw [read_path] at halarmed
  obtain ⟨outcome, hrun, hverdict, hmessages⟩ := run_eq_ok hrun
  exact ⟨skipped, outcome, hrun, hverdict, hmessages ▸ halarmed⟩

/-- A draft whose edits can be applied gives the module a text. -/
theorem Emitted.exists_outcome {p : Project} {code path : String} {d : Draft} {helpers : StatementEdits}
    {text out : String} (h : Emitted p (Module.read code path) d helpers text)
    (hout : d.converted p helpers text = .ok out) :
    ∃ outcome, run p code path = .ok outcome ∧ outcome.success = true ∧ outcome.code = some out := by
  obtain ⟨skipped, outcome, hrun, hverdict, -⟩ := h.run_eq
  rw [hout] at hverdict
  exact ⟨outcome, hrun, congrArg Verdict.success hverdict, congrArg Verdict.code hverdict⟩

/-- A conversion gives the verdict on a draft, or leaves the module alone. -/
theorem run_cases {p : Project} {code path : String} {outcome : Outcome} (h : run p code path = .ok outcome) :
    (∃ d helpers text, Emitted p (Module.read code path) d helpers text) ∨
      Calm outcome.messages ∧ ∀ c, outcome.code = some c → c = code := by
  by_cases hconvertible : Convertible p (Module.read code path)
  · have hbreaks : ¬ Breaks p (Module.read code path) := fun hbreaks =>
      (exists_outcome_iff p code path).mp ⟨outcome, h⟩ ⟨hconvertible, hbreaks⟩
    obtain ⟨d, helpers, text, -, -, hdrafted, -, -⟩ := run_convertDeclarations hbreaks
    exact .inl ⟨d, helpers, text, hconvertible, hbreaks, hdrafted⟩
  · obtain ⟨verdict, s, hrun, hcalm, hcode⟩ := run_convertModule_unconverted hconvertible
    rw [read_path] at hrun
    rw [read_text] at hcode
    obtain ⟨outcome', hrun', rfl, hmessages⟩ := run_eq_ok hrun
    rw [h] at hrun'
    cases hrun'
    exact .inr ⟨hmessages ▸ hcalm, hcode⟩

/--
A conversion ends with the message of an overlap exactly if an edited element of the module stands in a
statement that is taken away, or in an attribute that another element loses.
-/
theorem run_conflicts_iff (p : Project) (code path : String) :
    (∃ outcome, run p code path = .ok outcome ∧
        ∃ start cursor, alarm path (.overlap start cursor) ∈ outcome.messages) ↔
      ∃ d helpers text, Emitted p (Module.read code path) d helpers text ∧ d.Buried p helpers := by
  have happly : ∀ {d helpers text}, Emitted p (Module.read code path) d helpers text →
      ((∃ start cursor, d.converted p helpers text = .error (.overlap start cursor)) ↔ d.Buried p helpers) := by
    intro d helpers text h
    have hfaithful := h.drafted.faithful
    have hproper := Draft.proper_collected hfaithful h.drafted.helpers text
    rw [Draft.converted, Edit.applyAll_overlap_iff d.source.bytes hproper,
      Draft.collected_apart_iff hfaithful h.drafted.helpers text, not_not]
  constructor
  · rintro ⟨outcome, hrun, start, cursor, hmem⟩
    rcases run_cases hrun with ⟨d, helpers, text, h⟩ | ⟨hcalm, -⟩
    · obtain ⟨skipped, outcome', hrun', -, halarmed⟩ := h.run_eq
      rw [hrun] at hrun'
      cases hrun'
      exact ⟨d, helpers, text, h, (happly h).mp (halarmed.mp ⟨start, cursor, hmem⟩)⟩
    · exact absurd hmem (hcalm.not_alarm _ _)
  · rintro ⟨d, helpers, text, h, hburied⟩
    obtain ⟨skipped, outcome, hrun, -, halarmed⟩ := h.run_eq
    exact ⟨outcome, hrun, halarmed.mpr ((happly h).mpr hburied)⟩

/-! ## Computing drafts -/

/-- The draft of a module with the edits for its helpers and the text of its registry, if there is one. -/
def emission? (p : Project) (m : Module) : Option (Draft × StatementEdits × String) :=
  if m.hasErrors || (Imports.ofModule m).libraryNames.isEmpty || (declarationsOf m).isEmpty ||
      (p.settings.isStrict && (findingsOf m).found) then none
  else
    match (buildParts (plantOf p m) (declarationsOf m) (findingsOf m).skipped).run (startOf m) with
    | (.error _, _) => none
    | (.ok parts, _) =>
      match (Lowering.lowerAll (settingsOf p m)).run { store := parts.arena } with
      | (.error _, _) => none
      | (.ok _, _) =>
        match Registry.ofComponents parts.helpers.mixins (loweredOf p m parts) with
        | .error _ => none
        | .ok registry =>
          let d := draftOf p m parts registry
          match d.helperEdits p, (d.dialect p).declaration d.registry with
          | .ok helpers, .ok text => some (d, helpers, text)
          | _, _ => none

theorem emitted_of_emission? {p : Project} {m : Module} {d : Draft} {helpers : StatementEdits} {text : String}
    (h : emission? p m = some (d, helpers, text)) : Emitted p m d helpers text := by
  unfold emission? at h
  split at h
  · cases h
  next hconvertible =>
  split at h
  · cases h
  next parts s hrun =>
  split at h
  · cases h
  next s' hlower =>
  split at h
  · cases h
  next registry hregistry =>
  dsimp only at h
  split at h
  case h_2 => cases h
  next helpers' text' hhelpers htext =>
  cases h
  have hbuilt : Built p m parts := ⟨s, hrun⟩
  simp only [Bool.or_eq_true, not_or, Bool.not_eq_true] at hconvertible
  obtain ⟨⟨⟨hreadable, himported⟩, hdeclared⟩, hallowed⟩ := hconvertible
  refine ⟨⟨hreadable, himported, hdeclared, hallowed⟩, ?_, ⟨parts, registry, hbuilt, hregistry, rfl⟩, hhelpers, htext⟩
  rw [← stops_convertDeclarations, convertDeclarations_eq, Work.stops_bind_ok hrun, stops_finishParts hbuilt, ← or_assoc,
    ← Lowering.stops_lowerAll (settingsOf p m) (s := { store := parts.arena }) (names_buildParts hrun).1,
    ← Registry.ofComponents_error_iff parts.helpers.mixins]
  rintro (⟨f, hf⟩ | ⟨f, hf⟩ | ⟨registry', hregistry', hunprintable⟩)
  · rw [hlower] at hf
    cases hf
  · rw [hregistry] at hf
    cases hf
  · rw [hregistry] at hregistry'
    cases hregistry'
    rcases hunprintable with hanimation | hentry
    · obtain ⟨f, hf⟩ := (Draft.helperEdits_error_iff p _).mpr hanimation
      rw [hhelpers] at hf
      cases hf
    · obtain ⟨f, hf⟩ := (Registry.declaration_error_iff ((draftOf p m parts registry).dialect p) registry).mpr hentry
      exact nomatch htext.symm.trans hf

theorem read_bytes (code path : String) : (Module.read code path).bytes = Text.encode code := by
  unfold Module.read
  dsimp only
  split <;> rfl

/-- A module whose edits are known in order is converted by applying them; more may be checked of its draft. -/
theorem exists_emitted {p : Project} {code path : String} {check : Draft × StatementEdits × String → Bool}
    {sorted : List Edit} {out : String}
    (hcheck : (emission? p (Module.read code path)).any (fun e =>
      decide ((e.1.collected p e.2.1 e.2.2).Perm sorted) && check e) = true)
    (hsorted : sorted.Pairwise fun a b => b.before a = false)
    (hspliced : (Edit.splice (Text.encode code) 0 sorted).map Text.decode? = .ok (some out)) :
    ∃ d helpers text, Emitted p (Module.read code path) d helpers text ∧ check (d, helpers, text) = true ∧
      d.converted p helpers text = .ok out := by
  obtain ⟨⟨d, helpers, text⟩, hemission, hcheck⟩ := (Option.any_eq_true _ _).mp hcheck
  obtain ⟨hperm, hcheck⟩ := Bool.and_eq_true_iff.mp hcheck
  have h := emitted_of_emission? hemission
  refine ⟨d, helpers, text, h, hcheck, ?_⟩
  unfold Draft.converted
  rw [h.drafted.source_eq, read_bytes]
  exact Edit.applyAll_eq (of_decide_eq_true hperm) hsorted hspliced

/-! ## A module with edits in conflict -/

/-- A module with a component in an attribute that another usage of the component loses. -/
def nestedModule : String :=
  "import styled from \"styled-components\";\nconst A = styled.a\x60b: c;\x60;\nconst x = <A $i=\x7b<A/>\x7d/>;\n"

/-- The edits for two elements of a module that can be read overlap. -/
theorem run_nestedModule : (Module.read nestedModule "f.tsx").hasErrors = false ∧
    ∃ outcome, run {} nestedModule "f.tsx" = .ok outcome ∧ outcome.code = none ∧
      ∃ start cursor, alarm "f.tsx" (.overlap start cursor) ∈ outcome.messages := by
  have hconflict : (emission? {} (Module.read nestedModule "f.tsx")).any (fun e =>
      !decide ((e.1.collected {} e.2.1 e.2.2).Pairwise Edit.Apart)) = true := by
    rw [Module.read, Tsx.Source.read_eq_ofChars (show nestedModule.toList = _ from String.toList_ofList)]
    decide +kernel
  obtain ⟨⟨d, helpers, text⟩, hemission, hnot⟩ := (Option.any_eq_true _ _).mp hconflict
  have h := emitted_of_emission? hemission
  have hproper := Draft.proper_collected h.drafted.faithful h.drafted.helpers text
  obtain ⟨start, cursor, hoverlap⟩ :=
    (Edit.applyAll_overlap_iff d.source.bytes hproper).mpr (by simpa using hnot)
  obtain ⟨skipped, outcome, hrun, hverdict, halarmed⟩ := h.run_eq
  refine ⟨h.convertible.readable, outcome, hrun, ?_, halarmed.mpr ⟨start, cursor, hoverlap⟩⟩
  rw [show d.converted {} helpers text = .error (.overlap start cursor) from hoverlap] at hverdict
  exact congrArg Verdict.code hverdict

end Restyle.Conversion
