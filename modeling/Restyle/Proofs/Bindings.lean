import Mathlib.Data.List.Induction
import Mathlib.Data.List.Nodup
import Restyle.Proofs.Fates

/-!
# Names at the top of a module

The statements of a module bind names: imports, variables, functions, classes, types and the like, ambient ones
included.  A conversion adds imports, and whether the module has one of them already is decided by the name and by
what is imported under it.  So a name that stands for something else is bound again.
-/

namespace Restyle.Module

open Restyle.Tsx (Node)

/-! ## Names of statements -/

mutual

/-- The names that a pattern binds. -/
def patternNames : Node → List String
  | ⟨kind, _, _, _, text, children⟩ =>
    match kind with
    | .identifier | .shorthandPattern => [text]
    | .objectPattern | .arrayPattern | .restPattern => patternNamesAll children
    | .pairPattern => patternNamesOf (fun n => n.role == some .value) children
    | .assignmentPattern | .objectAssignmentPattern =>
      patternNamesOf (fun n => n.kind != .token && n.kind != .comment) children
    | _ => []

/-- The names that patterns bind. -/
def patternNamesAll : List Node → List String
  | [] => []
  | n :: ns => patternNames n ++ patternNamesAll ns

/-- The names that the first node of a sort binds. -/
def patternNamesOf (isPattern : Node → Bool) : List Node → List String
  | [] => []
  | n :: ns => if isPattern n then patternNames n else patternNamesOf isPattern ns

end

/-- The names that variables are declared under. -/
def variableNames (n : Node) : List String :=
  (n.named.filter fun c => c.kind == .variableDeclarator).flatMap fun c =>
    ((c.child? .name).map patternNames).getD []

mutual

/-- The names that a declaration binds; one that is only announced is a declaration inside of another one. -/
def declaredNames : Node → List String
  | ⟨kind, role, start, stop, text, children⟩ =>
    let self : Node := ⟨kind, role, start, stop, text, children⟩
    match kind with
    | .lexicalDeclaration | .variableDeclaration => variableNames self
    | .typeAlias | .interfaceDeclaration => ((self.child? .name).map Node.text).toList
    | .construct =>
      match self.child? .name with
      | some name => [name.text]
      | none =>
        if Text.hasLead "declare" text then announcedNames children
        else if Text.hasLead "namespace" text || Text.hasLead "module" text || Text.hasLead "import" text then
          ((self.named.find? Node.isIdentifier).map Node.text).toList
        else []
    | _ => []

/-- The names that the declarations among some nodes bind. -/
def announcedNames : List Node → List String
  | [] => []
  | n :: ns => declaredNames n ++ announcedNames ns

end

/-- The names that a statement binds. -/
def statementNames (n : Node) : List String :=
  match n.kind with
  | .importStatement =>
    match Imports.statement? n with
    | some s => s.bindings.map (·.localName)
    | none => n.named.flatMap fun c => ((c.named.find? Node.isIdentifier).map Node.text).toList
  | .exportStatement => ((n.child? .declaration).map declaredNames).getD []
  | _ => declaredNames n

/-- The names that the statements of a module bind. -/
def topNames (m : Module) : List String := m.root.named.flatMap statementNames

end Restyle.Module

namespace Restyle.Emit.ImportBlock

open Restyle.Module (ImportBinding)

/-! ## Imports that a module lacks -/

/-- The module imports the same thing under the same name. -/
def Has (b : ImportBlock) (binding : ImportBinding) : Prop :=
  ∃ known, b.imports.lookup binding.localName = some known ∧ known.source = binding.source ∧
    known.imported = binding.imported

instance (b : ImportBlock) (binding : ImportBinding) : Decidable (b.Has binding) :=
  decidable_of_iff
    ((b.imports.lookup binding.localName).any fun known =>
      known.source == binding.source && known.imported == binding.imported)
    (by simp [Has, Option.any_eq_true])

/-- The next requested binding is lacking unless the module has it, or its name has been asked for before. -/
theorem missing_concat (b : ImportBlock) (bindings : List ImportBinding) (binding : ImportBinding) :
    b.missing (bindings ++ [binding]) =
      if b.Has binding ∨ ∃ found ∈ b.missing bindings, found.localName = binding.localName then b.missing bindings
      else b.missing bindings ++ [binding] := by
  unfold missing
  rw [List.foldl_append]
  refine if_congr ?_ rfl rfl
  simp [Has, Option.any_eq_true]

/-- What a module lacks of requested bindings: each name once, and nothing that the module has. -/
structure Lacks (b : ImportBlock) (bindings lacking : List ImportBinding) : Prop where
  requested : ∀ binding ∈ lacking, binding ∈ bindings ∧ ¬ b.Has binding
  distinct : (lacking.map (·.localName)).Nodup
  complete : ∀ binding ∈ bindings, b.Has binding ∨ ∃ found ∈ lacking, found.localName = binding.localName

theorem lacks_missing (b : ImportBlock) (bindings : List ImportBinding) : b.Lacks bindings (b.missing bindings) := by
  induction bindings using List.reverseRecOn with
  | nil => exact ⟨List.forall_mem_nil _, List.nodup_nil, List.forall_mem_nil _⟩
  | append_singleton bindings binding ih =>
      have hlater : ∀ {other}, other ∈ bindings → other ∈ bindings ++ [binding] := List.mem_append_left _
      rw [missing_concat]
      split
      · next hknown =>
          refine ⟨fun other hother => (ih.requested other hother).imp_left hlater, ih.distinct, fun other hother => ?_⟩
          rcases List.mem_append.mp hother with hother | hother
          · exact ih.complete other hother
          · exact List.mem_singleton.mp hother ▸ hknown
      · next hnew =>
          rw [not_or] at hnew
          refine ⟨fun other hother => ?_, ?_, fun other hother => ?_⟩
          · rcases List.mem_append.mp hother with hother | hother
            · exact (ih.requested other hother).imp_left hlater
            · cases List.mem_singleton.mp hother
              exact ⟨List.mem_append_right _ hother, hnew.1⟩
          · rw [List.map_append, List.nodup_append]
            refine ⟨ih.distinct, List.nodup_singleton _, fun name hname name' hname' heq => hnew.2 ?_⟩
            obtain ⟨found, hfound, rfl⟩ := List.mem_map.mp hname
            cases List.mem_singleton.mp hname'
            exact ⟨found, hfound, heq⟩
          · rcases List.mem_append.mp hother with hother | hother
            · obtain h | ⟨found, hfound, hname⟩ := ih.complete other hother
              · exact .inl h
              · exact .inr ⟨found, List.mem_append_left _ hfound, hname⟩
            · cases List.mem_singleton.mp hother
              exact .inr ⟨binding, List.mem_append_right _ hother, rfl⟩

/-- A name under which the module imports something else is imported once more. -/
theorem exists_missing_of_taken {b : ImportBlock} {bindings : List ImportBinding} {binding known : ImportBinding}
    (hbinding : binding ∈ bindings) (hknown : b.imports.lookup binding.localName = some known)
    (hother : known.source ≠ binding.source ∨ known.imported ≠ binding.imported) :
    ∃ found ∈ b.missing bindings, found.localName = binding.localName := by
  refine ((b.lacks_missing bindings).complete binding hbinding).resolve_left ?_
  rintro ⟨known', hknown', hsource, himported⟩
  cases hknown.symm.trans hknown'
  exact hother.elim (· hsource) (· himported)

end Restyle.Emit.ImportBlock

namespace Restyle.Conversion

/-! ## A name that is taken -/

/-- A module that imports the default of the library under the name that the whole library is given. -/
def reimportingModule : String :=
  "import stylex from \"@stylexjs/stylex\";\nimport \x7b keyframes \x7d from \"styled-components\";\n" ++
    "const k = keyframes\x60\x60;\n"

/-- What the module is converted into. -/
def reimportedModule : String :=
  "import stylex from \"@stylexjs/stylex\";\n" ++
    "import * as stylex from \"@stylexjs/stylex\";\nconst k = stylex.keyframes(\x7b\x7d);\n"

/-- The whole library is imported under a name that is taken. -/
theorem emitted_reimportingModule : (Module.read reimportingModule "f.tsx").topNames.Nodup ∧
    ∃ d helpers text, Emitted {} (Module.read reimportingModule "f.tsx") d helpers text ∧
      d.converted {} helpers text = .ok reimportedModule := by
  have hcheck : (emission? {} (Module.read reimportingModule "f.tsx")).any (fun e =>
      decide ((e.1.collected {} e.2.1 e.2.2).Perm [.insertion 38 "\nimport * as stylex from \"@stylexjs/stylex\";" 1,
        .deletion 39 86, ⟨86, 108, "const k = stylex.keyframes(\x7b\x7d);", 0⟩]) &&
        decide e.1.source.topNames.Nodup) = true := by
    rw [Module.read, Tsx.Source.read_eq_ofChars (show reimportingModule.toList = _ from
      Text.toList_append_of String.toList_ofList String.toList_ofList)]
    decide +kernel
  have hspliced : (Module.Edit.splice (Text.encode reimportingModule) 0
      [.insertion 38 "\nimport * as stylex from \"@stylexjs/stylex\";" 1, .deletion 39 86,
        ⟨86, 108, "const k = stylex.keyframes(\x7b\x7d);", 0⟩]).map Text.decode? =
      .ok (some reimportedModule) := by
    decide +kernel
  obtain ⟨d, helpers, text, h, hdistinct, hconverted⟩ := exists_emitted hcheck (by decide) hspliced
  rw [h.drafted.source_eq] at hdistinct
  exact ⟨of_decide_eq_true hdistinct, d, helpers, text, h, hconverted⟩

/-- The converted module imports the library twice under the same name. -/
theorem rebinds_reimportingModule : (Module.read reimportingModule "f.tsx").hasErrors = false ∧
    (Module.read reimportingModule "f.tsx").topNames.Nodup ∧
    ∃ outcome out, run {} reimportingModule "f.tsx" = .ok outcome ∧ outcome.success = true ∧
      outcome.code = some out ∧ ¬ (Module.read out "f.tsx").topNames.Nodup := by
  obtain ⟨hdistinct, d, helpers, text, h, hconverted⟩ := emitted_reimportingModule
  obtain ⟨outcome, hrun, hsuccess, hcode⟩ := h.exists_outcome hconverted
  refine ⟨h.convertible.readable, hdistinct, outcome, _, hrun, hsuccess, hcode, ?_⟩
  rw [Module.read, Tsx.Source.read_eq_ofChars (show reimportedModule.toList = _ from
    Text.toList_append_of String.toList_ofList String.toList_ofList)]
  decide +kernel

end Restyle.Conversion
