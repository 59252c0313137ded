import Mathlib.Data.List.Perm.Basic
import Restyle.Plan.Summary
import Restyle.Proofs.Table

/-!
# Looking up usage

The summaries of a file are found under its own path, wherever that is listed.  Otherwise the first listed path
decides that ends with the path of the file, or that the path of the file ends with, whether the component is
listed there or not.  So the order of the list does not matter exactly if the path itself is listed, or if all of
these paths say the same about the component.
-/

namespace Restyle.Plan.Summaries

/-! ## Summaries as they are listed -/

/-- What is listed for a file, under the form in which paths are compared. -/
def fileOf? (file : String × Data) : Option (String × Table UsageSummary) := do
  let components ← file.2.fields?
  let summaries ← components.mapM fun (name, summary) => do
    return (name, ← UsageSummary.ofData? summary)
  return (pathKey file.1, Table.ofList summaries)

theorem ofData?_obj (files : List (String × Data)) :
    ofData? (.obj files) = (files.mapM fileOf?).map Table.ofList := by
  show (files.mapM fileOf?).bind (fun checked => some (Table.ofList checked)) = _
  cases files.mapM fileOf? <;> rfl

theorem name_of_fileOf? {file : String × Data} {entry : String × Table UsageSummary} (h : fileOf? file = some entry) :
    entry.1 = pathKey file.1 := by
  simp only [fileOf?, Option.bind_eq_bind, Option.bind_eq_some_iff, Option.pure_def, Option.some.injEq] at h
  obtain ⟨components, -, summaries, -, rfl⟩ := h
  rfl

/-- The paths of listed files, in the form in which they are compared. -/
def pathsOf (files : List (String × Data)) : List String :=
  files.map fun file => pathKey file.1

/-- Every listed file is an entry. -/
abbrev Listed (files : List (String × Data)) (s : Summaries) : Prop :=
  List.Forall₂ (fun file entry => fileOf? file = some entry) files s

theorem mapM_eq_some_iff_listed {files : List (String × Data)} {s : Summaries} :
    files.mapM fileOf? = some s ↔ Listed files s := by
  induction files generalizing s with
  | nil => simp [List.mapM_nil, eq_comm]
  | cons file files ih =>
      simp only [List.mapM_cons, Option.bind_eq_bind, Option.bind_eq_some_iff, Option.pure_def, Option.some.injEq,
        Listed, List.forall₂_cons_left_iff, ih]
      constructor
      · rintro ⟨entry, hentry, rest, hrest, rfl⟩
        exact ⟨entry, rest, hentry, hrest, rfl⟩
      · rintro ⟨entry, rest, hentry, hrest, rfl⟩
        exact ⟨entry, hentry, rest, hrest, rfl⟩

theorem Listed.names_eq {files : List (String × Data)} {s : Summaries} (h : Listed files s) :
    s.names = pathsOf files := by
  induction h with
  | nil => rfl
  | cons hentry _ ih =>
      rw [pathsOf, List.map_cons, ← name_of_fileOf? hentry]
      exact congrArg _ ih

/-- Under distinct paths, checked summaries are the listed files one by one. -/
theorem ofData?_obj_eq_some_iff {files : List (String × Data)} (hpaths : (pathsOf files).Nodup) {s : Summaries} :
    ofData? (.obj files) = some s ↔ Listed files s := by
  have heq {t : Summaries} (ht : Listed files t) : Table.ofList t = t :=
    Table.ofList_of_nodup (by rw [ht.names_eq]; exact hpaths)
  rw [ofData?_obj, Option.map_eq_some_iff]
  constructor
  · rintro ⟨t, ht, rfl⟩
    rw [mapM_eq_some_iff_listed] at ht
    rwa [heq ht]
  · exact fun hs => ⟨s, mapM_eq_some_iff_listed.mpr hs, heq hs⟩

/-! ## What decides -/

/-- Whether a path stands for a listed file that is not listed under it. -/
def standsFor (path : String) (entry : String × Table UsageSummary) : Bool :=
  isSameFile (pathKey path) entry.1

variable {s : Summaries} {path component : String}

theorem lookup_of_listed {components : Table UsageSummary} (h : Table.get? s (pathKey path) = some components) :
    s.lookup path component = components.get? component := by
  simp [lookup, h]

theorem lookup_of_not_listed (h : pathKey path ∉ Table.names s) :
    s.lookup path component =
      (s.find? (standsFor path)).bind fun entry => entry.2.get? component := by
  simp only [lookup, (Table.get?_eq_none_iff _ _).mpr h, Option.none_or, Option.bind_eq_bind]
  show ((s.find? (standsFor path)).map (·.2)).bind _ = _
  cases s.find? (standsFor path) <;> rfl

/-- The files that a path can stand for say the same about a component. -/
def Agree (s : Summaries) (path component : String) : Prop :=
  ∀ a ∈ s, ∀ b ∈ s, standsFor path a = true → standsFor path b = true → a.2.get? component = b.2.get? component

theorem Agree.of_perm {t : Summaries} (h : s.Agree path component) (hperm : s.Perm t) : t.Agree path component :=
  fun a ha b hb => h a (hperm.mem_iff.mpr ha) b (hperm.mem_iff.mpr hb)

/-- Files that say the same say it wherever they are listed. -/
theorem lookup_of_agree (h : s.Agree path component) (hpath : pathKey path ∉ Table.names s)
    {entry : String × Table UsageSummary} (hentry : entry ∈ s) (hsame : standsFor path entry = true) :
    s.lookup path component = entry.2.get? component := by
  rw [lookup_of_not_listed hpath]
  cases hfound : s.find? (standsFor path) with
  | none => exact absurd hsame (List.find?_eq_none.mp hfound entry hentry)
  | some first => exact h first (List.mem_of_find?_eq_some hfound) entry hentry (List.find?_some hfound) hsame

theorem lookup_of_perm {t : Summaries} (hperm : s.Perm t) (hnames : (Table.names s).Nodup)
    (h : pathKey path ∈ Table.names s ∨ s.Agree path component) :
    t.lookup path component = s.lookup path component := by
  by_cases hpath : pathKey path ∈ Table.names s
  · obtain ⟨components, hget⟩ := Table.exists_get?_of_mem_names hpath
    rw [lookup_of_listed hget, lookup_of_listed (Table.get?_of_perm hperm hnames _ ▸ hget)]
  · have hpath' : pathKey path ∉ Table.names t := fun hmem => hpath ((hperm.map _).mem_iff.mpr hmem)
    have hagree := h.resolve_left hpath
    cases hfound : s.find? (standsFor path) with
    | none =>
        have hnone : t.find? (standsFor path) = none := by
          rw [List.find?_eq_none] at hfound ⊢
          exact fun entry hentry => hfound entry (hperm.mem_iff.mpr hentry)
        rw [lookup_of_not_listed hpath, lookup_of_not_listed hpath', hfound, hnone]
    | some entry =>
        have hentry := List.mem_of_find?_eq_some hfound
        rw [lookup_of_agree hagree hpath hentry (List.find?_some hfound),
          lookup_of_agree (hagree.of_perm hperm) hpath' (hperm.mem_iff.mp hentry) (List.find?_some hfound)]

/-- A file that a path can stand for decides when it is listed first. -/
theorem exists_perm_lookup (component : String) (hpath : pathKey path ∉ Table.names s)
    {entry : String × Table UsageSummary} (hentry : entry ∈ s) (hsame : standsFor path entry = true) :
    ∃ t : Summaries, t.Perm s ∧ t.lookup path component = entry.2.get? component := by
  classical
  obtain ⟨before, after, rfl⟩ := List.append_of_mem hentry
  refine ⟨entry :: (before ++ after), List.perm_middle.symm, ?_⟩
  have hpath' : pathKey path ∉ Table.names (entry :: (before ++ after)) :=
    fun hmem => hpath ((List.perm_middle.map _).mem_iff.mpr hmem)
  rw [lookup_of_not_listed hpath', List.find?_cons_of_pos hsame]
  rfl

/-! ## The order of the list -/

theorem Listed.of_perm {files files' : List (String × Data)} (h : Listed files s) (hperm : files'.Perm files) :
    ∃ t : Summaries, Listed files' t ∧ t.Perm s :=
  List.perm_comp_forall₂ hperm h

theorem Listed.of_perm_right {files : List (String × Data)} (h : Listed files s) {t : Summaries} (hperm : t.Perm s) :
    ∃ files' : List (String × Data), Listed files' t ∧ files'.Perm files := by
  obtain ⟨files', hlisted, hfiles⟩ := List.perm_comp_forall₂ hperm h.flip
  exact ⟨files', hlisted.flip, hfiles⟩

/--
For files with distinct paths, the answer is the same in every order exactly if the path itself is listed, or all
listed paths that end with it, or that it ends with, say the same about the component.  For a path that is not
listed itself the first one of these decides, whether the component is listed there or not.
-/
theorem lookup_reordered_iff {files : List (String × Data)} (hpaths : (pathsOf files).Nodup)
    (hs : ofData? (.obj files) = some s) (path component : String) :
    ((∀ files' : List (String × Data), files'.Perm files →
          ∃ t, ofData? (.obj files') = some t ∧ t.lookup path component = s.lookup path component) ↔
        pathKey path ∈ pathsOf files ∨ s.Agree path component) ∧
      (pathKey path ∉ pathsOf files →
        s.lookup path component = (s.find? (standsFor path)).bind fun entry => entry.2.get? component) := by
  have hlisted : Listed files s := (ofData?_obj_eq_some_iff hpaths).mp hs
  have hnodup {files' : List (String × Data)} (hperm : files'.Perm files) : (pathsOf files').Nodup :=
    (hperm.map _).nodup_iff.mpr hpaths
  rw [← hlisted.names_eq]
  refine ⟨⟨fun h => ?_, fun h files' hperm => ?_⟩, lookup_of_not_listed⟩
  · by_cases hpath : pathKey path ∈ Table.names s
    · exact .inl hpath
    · refine .inr fun a ha b hb hsameA hsameB => ?_
      -- with the file first, the answer is what it says
      have hfirst {entry : String × Table UsageSummary} (hentry : entry ∈ s)
          (hsame : standsFor path entry = true) :
          entry.2.get? component = s.lookup path component := by
        obtain ⟨t, hperm, hlookup⟩ := exists_perm_lookup component hpath hentry hsame
        obtain ⟨files', hlisted', hfiles⟩ := hlisted.of_perm_right hperm
        obtain ⟨t', ht', heq⟩ := h files' hfiles
        rw [(ofData?_obj_eq_some_iff (hnodup hfiles)).mpr hlisted'] at ht'
        cases ht'
        rw [← hlookup, heq]
      rw [hfirst ha hsameA, hfirst hb hsameB]
  · obtain ⟨t, hlisted', ht⟩ := hlisted.of_perm hperm
    have hnames : (Table.names s).Nodup := hlisted.names_eq ▸ hpaths
    exact ⟨t, (ofData?_obj_eq_some_iff (hnodup hperm)).mpr hlisted', lookup_of_perm ht.symm hnames h⟩

/-- The data of a summary that says whether a component is given styles. -/
def styledData (component : String) : Data :=
  .obj [(component, .obj [("styles", .bool true)])]

/-- Two listed paths stand for one file and say the same about its button, so every order gives the same answer. -/
theorem lookup_button_reordered :
    let files := [("src/Button.tsx", styledData "Button"), ("Button.tsx", styledData "Button")]
    (pathsOf files).Nodup ∧
      ∀ files' : List (String × Data), files'.Perm files →
        ∃ t, ofData? (.obj files') = some t ∧ t.lookup "app/src/Button.tsx" "Button" = some ⟨true, false⟩ := by
  intro files
  have hpaths : (pathsOf files).Nodup := by decide +kernel
  let summary : Table UsageSummary := [("Button", ⟨true, false⟩)]
  have hs : ofData? (.obj files) = some [("src/Button.tsx", summary), ("Button.tsx", summary)] := by decide +kernel
  have hagree : Agree [("src/Button.tsx", summary), ("Button.tsx", summary)] "app/src/Button.tsx" "Button" := by
    intro a ha b hb _ _
    have hget : ∀ entry ∈ [("src/Button.tsx", summary), ("Button.tsx", summary)],
        entry.2.get? "Button" = some ⟨true, false⟩ := by decide +kernel
    rw [hget a ha, hget b hb]
  refine ⟨hpaths, fun files' hperm => ?_⟩
  obtain ⟨t, ht, heq⟩ :=
    (lookup_reordered_iff hpaths hs "app/src/Button.tsx" "Button").1.mpr (.inr hagree) files' hperm
  exact ⟨t, ht, heq.trans (by decide +kernel)⟩

/-- The first of two paths decides although only the second one knows the component. -/
theorem lookup_depends_on_order :
    ¬ ∀ (files files' : List (String × Data)) (s t : Summaries) (path component : String),
      (pathsOf files).Nodup → files'.Perm files → ofData? (.obj files) = some s → ofData? (.obj files') = some t →
        t.lookup path component = s.lookup path component := by
  intro h
  have hperm := List.Perm.swap ("shop/Button.tsx", styledData "Card") ("app/Button.tsx", styledData "Button") []
  have heq := h _ _ [("shop/Button.tsx", [("Card", ⟨true, false⟩)]), ("app/Button.tsx", [("Button", ⟨true, false⟩)])]
    [("app/Button.tsx", [("Button", ⟨true, false⟩)]), ("shop/Button.tsx", [("Card", ⟨true, false⟩)])]
    "Button.tsx" "Button" (by decide +kernel) hperm (by decide +kernel) (by decide +kernel)
  exact absurd heq (by decide +kernel)

end Restyle.Plan.Summaries
