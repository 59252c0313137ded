import Mathlib.Tactic.SplitIfs
import Restyle.Adapter.Imports

/-!
# Ways to a module

The specifier for an absolute path is a way from the directory of a file: steps up to the last place that both
paths share, and the names below it.  Taking the way leads to the module.  It reads as a relative specifier,
except where the module lies below the directory and the first name on the way there starts with a dot.
-/

namespace Restyle.Text

/-- Joined texts are the first one and the others, each with the separator before it. -/
theorem intercalate_cons_eq (sep text : List Char) (texts : List (List Char)) :
    sep.intercalate (text :: texts) = text ++ texts.flatMap fun next => sep ++ next := by
  induction texts generalizing text with
  | nil => rw [List.intercalate_singleton, List.flatMap_nil, List.append_nil]
  | cons next texts ih => rw [List.intercalate_cons_cons, ih, List.flatMap_cons, List.append_assoc, List.append_assoc]

theorem splitAt_of_not_mem {sep : Char} {part : List Char} (h : sep ∉ part) : splitAt sep part = [part] := by
  induction part with
  | nil => rfl
  | cons c part ih =>
      obtain ⟨hc, hpart⟩ := not_or.mp (mt List.mem_cons.mpr h)
      rw [splitAt, ih hpart]
      dsimp only
      rw [if_neg (by simpa using Ne.symm hc)]

theorem splitAt_ne_nil (sep : Char) (cs : List Char) : splitAt sep cs ≠ [] := by
  cases cs with
  | nil => exact List.cons_ne_nil _ _
  | cons c cs =>
      rw [splitAt]
      split
      · exact List.cons_ne_nil _ _
      · split <;> exact List.cons_ne_nil _ _

theorem splitAt_sep (sep : Char) (cs : List Char) : splitAt sep (sep :: cs) = [] :: splitAt sep cs := by
  rw [splitAt]
  split
  · next hnil => exact absurd hnil (splitAt_ne_nil sep cs)
  · next hparts => rw [if_pos (beq_self_eq_true sep), hparts]

theorem splitAt_append {sep : Char} {part : List Char} (h : sep ∉ part) (rest : List Char) :
    splitAt sep (part ++ sep :: rest) = part :: splitAt sep rest := by
  induction part with
  | nil => exact splitAt_sep sep rest
  | cons c part ih =>
      obtain ⟨hc, hpart⟩ := not_or.mp (mt List.mem_cons.mpr h)
      rw [List.cons_append, splitAt, ih hpart]
      dsimp only
      rw [if_neg (by simpa using Ne.symm hc)]

/-- Parts without the separator are read back from the text that joins them. -/
theorem splitAt_intercalate {sep : Char} {parts : List (List Char)} (hne : parts ≠ [])
    (h : ∀ part ∈ parts, sep ∉ part) : splitAt sep ([sep].intercalate parts) = parts := by
  induction parts with
  | nil => exact absurd rfl hne
  | cons part parts ih =>
      obtain ⟨hpart, hparts⟩ := List.forall_mem_cons.mp h
      cases parts with
      | nil =>
          rw [List.intercalate_singleton]
          exact splitAt_of_not_mem hpart
      | cons next parts =>
          rw [List.intercalate_cons_cons, List.append_assoc, List.singleton_append, splitAt_append hpart,
            ih (List.cons_ne_nil _ _) hparts]

theorem not_mem_of_mem_splitAt {sep : Char} {cs part : List Char} (h : part ∈ splitAt sep cs) : sep ∉ part := by
  induction cs generalizing part with
  | nil =>
      cases List.mem_singleton.mp h
      exact List.not_mem_nil
  | cons c cs ih =>
      rw [splitAt] at h
      split at h
      · next hnil => exact absurd hnil (splitAt_ne_nil sep cs)
      · next first parts hparts =>
          rw [hparts] at ih
          split at h
          · rcases List.mem_cons.mp h with rfl | h
            · exact List.not_mem_nil
            · exact ih h
          · next hc =>
              rcases List.mem_cons.mp h with rfl | h
              · refine List.not_mem_cons_of_ne_of_not_mem ?_ (ih List.mem_cons_self)
                rintro rfl
                exact hc (beq_self_eq_true sep)
              · exact ih (List.mem_cons_of_mem first h)

end Restyle.Text

namespace Restyle.Path

/-! ## Names -/

/-- A part of the text of a path: it is not empty and holds no slash. -/
structure IsPart (name : String) : Prop where
  nonempty : name ≠ ""
  noSlash : '/' ∉ name.toList

/-- The name of a place, or a step upwards. -/
structure IsStep (name : String) : Prop extends IsPart name where
  notHere : name ≠ "."

/-- The name of a place. -/
structure IsName (name : String) : Prop extends IsStep name where
  notUp : name ≠ ".."

theorem isStep_up : IsStep ".." :=
  ⟨⟨by decide, by decide⟩, by decide⟩

theorem isStep_of_mem_ofText {s name : String} (h : name ∈ (ofText s).names) : IsStep name := by
  obtain ⟨hmem, hkept⟩ := List.mem_filter.mp h
  obtain ⟨part, hpart, rfl⟩ := List.mem_map.mp hmem
  have hkept : ¬ part = [] ∧ String.ofList part ≠ "." := by simpa using hkept
  refine ⟨⟨fun hempty => hkept.1 (String.ofList_eq_empty_iff.mp hempty), ?_⟩, hkept.2⟩
  rw [String.toList_ofList]
  exact Text.not_mem_of_mem_splitAt hpart

/-! ## Reading a written path -/

/-- The names in a text of a path. -/
def namesIn (cs : List Char) : List String :=
  ((Text.splitAt '/' cs).map String.ofList).filter fun n => !n.isEmpty && n != "."

theorem namesIn_slash (cs : List Char) : namesIn ('/' :: cs) = namesIn cs := by
  rw [namesIn, Text.splitAt_sep, List.map_cons, List.filter_cons_of_neg (by decide)]
  rfl

theorem namesIn_intercalate {names : List String} (h : ∀ name ∈ names, IsStep name) :
    namesIn (['/'].intercalate (names.map String.toList)) = names := by
  have hkept : names.filter (fun n => !n.isEmpty && n != ".") = names := by
    rw [List.filter_eq_self]
    intro name hname
    simpa using ⟨(h name hname).nonempty, (h name hname).notHere⟩
  have hback : (names.map String.toList).map String.ofList = names := by
    simp [Function.comp_def, String.ofList_toList]
  by_cases hnone : names = []
  · rw [hnone]
    rfl
  · have hfree : ∀ part ∈ names.map String.toList, '/' ∉ part := by
      intro part hpart
      obtain ⟨name, hname, rfl⟩ := List.mem_map.mp hpart
      exact (h name hname).noSlash
    rw [namesIn, Text.splitAt_intercalate (mt List.map_eq_nil_iff.mp hnone) hfree, hback, hkept]

theorem takeWhile_slash_intercalate {names : List String} (h : ∀ name ∈ names, IsStep name) :
    (['/'].intercalate (names.map String.toList)).takeWhile (· == '/') = [] := by
  cases names with
  | nil => rfl
  | cons name names =>
      have hstep := h name List.mem_cons_self
      cases hname : name.toList with
      | nil => exact absurd (String.toList_eq_nil_iff.mp hname) hstep.nonempty
      | cons c cs =>
          have hc : (c == '/') = false := by
            rw [beq_eq_false_iff_ne]
            rintro rfl
            exact hstep.noSlash (hname ▸ List.mem_cons_self)
          rw [List.map_cons, hname]
          cases names <;> simp [List.intercalate, hc]

/-- The root in a text of a path. -/
def rootIn (cs : List Char) : String :=
  let slashes := (cs.takeWhile (· == '/')).length
  if slashes == 0 then "" else if slashes == 2 then "//" else "/"

theorem ofText_eq (s : String) : ofText s = { root := rootIn s.toList, names := namesIn s.toList } :=
  rfl

theorem toList_text {p : Path} (h : p.root ++ "/".intercalate p.names ≠ "") :
    p.text.toList = p.root.toList ++ ['/'].intercalate (p.names.map String.toList) := by
  have hbody : (p.root ++ "/".intercalate p.names).isEmpty = false := by simpa using h
  rw [text, hbody, if_neg Bool.false_ne_true, String.toList_append, String.toList_intercalate]
  rfl

theorem rootIn_append {root : String} (hroot : root = "" ∨ root = "/" ∨ root = "//") {cs : List Char}
    (h : cs.takeWhile (· == '/') = []) : rootIn (root.toList ++ cs) = root := by
  rcases hroot with rfl | rfl | rfl <;> simp [rootIn, h]

theorem namesIn_append {root : String} (hroot : root = "" ∨ root = "/" ∨ root = "//") (cs : List Char) :
    namesIn (root.toList ++ cs) = namesIn cs := by
  rcases hroot with rfl | rfl | rfl
  · rfl
  · exact namesIn_slash cs
  · exact (namesIn_slash _).trans (namesIn_slash cs)

/-- A path is read back from its text. -/
theorem ofText_text {p : Path} (hroot : p.root = "" ∨ p.root = "/" ∨ p.root = "//")
    (hnames : ∀ name ∈ p.names, IsStep name) : ofText p.text = p := by
  by_cases hempty : p.root ++ "/".intercalate p.names = ""
  · obtain ⟨hnoRoot, hbody⟩ := String.append_eq_empty_iff.mp hempty
    have hnone : p.names = [] := by
      have hread := namesIn_intercalate hnames
      rw [show ['/'] = "/".toList from rfl, ← String.toList_intercalate, hbody] at hread
      exact hread.symm
    obtain ⟨root, names⟩ := p
    cases hnoRoot
    cases hnone
    rfl
  · rw [ofText_eq, toList_text hempty, rootIn_append hroot (takeWhile_slash_intercalate hnames),
      namesIn_append hroot, namesIn_intercalate hnames]

/-! ## Steps upwards -/

theorem collapseNames_here (isAbsolute : Bool) (done names : List String) :
    collapseNames isAbsolute done ("." :: names) = collapseNames isAbsolute done names := by
  cases done <;> rfl

theorem collapseNames_name {name : String} (h : IsName name) (isAbsolute : Bool) (done names : List String) :
    collapseNames isAbsolute done (name :: names) = collapseNames isAbsolute (name :: done) names := by
  have hhere : ¬ (name == ".") = true := by simpa using h.notHere
  have hup : ¬ (name == "..") = true := by simpa using h.notUp
  cases done <;> rw [collapseNames, if_neg hhere, if_neg hup]

/-- A step upwards takes the last name away, if there is one. -/
theorem collapseNames_up {done : List String} (h : ∀ name ∈ done, IsName name) (names : List String) :
    collapseNames true done (".." :: names) = collapseNames true done.tail names := by
  cases done with
  | nil => rfl
  | cons last rest =>
      have hlast : ¬ (last == "..") = true := by simpa using (h last List.mem_cons_self).notUp
      rw [collapseNames, if_neg (by decide), if_pos (beq_self_eq_true ".."), if_neg hlast, List.tail_cons]

theorem collapseNames_append {names : List String} (h : ∀ name ∈ names, IsName name) (isAbsolute : Bool)
    (done more : List String) :
    collapseNames isAbsolute done (names ++ more) = collapseNames isAbsolute (names.reverse ++ done) more := by
  induction names generalizing done with
  | nil => rfl
  | cons name names ih =>
      obtain ⟨hname, hnames⟩ := List.forall_mem_cons.mp h
      rw [List.cons_append, collapseNames_name hname, ih hnames, List.reverse_cons, List.append_assoc,
        List.singleton_append]

/-- Steps upwards take as many names away. -/
theorem collapseNames_replicate {done : List String} (h : ∀ name ∈ done, IsName name) (count : Nat)
    (more : List String) :
    collapseNames true done (List.replicate count ".." ++ more) = collapseNames true (done.drop count) more := by
  induction count generalizing done with
  | zero => rfl
  | succ count ih =>
      rw [List.replicate_succ, List.cons_append, collapseNames_up h,
        ih fun name hname => h name (List.mem_of_mem_tail hname), List.drop_tail]

theorem collapseNames_of_names {names : List String} (h : ∀ name ∈ names, IsName name) (isAbsolute : Bool)
    (done : List String) : collapseNames isAbsolute done names = done.reverse ++ names := by
  have happend := collapseNames_append h isAbsolute done []
  rw [List.append_nil] at happend
  rw [happend, collapseNames, List.reverse_append, List.reverse_reverse]

/-- Collapsing a path from a root leaves names of places only. -/
theorem isName_of_mem_collapseNames {names : List String} (h : ∀ name ∈ names, IsPart name) {done : List String}
    (hdone : ∀ name ∈ done, IsName name) : ∀ name ∈ collapseNames true done names, IsName name := by
  induction names generalizing done with
  | nil =>
      intro name hname
      exact hdone name (List.mem_reverse.mp hname)
  | cons name names ih =>
      obtain ⟨hname, hnames⟩ := List.forall_mem_cons.mp h
      by_cases hhere : name = "."
      · rw [hhere, collapseNames_here]
        exact ih hnames hdone
      · by_cases hup : name = ".."
        · rw [hup, collapseNames_up hdone]
          exact ih hnames fun last hlast => hdone last (List.mem_of_mem_tail hlast)
        · have hplace : IsName name := ⟨⟨hname, hhere⟩, hup⟩
          rw [collapseNames_name hplace]
          exact ih hnames (List.forall_mem_cons.mpr ⟨hplace, hdone⟩)

/-! ## Paths in normal form -/

/-- An absolute path of names. -/
structure Settled (p : Path) : Prop where
  root : p.root = "/" ∨ p.root = "//"
  names : ∀ name ∈ p.names, IsName name

theorem Settled.isAbsolute {p : Path} (h : p.Settled) : p.isAbsolute = true := by
  rcases h.root with hroot | hroot <;>
  · rw [Path.isAbsolute, hroot]
    decide

theorem Settled.collapse {p : Path} (h : p.Settled) : p.collapse = p := by
  rw [Path.collapse, collapseNames_of_names h.names]
  rfl

theorem Settled.parent {p : Path} (h : p.Settled) : p.parent.Settled :=
  ⟨h.root, fun name hname => h.names name (List.dropLast_subset _ hname)⟩

theorem Settled.ofText_text {p : Path} (h : p.Settled) : ofText p.text = p :=
  Path.ofText_text (.inr h.root) fun name hname => (h.names name hname).toIsStep

theorem root_ofText (s : String) : (ofText s).root = "" ∨ (ofText s).root = "/" ∨ (ofText s).root = "//" := by
  rw [ofText_eq]
  dsimp only [rootIn]
  split_ifs
  · exact .inl rfl
  · exact .inr (.inr rfl)
  · exact .inr (.inl rfl)

theorem settled_collapse {p : Path} (hroot : p.root = "/" ∨ p.root = "//") (h : ∀ name ∈ p.names, IsPart name) :
    p.collapse.Settled := by
  refine ⟨hroot, ?_⟩
  have habsolute : p.isAbsolute = true := by
    rcases hroot with hroot | hroot <;>
    · rw [isAbsolute, hroot]
      decide
  rw [collapse, habsolute]
  exact isName_of_mem_collapseNames h nofun

theorem rooted_ofText {s : String} (h : (ofText s).isAbsolute = true) :
    (ofText s).root = "/" ∨ (ofText s).root = "//" := by
  rcases root_ofText s with hroot | hroot
  · rw [isAbsolute, hroot] at h
    cases h
  · exact hroot

/-- A text of an absolute path that collapsing does not change. -/
structure IsNormal (s : String) : Prop where
  isAbsolute : (ofText s).isAbsolute = true
  text_collapse : (ofText s).collapse.text = s

theorem IsNormal.settled {s : String} (h : IsNormal s) : (ofText s).Settled := by
  have hsettled := settled_collapse (rooted_ofText h.isAbsolute) fun name hname => (isStep_of_mem_ofText hname).toIsPart
  have hread := hsettled.ofText_text
  rw [h.text_collapse] at hread
  rwa [← hread] at hsettled

/-! ## Ways between paths -/

theorem commonCount_spec (target base : List String) :
    target.take (commonCount target base) = base.take (commonCount target base) ∧
      commonCount target base ≤ base.length := by
  induction target generalizing base with
  | nil => exact ⟨rfl, Nat.zero_le _⟩
  | cons t target ih =>
      cases base with
      | nil => exact ⟨rfl, Nat.zero_le _⟩
      | cons b base =>
          rw [commonCount]
          split
          · next heq =>
              obtain ⟨htake, hle⟩ := ih base
              rw [List.take_succ_cons, List.take_succ_cons, eq_of_beq heq, htake]
              exact ⟨rfl, Nat.succ_le_succ hle⟩
          · exact ⟨rfl, Nat.zero_le _⟩

/-- Taking the way from a directory to a place leads there. -/
theorem collapse_below_relativeTo {p base : Path} (hp : p.collapse.Settled) (hbase : base.Settled) :
    (base.below (p.relativeTo base)).collapse = { base with names := p.collapse.names } := by
  obtain ⟨htake, hle⟩ := commonCount_spec p.collapse.names base.names
  have hrest : ∀ name ∈ p.collapse.names.drop (commonCount p.collapse.names base.names), IsName name :=
    fun name hname => hp.names name (List.mem_of_mem_drop hname)
  have hdone : ∀ name ∈ base.names.reverse, IsName name := fun name hname =>
    hbase.names name (List.mem_reverse.mp hname)
  have habsolute : ({ base with names := base.names ++ (p.relativeTo base).names } : Path).isAbsolute = true :=
    hbase.isAbsolute
  have hrelative : (p.relativeTo base).isAbsolute = false := rfl
  rw [below, hrelative, if_neg Bool.false_ne_true, collapse, habsolute]
  dsimp only [relativeTo]
  rw [hbase.collapse, collapseNames_append hbase.names, List.append_nil, collapseNames_replicate hdone,
    collapseNames_of_names hrest, List.drop_reverse, List.reverse_reverse, Nat.sub_sub_self hle, ← htake,
    List.take_append_drop]

theorem commonCount_append (base more : List String) : commonCount (base ++ more) base = base.length := by
  induction base with
  | nil => cases more <;> rfl
  | cons name base ih => rw [List.cons_append, commonCount, if_pos (beq_self_eq_true name), ih, List.length_cons]

/-- A way starts with a name exactly if it leads to a place below the directory. -/
theorem relativeTo_starts_iff {p base : Path} (hp : p.collapse.Settled) (hbase : base.Settled) {name : String}
    {rest : List String} :
    ((p.relativeTo base).names = name :: rest ∧ name ≠ "..") ↔ p.collapse.names = base.names ++ name :: rest := by
  rw [relativeTo, hbase.collapse]
  dsimp only
  constructor
  · rintro ⟨hway, hname⟩
    obtain ⟨htake, hle⟩ := commonCount_spec p.collapse.names base.names
    cases hup : base.names.length - commonCount p.collapse.names base.names with
    | zero =>
        have hall : commonCount p.collapse.names base.names = base.names.length := by omega
        have hsplit := List.take_append_drop base.names.length p.collapse.names
        rw [hall, List.take_length] at htake
        rw [hup, List.replicate_zero, List.nil_append, hall] at hway
        rw [htake, hway] at hsplit
        exact hsplit.symm
    | succ up =>
        rw [hup, List.replicate_succ, List.cons_append] at hway
        exact absurd (List.cons.inj hway).1.symm hname
  · intro hnames
    have hname : IsName name := hp.names name (by simp [hnames])
    rw [hnames, commonCount_append, Nat.sub_self, List.replicate_zero, List.nil_append, List.drop_left]
    exact ⟨rfl, hname.notUp⟩

theorem isStep_of_mem_relativeTo {p base : Path} (hp : p.collapse.Settled) :
    ∀ name ∈ (p.relativeTo base).names, IsStep name := by
  intro name hname
  rcases List.mem_append.mp hname with hup | hname
  · rw [List.eq_of_mem_replicate hup]
    exact isStep_up
  · exact (hp.names name (List.mem_of_mem_drop hname)).toIsStep

/-! ## Specifiers -/

/-- A way as it is written in an import. -/
def asSpecifier (way : Path) : String :=
  if Text.hasLead "." way.text then way.text else "./" ++ way.text

theorem ofText_asSpecifier {way : Path} (hroot : way.root = "") (h : ∀ name ∈ way.names, IsStep name) :
    ofText (asSpecifier way) = way := by
  have hread := ofText_text (.inl hroot) h
  unfold asSpecifier
  split
  · exact hread
  · have hsplit := Text.splitAt_append (by decide : '/' ∉ ['.']) way.text.toList
    have hnames : namesIn ("./" ++ way.text).toList = namesIn way.text.toList := by
      rw [String.toList_append]
      exact (congrArg _ (congrArg _ hsplit)).trans (List.filter_cons_of_neg (by decide))
    have hrooted : rootIn ("./" ++ way.text).toList = "" := by
      rw [String.toList_append]
      rfl
    have hread' : namesIn way.text.toList = way.names := congrArg Path.names hread
    rw [ofText_eq, hrooted, hnames, hread', ← hroot]

/-- A relative specifier: it is a step in place or upwards, or starts with one. -/
def IsRelative (specifier : String) : Prop :=
  specifier = "." ∨ specifier = ".." ∨ Text.hasLead "./" specifier = true ∨ Text.hasLead "../" specifier = true

/-- The characters before the first slash. -/
def front (cs : List Char) : List Char :=
  cs.takeWhile (· != '/')

theorem eq_front_or (cs : List Char) : cs = front cs ∨ ∃ rest, cs = front cs ++ '/' :: rest := by
  induction cs with
  | nil => exact .inl rfl
  | cons c cs ih =>
      by_cases hc : c = '/'
      · exact .inr ⟨cs, by rw [hc]; rfl⟩
      · have hfront : front (c :: cs) = c :: front cs := List.takeWhile_cons_of_pos (by simpa using hc)
        rw [hfront]
        rcases ih with heq | ⟨rest, heq⟩
        · exact .inl (congrArg (c :: ·) heq)
        · exact .inr ⟨rest, congrArg (c :: ·) heq⟩

theorem front_append {part : List Char} (h : '/' ∉ part) (tail : List Char) :
    front (part ++ tail) = part ++ front tail := by
  refine List.takeWhile_append_of_pos fun c hc => ?_
  rw [bne_iff_ne]
  rintro rfl
  exact h hc

theorem isRelative_iff (s : String) : IsRelative s ↔ front s.toList = ['.'] ∨ front s.toList = ['.', '.'] := by
  constructor
  · rintro (rfl | rfl | hlead | hlead)
    · exact .inl rfl
    · exact .inr rfl
    · obtain ⟨rest, hrest⟩ := Text.hasLead_iff.mp hlead
      rw [← hrest]
      exact .inl rfl
    · obtain ⟨rest, hrest⟩ := Text.hasLead_iff.mp hlead
      rw [← hrest]
      exact .inr rfl
  · rintro (hfront | hfront) <;> rcases eq_front_or s.toList with heq | ⟨rest, heq⟩ <;> rw [hfront] at heq
    · exact .inl (String.toList_inj.mp heq)
    · exact .inr (.inr (.inl (Text.hasLead_iff.mpr ⟨rest, heq.symm⟩)))
    · exact .inr (.inl (String.toList_inj.mp heq))
    · exact .inr (.inr (.inr (Text.hasLead_iff.mpr ⟨rest, heq.symm⟩)))

theorem isPrefix_front_iff {cs : List Char} (h : front cs ≠ []) (c : Char) : [c] <+: front cs ↔ [c] <+: cs := by
  obtain ⟨d, ds, hfront⟩ := List.exists_cons_of_ne_nil h
  have hcs : ∃ rest, cs = d :: rest := by
    rcases eq_front_or cs with heq | ⟨rest, heq⟩
    · exact ⟨ds, heq.trans hfront⟩
    · exact ⟨ds ++ '/' :: rest, by rw [heq, hfront, List.cons_append]⟩
  obtain ⟨rest, rfl⟩ := hcs
  rw [hfront, List.cons_prefix_cons, List.cons_prefix_cons]
  exact and_congr_right fun _ => iff_of_true List.nil_prefix List.nil_prefix

/-- The text of a way starts with its first name. -/
theorem front_text {way : Path} (hroot : way.root = "") {name : String} {names : List String}
    (h : way.names = name :: names) (hname : IsPart name) : front way.text.toList = name.toList := by
  have hjoined : ∃ tail,
      ['/'].intercalate (way.names.map String.toList) = name.toList ++ tail ∧ front tail = [] := by
    rw [h]
    cases names with
    | nil => exact ⟨[], by simp, rfl⟩
    | cons next names =>
        rw [List.map_cons, List.map_cons, List.intercalate_cons_cons, List.append_assoc]
        exact ⟨_, rfl, rfl⟩
  obtain ⟨tail, htail, hfront⟩ := hjoined
  have hfilled : way.root ++ "/".intercalate way.names ≠ "" := by
    intro hempty
    have hlist := congrArg String.toList (String.append_eq_empty_iff.mp hempty).2
    rw [String.toList_intercalate] at hlist
    have hnil := List.append_eq_nil_iff.mp (htail.symm.trans hlist)
    exact hname.nonempty (String.toList_eq_nil_iff.mp hnil.1)
  rw [toList_text hfilled, hroot, htail]
  exact (front_append hname.noSlash tail).trans (by rw [hfront, List.append_nil])

/-- A way is written as a relative specifier unless it starts with a name that starts with a dot. -/
theorem isRelative_asSpecifier_iff {way : Path} (hroot : way.root = "") (h : ∀ name ∈ way.names, IsStep name) :
    IsRelative (asSpecifier way) ↔
      ¬ ∃ name rest, (way.names = name :: rest ∧ name ≠ "..") ∧ Text.hasLead "." name = true := by
  cases hnames : way.names with
  | nil =>
      obtain ⟨root, names⟩ := way
      cases hroot
      cases hnames
      exact iff_of_true (.inl rfl) fun ⟨_, _, ⟨hcons, _⟩, _⟩ => nomatch hcons
  | cons name names =>
      have hname : IsStep name := h name (by simp [hnames])
      have hfront := front_text hroot hnames hname.toIsPart
      -- The text starts with a dot exactly if the first name does.
      have hlead : Text.hasLead "." way.text = true ↔ Text.hasLead "." name = true := by
        have hfilled : front way.text.toList ≠ [] := by
          rw [hfront]
          exact mt String.toList_eq_nil_iff.mp hname.nonempty
        rw [Text.hasLead_iff, Text.hasLead_iff, ← hfront]
        exact (isPrefix_front_iff hfilled '.').symm
      have hright :
          (∃ first rest, (name :: names = first :: rest ∧ first ≠ "..") ∧ Text.hasLead "." first = true) ↔
            name ≠ ".." ∧ Text.hasLead "." name = true := by
        constructor
        · rintro ⟨first, rest, ⟨heq, hup⟩, hdot⟩
          cases heq
          exact ⟨hup, hdot⟩
        · rintro ⟨hup, hdot⟩
          exact ⟨name, names, ⟨rfl, hup⟩, hdot⟩
      have hnot : ¬ name.toList = ['.'] := fun heq => hname.notHere (String.toList_inj.mp heq)
      rw [hright, isRelative_iff]
      unfold asSpecifier
      split
      · next hdot =>
          rw [hfront, or_iff_right hnot]
          constructor
          · rintro heq ⟨hup, -⟩
            exact hup (String.toList_inj.mp heq)
          · intro hplain
            exact Decidable.byContradiction fun hup =>
              hplain ⟨fun heq => hup (congrArg String.toList heq), hlead.mp hdot⟩
      · next hplain =>
          refine iff_of_true (.inl ?_) fun hdot => hplain (hlead.mpr hdot.2)
          rw [String.toList_append]
          rfl

end Restyle.Path

namespace Restyle.Adapter

open Restyle.Path (IsNormal IsPart IsRelative asSpecifier)

/-- The path of a module without the end of a source file. -/
def modulePath (p : Path) : Path :=
  if sourceSuffixes.contains p.suffix then p.dropSuffix else p

theorem root_modulePath (p : Path) : (modulePath p).root = p.root := by
  unfold modulePath Path.dropSuffix
  split_ifs <;> rfl

/-- Leaving out the end of a source file leaves a part of the name. -/
theorem isPart_stem {p : Path} (hname : IsPart p.name) (h : sourceSuffixes.contains p.suffix = true) :
    IsPart p.stem := by
  have hsuffix : p.suffix ≠ "" := by
    intro hnone
    rw [hnone] at h
    exact absurd h (by decide)
  have hshort : p.suffix.length < p.name.length := by
    unfold Path.suffix Path.suffixOf at hsuffix ⊢
    dsimp only at hsuffix ⊢
    split at hsuffix
    · exact absurd rfl hsuffix
    · next hkept =>
        rw [if_neg hkept]
        simp only [Bool.or_eq_true, decide_eq_true_eq, not_or] at hkept
        rw [String.length_ofList, List.length_cons, List.length_reverse, ← String.length_toList]
        omega
  refine ⟨fun hempty => ?_, fun hslash => hname.noSlash ?_⟩
  · have htake := List.take_eq_nil_iff.mp (String.ofList_eq_empty_iff.mp hempty)
    rcases htake with hzero | hnil
    · rw [String.length_toList] at hzero
      omega
    · exact hname.nonempty (String.toList_eq_nil_iff.mp hnil)
  · rw [Path.stem, String.toList_ofList] at hslash
    exact List.mem_of_mem_take hslash

theorem isPart_of_mem_modulePath {p : Path} (h : ∀ name ∈ p.names, IsPart name) :
    ∀ name ∈ (modulePath p).names, IsPart name := by
  unfold modulePath Path.dropSuffix
  split_ifs with hsuffix hnone
  · exact h
  · intro name hname
    rcases List.mem_append.mp hname with hname | hname
    · exact h name (List.dropLast_subset _ hname)
    · rw [List.mem_singleton.mp hname]
      refine isPart_stem ?_ hsuffix
      have hlast := List.getLast?_eq_some_getLast (mt List.isEmpty_iff.mpr hnone)
      rw [Path.name, hlast, Option.getD_some]
      exact h _ (List.getLast_mem _)
  · exact h

theorem below_of_isAbsolute {p : Path} (h : p.isAbsolute = true) (base : Path) : base.below p = p :=
  if_pos h

/-- The specifier of an absolute path is the way from the directory of the file. -/
theorem specifier_eq {source : ImportSource} (hkind : source.kind = .absolutePath) {file : String}
    (htarget : IsNormal source.value) (hfile : IsNormal file) (directory : String) :
    source.specifier directory file =
      asSpecifier ((modulePath (Path.ofText source.value)).relativeTo (Path.ofText file).parent) := by
  have hfilled : ¬ file.isEmpty = true := by
    intro hempty
    have habsolute := hfile.isAbsolute
    rw [String.isEmpty_iff.mp hempty] at habsolute
    exact absurd habsolute (by decide)
  have hmodule : (modulePath (Path.ofText source.value)).isAbsolute = true := by
    rw [Path.isAbsolute, root_modulePath]
    exact htarget.isAbsolute
  have hspecifier : source.specifier directory file =
      asSpecifier (((Path.ofText directory).below (modulePath (Path.ofText source.value))).relativeTo
        (if file.isEmpty then Path.ofText directory
          else ((Path.ofText directory).below (Path.ofText file)).collapse.parent)) := by
    rw [ImportSource.specifier, hkind]
    rfl
  rw [hspecifier, if_neg hfilled, below_of_isAbsolute hmodule, below_of_isAbsolute hfile.isAbsolute,
    hfile.settled.collapse]

/--
The specifier of an absolute path is relative, unless the module lies below the directory of the file and the
first name on the way to it starts with a dot.  In any case the place that it leads to from there is the module,
provided that both paths have the same root.
-/
theorem specifier_leads_iff {source : ImportSource} (hkind : source.kind = .absolutePath) {file : String}
    (htarget : IsNormal source.value) (hfile : IsNormal file) (directory : String) :
    let target := (modulePath (Path.ofText source.value)).collapse
    let base := (Path.ofText file).parent
    (IsRelative (source.specifier directory file) ↔
        ¬ ∃ name rest, target.names = base.names ++ name :: rest ∧ Text.hasLead "." name = true) ∧
      ((base.below (Path.ofText (source.specifier directory file))).collapse = target ↔ target.root = base.root) := by
  intro target base
  have hbase : base.Settled := hfile.settled.parent
  have hmodule : target.Settled := by
    refine Path.settled_collapse ?_ (isPart_of_mem_modulePath fun name hname => ?_)
    · rw [root_modulePath]
      exact htarget.settled.root
    · exact (htarget.settled.names name hname).toIsPart
  have hsteps : ∀ name ∈ ((modulePath (Path.ofText source.value)).relativeTo base).names, Path.IsStep name :=
    Path.isStep_of_mem_relativeTo hmodule
  rw [specifier_eq hkind htarget hfile]
  constructor
  · rw [Path.isRelative_asSpecifier_iff rfl hsteps]
    simp only [Path.relativeTo_starts_iff hmodule hbase]
    rfl
  · rw [Path.ofText_asSpecifier rfl hsteps, Path.collapse_below_relativeTo hmodule hbase]
    constructor
    · intro heq
      exact (congrArg Path.root heq).symm
    · intro hroot
      rw [← hroot]

theorem specifier_leads_iff_tokens :
    IsRelative ((ImportSource.mk .absolutePath "/proj/theme/tokens.stylex.ts").specifier "/" "/proj/ui/Button.tsx") ∧
      ((Path.mk "/" ["proj", "ui"]).below (Path.ofText
        ((ImportSource.mk .absolutePath "/proj/theme/tokens.stylex.ts").specifier "/" "/proj/ui/Button.tsx"))).collapse =
          Path.mk "/" ["proj", "theme", "tokens.stylex"] := by
  have htarget : IsNormal (ImportSource.mk .absolutePath "/proj/theme/tokens.stylex.ts").value :=
    ⟨by decide, by decide⟩
  have hfile : IsNormal "/proj/ui/Button.tsx" := ⟨by decide, by decide⟩
  have hleads := specifier_leads_iff rfl htarget hfile "/"
  have hmodule : (modulePath (Path.ofText "/proj/theme/tokens.stylex.ts")).collapse =
      Path.mk "/" ["proj", "theme", "tokens.stylex"] := by decide
  have hbase : (Path.ofText "/proj/ui/Button.tsx").parent = Path.mk "/" ["proj", "ui"] := by decide
  rw [hmodule, hbase] at hleads
  refine ⟨hleads.1.mpr ?_, hleads.2.mpr rfl⟩
  rintro ⟨name, rest, hnames, -⟩
  exact absurd (List.cons.inj (List.cons.inj hnames).2).1 (by decide)

/-- A module in a hidden directory beside a file gets a specifier that names a package. -/
theorem not_isRelative_hidden :
    ¬ ∀ (source : ImportSource) (directory file : String), source.kind = .absolutePath →
      IsNormal source.value → IsNormal file → IsRelative (source.specifier directory file) := by
  intro hall
  have hrelative := hall { kind := .absolutePath, value := "/proj/.config/tokens.ts" } "/" "/proj/Button.tsx" rfl
    ⟨by decide, by decide⟩ ⟨by decide, by decide⟩
  have hfront := (Path.isRelative_iff _).mp hrelative
  exact absurd hfront (by decide)

end Restyle.Adapter
