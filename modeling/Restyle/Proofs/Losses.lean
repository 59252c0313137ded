import Restyle.Proofs.Renaming
import Restyle.Proofs.Requests

/-!
# What a conversion keeps, reports and loses

Every declaration of a rule without slots stands at key paths, one for each way through the selectors around
it.  As long as blocks and properties have different keys, the conversion keeps it there or lets a later
declaration take its place, and reports it when it stands in a block below a condition.  The declarations of
at-rules without a counterpart are an exception: they are gone, and there is only a report for those that
stand in a block below a condition anyway.
-/

namespace Restyle.Style

/-! ## The declarations of a rule -/

/-- A declaration in the blocks along a path; it is lost if an at-rule without a counterpart is around it. -/
structure Site where
  path : List Key := []
  lost : Bool := false
  declaration : Css.Declaration
  deriving DecidableEq

/-- A site inside of further blocks. -/
def Site.inside (around : List Key) (site : Site) : Site :=
  { site with path := around ++ site.path }

/-- What the declaration at a site contributes to a style object; a lost one contributes nothing. -/
def Site.offered (site : Site) : List Contribution :=
  if site.lost then []
  else (declared site.declaration).map fun entry => ⟨site.path, entry.1, entry.2⟩

/-- The key paths of the blocks that a nested rule opens; a raw selector is a key of its own. -/
def openedPaths (selector : String) : List (List Key) :=
  (blocksOf {} selector).map Prod.snd

/-- Whether a nested rule is an at-rule without a counterpart. -/
def isDropped (selector : String) : Bool :=
  Css.isAtRule selector && (nestedPaths? selector).isNone

/-- The declarations in a rule that is dropped. -/
def lostSites (child : Css.Rule) : List Site :=
  if isDropped child.selector then
    (child.walk.flatMap Css.Rule.declarations).map fun d => { lost := true, declaration := d }
  else []

/-- Sites inside of the blocks along each of several paths. -/
def sitesAt (paths : List (List Key)) (sites : List Site) : List Site :=
  paths.flatMap fun path => sites.map (Site.inside path)

mutual

/-- The declarations of a rule in reading order, each once in every block that it stands in. -/
def sites : Css.Rule → List Site
  | ⟨_, declarations, nested, _⟩ => declarations.map (fun d => { declaration := d }) ++ sitesAll nested

/-- The declarations of nested rules. -/
def sitesAll : List Css.Rule → List Site
  | [] => []
  | child :: rest =>
    (lostSites child ++ sitesAt (openedPaths child.selector) (sites child)) ++ sitesAll rest

end

mutual

/-- The key paths of the blocks that a rule opens, itself included. -/
def openings : Css.Rule → List (List Key)
  | ⟨_, _, nested, _⟩ => [] :: openingsAll nested

/-- The key paths of the blocks that nested rules open. -/
def openingsAll : List Css.Rule → List (List Key)
  | [] => []
  | child :: rest =>
    (openedPaths child.selector).flatMap (fun path => (openings child).map (path ++ ·)) ++ openingsAll rest

end

/-- What the declarations of a rule contribute, in reading order. -/
def offers (rule : Css.Rule) : List Contribution :=
  (sites rule).flatMap Site.offered

theorem nil_mem_openings (rule : Css.Rule) : [] ∈ openings rule := by
  obtain ⟨selector, declarations, nested, atRules⟩ := rule
  rw [openings]
  exact List.mem_cons_self

theorem snd_blocksOf (scope : Scope) (selector : String) :
    (blocksOf scope selector).map Prod.snd = openedPaths selector := by
  rw [openedPaths, blocksOf, blocksOf]
  split
  · rw [List.map_map, List.map_map]
    rfl
  · split <;> rfl

theorem openedPaths_of_isDropped {selector : String} (h : isDropped selector = true) :
    openedPaths selector = [] := by
  obtain ⟨hat, hnone⟩ := Bool.and_eq_true_iff.mp h
  rw [openedPaths, blocksOf, Option.isNone_iff_eq_none.mp hnone]
  exact congrArg _ (if_pos hat)

theorem offered_inside (around : List Key) (site : Site) :
    (site.inside around).offered = site.offered.map (Contribution.inside around) := by
  rw [Site.offered, Site.offered]
  show (if site.lost then [] else _) = _
  split
  · rfl
  · rw [List.map_map]
    rfl

theorem offered_lostSites (child : Css.Rule) : (lostSites child).flatMap Site.offered = [] := by
  unfold lostSites
  split
  · rw [List.flatMap_map, List.flatMap_eq_nil_iff]
    exact fun _ _ => rfl
  · rfl

/-- What a nested rule contributes: what it declares, in each of its blocks. -/
theorem offered_nested (child : Css.Rule) :
    (lostSites child ++ sitesAt (openedPaths child.selector) (sites child)).flatMap Site.offered =
      (openedPaths child.selector).flatMap fun path => (offers child).map (Contribution.inside path) := by
  rw [List.flatMap_append, offered_lostSites, List.nil_append, sitesAt, List.flatMap_assoc]
  refine congrArg (List.flatMap · _) (funext fun path => ?_)
  rw [List.flatMap_map, offers, List.map_flatMap]
  exact congrArg (List.flatMap · _) (funext fun site => offered_inside path site)

/-- A declaration stands in a block that has been opened. -/
theorem path_mem_openings {rule : Css.Rule} {site : Site} (h : site ∈ sites rule) :
    site.path ∈ openings rule := by
  induction rule using Css.Rule.induction generalizing site with
  | step rule ih =>
      obtain ⟨selector, declarations, nested, atRules⟩ := rule
      rw [sites] at h
      rw [openings]
      rcases List.mem_append.mp h with hown | hnested
      · obtain ⟨d, -, rfl⟩ := List.mem_map.mp hown
        exact List.mem_cons_self
      · clear h
        dsimp only at ih
        induction nested with
        | nil => cases hnested
        | cons child rest ihrest =>
            rw [sitesAll] at hnested
            rw [openingsAll]
            rcases List.mem_append.mp hnested with hchild | hrest
            · rcases List.mem_append.mp hchild with hlost | hkept
              · have hpath : site.path = [] := by
                  unfold lostSites at hlost
                  split at hlost
                  · obtain ⟨d, -, rfl⟩ := List.mem_map.mp hlost
                    rfl
                  · cases hlost
                rw [hpath]
                exact List.mem_cons_self
              · obtain ⟨path, hpath, hsite⟩ := List.mem_flatMap.mp hkept
                obtain ⟨below, hbelow, rfl⟩ := List.mem_map.mp hsite
                refine List.mem_cons_of_mem _ (List.mem_append_left _ ?_)
                exact List.mem_flatMap.mpr ⟨path, hpath,
                  List.mem_map_of_mem (ih child List.mem_cons_self hbelow)⟩
            · rcases List.mem_cons.mp
                (ihrest (fun c hc => ih c (List.mem_cons_of_mem child hc)) hrest) with hnil | hmem
              · exact hnil ▸ List.mem_cons_self
              · exact List.mem_cons_of_mem _ (List.mem_append_right _ hmem)

/-! ## Entries of declarations -/

theorem expandShorthand_ne_nil (property value : String) : expandShorthand property value ≠ some [] := by
  intro h
  have htokens : Css.valueTokens value = [] := (map_snd_expandShorthand h).symm
  unfold expandShorthand at h
  rw [htokens] at h
  dsimp only at h
  split_ifs at h <;> cases h

/-- A declaration with a name sets something. -/
theorem declared_ne_nil {d : Css.Declaration} (h : d.property ≠ "") : declared d ≠ [] := by
  have hname : d.property.isEmpty = false := by simpa [String.isEmpty_iff] using h
  rw [declared, hname, if_neg Bool.false_ne_true, staticEntries]
  split
  · next expansion hexpansion =>
      rw [ne_eq, List.map_eq_nil_iff]
      rintro rfl
      exact expandShorthand_ne_nil _ _ hexpansion
  · exact List.cons_ne_nil _ _

theorem isObject_of_mem_declared {d : Css.Declaration} {entry : Key × Value} (h : entry ∈ declared d) :
    entry.2.isObject = false := by
  unfold declared at h
  split at h
  · cases h
  · exact isObject_of_mem_staticEntries _ _ entry h

theorem isObject_of_mem_offers {rule : Css.Rule} {c : Contribution} (h : c ∈ offers rule) :
    c.value.isObject = false := by
  obtain ⟨site, -, hc⟩ := List.mem_flatMap.mp h
  unfold Site.offered at hc
  split at hc
  · cases hc
  · obtain ⟨entry, hentry, rfl⟩ := List.mem_map.mp hc
    exact isObject_of_mem_declared hentry

/-! ## Conversions up to renaming -/

/-- A renaming makes all properties that a rule sets properties, and all keys of its blocks those of blocks. -/
structure Suits (φ : Renaming) (rule : Css.Rule) : Prop where
  property : ∀ c ∈ offers rule, (φ.apply c.property).isProperty = true
  block : ∀ path ∈ openings rule, ∀ key ∈ path, (φ.apply key).opensBlock = true

theorem mem_nestedOffers {nested : List Css.Rule} {child : Css.Rule} (hc : child ∈ nested) {path : List Key}
    (hpath : path ∈ openedPaths child.selector) {c : Contribution} (h : c ∈ offers child) :
    c.inside path ∈ (sitesAll nested).flatMap Site.offered := by
  induction nested with
  | nil => cases hc
  | cons first rest ih =>
      rw [sitesAll, List.flatMap_append, offered_nested]
      rcases List.mem_cons.mp hc with rfl | hc
      · exact List.mem_append_left _ (List.mem_flatMap.mpr ⟨path, hpath, List.mem_map_of_mem h⟩)
      · exact List.mem_append_right _ (ih hc)

theorem mem_openingsAll {nested : List Css.Rule} {child : Css.Rule} (hc : child ∈ nested) {path : List Key}
    (hpath : path ∈ openedPaths child.selector) {block : List Key} (h : block ∈ openings child) :
    path ++ block ∈ openingsAll nested := by
  induction nested with
  | nil => cases hc
  | cons first rest ih =>
      rw [openingsAll]
      rcases List.mem_cons.mp hc with rfl | hc
      · exact List.mem_append_left _ (List.mem_flatMap.mpr ⟨path, hpath, List.mem_map_of_mem h⟩)
      · exact List.mem_append_right _ (ih hc)

namespace Suits

variable {φ : Renaming} {rule child : Css.Rule}

theorem declared (h : Suits φ rule) {d : Css.Declaration} (hd : d ∈ rule.declarations)
    {entry : Key × Value} (hentry : entry ∈ declared d) : (φ.apply entry.1).isProperty = true := by
  obtain ⟨selector, declarations, nested, atRules⟩ := rule
  refine h.property ⟨[], entry.1, entry.2⟩ (List.mem_flatMap.mpr ⟨{ declaration := d }, ?_, ?_⟩)
  · rw [sites]
    exact List.mem_append_left _ (List.mem_map_of_mem hd)
  · exact List.mem_map_of_mem hentry

theorem nested (h : Suits φ rule) (hc : child ∈ rule.nested) {path : List Key}
    (hpath : path ∈ openedPaths child.selector) :
    Suits φ child ∧ ∀ key ∈ path, (φ.apply key).opensBlock = true := by
  obtain ⟨selector, declarations, nested, atRules⟩ := rule
  have hopens : ∀ block ∈ openings child, path ++ block ∈ openings ⟨selector, declarations, nested, atRules⟩ := by
    intro block hblock
    rw [openings]
    exact List.mem_cons_of_mem _ (mem_openingsAll hc hpath hblock)
  refine ⟨⟨fun c hmem => ?_, fun block hblock key hkey => ?_⟩, fun key hkey => ?_⟩
  · refine h.property (c.inside path) ?_
    rw [offers, sites, List.flatMap_append]
    exact List.mem_append_right _ (mem_nestedOffers hc hpath hmem)
  · exact h.block _ (hopens block hblock) key (List.mem_append_right path hkey)
  · exact h.block _ (hopens [] (nil_mem_openings child)) key (List.mem_append_left [] hkey)

end Suits

/-- A rule tree without slots. -/
def isSlotFree (rule : Css.Rule) : Bool :=
  rule.walk.all (fun rule => rule.declarations.all fun d =>
      !Css.Slot.present d.property && !Css.Slot.present d.value) &&
    (Css.Rule.walkAll rule.nested).all fun child => !Css.Slot.present child.selector

theorem isSlotFree_of_mem_nested {rule child : Css.Rule} (h : isSlotFree rule = true)
    (hc : child ∈ rule.nested) : isSlotFree child = true ∧ Css.Slot.present child.selector = false := by
  obtain ⟨hdeclarations, hselectors⟩ := Bool.and_eq_true_iff.mp h
  have hwalk := Css.Rule.walk_subset_walkAll hc
  refine ⟨Bool.and_eq_true_iff.mpr ⟨?_, ?_⟩, ?_⟩
  · refine List.all_eq_true.mpr fun below hbelow => ?_
    exact List.all_eq_true.mp hdeclarations below (rule.walkAll_subset_walk (hwalk hbelow))
  · refine List.all_eq_true.mpr fun below hbelow => ?_
    exact List.all_eq_true.mp hselectors below (hwalk (child.walkAll_subset_walk hbelow))
  · have hselector := List.all_eq_true.mp hselectors child (hwalk child.mem_walk_self)
    rwa [Bool.not_eq_true'] at hselector

theorem not_present_of_isSlotFree {rule : Css.Rule} (h : isSlotFree rule = true) {d : Css.Declaration}
    (hd : d ∈ rule.declarations) :
    Css.Slot.present d.property = false ∧ Css.Slot.present d.value = false := by
  have hall := List.all_eq_true.mp (Bool.and_eq_true_iff.mp h).1 rule rule.mem_walk_self
  have hslots := List.all_eq_true.mp hall d hd
  rwa [Bool.and_eq_true, Bool.not_eq_true', Bool.not_eq_true'] at hslots

section

variable {τ : Type} {φ : Renaming}

/-- Running without a report to an object that represents contributions and blocks up to a renaming. -/
def Yields (φ : Renaming) (work : Work τ Object) (cs : List Contribution) (blocks : List (List Key)) : Prop :=
  ∀ s, ∃ o s', work.run s = (.ok o, s') ∧ s'.diagnostics = s.diagnostics ∧ RepresentsAs φ o cs blocks

theorem Yields.bind {work : Work τ Object} {next : Object → Work τ Object} {cs ds : List Contribution}
    {blocks further : List (List Key)} (h : Yields φ work cs blocks)
    (hnext : ∀ o, RepresentsAs φ o cs blocks → Yields φ (next o) ds further) :
    Yields φ (work >>= next) ds further := by
  intro s
  obtain ⟨o, s₁, hrun, hsilent, ho⟩ := h s
  obtain ⟨o', s₂, hrun', hsilent', ho'⟩ := hnext o ho s₁
  exact ⟨o', s₂, by rw [Work.run_bind_ok _ hrun, hrun'], hsilent'.trans hsilent, ho'⟩

theorem yields_pure {o : Object} {cs : List Contribution} {blocks : List (List Key)}
    (h : RepresentsAs φ o cs blocks) : Yields (τ := τ) φ (pure o) cs blocks :=
  fun s => ⟨o, s, rfl, rfl, h⟩

theorem yields_declarations (r : Resolver τ) (scope : Scope) {declarations : List Css.Declaration}
    (hslots : ∀ d ∈ declarations, Css.Slot.present d.property = false ∧ Css.Slot.present d.value = false)
    (hproperty : ∀ d ∈ declarations, ∀ entry ∈ declared d, (φ.apply entry.1).isProperty = true)
    {o : Object} {cs : List Contribution} {blocks : List (List Key)} (h : RepresentsAs φ o cs blocks) :
    Yields φ (declarations.foldlM (convertDeclaration r scope) o)
      (cs ++ (declarations.flatMap declared).map fun entry => ⟨[], entry.1, entry.2⟩) blocks := by
  induction declarations generalizing o cs with
  | nil =>
      rw [List.flatMap_nil, List.map_nil, List.append_nil]
      exact yields_pure h
  | cons d declarations ih =>
      obtain ⟨hfirst, hrest⟩ := List.forall_mem_cons.mp hslots
      obtain ⟨hentries, hothers⟩ := List.forall_mem_cons.mp hproperty
      rw [List.foldlM_cons, List.flatMap_cons, List.map_append, ← List.append_assoc]
      have hstep : Yields φ (convertDeclaration r scope o d)
          (cs ++ (declared d).map fun entry => ⟨[], entry.1, entry.2⟩) blocks := by
        intro s
        obtain ⟨marks, hrun, -⟩ := run_convertDeclaration_fixed hfirst.1 hfirst.2 r scope o s
        refine ⟨_, _, hrun, rfl, h.set_entries fun entry hentry => ?_⟩
        exact ⟨hentries entry hentry, isObject_of_mem_declared hentry⟩
      exact hstep.bind fun o' ho' => ih hrest hothers ho'

theorem yields_blocks (r : Resolver τ) {child : Css.Rule}
    (hchild : ∀ scope, Yields φ (convertRule r scope child) (offers child) (openings child))
    {paths : List (Scope × List Key)}
    (hpaths : ∀ path ∈ paths, ∀ key ∈ path.2, (φ.apply key).opensBlock = true)
    {o : Object} {cs : List Contribution} {blocks : List (List Key)} (h : RepresentsAs φ o cs blocks) :
    Yields φ (convertBlocks r child paths o)
      (cs ++ (paths.map Prod.snd).flatMap fun path => (offers child).map (Contribution.inside path))
      (blocks ++ (paths.map Prod.snd).flatMap fun path => (openings child).map (path ++ ·)) := by
  induction paths generalizing o cs blocks with
  | nil =>
      rw [List.map_nil, List.flatMap_nil, List.flatMap_nil, List.append_nil, List.append_nil]
      exact yields_pure h
  | cons path paths ih =>
      obtain ⟨hfirst, hrest⟩ := List.forall_mem_cons.mp hpaths
      rw [convertBlocks_cons, List.map_cons, List.flatMap_cons, List.flatMap_cons, ← List.append_assoc,
        ← List.append_assoc]
      refine Yields.bind ((hchild path.1).bind fun body hbody => ?_) fun o' ho' => ih hrest ho'
      obtain ⟨merged, hmerge, hmerged⟩ := h.exists_mergeAt hbody hfirst (nil_mem_openings child)
      rw [mergeBody, hmerge]
      exact yields_pure hmerged

theorem yields_addNested (r : Resolver τ) (scope : Scope) {child : Css.Rule}
    (hslots : Css.Slot.present child.selector = false)
    (hpaths : ∀ path ∈ openedPaths child.selector, ∀ key ∈ path, (φ.apply key).opensBlock = true)
    (hchild : ∀ path ∈ openedPaths child.selector, ∀ scope,
      Yields φ (convertRule r scope child) (offers child) (openings child))
    {o : Object} {cs : List Contribution} {blocks : List (List Key)} (h : RepresentsAs φ o cs blocks) :
    Yields φ (addNested r scope o child)
      (cs ++ (openedPaths child.selector).flatMap fun path =>
        (offers child).map (Contribution.inside path))
      (blocks ++ (openedPaths child.selector).flatMap fun path => (openings child).map (path ++ ·)) := by
  have hindices : Css.Slot.indices child.selector = [] := by simpa [Css.Slot.present] using hslots
  rw [addNested, hindices, fillSelector, pure_bind, addFilled]
  by_cases hdrop : isDropped child.selector = true
  · -- the rule leaves nothing but a note in the trace
    rw [openedPaths_of_isDropped hdrop, List.flatMap_nil, List.flatMap_nil, List.append_nil, List.append_nil]
    rw [isDropped] at hdrop
    rw [if_pos hdrop]
    intro s
    exact ⟨o, _, Work.run_bind_ok _ (Work.run_trace _ s), rfl, h⟩
  · rw [isDropped] at hdrop
    rw [if_neg hdrop]
    cases hblocks : blocksOf scope child.selector with
    | nil =>
        rw [← snd_blocksOf scope, hblocks]
        simp only [List.map_nil, List.flatMap_nil, List.append_nil]
        exact yields_pure h
    | cons block rest =>
        have hsome : block.2 ∈ openedPaths child.selector := by
          rw [← snd_blocksOf scope, hblocks]
          exact List.mem_cons_self
        rw [← hblocks, ← snd_blocksOf scope]
        rw [← snd_blocksOf scope] at hpaths
        exact yields_blocks r (hchild block.2 hsome)
          (fun path hpath => hpaths path.2 (List.mem_map_of_mem hpath)) h

/-- The object of a rule represents what the rule offers, up to a renaming that suits it. -/
theorem yields_rule (r : Resolver τ) {rule : Css.Rule} (hslots : isSlotFree rule = true) (h : Suits φ rule)
    (scope : Scope) : Yields φ (convertRule r scope rule) (offers rule) (openings rule) := by
  induction rule using Css.Rule.induction generalizing scope with
  | step rule ih =>
      have hadd : ∀ child ∈ rule.nested, ∀ {o cs blocks}, RepresentsAs φ o cs blocks →
          Yields φ (addNested r scope o child)
            (cs ++ (openedPaths child.selector).flatMap fun path =>
              (offers child).map (Contribution.inside path))
            (blocks ++ (openedPaths child.selector).flatMap fun path =>
              (openings child).map (path ++ ·)) := by
        intro child hc o cs blocks ho
        obtain ⟨hfree, hselector⟩ := isSlotFree_of_mem_nested hslots hc
        exact yields_addNested r scope hselector (fun path hpath => (h.nested hc hpath).2)
          (fun path hpath => ih child hc hfree (h.nested hc hpath).1) ho
      have hown := yields_declarations r scope (fun d hd => not_present_of_isSlotFree hslots hd)
        (fun d hd entry => h.declared hd) (RepresentsAs.nil (φ := φ))
      obtain ⟨selector, declarations, nested, atRules⟩ := rule
      have hoffers : (declarations.map fun d => ({ declaration := d } : Site)).flatMap Site.offered =
          (declarations.flatMap declared).map fun entry => ⟨[], entry.1, entry.2⟩ := by
        rw [List.flatMap_map, List.map_flatMap]
        rfl
      rw [convertRule, offers, openings, sites, List.flatMap_append, hoffers]
      refine hown.bind fun o ho => ?_
      rw [List.nil_append] at ho
      rw [convertNested_eq_foldlM]
      clear ih h hown hslots hoffers
      dsimp only at hadd
      -- the nested rules come one after the other, each behind all that is there already
      show Yields _ _ _ ([[]] ++ openingsAll nested)
      generalize (declarations.flatMap declared).map _ = cs at ho ⊢
      generalize [[]] = blocks at ho ⊢
      induction nested generalizing o cs blocks with
      | nil =>
          rw [sitesAll, openingsAll, List.flatMap_nil, List.append_nil, List.append_nil]
          exact yields_pure ho
      | cons child nested ih =>
          obtain ⟨hfirst, hrest⟩ := List.forall_mem_cons.mp hadd
          rw [List.foldlM_cons, sitesAll, List.flatMap_append, offered_nested, openingsAll,
            ← List.append_assoc, ← List.append_assoc]
          exact (hfirst ho).bind fun o' ho' => ih hrest o' _ _ ho'

end

/-! ## Places in a folded object -/

/-- Where the plain values of a block go when it is folded. -/
inductive Place where
  /-- To the properties inside of nested objects, under a condition; the default stands for none. -/
  | value (elements : List Key) (condition : Key)
  /-- Nowhere: the block of `key` stands below a condition. -/
  | dropped (condition key : Key)
  deriving DecidableEq

/-- Whether what goes to a place is dropped. -/
def Place.isDropped : Place → Bool
  | .value _ _ => false
  | .dropped _ _ => true

/-- The place of what stands in a block, seen from outside of the block. -/
def Place.inside (key : Key) : Place → Place
  | .value elements condition => .value (key :: elements) condition
  | .dropped condition below => .dropped condition below

/-- The place along a path below a condition. -/
def Place.below (condition : Key) : List Key → Place
  | [] => .value [] condition
  | key :: _ => .dropped condition key

/-- Where the plain values of the block along a path go. -/
def placeOf : List Key → Place
  | [] => .value [] Key.default
  | key :: path => if key.isBranch then .below key path else (placeOf path).inside key

theorem placeOf_value {path elements : List Key} {condition : Key}
    (h : placeOf path = .value elements condition) :
    (∀ key ∈ elements, key.isBranch = false) ∧
      (condition = Key.default ∧ path = elements ∨
        condition.isBranch = true ∧ path = elements ++ [condition]) := by
  induction path generalizing elements with
  | nil =>
      cases h
      exact ⟨nofun, .inl ⟨rfl, rfl⟩⟩
  | cons key path ih =>
      rw [placeOf] at h
      split at h
      · next hkey =>
          cases path with
          | nil =>
              cases h
              exact ⟨nofun, .inr ⟨hkey, rfl⟩⟩
          | cons next path => cases h
      · next hkey =>
          cases hinner : placeOf path with
          | value inner other =>
              rw [hinner] at h
              cases h
              obtain ⟨helements, hpath⟩ := ih hinner
              refine ⟨List.forall_mem_cons.mpr ⟨Bool.eq_false_iff.mpr hkey, helements⟩, ?_⟩
              exact hpath.imp (And.imp_right (congrArg _)) (And.imp_right (congrArg _))
          | dropped other below =>
              rw [hinner] at h
              cases h

theorem placeOf_dropped {path : List Key} {condition key : Key} (h : placeOf path = .dropped condition key) :
    condition.isBranch = true ∧ ∃ elements below,
      (∀ k ∈ elements, k.isBranch = false) ∧ path = elements ++ [condition, key] ++ below := by
  induction path with
  | nil => cases h
  | cons k path ih =>
      rw [placeOf] at h
      split at h
      · next hk =>
          cases path with
          | nil => cases h
          | cons next path =>
              cases h
              exact ⟨hk, [], path, nofun, rfl⟩
      · next hk =>
          cases hinner : placeOf path with
          | value inner other =>
              rw [hinner] at h
              cases h
          | dropped other next =>
              rw [hinner] at h
              cases h
              obtain ⟨hcondition, elements, below, helements, rfl⟩ := ih hinner
              exact ⟨hcondition, k :: elements, below,
                List.forall_mem_cons.mpr ⟨Bool.eq_false_iff.mpr hk, helements⟩, rfl⟩

theorem mem_dropped_foldBlock_of_mem {condition key : Key} {inner entries : Object}
    (h : (key, .obj inner) ∈ entries) (result : Object) :
    condition.text ++ " " ++ key.text ∈ (foldBlock condition result entries).2 := by
  induction entries generalizing result with
  | nil => cases h
  | cons entry entries ih =>
      obtain ⟨property, value⟩ := entry
      cases hvalue : value.isObject with
      | false =>
          rw [foldBlock_leaf condition result property hvalue]
          rcases List.mem_cons.mp h with heq | h
          · cases heq
            cases hvalue
          · exact ih h _
      | true =>
          obtain ⟨other, rfl⟩ := Value.eq_obj hvalue
          rw [foldBlock_block]
          rcases List.mem_cons.mp h with heq | h
          · cases heq
            exact List.mem_cons_self
          · exact List.mem_cons_of_mem _ (ih h result)

/-- Each entry drops what it has to drop, and the others follow. -/
theorem exists_dropped_cons (result : Object) (entry : Key × Value) (o : Object) :
    ∃ here next, (flattenFrom result (entry :: o)).2 = here ++ (flattenFrom next o).2 := by
  obtain ⟨key, value⟩ := entry
  cases hvalue : value.isObject with
  | false => exact ⟨[], _, congrArg Prod.snd (flattenFrom_leaf result key hvalue o)⟩
  | true =>
      obtain ⟨inner, rfl⟩ := Value.eq_obj hvalue
      rcases isConditionBlock_cases key inner with hblock | hmap | ⟨hmap, hkey⟩
      · obtain ⟨hkey, hinner⟩ := isBranch_of_isConditionBlock hblock
        exact ⟨_, _, congrArg Prod.snd (flattenFrom_branch result hkey hinner o)⟩
      · exact ⟨[], _, congrArg Prod.snd (flattenFrom_map result key hmap o)⟩
      · exact ⟨_, _, congrArg Prod.snd (flattenFrom_nested result hkey hmap o)⟩

/-- A place that an entry drops is dropped wherever the entry stands. -/
theorem mem_dropped_of_mem {place : String} {entry : Key × Value} {o : Object} (h : entry ∈ o)
    (hentry : ∀ result rest, place ∈ (flattenFrom result (entry :: rest)).2) (result : Object) :
    place ∈ (flattenFrom result o).2 := by
  induction o generalizing result with
  | nil => cases h
  | cons first o ih =>
      rcases List.mem_cons.mp h with rfl | h
      · exact hentry result o
      · obtain ⟨here, next, hdropped⟩ := exists_dropped_cons result first o
        rw [hdropped]
        exact List.mem_append_right here (ih h next)

theorem exists_of_within?_cons {o : Object} {key : Key} {path : List Key}
    (h : (o.within? (key :: path)).isSome = true) :
    ∃ inner, o.get? key = some (.obj inner) ∧ (Object.within? inner path).isSome = true := by
  rw [Object.within?] at h
  split at h
  · next inner hget => exact ⟨inner, hget, h⟩
  · cases h

section

variable {φ : Renaming} {o : Object}

theorem Raw.inner_rename (h : Raw (o.rename φ)) {key : Key} {inner : Object}
    (hget : o.get? key = some (.obj inner)) :
    Raw (Object.rename φ inner) ∧ Object.isConditional inner = false := by
  have hrenamed : (o.rename φ).get? (φ.apply key) = some (.obj (Object.rename φ inner)) := by
    rw [Object.get?_rename, hget]
    rfl
  have hraw := h.inner hrenamed
  exact ⟨hraw, (Object.isConditional_rename φ inner).symm.trans hraw.not_isConditional⟩

/-- A block below a condition is dropped, whatever nested objects the condition stands in. -/
theorem mem_dropped_of_within? (h : Raw (o.rename φ)) {elements : List Key}
    (helements : ∀ key ∈ elements, key.isBranch = false) {condition key : Key}
    (hcondition : condition.isBranch = true)
    (hwithin : (o.within? (elements ++ [condition, key])).isSome = true) :
    condition.text ++ " " ++ key.text ∈ (flatten o).2 := by
  induction elements generalizing o with
  | nil =>
      obtain ⟨block, hblock, hbelow⟩ := exists_of_within?_cons hwithin
      obtain ⟨inner, hinner, -⟩ := exists_of_within?_cons hbelow
      refine mem_dropped_of_mem (Lowering.mem_of_get? hblock) (fun result rest => ?_) []
      rw [flattenFrom_branch result hcondition (h.inner_rename hblock).2]
      exact List.mem_append_left _ (mem_dropped_foldBlock_of_mem (Lowering.mem_of_get? hinner) result)
  | cons e elements ih =>
      obtain ⟨he, hrest⟩ := List.forall_mem_cons.mp helements
      obtain ⟨inner, hget, hbelow⟩ := exists_of_within?_cons hwithin
      obtain ⟨hraw, hmap⟩ := h.inner_rename hget
      refine mem_dropped_of_mem (Lowering.mem_of_get? hget) (fun result rest => ?_) []
      rw [flattenFrom_nested result he hmap]
      exact List.mem_append_left _ (ih hraw hrest hbelow)

end

namespace RepresentsAs

variable {φ : Renaming} {o : Object} {cs : List Contribution} {blocks : List (List Key)}

/-- The folded object holds the last value that is contributed to a property at a place for values. -/
theorem held (h : RepresentsAs φ o cs blocks) {path elements : List Key} {condition : Key}
    (hpath : ∀ key ∈ path, (φ.apply key).opensBlock = true)
    (hplace : placeOf path = .value elements condition) {property : Key} {value : Value}
    (hlast : Contribution.last cs path property = some value) (hvalue : value.isObject = false) :
    (flatten o).1.held? elements property condition = some value := by
  obtain ⟨hbranch, hcases⟩ := placeOf_value hplace
  have helements : ∀ key ∈ elements.map φ.apply, key.isPseudoElement = true := by
    refine List.forall_mem_map.mpr fun key hkey => ?_
    have hmem : key ∈ path := by
      rcases hcases with ⟨-, rfl⟩ | ⟨-, rfl⟩
      · exact hkey
      · exact List.mem_append_left _ hkey
    have hopens := hpath key hmem
    rwa [Key.opensBlock, φ.isBranch, hbranch key hkey, Bool.or_false] at hopens
  have hcascades := Represents.cascades h
  have hheld : (flatten (o.rename φ)).1.held? (elements.map φ.apply) (φ.apply property)
      (φ.apply condition) = some value := by
    rw [← Contribution.last_rename φ] at hlast
    rcases hcases with ⟨rfl, rfl⟩ | ⟨hcondition, rfl⟩
    · rw [φ.default]
      exact (hcascades.base _ _ value helements).mpr (.inl hlast)
    · rw [List.map_append] at hlast
      exact (hcascades.under _ _ _ helements ((φ.isBranch condition).trans hcondition)).trans hlast
  rw [← rename_flatten, held?_rename] at hheld
  obtain ⟨found, hfound, hrenamed⟩ := Option.map_eq_some_iff.mp hheld
  rw [hfound, (Value.rename_eq_iff φ hvalue).mp hrenamed]

/-- A block below a condition is dropped, and its place is returned. -/
theorem mem_dropped (h : RepresentsAs φ o cs blocks) {path : List Key} (hmem : path ∈ blocks)
    {condition key : Key} (hplace : placeOf path = .dropped condition key) :
    condition.text ++ " " ++ key.text ∈ (flatten o).2 := by
  obtain ⟨hcondition, elements, below, helements, rfl⟩ := placeOf_dropped hplace
  refine mem_dropped_of_within? h.raw helements hcondition ?_
  have hwithin := (h.opens ((elements ++ [condition, key]).map φ.apply)).mpr
    ⟨_, List.mem_map_of_mem hmem, ⟨below.map φ.apply, List.map_append.symm⟩⟩
  rwa [within?_rename, Option.isSome_map] at hwithin

end RepresentsAs

/-! ## What becomes of a declaration -/

/--
A declaration is kept: it sets some properties, and at its place the object holds the last value that is
contributed to each of them there, its own or that of a later declaration.
-/
def Site.Kept (site : Site) (cs : List Contribution) (styles : Object) : Prop :=
  site.lost = false ∧ declared site.declaration ≠ [] ∧
    ∃ elements condition, placeOf site.path = .value elements condition ∧
      ∀ entry ∈ declared site.declaration, ∃ value,
        Contribution.last cs site.path entry.1 = some value ∧
          styles.held? elements entry.1 condition = some value

/-- A declaration stands in a block that is reported because it is dropped. -/
def Site.Reported (site : Site) (location : Option Location) (reports : List Diagnostic) : Prop :=
  ∃ condition key, placeOf site.path = .dropped condition key ∧
    droppedReport location (condition.text ++ " " ++ key.text) ∈ reports

/-- Every declaration with a name is kept, or a block that it stands in is reported. -/
def NoSilentLoss (rule : Css.Rule) (location : Option Location) (styles : Object)
    (reports : List Diagnostic) : Prop :=
  ∀ site ∈ sites rule, site.declaration.property ≠ "" →
    site.Kept (offers rule) styles ∨ site.Reported location reports

/-- No block is opened under the key of a property that is set, or under the default of a map. -/
structure KeysApart (rule : Css.Rule) : Prop where
  property : ∀ c ∈ offers rule, c.property.isProperty = true
  unopened : ∀ c ∈ offers rule, ∀ path ∈ openings rule, c.property ∉ path
  default : ∀ path ∈ openings rule, Key.default ∉ path

instance (rule : Css.Rule) : Decidable (KeysApart rule) :=
  decidable_of_iff
    ((∀ c ∈ offers rule, c.property.isProperty = true) ∧
      (∀ c ∈ offers rule, ∀ path ∈ openings rule, c.property ∉ path) ∧
      ∀ path ∈ openings rule, Key.default ∉ path)
    ⟨fun h => ⟨h.1, h.2.1, h.2.2⟩, fun h => ⟨h.1, h.2, h.3⟩⟩

/-- The raw selectors of a rule can be read as pseudo-elements if they are apart from its properties. -/
theorem exists_suits {rule : Css.Rule} (h : KeysApart rule) : ∃ φ, Suits φ rule := by
  refine ⟨Renaming.elements fun key => (openings rule).any (·.contains key), fun c hc => ?_,
    fun path hpath key hkey => ?_⟩
  · rw [Renaming.elements_of_isProperty (h.property c hc)]
    · exact h.property c hc
    · refine List.any_eq_false.mpr fun path hpath hcontains => ?_
      exact h.unopened c hc path hpath (List.contains_iff_mem.mp hcontains)
  · apply Renaming.opensBlock_elements
    · rintro rfl
      exact h.default path hpath hkey
    · exact List.any_eq_true.mpr ⟨path, hpath, List.contains_iff_mem.mpr hkey⟩

theorem mem_offers {rule : Css.Rule} {site : Site} (hsite : site ∈ sites rule) (hlost : site.lost = false)
    {entry : Key × Value} (hentry : entry ∈ declared site.declaration) :
    ⟨site.path, entry.1, entry.2⟩ ∈ offers rule := by
  refine List.mem_flatMap.mpr ⟨site, hsite, ?_⟩
  rw [Site.offered, hlost, if_neg Bool.false_ne_true]
  exact List.mem_map_of_mem hentry

namespace Site

variable {φ : Renaming} {rule : Css.Rule} {o : Object} {site : Site}

/-- At a place for values, a declaration that an object represents is kept when the object is folded. -/
theorem kept (hsuits : Suits φ rule) (ho : RepresentsAs φ o (offers rule) (openings rule))
    (hsite : site ∈ sites rule) (hlost : site.lost = false) (hname : site.declaration.property ≠ "")
    {elements : List Key} {condition : Key} (hplace : placeOf site.path = .value elements condition) :
    site.Kept (offers rule) (flatten o).1 := by
  refine ⟨hlost, declared_ne_nil hname, elements, condition, hplace, fun entry hentry => ?_⟩
  obtain ⟨value, hlast⟩ := Option.isSome_iff_exists.mp
    (Contribution.isSome_last (mem_offers hsite hlost hentry))
  obtain ⟨c, hc, -, -, rfl⟩ := Contribution.exists_of_last hlast
  refine ⟨c.value, hlast, ?_⟩
  exact ho.held (hsuits.block site.path (path_mem_openings hsite)) hplace hlast (isObject_of_mem_offers hc)

/-- Below a condition, there is a report for the block of every declaration, lost or not. -/
theorem reported (ho : RepresentsAs φ o (offers rule) (openings rule)) (hsite : site ∈ sites rule)
    (hdropped : (placeOf site.path).isDropped = true) (location : Option Location) :
    site.Reported location ((flatten o).2.map (droppedReport location)) := by
  cases hplace : placeOf site.path with
  | value elements condition =>
      rw [hplace] at hdropped
      cases hdropped
  | dropped condition key =>
      exact ⟨condition, key, hplace,
        List.mem_map_of_mem (ho.mem_dropped (path_mem_openings hsite) hplace)⟩

end Site

section

variable {τ : Type}

/--
A rule without slots, in which blocks and properties have different keys, converts without a silent loss
exactly if every named declaration of an at-rule without a counterpart stands in a block that is dropped below
a condition, for which there is a report.
-/
theorem noSilentLoss_iff {rule : Css.Rule} (hslots : isSlotFree rule = true) (hkeys : KeysApart rule)
    (r : Resolver τ) (s : Session τ) :
    ∃ styles reports s', (convert r rule).run s = (.ok styles, s') ∧
      s'.diagnostics.items = s.diagnostics.items ++ reports ∧
      (NoSilentLoss rule r.location styles reports ↔
        ∀ site ∈ sites rule, site.lost = true → site.declaration.property ≠ "" →
          (placeOf site.path).isDropped = true) := by
  obtain ⟨φ, hsuits⟩ := exists_suits hkeys
  obtain ⟨o, s₁, hrun, hsilent, ho⟩ := yields_rule r hslots hsuits {} s
  obtain ⟨d, hreports, hitems⟩ := run_reportDropped r.location (flatten o).2 s₁
  refine ⟨(flatten o).1, (flatten o).2.map (droppedReport r.location), { s₁ with diagnostics := d }, ?_,
    by rw [← hsilent]; exact hitems, fun hnone site hsite hlost hname => ?_, fun hlosses site hsite hname => ?_⟩
  · rw [convert, Work.run_bind_ok _ hrun]
    exact Work.run_bind_ok _ hreports
  · rcases hnone site hsite hname with ⟨hfalse, -⟩ | ⟨condition, key, hplace, -⟩
    · cases hfalse.symm.trans hlost
    · rw [hplace]
      rfl
  · cases hdropped : (placeOf site.path).isDropped with
    | true => exact .inr (Site.reported ho hsite hdropped r.location)
    | false =>
        have hlost : site.lost = false := by
          refine Bool.eq_false_iff.mpr fun hlost => ?_
          cases hdropped.symm.trans (hlosses site hsite hlost hname)
        cases hplace : placeOf site.path with
        | value elements condition => exact .inl (Site.kept hsuits ho hsite hlost hname hplace)
        | dropped condition key =>
            rw [hplace] at hdropped
            cases hdropped

end

/-- A rule with a raw selector, a group, a pseudo-element, and an at-rule without a counterpart. -/
def branchingRule : Css.Rule where
  selector := "&"
  declarations := [⟨"color", "red"⟩, ⟨"color", "blue"⟩]
  nested :=
    [{ selector := "& > a", declarations := [⟨"margin", "1px 2px"⟩],
       nested := [{ selector := "&:hover, &::before", declarations := [⟨"color", "green"⟩] }] },
      { selector := "@media print",
        nested := [{ selector := "&:focus", declarations := [⟨"color", "gray"⟩],
                     nested := [{ selector := "@font-face", declarations := [⟨"font-family", "x"⟩] }] }] }]

theorem noSilentLoss_branchingRule :
    isSlotFree branchingRule = true ∧ KeysApart branchingRule ∧
      ∃ styles reports s', (convert Resolver.none branchingRule).run { store := () } = (.ok styles, s') ∧
        s'.diagnostics.items = reports ∧ NoSilentLoss branchingRule none styles reports := by
  have hslots : isSlotFree branchingRule = true := by decide
  have hkeys : KeysApart branchingRule := by decide
  obtain ⟨styles, reports, s', hrun, hitems, hiff⟩ :=
    noSilentLoss_iff hslots hkeys Resolver.none { store := () }
  exact ⟨hslots, hkeys, styles, reports, s', hrun, hitems, hiff.mpr (by decide)⟩

/-- A rule with an at-rule that has no counterpart, next to a declaration. -/
def fontRule : Css.Rule where
  selector := "&"
  declarations := [⟨"color", "red"⟩]
  nested := [{ selector := "@font-face", declarations := [⟨"font-family", "x"⟩] }]

theorem not_noSilentLoss_fontRule :
    isSlotFree fontRule = true ∧
      ∃ styles s', (convert Resolver.none fontRule).run { store := () } = (.ok styles, s') ∧
        s'.diagnostics.items = [] ∧ ¬ NoSilentLoss fontRule none styles [] := by
  refine ⟨by decide, _, _, rfl, rfl, fun h => ?_⟩
  rcases h { lost := true, declaration := ⟨"font-family", "x"⟩ } (by decide) (by decide) with
    ⟨hlost, -⟩ | ⟨condition, key, hplace, -⟩
  · cases hlost
  · cases hplace

/-- A rule with a property and, in the same block, a raw selector of the same name. -/
def overwritingRule : Css.Rule where
  selector := "&"
  nested :=
    [{ selector := "&::before", declarations := [⟨"filter", "none"⟩] },
      { selector := "&::before",
        nested := [{ selector := "filter", declarations := [⟨"color", "red"⟩] }] }]

/-- Without keys that are apart, a block may take the place of a value, and there is no report. -/
theorem not_noSilentLoss_overwritingRule :
    isSlotFree overwritingRule = true ∧ (∀ site ∈ sites overwritingRule, site.lost = false) ∧
      ∃ styles s', (convert Resolver.none overwritingRule).run { store := () } = (.ok styles, s') ∧
        s'.diagnostics.items = [] ∧ ¬ NoSilentLoss overwritingRule none styles [] := by
  have hplaceOf : placeOf [.name "::before"] = .value [.name "::before"] Key.default := by decide
  have hkeys : (declared ⟨"filter", "none"⟩).map Prod.fst = [.name "filter"] := by decide
  have hresult : (((convert Resolver.none overwritingRule).run ({ store := () } : Session Unit)).1.toOption.any
        fun styles => (styles.held? [.name "::before"] (.name "filter") Key.default).isNone) = true ∧
      ((convert Resolver.none overwritingRule).run
        ({ store := () } : Session Unit)).2.diagnostics.items.isEmpty = true := by decide +kernel
  cases hrun : (convert Resolver.none overwritingRule).run ({ store := () } : Session Unit) with
  | mk result s' =>
      rw [hrun] at hresult
      obtain ⟨hnone, hsilent⟩ := hresult
      cases result with
      | error f => cases hnone
      | ok styles =>
          refine ⟨by decide, by decide, styles, s', rfl, List.isEmpty_iff.mp hsilent, fun h => ?_⟩
          rcases h { path := [.name "::before"], declaration := ⟨"filter", "none"⟩ } (by decide)
              (by decide) with ⟨-, -, elements, condition, hplace, hentries⟩ | ⟨condition, key, hplace, -⟩
          · cases hplaceOf.symm.trans hplace
            obtain ⟨entry, hentry, hkey⟩ := List.mem_map.mp (hkeys ▸ List.mem_singleton.mpr rfl)
            obtain ⟨value, -, hheld⟩ := hentries entry hentry
            rw [hkey] at hheld
            rw [Except.toOption, Option.any_some, hheld] at hnone
            cases hnone
          · cases hplaceOf.symm.trans hplace

end Restyle.Style
