import Restyle.Tsx.Source

/-!
# What patterns read

A relation that tells what a pattern can read, without fuel and without the order of choices.  All that a
reader yields is in the relation, so what holds along its rules holds of every tree.  Whether a choice
comes before another one or a reading could go on does not matter for where nodes stand, so the relation
leaves it open.
-/

namespace Restyle.Tsx

/-- What there is to read: a pattern, or the base of a chain with some of its growths. -/
inductive Task (ρ : Type) where
  | form (p : Pattern ρ)
  | grown (base : Pattern ρ) (growths : List (Growth (Pattern ρ)))

namespace Reader

/-- What has been read, in the part that it plays in a larger node. -/
def inPart (role : Option Role) (nodes : List Node) : List Node :=
  match role with
  | some role => withRole role nodes
  | none => nodes

/-- Whether a growth accepts what has been read. -/
def accepted (accepts : List Kind) (nodes : List Node) : Bool :=
  accepts.isEmpty || (lastKind? nodes).any accepts.contains

end Reader

variable {ρ : Type}

/-- `Reads grammar task c nodes c'`: at `c` the nodes can be read for a task, and `c'` comes after them. -/
inductive Reads (grammar : ρ → Pattern ρ) : Task ρ → Cursor → List Node → Cursor → Prop where
  | word {text : String} {kept : Bool} {c c' : Cursor} {ns : List Node} :
      Reader.token (Reader.wordLength? text) (if kept then some .token else none) c = some (ns, c') →
      Reads grammar (.form (.word text kept)) c ns c'
  | sign {text : String} {except : List String} {kept : Bool} {c c' : Cursor} {ns : List Node} :
      Reader.token (Reader.signLength? text except) (if kept then some .token else none) c =
        some (ns, c') →
      Reads grammar (.form (.sign text except kept)) c ns c'
  | joined {text : String} {c : Cursor} {n : Nat} : Reader.signLength? text [] c.rest = some n →
      Reads grammar (.form (.joined text)) c [] (c.advance n)
  | lexeme {kind : Kind} {part : Lexeme} {c c' : Cursor} {ns : List Node} :
      Reader.token part.length? (some kind) c = some (ns, c') →
      Reads grammar (.form (.lexeme kind part)) c ns c'
  | joinedLexeme {kind : Kind} {part : Lexeme} {c : Cursor} {n : Nat} :
      part.length? c.rest = some n →
      Reads grammar (.form (.joinedLexeme kind part)) c [c.leaf kind n] (c.advance n)
  | name {kind : Kind} {except : List String} {c c' : Cursor} {ns : List Node} :
      Reader.token (Reader.nameLengthExcept? except) (some kind) c = some (ns, c') →
      Reads grammar (.form (.name kind except)) c ns c'
  | rule {r : ρ} {c c' : Cursor} {ns : List Node} :
      Reads grammar (.form (grammar r)) c ns c' → Reads grammar (.form (.rule r)) c ns c'
  | seqNil {c : Cursor} : Reads grammar (.form (.seq [])) c [] c
  | seqCons {p : Pattern ρ} {ps : List (Pattern ρ)} {c c₁ c₂ : Cursor} {ns ms : List Node} :
      Reads grammar (.form p) c ns c₁ → Reads grammar (.form (.seq ps)) c₁ ms c₂ →
      Reads grammar (.form (.seq (p :: ps))) c (ns ++ ms) c₂
  | alt {p : Pattern ρ} {ps : List (Pattern ρ)} {c c' : Cursor} {ns : List Node} : p ∈ ps →
      Reads grammar (.form p) c ns c' → Reads grammar (.form (.alt ps)) c ns c'
  | manyStop {p : Pattern ρ} {c : Cursor} : Reads grammar (.form (.many p)) c [] c
  | manyMore {p : Pattern ρ} {c c₁ c₂ : Cursor} {ns ms : List Node} :
      Reads grammar (.form p) c ns c₁ → Reads grammar (.form (.many p)) c₁ ms c₂ →
      Reads grammar (.form (.many p)) c (ns ++ ms) c₂
  | maybeNone {p : Pattern ρ} {c : Cursor} : Reads grammar (.form (.maybe p)) c [] c
  | maybeSome {p : Pattern ρ} {c c' : Cursor} {ns : List Node} :
      Reads grammar (.form p) c ns c' → Reads grammar (.form (.maybe p)) c ns c'
  | ahead {p : Pattern ρ} {c : Cursor} : Reads grammar (.form (.ahead p)) c [] c
  | lacks {p : Pattern ρ} {c : Cursor} : Reads grammar (.form (.lacks p)) c [] c
  | node {kind : Kind} {p : Pattern ρ} {c c' : Cursor} {ns : List Node} :
      Reads grammar (.form p) c.skip.2 ns c' →
      Reads grammar (.form (.node kind p)) c (c.skip.1 ++ [c.skip.2.nodeTo c' kind ns]) c'
  | role {role : Role} {p : Pattern ρ} {c c' : Cursor} {ns : List Node} :
      Reads grammar (.form p) c ns c' →
      Reads grammar (.form (.role role p)) c (Reader.withRole role ns) c'
  | ofKind {kinds : List Kind} {p : Pattern ρ} {c c' : Cursor} {ns : List Node} :
      Reads grammar (.form p) c ns c' → Reads grammar (.form (.ofKind kinds p)) c ns c'
  | chain {base : Pattern ρ} {growths : List (Growth (Pattern ρ))} {c c' : Cursor} {ns : List Node} :
      Reads grammar (.grown base growths) c.skip.2 ns c' →
      Reads grammar (.form (.chain base growths)) c (c.skip.1 ++ ns) c'
  | goesOn {c : Cursor} : Reads grammar (.form .goesOn) c [] c
  | semicolon {fuel : Nat} {c c' : Cursor} {ns : List Node} :
      Reader.semicolon c.afterValue fuel c = some (ns, c') →
      Reads grammar (.form .semicolon) c ns c'
  | last {value : Bool} {p : Pattern ρ} {c c' : Cursor} {ns : List Node} :
      Reads grammar (.form p) { c with ending := some value } ns c' →
      Reads grammar (.form (.last value p)) c ns { c' with ending := c.ending, afterValue := value }
  | closed {p : Pattern ρ} {c c' : Cursor} {ns : List Node} :
      Reads grammar (.form p) { c with ending := none, plainArrows := false } ns c' →
      Reads grammar (.form (.closed p)) c ns
        { c' with ending := c.ending, plainArrows := c.plainArrows }
  | plainArrows {p : Pattern ρ} {c c' : Cursor} {ns : List Node} :
      Reads grammar (.form p) { c with plainArrows := true } ns c' →
      Reads grammar (.form (.plainArrows p)) c ns { c' with plainArrows := c.plainArrows }
  | arrowTypes {c : Cursor} : Reads grammar (.form .arrowTypes) c [] c
  | growBase {base : Pattern ρ} {growths : List (Growth (Pattern ρ))} {c c' : Cursor} {ns : List Node} :
      Reads grammar (.form base) c ns c' → Reads grammar (.grown base growths) c ns c'
  | growMore {base : Pattern ρ} {growths : List (Growth (Pattern ρ))} {g : Growth (Pattern ρ)}
      {c c₁ c₂ : Cursor} {ns more : List Node} :
      Reads grammar (.grown base growths) c ns c₁ → g ∈ growths →
      Reader.accepted g.accepts ns = true → Reads grammar (.form g.rest) c₁ more c₂ →
      Reads grammar (.grown base growths) c
        [c.nodeTo c₂ g.kind (Reader.inPart g.role ns ++ more)] c₂

/-! ## Readings are in the relation -/

namespace Reads

variable {grammar : ρ → Pattern ρ} {read : Pattern ρ → Reader}

/-- A reader of patterns that yields only what is in the relation. -/
def Sound (grammar : ρ → Pattern ρ) (read : Pattern ρ → Reader) : Prop :=
  ∀ p c ns c', read p c = some (ns, c') → Reads grammar (.form p) c ns c'

theorem of_sequence (hread : Sound grammar read) {ps : List (Pattern ρ)} {c c' : Cursor}
    {ns : List Node} (h : Reader.sequence (ps.map read) c = some (ns, c')) :
    Reads grammar (.form (.seq ps)) c ns c' := by
  induction ps generalizing c ns with
  | nil =>
      cases h
      exact .seqNil
  | cons p ps ih =>
      obtain ⟨⟨before, c₁⟩, hp, h⟩ := Option.bind_eq_some_iff.mp h
      obtain ⟨⟨after, c₂⟩, hps, h⟩ := Option.bind_eq_some_iff.mp h
      cases h
      exact .seqCons (hread p c before c₁ hp) (ih hps)

theorem of_firstOf (hread : Sound grammar read) {ps : List (Pattern ρ)} {c c' : Cursor}
    {ns : List Node} (h : Reader.firstOf (ps.map read) c = some (ns, c')) :
    Reads grammar (.form (.alt ps)) c ns c' := by
  suffices ∃ p ∈ ps, read p c = some (ns, c') by
    obtain ⟨p, hmem, hp⟩ := this
    exact .alt hmem (hread p c ns c' hp)
  induction ps with
  | nil => cases h
  | cons p ps ih =>
      rw [List.map_cons, Reader.firstOf] at h
      split at h
      · next result hp =>
          cases h
          exact ⟨p, List.mem_cons_self, hp⟩
      · obtain ⟨q, hmem, hq⟩ := ih h
        exact ⟨q, List.mem_cons_of_mem p hmem, hq⟩

theorem of_repeated (hread : Sound grammar read) {p : Pattern ρ} (n : Nat) {c c' : Cursor}
    {ns : List Node} (h : Reader.repeated (read p) n c = some (ns, c')) :
    Reads grammar (.form (.many p)) c ns c' := by
  induction n generalizing c ns with
  | zero =>
      cases h
      exact .manyStop
  | succ n ih =>
      have once : ∀ ms c₁, read p c = some (ms, c₁) → Reads grammar (.form (.many p)) c ms c₁ := by
        intro ms c₁ hp
        have hmany := (hread p c ms c₁ hp).manyMore .manyStop
        rwa [List.append_nil] at hmany
      rw [Reader.repeated] at h
      split at h
      · cases h
        exact .manyStop
      · next ms c₁ hp =>
          split at h
          · cases h
            exact once _ _ hp
          · split at h
            · next more c₂ hmore =>
                cases h
                exact (hread p c ms c₁ hp).manyMore (ih hmore)
            · cases h
              exact once _ _ hp

theorem of_growthOf (hread : Sound grammar read) {base : Pattern ρ}
    {growths all : List (Growth (Pattern ρ))} (hsub : ∀ g ∈ growths, g ∈ all) {start c c' : Cursor}
    {ns ms : List Node} (hgrown : Reads grammar (.grown base all) start ns c)
    (h : Reader.growthOf start ns c (growths.map fun g => g.map read) = some (ms, c')) :
    Reads grammar (.grown base all) start ms c' := by
  induction growths with
  | nil => cases h
  | cons g growths ih =>
      have hrest := fun h => ih (fun g' hmem => hsub g' (List.mem_cons_of_mem g hmem)) h
      rw [List.map_cons, Reader.growthOf] at h
      split at h
      · next haccepted =>
          split at h
          · next more c₁ hmore =>
              cases h
              exact hgrown.growMore (hsub g List.mem_cons_self) haccepted (hread _ _ _ _ hmore)
          · exact hrest h
      · exact hrest h

theorem of_grow (hread : Sound grammar read) {base : Pattern ρ} {growths : List (Growth (Pattern ρ))}
    {start : Cursor} (n : Nat) {c : Cursor} {ns : List Node}
    (hgrown : Reads grammar (.grown base growths) start ns c) :
    Reads grammar (.grown base growths) start
      (Reader.grow (growths.map fun g => g.map read) start n ns c).1
      (Reader.grow (growths.map fun g => g.map read) start n ns c).2 := by
  induction n generalizing c ns with
  | zero => exact hgrown
  | succ n ih =>
      rw [Reader.grow]
      split
      · exact hgrown
      · split
        · next ms c₁ hgrowth => exact ih (of_growthOf hread (fun _ h => h) hgrown hgrowth)
        · exact hgrown

/-- What a reader yields is in the relation. -/
theorem of_read (fuel : Nat) : Sound grammar (Pattern.read grammar fuel) := by
  induction fuel with
  | zero => exact nofun
  | succ fuel ih =>
      intro p c ns c' h
      cases p with
      | word text kept => exact .word h
      | sign text except kept => exact .sign h
      | joined text =>
          obtain ⟨n, hn, h⟩ := Option.map_eq_some_iff.mp h
          cases h
          exact .joined hn
      | lexeme kind part => exact .lexeme h
      | joinedLexeme kind part =>
          obtain ⟨n, hn, h⟩ := Option.map_eq_some_iff.mp h
          cases h
          exact .joinedLexeme hn
      | name kind except => exact .name h
      | rule r => exact .rule (ih _ c ns c' h)
      | seq parts => exact of_sequence ih h
      | alt choices => exact of_firstOf ih h
      | many p => exact of_repeated ih fuel h
      | maybe p =>
          cases hp : Pattern.read grammar fuel p c with
          | none =>
              simp only [Pattern.read, hp, Option.getD_none, Option.some.injEq, Prod.mk.injEq] at h
              obtain ⟨rfl, rfl⟩ := h
              exact .maybeNone
          | some result =>
              simp only [Pattern.read, hp, Option.getD_some, Option.some.injEq] at h
              subst h
              exact .maybeSome (ih p c ns c' hp)
      | ahead p =>
          obtain ⟨result, -, h⟩ := Option.map_eq_some_iff.mp h
          cases h
          exact .ahead
      | lacks p =>
          simp only [Pattern.read] at h
          split at h
          · cases h
          · cases h
            exact .lacks
      | node kind p =>
          obtain ⟨⟨ms, c₁⟩, hp, h⟩ := Option.map_eq_some_iff.mp h
          cases h
          exact .node (ih p _ _ _ hp)
      | role r p =>
          obtain ⟨⟨ms, c₁⟩, hp, h⟩ := Option.map_eq_some_iff.mp h
          cases h
          exact .role (ih p c _ _ hp)
      | ofKind kinds p => exact .ofKind (ih p c ns c' (Option.filter_eq_some_iff.mp h).1)
      | chain base growths =>
          obtain ⟨⟨ms, c₁⟩, hp, h⟩ := Option.map_eq_some_iff.mp h
          cases h
          exact .chain (of_grow ih fuel (.growBase (ih base _ _ _ hp)))
      | goesOn =>
          simp only [Pattern.read] at h
          split at h
          · cases h
          · cases h
            exact .goesOn
      | semicolon => exact .semicolon h
      | last value p =>
          obtain ⟨⟨ms, c₁⟩, hp, h⟩ := Option.map_eq_some_iff.mp h
          cases h
          exact .last (ih p _ _ _ hp)
      | closed p =>
          obtain ⟨⟨ms, c₁⟩, hp, h⟩ := Option.map_eq_some_iff.mp h
          cases h
          exact .closed (ih p _ _ _ hp)
      | plainArrows p =>
          obtain ⟨⟨ms, c₁⟩, hp, h⟩ := Option.map_eq_some_iff.mp h
          cases h
          exact .plainArrows (ih p _ _ _ hp)
      | arrowTypes =>
          simp only [Pattern.read] at h
          split at h
          · cases h
          · cases h
            exact .arrowTypes

end Reads

/-! ## Texts that are written down -/

/-- The tree of the module with these characters. -/
def Source.ofChars (cs : List Char) : Source :=
  let start : Cursor := { rest := cs }
  let (line, body) := readProgramLine start
  let (nodes, hasErrors, stop) := readStatements (readingFuel cs) (cs.length + 1) body
  { root := start.nodeTo stop .program (line ++ nodes), hasErrors }

-- The characters of a literal are known by its form; computing them from its bytes takes quadratic time.
theorem Source.read_eq_ofChars {text : String} {cs : List Char} (h : text.toList = cs) :
    read text = ofChars cs := by
  subst h
  rfl

end Restyle.Tsx

namespace Restyle.Text

theorem toList_append_of {s t : String} {cs ds : List Char} (hs : s.toList = cs) (ht : t.toList = ds) :
    (s ++ t).toList = cs ++ ds := by
  rw [String.toList_append, hs, ht]

end Restyle.Text
