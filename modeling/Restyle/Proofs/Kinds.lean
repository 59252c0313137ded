import Restyle.Proofs.Endings
import Restyle.Proofs.Parts

/-!
# Kinds of nodes that patterns make

Two questions about patterns that their form answers: which kinds of nodes they make at all, and which
kinds of nodes, in which parts, stand side by side in what they read.
-/

namespace Restyle.Tsx

/-! ## Kinds that patterns make -/

section

variable {ρ : Type} (ends : ρ → Ending) (allowed : ρ → Bool) (ok : Kind → Ending → Bool)

mutual

/-- Whether a pattern makes only nodes of certain kinds and endings and refers to allowed rules only. -/
def Pattern.regular : Pattern ρ → Bool
  | .lexeme kind _ | .joinedLexeme kind _ | .name kind _ => ok kind .loose
  | .rule r => allowed r
  | .seq ps | .alt ps => areRegular ps
  | .many p | .maybe p | .role _ p | .ofKind _ p | .last _ p | .closed p | .plainArrows p => p.regular
  | .node kind p => ok kind (p.ending ends) && p.regular
  | .chain base growths => base.regular && areRegularGrowths growths
  | _ => true

/-- Whether some patterns are so. -/
def areRegular : List (Pattern ρ) → Bool
  | [] => true
  | p :: ps => p.regular && areRegular ps

/-- Whether some growths are so. -/
def areRegularGrowths : List (Growth (Pattern ρ)) → Bool
  | [] => true
  | g :: gs => isRegularGrowth g && areRegularGrowths gs

/-- Whether a growth is so. -/
def isRegularGrowth : Growth (Pattern ρ) → Bool
  | ⟨kind, _, _, rest⟩ => ok kind .loose && rest.regular

end

variable {ends allowed ok}

theorem areRegular_iff {ps : List (Pattern ρ)} :
    areRegular ends allowed ok ps = true ↔ ∀ p ∈ ps, p.regular ends allowed ok = true := by
  induction ps with
  | nil => simp [areRegular]
  | cons p ps ih => simp [areRegular, ih]

theorem areRegularGrowths_iff {gs : List (Growth (Pattern ρ))} :
    areRegularGrowths ends allowed ok gs = true ↔
      ∀ g ∈ gs, ok g.kind .loose = true ∧ g.rest.regular ends allowed ok = true := by
  induction gs with
  | nil => simp [areRegularGrowths]
  | cons g gs ih =>
      cases g
      simp [areRegularGrowths, isRegularGrowth, ih]

/-- What regular patterns make has a property if all nodes of the right kinds and endings have it. -/
theorem Pattern.each_of_regular {grammar : ρ → Pattern ρ} {At : Cursor → Prop} {Q : Node → Prop}
    (hloose : ∀ n, ok n.kind .loose = true → Q n)
    (hnode : ∀ kind p start ns c, ok kind (p.ending ends) = true → At start → start.Settled →
      Reads grammar (.form p) start ns c → Q (start.nodeTo c kind ns))
    (p : Pattern ρ) (h : p.regular ends allowed ok = true) :
    p.Each (Builds grammar (fun r => allowed r = true) At Q) := by
  induction p using Pattern.induction with
  | step p ih =>
      have single : ∀ {q : Pattern ρ}, p.parts = [q] → q.regular ends allowed ok = true →
          ∀ r ∈ p.parts, r.Each (Builds grammar (fun r => allowed r = true) At Q) := by
        intro q hparts hq r hr
        rw [hparts] at hr
        cases List.mem_singleton.mp hr
        exact ih q (hparts ▸ List.mem_singleton.mpr rfl) hq
      cases p with
      | word | sign | joined | ahead | lacks | goesOn | semicolon | arrowTypes =>
          exact .intro trivial fun _ hq => absurd hq List.not_mem_nil
      | lexeme | joinedLexeme | name =>
          exact .intro (fun _ _ _ => hloose _ h) fun _ hq => absurd hq List.not_mem_nil
      | rule => exact .intro h fun _ hq => absurd hq List.not_mem_nil
      | seq | alt => exact .intro trivial fun q hq => ih q hq (areRegular_iff.mp h q hq)
      | many | maybe | role | ofKind | last | closed | plainArrows => exact .intro trivial (single rfl h)
      | node kind p =>
          rw [Pattern.regular, Bool.and_eq_true] at h
          exact .intro (fun start ns c hat hsettled hread => hnode kind p start ns c h.1 hat hsettled hread)
            (single rfl h.2)
      | chain base growths =>
          rw [Pattern.regular, Bool.and_eq_true] at h
          have hgrowths := areRegularGrowths_iff.mp h.2
          refine .intro (fun _ _ _ g _ _ _ _ _ hg _ _ => hloose _ (hgrowths g hg).1) fun q hq => ih q hq ?_
          rcases List.mem_cons.mp hq with rfl | hq
          · exact h.1
          · obtain ⟨g, hg, rfl⟩ := List.mem_map.mp hq
            exact (hgrowths g hg).2

end

/-! ## Kinds and parts of what is read -/

section

variable {ρ : Type} (shown : ρ → Option (List (Kind × Option Role)))

mutual

/-- The kinds and parts of the nodes that a pattern reads, comments apart; `none` if they are not known. -/
def Pattern.shows : Pattern ρ → Option (List (Kind × Option Role))
  | .word _ kept | .sign _ _ kept => some (if kept then [(.token, none)] else [])
  | .lexeme kind _ | .joinedLexeme kind _ | .name kind _ => some [(kind, none)]
  | .rule r => shown r
  | .seq ps | .alt ps => showsAll ps
  | .many p | .maybe p | .ofKind _ p | .last _ p | .closed p | .plainArrows p => p.shows
  | .node kind _ => some [(kind, none)]
  | .role role p => p.shows.map fun ts => ts.map fun t => (t.1, some role)
  | .chain base growths => base.shows.map fun ts => ts ++ growths.map fun g => (g.kind, none)
  | .joined _ | .ahead _ | .lacks _ | .goesOn | .semicolon | .arrowTypes => some []

/-- The kinds and parts for some patterns together. -/
def showsAll : List (Pattern ρ) → Option (List (Kind × Option Role))
  | [] => some []
  | p :: ps => p.shows.bind fun ts => (showsAll ps).map fun us => ts ++ us

end

variable {shown}

/-- A comment, or a node of one of some kinds in one of some parts. -/
def Node.IsAmong (n : Node) (ts : List (Kind × Option Role)) : Prop :=
  (n.kind = .comment ∧ n.role = none) ∨ (n.kind ≠ .comment ∧ (n.kind, n.role) ∈ ts)

theorem Node.IsAmong.mono {n : Node} {ts us : List (Kind × Option Role)} (h : n.IsAmong ts)
    (hsub : ts ⊆ us) : n.IsAmong us := h.imp_right fun h => ⟨h.1, hsub h.2⟩

theorem Node.isAmong_of_mem {n : Node} {ts : List (Kind × Option Role)} (hrole : n.role = none)
    (hmem : (n.kind, none) ∈ ts) : n.IsAmong ts := by
  by_cases hcomment : n.kind = .comment
  · exact .inl ⟨hcomment, hrole⟩
  · exact .inr ⟨hcomment, hrole ▸ hmem⟩

theorem showsAll_eq_some {ps : List (Pattern ρ)} {us : List (Kind × Option Role)}
    (h : showsAll shown ps = some us) {p : Pattern ρ} (hp : p ∈ ps) :
    ∃ ts, p.shows shown = some ts ∧ ts ⊆ us := by
  induction ps generalizing us with
  | nil => cases hp
  | cons q ps ih =>
      obtain ⟨ts, hts, h⟩ := Option.bind_eq_some_iff.mp h
      obtain ⟨vs, hvs, h⟩ := Option.map_eq_some_iff.mp h
      cases h
      rcases List.mem_cons.mp hp with rfl | hp
      · exact ⟨ts, hts, List.subset_append_left ts vs⟩
      · obtain ⟨ts', hts', hsub⟩ := ih hvs hp
        exact ⟨ts', hts', fun _ h => List.mem_append_right ts (hsub h)⟩

theorem Cursor.among_skip (c : Cursor) (ts : List (Kind × Option Role)) :
    ∀ x ∈ c.skip.1, x.IsAmong ts := by
  fun_induction Cursor.skip c with
  | case1 c c' d more n hrest hcomment comments stop hskip ih =>
      rw [hskip] at ih
      intro x hx
      rcases List.mem_cons.mp hx with rfl | hx
      · exact .inl ⟨rfl, rfl⟩
      · exact ih x hx
  | case2 => exact fun _ h => absurd h List.not_mem_nil

theorem Reader.among_semicolon {afterValue : Bool} {fuel : Nat} {c c' : Cursor} {ns : List Node}
    (h : Reader.semicolon afterValue fuel c = some (ns, c')) (ts : List (Kind × Option Role)) :
    ∀ x ∈ ns, x.IsAmong ts := by
  have none : ∀ x ∈ ([] : List Node), x.IsAmong ts := fun _ h => absurd h List.not_mem_nil
  induction fuel generalizing c ns with
  | zero => cases h
  | succ fuel ih =>
      rw [Reader.semicolon] at h
      split at h
      · cases h
        exact none
      · dsimp only at h
        split at h
        · cases h
          exact none
        · obtain ⟨n, -, h⟩ := Option.bind_eq_some_iff.mp h
          obtain ⟨⟨ms, c₁⟩, hmore, h⟩ := Option.map_eq_some_iff.mp h
          cases h
          intro x hx
          rcases List.mem_cons.mp hx with rfl | hx
          · exact .inl ⟨rfl, rfl⟩
          · exact ih hmore x hx

theorem Reader.among_token {length? : List Char → Option Nat} {kind : Option Kind} {c c' : Cursor}
    {ns : List Node} (h : Reader.token length? kind c = some (ns, c')) {ts : List (Kind × Option Role)}
    (hkind : ∀ k, kind = some k → (k, none) ∈ ts) : ∀ x ∈ ns, x.IsAmong ts := by
  obtain ⟨n, -, h⟩ := Option.map_eq_some_iff.mp h
  cases h
  intro x hx
  rcases List.mem_append.mp hx with hx | hx
  · exact c.among_skip ts x hx
  · cases kind with
    | none => cases hx
    | some kind =>
        cases List.mem_singleton.mp hx
        exact Node.isAmong_of_mem rfl (hkind kind rfl)

theorem Reader.among_withRole {ns : List Node} {ts : List (Kind × Option Role)}
    (h : ∀ x ∈ ns, x.IsAmong ts) (role : Role) :
    ∀ x ∈ Reader.withRole role ns, x.IsAmong (ts.map fun t => (t.1, some role)) := by
  intro x hx
  obtain ⟨n, hn, rfl⟩ := List.mem_map.mp hx
  rcases h n hn with hcomment | ⟨hkind, hmem⟩
  · rw [if_pos (beq_iff_eq.mpr hcomment.1)]
    exact .inl hcomment
  · rw [if_neg (fun h => hkind (beq_iff_eq.mp h))]
    exact .inr ⟨hkind, List.mem_map.mpr ⟨_, hmem, rfl⟩⟩

/-- The nodes that are read are of the kinds and in the parts that the pattern shows. -/
theorem Reads.among {grammar : ρ → Pattern ρ}
    (hshown : ∀ r ts, shown r = some ts → ∃ us, (grammar r).shows shown = some us ∧ us ⊆ ts)
    {task : Task ρ} {c c' : Cursor} {ns : List Node} (h : Reads grammar task c ns c')
    {ts : List (Kind × Option Role)} (hts : task.pattern.shows shown = some ts) :
    ∀ x ∈ ns, x.IsAmong ts := by
  have none : ∀ {ts : List (Kind × Option Role)}, ∀ x ∈ ([] : List Node), x.IsAmong ts :=
    fun _ h => absurd h List.not_mem_nil
  have append : ∀ {ts : List (Kind × Option Role)} {ns ms : List Node}, (∀ x ∈ ns, x.IsAmong ts) →
      (∀ x ∈ ms, x.IsAmong ts) → ∀ x ∈ ns ++ ms, x.IsAmong ts :=
    fun hns hms x hx => (List.mem_append.mp hx).elim (hns x) (hms x)
  have single : ∀ {ts : List (Kind × Option Role)} {n : Node}, n.IsAmong ts → ∀ x ∈ [n], x.IsAmong ts :=
    fun h x hx => List.mem_singleton.mp hx ▸ h
  have kept : ∀ {kept : Bool} {ts : List (Kind × Option Role)},
      some (if kept then [(Kind.token, Option.none)] else []) = some ts →
      ∀ k, (if kept then some Kind.token else Option.none) = some k → (k, Option.none) ∈ ts := by
    intro kept ts hts k hk
    cases hts
    cases kept with
    | false => cases hk
    | true =>
        cases hk
        exact List.mem_singleton.mpr rfl
  have one : ∀ {kind : Kind} {ts : List (Kind × Option Role)},
      some [(kind, Option.none)] = some ts → (kind, Option.none) ∈ ts := by
    intro kind ts hts
    cases hts
    exact List.mem_singleton.mpr rfl
  induction h generalizing ts with
  | word h | sign h => exact Reader.among_token h (kept hts)
  | lexeme h | name h =>
      refine Reader.among_token h fun k hk => ?_
      cases hk
      exact one hts
  | joinedLexeme => exact single (Node.isAmong_of_mem rfl (one hts))
  | joined | seqNil | manyStop | maybeNone | ahead | lacks | goesOn | arrowTypes => exact none
  | @rule r _ _ _ _ ih =>
      obtain ⟨us, hus, hsub⟩ := hshown r ts hts
      exact fun x hx => (ih hus x hx).mono hsub
  | @seqCons p ps _ _ _ _ _ _ _ ih ih₁ =>
      obtain ⟨us, hus, hts⟩ := Option.bind_eq_some_iff.mp hts
      obtain ⟨vs, hvs, hts⟩ := Option.map_eq_some_iff.mp hts
      cases hts
      exact append (fun x hx => (ih hus x hx).mono (List.subset_append_left us vs))
        (fun x hx => (ih₁ hvs x hx).mono (List.subset_append_right us vs))
  | alt hmem _ ih =>
      obtain ⟨us, hus, hsub⟩ := showsAll_eq_some hts hmem
      exact fun x hx => (ih hus x hx).mono hsub
  | manyMore _ _ ih ih₁ => exact append (ih hts) (ih₁ hts)
  | maybeSome _ ih | ofKind _ ih | last _ ih | closed _ ih | plainArrows _ ih => exact ih hts
  | @node _ _ c => exact append (c.among_skip ts) (single (Node.isAmong_of_mem rfl (one hts)))
  | role _ ih =>
      obtain ⟨us, hus, hts⟩ := Option.map_eq_some_iff.mp hts
      cases hts
      exact Reader.among_withRole (ih hus) _
  | @chain _ _ c _ _ _ ih => exact append (c.among_skip ts) (ih hts)
  | semicolon h => exact Reader.among_semicolon h ts
  | growBase _ ih =>
      obtain ⟨us, hus, hts⟩ := Option.map_eq_some_iff.mp hts
      cases hts
      exact fun x hx => (ih hus x hx).mono (List.subset_append_left us _)
  | @growMore _ _ g _ _ _ _ _ _ hmem =>
      obtain ⟨us, hus, hts⟩ := Option.map_eq_some_iff.mp hts
      cases hts
      refine single (Node.isAmong_of_mem rfl (List.mem_append_right us ?_))
      exact List.mem_map_of_mem (f := fun g : Growth (Pattern ρ) => (g.kind, Option.none)) hmem

end

end Restyle.Tsx
