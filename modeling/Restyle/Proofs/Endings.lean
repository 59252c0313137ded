import Restyle.Proofs.Layout
import Restyle.Proofs.Lexemes

/-!
# Where nodes end

How what a pattern reads ends is found from its form: what a *firm* pattern takes has a last line that is
not blank, a *tight* one does so or takes nothing, and of a *loose* one nothing is known.  A statement may
take the comments behind it along, so that its last character can be a blank.  All rules of the grammar are
firm except statements, which may also be comments in the form of markup.
-/

namespace Restyle.Tsx

/-- How what is read ends. -/
inductive Ending where
  | loose
  | tight
  | firm
  deriving DecidableEq

namespace Ending

/-- What an ending says about the characters taken. -/
def Holds : Ending → List Char → Prop
  | .loose, _ => True
  | .tight, taken => taken = [] ∨ EndsSolid taken
  | .firm, taken => EndsSolid taken

/-- The ending of one thing after another. -/
def next : Ending → Ending → Ending
  | _, .firm => .firm
  | e, .tight => e
  | _, .loose => .loose

/-- The weaker one of two endings. -/
def meet : Ending → Ending → Ending
  | .firm, e => e
  | .tight, .loose => .loose
  | .tight, _ => .tight
  | .loose, _ => .loose

/-- The ending of something that may be left out. -/
def optional : Ending → Ending
  | .loose => .loose
  | _ => .tight

/-- The ending of something whose leading blanks count. -/
def blanked : Ending → Ending
  | .firm => .firm
  | _ => .loose

theorem Holds.next {e f : Ending} {cs ds : List Char} (he : e.Holds cs) (hf : f.Holds ds) :
    (e.next f).Holds (cs ++ ds) := by
  cases f with
  | firm => exact EndsSolid.append hf cs
  | loose => trivial
  | tight =>
      rcases hf with rfl | hf
      · rwa [List.append_nil]
      · cases e with
        | firm => exact hf.append cs
        | tight => exact .inr (hf.append cs)
        | loose => trivial

theorem Holds.meet_left {e f : Ending} {cs : List Char} (h : e.Holds cs) : (e.meet f).Holds cs := by
  cases e <;> cases f <;> first | exact h | trivial | exact .inr h

theorem Holds.meet_right {e f : Ending} {cs : List Char} (h : f.Holds cs) : (e.meet f).Holds cs := by
  cases e <;> cases f <;> first | exact h | trivial | exact .inr h

theorem Holds.optional {e : Ending} {cs : List Char} (h : e.Holds cs) : e.optional.Holds cs := by
  cases e with
  | loose => trivial
  | tight => exact h
  | firm => exact .inr h

theorem optional_nil (e : Ending) : e.optional.Holds [] := by
  cases e with
  | loose => trivial
  | tight | firm => exact .inl rfl

theorem next_optional_self (e : Ending) : e.next e.optional = e := by cases e <;> rfl

theorem next_next (e f : Ending) : (e.next f).next f = e.next f := by cases f <;> rfl

theorem Holds.blanked {e : Ending} {cs : List Char} (h : e.Holds cs) (blanks : List Char) :
    e.blanked.Holds (blanks ++ cs) := by
  cases e with
  | loose | tight => trivial
  | firm => exact EndsSolid.append h blanks

end Ending

/-! ## Endings of patterns -/

/-- Whether a text ends with a character that is no white space. -/
def endsSolid (text : String) : Bool :=
  text.toList.getLast?.any fun c => !isSpace c

/-- The ending of a lexical part. -/
def Lexeme.ending : Lexeme → Ending
  | .templateChars | .tagText | .entity | .marginComment => .loose
  | _ => .firm

section

variable {ρ : Type} (ends : ρ → Ending)

mutual

/-- The ending of a pattern, given those of the rules. -/
def Pattern.ending : Pattern ρ → Ending
  | .word _ _ | .name _ _ => .firm
  | .sign text _ _ | .joined text => if endsSolid text then .firm else .loose
  | .lexeme _ part => part.ending.blanked
  | .joinedLexeme _ part => part.ending
  | .rule r => ends r
  | .seq parts => endingOfAll parts
  | .alt choices => endingOfAny choices
  | .many p | .maybe p => p.ending.optional
  | .ahead _ | .lacks _ | .goesOn | .arrowTypes | .semicolon => .tight
  | .node _ p => p.ending.blanked
  | .role _ p | .ofKind _ p | .last _ p | .closed p | .plainArrows p => p.ending
  | .chain base growths => (base.ending.next (endingOfGrowths growths)).blanked

/-- The ending of one pattern after another. -/
def endingOfAll : List (Pattern ρ) → Ending
  | [] => .tight
  | p :: ps => p.ending.next (endingOfAll ps)

/-- The weakest ending of some patterns. -/
def endingOfAny : List (Pattern ρ) → Ending
  | [] => .firm
  | p :: ps => p.ending.meet (endingOfAny ps)

/-- The ending of any number of growths. -/
def endingOfGrowths : List (Growth (Pattern ρ)) → Ending
  | [] => .tight
  | g :: gs => (endingOfGrowth g).optional.meet (endingOfGrowths gs)

/-- The ending of a growth. -/
def endingOfGrowth : Growth (Pattern ρ) → Ending
  | ⟨_, _, _, rest⟩ => rest.ending

end

end

/-! ## What is read ends as its pattern does -/

theorem EndsSolid.of_sign {text : String} (h : endsSolid text = true) : EndsSolid text.toList := by
  unfold endsSolid at h
  cases hlast : text.toList.getLast? with
  | none =>
      rw [hlast] at h
      cases h
  | some last =>
      rw [hlast] at h
      obtain ⟨before, hbefore⟩ := List.getLast?_eq_some_iff.mp hlast
      rw [hbefore]
      exact (endsSolid_singleton (by simpa [IsSolid] using h)).append before

theorem Lexeme.holds_ending (part : Lexeme) {cs : List Char} {n : Nat} (h : part.length? cs = some n) :
    part.ending.Holds (cs.take n) := by
  cases part with
  | privateName => exact endsSolid_privateName h
  | tagName => exact endsSolid_tagName h
  | number => exact endsSolid_number h
  | string => exact endsSolid_string h
  | attributeString => exact endsSolid_attributeString h
  | regex => exact endsSolid_regex h
  | templateChars | tagText | entity | marginComment => trivial

theorem Reader.take_sign {text : String} {except : List String} {cs : List Char} {n : Nat}
    (h : Reader.signLength? text except cs = some n) : cs.take n = text.toList := by
  obtain ⟨rest, hafter, h⟩ := Option.bind_eq_some_iff.mp h
  rw [Text.after?_eq_some hafter]
  split at h
  · cases h
  · cases h
    exact List.take_left' (String.length_toList ..)

/-- A token ends as its characters do. -/
theorem Reader.token_ends {length? : List Char → Option Nat} {kind : Option Kind} {c c' : Cursor}
    {ns : List Node} {e : Ending} (h : Reader.token length? kind c = some (ns, c'))
    (hends : ∀ n, length? c.skip.2.rest = some n → e.Holds (c.skip.2.rest.take n)) :
    ∃ taken, c.Passes taken c' ∧ e.blanked.Holds taken := by
  obtain ⟨n, hn, h⟩ := Option.map_eq_some_iff.mp h
  cases h
  obtain ⟨blanks, hblanks⟩ := c.passes_skip.1
  exact ⟨_, hblanks.trans (c.skip.2.passes_advance n), (hends n hn).blanked blanks⟩

theorem Reader.semicolon_ends {afterValue : Bool} {fuel : Nat} {c c' : Cursor} {ns : List Node}
    (h : Reader.semicolon afterValue fuel c = some (ns, c')) :
    ∃ taken, c.Passes taken c' ∧ Ending.tight.Holds taken := by
  induction fuel generalizing c ns with
  | zero => cases h
  | succ fuel ih =>
      rw [Reader.semicolon] at h
      split at h
      · cases h
        exact ⟨[], .refl _, .inl rfl⟩
      · obtain ⟨blanks, hblanks⟩ := c.passes_skipSpaces
        dsimp only at h
        split at h
        · next rest hrest =>
          cases h
          refine ⟨_, hblanks.trans (c.skipSpaces.passes_advance 1), .inr (.append ?_ blanks)⟩
          rw [hrest]
          exact endsSolid_singleton (by decide)
        · obtain ⟨n, hn, h⟩ := Option.bind_eq_some_iff.mp h
          obtain ⟨⟨ms, c₁⟩, hmore, h⟩ := Option.map_eq_some_iff.mp h
          cases h
          obtain ⟨taken, htaken, hends⟩ := ih hmore
          have hcomment := c.skipSpaces.passes_advance n
          refine ⟨_, hblanks.trans (hcomment.trans htaken), .inr (.append ?_ blanks)⟩
          rcases hends with rfl | hends
          · rw [List.append_nil]
            exact endsSolid_comment hn
          · exact hends.append _

section

variable {ρ : Type} {grammar : ρ → Pattern ρ} {ends : ρ → Ending}

/-- The ending of what there is to read. -/
def Task.ending (ends : ρ → Ending) : Task ρ → Ending
  | .form p => p.ending ends
  | .grown base growths => (base.ending ends).next (endingOfGrowths ends growths)

theorem holds_endingOfAny {ps : List (Pattern ρ)} {p : Pattern ρ} (h : p ∈ ps) {cs : List Char}
    (hp : (p.ending ends).Holds cs) : (endingOfAny ends ps).Holds cs := by
  induction ps with
  | nil => cases h
  | cons q ps ih =>
      rw [endingOfAny]
      rcases List.mem_cons.mp h with rfl | h
      · exact hp.meet_left
      · exact (ih h).meet_right

theorem holds_endingOfGrowths {gs : List (Growth (Pattern ρ))} {g : Growth (Pattern ρ)} (h : g ∈ gs)
    {cs : List Char} (hg : (g.rest.ending ends).Holds cs) : (endingOfGrowths ends gs).Holds cs := by
  induction gs with
  | nil => cases h
  | cons g' gs ih =>
      rw [endingOfGrowths]
      rcases List.mem_cons.mp h with rfl | h
      · cases g
        rw [endingOfGrowth]
        exact hg.optional.meet_left
      · exact (ih h).meet_right

theorem holds_endingOfGrowths_nil (gs : List (Growth (Pattern ρ))) :
    (endingOfGrowths ends gs).Holds [] := by
  cases gs with
  | nil => exact .inl rfl
  | cons g gs => exact (Ending.optional_nil _).meet_left

theorem holds_sign {text : String} {cs : List Char} (hcs : cs = text.toList) :
    Ending.Holds (if endsSolid text then .firm else .loose) cs := by
  split
  · next h =>
    rw [hcs]
    exact .of_sign h
  · trivial

/-- What is read ends as the form of its pattern says, if what rules read does. -/
theorem Reads.holds_ending (hends : ∀ r cs, ((grammar r).ending ends).Holds cs → (ends r).Holds cs)
    {task : Task ρ} {c c' : Cursor} {ns : List Node} (h : Reads grammar task c ns c') :
    ∃ taken, c.Passes taken c' ∧ (task.ending ends).Holds taken := by
  have hnone : ∀ {c : Cursor} {e : Ending}, e.Holds [] → ∃ taken, c.Passes taken c ∧ e.Holds taken :=
    fun h => ⟨[], .refl _, h⟩
  induction h with
  | word h =>
      exact Reader.token_ends (e := .firm) h fun n hn =>
        endsSolid_name (Option.filter_eq_some_iff.mp hn).1
  | name h =>
      exact Reader.token_ends (e := .firm) h fun n hn =>
        endsSolid_name (Option.filter_eq_some_iff.mp hn).1
  | @sign text except kept c c' ns h =>
      obtain ⟨taken, htaken, hholds⟩ := Reader.token_ends h fun n hn =>
        holds_sign (Reader.take_sign hn)
      refine ⟨taken, htaken, ?_⟩
      rw [Task.ending, Pattern.ending]
      split <;> simp_all [Ending.blanked]
  | lexeme h => exact Reader.token_ends h fun n hn => Lexeme.holds_ending _ hn
  | joined h =>
      refine ⟨_, Cursor.passes_advance _ _, ?_⟩
      rw [Task.ending, Pattern.ending]
      exact holds_sign (Reader.take_sign h)
  | joinedLexeme h => exact ⟨_, Cursor.passes_advance _ _, Lexeme.holds_ending _ h⟩
  | rule _ ih =>
      obtain ⟨taken, htaken, hholds⟩ := ih
      exact ⟨taken, htaken, hends _ _ hholds⟩
  | alt hmem _ ih =>
      obtain ⟨taken, htaken, hholds⟩ := ih
      exact ⟨taken, htaken, holds_endingOfAny hmem hholds⟩
  | seqNil | ahead | lacks | goesOn | arrowTypes => exact hnone (.inl rfl)
  | seqCons _ _ ih ih₁ =>
      obtain ⟨taken, htaken, hholds⟩ := ih
      obtain ⟨taken₁, htaken₁, hholds₁⟩ := ih₁
      exact ⟨_, htaken.trans htaken₁, hholds.next hholds₁⟩
  | manyStop | maybeNone => exact hnone (Ending.optional_nil _)
  | @manyMore p c c₁ c₂ _ _ _ _ ih ih₁ =>
      obtain ⟨taken, htaken, hholds⟩ := ih
      obtain ⟨taken₁, htaken₁, hholds₁⟩ := ih₁
      have hboth : ((p.ending ends).next (p.ending ends).optional).Holds (taken ++ taken₁) :=
        hholds.next hholds₁
      rw [Ending.next_optional_self] at hboth
      exact ⟨_, htaken.trans htaken₁, hboth.optional⟩
  | maybeSome _ ih =>
      obtain ⟨taken, htaken, hholds⟩ := ih
      exact ⟨taken, htaken, hholds.optional⟩
  | @node kind p c _ _ _ ih | @chain base growths c _ _ _ ih =>
      obtain ⟨blanks, hblanks⟩ := c.passes_skip.1
      obtain ⟨taken, htaken, hholds⟩ := ih
      exact ⟨_, hblanks.trans htaken, hholds.blanked blanks⟩
  | role _ ih | ofKind _ ih => exact ih
  | last _ ih | closed _ ih | plainArrows _ ih =>
      obtain ⟨taken, htaken, hholds⟩ := ih
      exact ⟨taken, htaken, hholds⟩
  | semicolon h => exact Reader.semicolon_ends h
  | @growBase base growths c c' ns _ ih =>
      obtain ⟨taken, htaken, hholds⟩ := ih
      have hnothing : (endingOfGrowths ends growths).Holds [] := holds_endingOfGrowths_nil growths
      have hboth := hholds.next hnothing
      rw [List.append_nil] at hboth
      exact ⟨taken, htaken, hboth⟩
  | growMore _ hmem _ _ ih ih₁ =>
      obtain ⟨taken, htaken, hholds⟩ := ih
      obtain ⟨taken₁, htaken₁, hholds₁⟩ := ih₁
      refine ⟨_, htaken.trans htaken₁, ?_⟩
      have hboth := hholds.next (holds_endingOfGrowths hmem hholds₁)
      rwa [Task.ending, Ending.next_next] at hboth

end

/-! ## Endings of the grammar -/

namespace Rule

/-- The endings of the rules. -/
def ending : Rule → Ending
  | .statement => .loose
  | _ => .firm

end Rule

namespace Grammar

theorem endingOfGrowths_tight {gs : List (Growth Form)}
    (h : ∀ g ∈ gs, g.rest.ending Rule.ending = .firm) : endingOfGrowths Rule.ending gs = .tight := by
  induction gs with
  | nil => rfl
  | cons g gs ih =>
      have hg := h g List.mem_cons_self
      rw [endingOfGrowths, ih fun g' hg' => h g' (List.mem_cons_of_mem g hg')]
      cases g
      rw [endingOfGrowth, hg]
      rfl

/-- An operand takes no more along than one on whose left nothing waits. -/
theorem growths_subset (tie : Tie) : growths tie ⊆ growths .free := by
  intro g hg
  have hsub : ∀ {suffix : Suffix} {gs : List (Growth Form)},
      g ∈ (if tie.takes suffix then gs else []) → g ∈ gs := by
    intro suffix gs h
    split at h
    · exact h
    · cases h
  simp only [growths, List.mem_append, List.mem_map, List.mem_filter] at hg ⊢
  rcases hg with ((((((hg | hg) | hg) | hg) | hg) | hg) | ⟨operator, ⟨hmem, -⟩, hg⟩) | hg
  · exact .inl (.inl (.inl (.inl (.inl (.inl (.inl hg))))))
  · exact .inl (.inl (.inl (.inl (.inl (.inl (.inr (hsub hg)))))))
  · exact .inl (.inl (.inl (.inl (.inl (.inr (hsub hg))))))
  · exact .inl (.inl (.inl (.inl (.inr (hsub hg)))))
  · exact .inl (.inl (.inl (.inr (hsub hg))))
  · exact .inl (.inl (.inr (hsub hg)))
  · exact .inl (.inr ⟨operator, ⟨hmem, rfl⟩, hg⟩)
  · exact .inr (hsub hg)

theorem ending_operand (tie : Tie) : (operand tie).ending Rule.ending = .firm := by
  have hgrowths : ((growths .free).all fun g => g.rest.ending Rule.ending == .firm) = true := by decide
  unfold operand
  dsimp only
  rw [Pattern.ending, Pattern.ending, endingOfGrowths_tight fun g hg =>
    beq_iff_eq.mp (List.all_eq_true.mp hgrowths g (growths_subset tie hg))]
  split
  · decide
  · split <;> decide

/-- What a rule reads ends as the form of the rule says. -/
theorem holds_ending_form (r : Rule) (cs : List Char) (h : (r.form.ending Rule.ending).Holds cs) :
    r.ending.Holds cs := by
  have hfirm : r.form.ending Rule.ending = .firm → r.ending.Holds cs := by
    intro hfirm
    rw [hfirm] at h
    cases r with
    | statement => trivial
    | _ => exact h
  cases r with
  | statement => trivial
  | operand tie => exact hfirm (ending_operand tie)
  | _ => exact hfirm (by decide)

end Grammar

end Restyle.Tsx
