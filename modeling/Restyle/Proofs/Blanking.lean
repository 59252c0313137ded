import Restyle.Proofs.Outline

/-!
# Blanked type arguments

The types between a tag and its template are found in every text, whatever its brackets are.  Blanking them
out moves nothing: the text that is read afterwards has the same bytes outside of the types, each at its
offset, and they are the bytes of whole characters.
-/

namespace Restyle

open Text (bytesOf)

/-! ## Bytes of characters -/

namespace Text

theorem utf8EncodeChar_of_lt {c : Char} (h : c.toNat < 128) : String.utf8EncodeChar c = [UInt8.ofNat c.toNat] := by
  have hle : c.val.toNat ≤ 0x7f := Nat.le_of_lt_succ h
  unfold String.utf8EncodeChar
  exact if_pos hle

/-- A character beyond ASCII has no byte below 128. -/
theorem high_of_mem_utf8EncodeChar {c : Char} {b : UInt8} (hc : 128 ≤ c.toNat) (hb : b ∈ String.utf8EncodeChar c) :
    128 ≤ b.toNat := by
  rcases of_mem_utf8EncodeChar hb with hcode | hhigh
  · exact hcode ▸ hc
  · exact hhigh

theorem bytesOf_replicate_space (n : Nat) : bytesOf (List.replicate n ' ') = List.replicate n 0x20 := by
  induction n with
  | zero => rfl
  | succ n ih => rw [List.replicate_succ, bytesOf_cons, ih, List.replicate_succ]; rfl

/-- The bytes of characters are decoded. -/
theorem decode?_bytesOf (cs : List Char) : decode? (bytesOf cs) = some (String.ofList cs) := by
  have hbytes : (⟨(bytesOf cs).toArray⟩ : ByteArray) = cs.utf8Encode := by
    rw [ByteArray.ext_iff, List.utf8Encode, List.data_toByteArray, bytesOf]
  unfold decode? String.fromUTF8?
  rw [hbytes, dif_pos (.intro cs rfl)]
  rfl

/-- Bytes encode characters if they do so at the place of each character of a text. -/
theorem exists_bytesOf {out : List UInt8} (before after : List Char)
    (hlength : out.length = (bytesOf (before ++ after)).length)
    (place : ∀ front c back, front ++ c :: back = before ++ after →
      ∃ ds, (out.drop (bytesOf front).length).take (String.utf8EncodeChar c).length = bytesOf ds) :
    ∃ ds, out.drop (bytesOf before).length = bytesOf ds := by
  induction after generalizing before with
  | nil => exact ⟨[], List.drop_eq_nil_of_le (Nat.le_of_eq (by rw [hlength, List.append_nil]))⟩
  | cons c after ih =>
      have hnext : before ++ [c] ++ after = before ++ c :: after := List.append_cons before c after |>.symm
      obtain ⟨ds, hds⟩ := place before c after rfl
      obtain ⟨es, hes⟩ := ih (before ++ [c]) (by rw [hnext, hlength]) (by rwa [hnext])
      have hstep : (bytesOf (before ++ [c])).length =
          (bytesOf before).length + (String.utf8EncodeChar c).length := by
        rw [bytesOf_append, List.length_append, bytesOf_cons, List.length_append]
        rfl
      refine ⟨ds ++ es, ?_⟩
      rw [bytesOf_append, ← hds, ← hes, hstep, ← List.drop_drop, List.take_append_drop]

end Text

namespace Module.TypeSpan

variable {source bs : List UInt8}

/-! ## What the readers leave -/

theorem closes_of_map {b closer : UInt8} (inner : Rest bs) {read : Option (Rest inner.1)} {rest : Rest (b :: bs)}
    (h : (read.map fun rest => Rest.behind b (inner.andThen rest)) = some rest)
    (closes : ∀ {rest}, read = some rest → closer :: rest.1 <:+ inner.1) : closer :: rest.1 <:+ b :: bs := by
  obtain ⟨last, hlast, rfl⟩ := Option.map_eq_some_iff.mp h
  exact (closes hlast).trans (inner.2.trans (List.suffix_cons b bs))

/-- What is read as type arguments ends with a closing bracket. -/
theorem closes_of_dropAngles? {depth : Nat} {last : Option UInt8} {rest : Rest bs}
    (h : dropAngles? depth last bs = some rest) : byte '>' :: rest.1 <:+ bs := by
  fun_induction dropAngles? depth last bs with
  | case1 => cases h
  | case2 depth last b bs hopen ih => exact closes_of_map (.all bs) h ih
  | case3 depth last b bs hopen hclose harrow ih => exact closes_of_map (.all bs) h ih
  | case4 depth last b bs hopen hclose harrow hdepth =>
      cases h
      exact beq_iff_eq.mp hclose ▸ List.suffix_rfl
  | case5 depth last b bs hopen hclose harrow hdepth ih => exact closes_of_map (.all bs) h ih
  | case6 depth last b bs hopen hclose closer hgroup inner hinner ih => exact closes_of_map inner h ih
  | case7 => cases h
  | case8 depth last b bs hopen hclose hgroup hquote ih => exact closes_of_map (dropString b bs) h ih
  | case9 => cases h
  | case10 depth last b bs hopen hclose hgroup hquote hend ih => exact closes_of_map (.all bs) h ih

/-- What has been found stands in brackets, and only blanks part it from its template. -/
structure Found.Sound (found : Found bs) : Prop where
  brackets : ∃ inner, found.opened.1 = byte '<' :: inner ∧ byte '>' :: found.after.1 <:+ inner
  gap : found.template = dropGap found.after.1
  quote : found.template.1.head? = some (byte '\x60')

theorem sound_of_map {r : Rest bs} {read : Option (Found r.1)} {found : Found bs}
    (h : read.map r.found = some found) (sound : ∀ {found}, read = some found → found.Sound) : found.Sound := by
  obtain ⟨inner, hinner, rfl⟩ := Option.map_eq_some_iff.mp h
  exact ⟨(sound hinner).brackets, (sound hinner).gap, (sound hinner).quote⟩

theorem sound_of_afterChain? {found : Found bs} (h : afterChain? bs = some found) : found.Sound := by
  fun_induction afterChain? bs with
  | case1 => cases h
  | case2 b bs hgap ih => exact sound_of_map h ih
  | case3 b bs hgap hdot rest hname ih => exact sound_of_map h ih
  | case4 => cases h
  | case5 b bs hgap hdot hcall rest hgroup ih => exact sound_of_map h ih
  | case6 => cases h
  | case7 b bs hgap hdot hcall hopen rest hangles hquote =>
      cases h
      exact ⟨⟨bs, congrArg (· :: bs) (beq_iff_eq.mp hopen), closes_of_dropAngles? hangles⟩, rfl, beq_iff_eq.mp hquote⟩
  | case8 b bs hgap hdot hcall hopen rest hangles hquote ih => exact sound_of_map h ih
  | case9 => cases h
  | case10 => cases h

/-! ## Spans of a text -/

/-- The types of a span stand in brackets in a text, and only blanks part them from a template. -/
structure Sound (source : List UInt8) (span : TypeSpan) : Prop where
  lt : span.start < span.stop
  le : span.stop ≤ span.template
  within : span.template < source.length
  opens : source[span.start]? = some (byte '<')
  closes : source[span.stop - 1]? = some (byte '>')
  quote : source[span.template]? = some (byte '\x60')
  gap : ∀ i, span.stop ≤ i → i < span.template → ∃ b, source[i]? = some b ∧ isGap b = true

theorem getElem?_of_suffix {rest : List UInt8} (h : rest <:+ source) (i : Nat) :
    source[source.length - rest.length + i]? = rest[i]? := by
  rw [← List.getElem?_drop, ← List.suffix_iff_eq_drop.mp h]

theorem Found.Sound.span {found : Found bs} (h : found.Sound) (hbs : bs <:+ source) :
    (found.span source.length).Sound source := by
  obtain ⟨inner, hopened, hclosed⟩ := h.brackets
  have hopen : byte '<' :: inner <:+ source := hopened ▸ found.opened.2.trans hbs
  have hclose : byte '>' :: found.after.1 <:+ source := (hclosed.trans (List.suffix_cons _ inner)).trans hopen
  have hafter : found.after.1 <:+ source := (List.suffix_cons _ _).trans hclose
  have htemplate : found.template.1 <:+ source := found.template.2.trans hafter
  have hopensLength : found.opened.1.length = inner.length + 1 := by rw [hopened, List.length_cons]
  have hinside := hclosed.length_le
  have hbehind := found.template.2.length_le
  have hsize := hopen.length_le
  have hrest : 0 < found.template.1.length := by
    refine List.length_pos_iff.mpr fun hnil => ?_
    have hquote := h.quote
    rw [hnil] at hquote
    cases hquote
  rw [List.length_cons] at hinside hsize
  refine ⟨?_, ?_, ?_, ?_, ?_, ?_, fun i hstop hi => ?_⟩
  · dsimp only [Found.span]
    omega
  · dsimp only [Found.span]
    omega
  · dsimp only [Found.span]
    omega
  · exact (getElem?_of_suffix (found.opened.2.trans hbs) 0).trans (by rw [hopened]; rfl)
  · have hget := getElem?_of_suffix hclose 0
    rwa [List.length_cons, Nat.add_zero, Nat.sub_add_eq] at hget
  · exact (getElem?_of_suffix htemplate 0).trans (by rw [← List.head?_eq_getElem?, h.quote])
  · dsimp only [Found.span] at hstop hi
    obtain ⟨k, rfl⟩ := Nat.exists_eq_add_of_le hstop
    have hparts : found.after.1.takeWhile isGap ++ found.template.1 = found.after.1 := by
      rw [h.gap]
      exact List.takeWhile_append_dropWhile
    have hlengths := congrArg List.length hparts
    rw [List.length_append] at hlengths
    have hk : k < (found.after.1.takeWhile isGap).length := by omega
    rw [getElem?_of_suffix hafter, ← hparts, List.getElem?_append_left hk, List.getElem?_eq_getElem hk]
    exact ⟨_, rfl, List.all_eq_true.mp List.all_takeWhile _ (List.getElem_mem hk)⟩

theorem sound_of_mem_findFrom {names : List (List UInt8)} {last : Option UInt8} {skip : Nat} {span : TypeSpan}
    (hbs : bs <:+ source) (h : span ∈ findFrom names source.length last skip bs) : span.Sound source := by
  fun_induction findFrom names source.length last skip bs with
  | case1 => cases h
  | case2 last skip b bs ih => exact ih ((List.suffix_cons b bs).trans hbs) h
  | case3 last b bs free htag ih => exact ih ((List.suffix_cons b bs).trans hbs) h
  | case4 last b bs free length htag more found hfound ih =>
      cases h with
      | head => exact (sound_of_afterChain? hfound).span ((List.drop_suffix length (b :: bs)).trans hbs)
      | tail _ hmore => exact ih ((List.suffix_cons b bs).trans hbs) hmore
  | case5 last b bs free length htag more hfound ih => exact ih ((List.suffix_cons b bs).trans hbs) h

theorem sound_of_mem_findAll {tags : List String} {span : TypeSpan} (h : span ∈ findAll source tags) :
    span.Sound source := by
  unfold findAll at h
  dsimp only at h
  split at h
  · cases h
  · exact sound_of_mem_findFrom List.suffix_rfl h

/-! ## Bytes that are blanked out -/

/-- A span has a byte. -/
def Covered (spans : List TypeSpan) (i : Nat) : Prop :=
  ∃ span ∈ spans, span.start ≤ i ∧ i < span.stop

/-- What is written for a byte that a span has. -/
def blankByte (b : UInt8) : UInt8 :=
  if b = 0x0A ∨ b = 0x0D then b else 0x20

theorem getElem?_blank_of_covered {spans : List TypeSpan} {i : Nat} (h : Covered spans i) :
    (blank source spans)[i]? = source[i]?.map blankByte := by
  have hany : spans.any (fun s => s.start ≤ i && i < s.stop) = true := by
    obtain ⟨span, hspan, hstart, hstop⟩ := h
    exact List.any_eq_true.mpr ⟨span, hspan, by simp [hstart, hstop]⟩
  rw [blank, List.getElem?_mapIdx, hany]
  refine congrArg (source[i]?.map ·) (funext fun b => ?_)
  by_cases hfeed : b = 0x0A <;> by_cases hreturn : b = 0x0D <;> simp [blankByte, hfeed, hreturn]

theorem getElem?_blank_of_not_covered {spans : List TypeSpan} {i : Nat} (h : ¬ Covered spans i) :
    (blank source spans)[i]? = source[i]? := by
  have hany : spans.any (fun s => s.start ≤ i && i < s.stop) = false := by
    refine List.any_eq_false.mpr fun span hspan hin => h ⟨span, hspan, ?_⟩
    simpa using hin
  rw [blank, List.getElem?_mapIdx, hany]
  simp

/-- A span has both of two bytes beyond ASCII that stand together, or none of them. -/
theorem covered_succ_iff {spans : List TypeSpan} (sound : ∀ span ∈ spans, span.Sound source) {i : Nat} {b c : UInt8}
    (hb : source[i]? = some b) (hc : source[i + 1]? = some c) (hbhigh : 128 ≤ b.toNat) (hchigh : 128 ≤ c.toNat) :
    Covered spans (i + 1) ↔ Covered spans i := by
  constructor <;> rintro ⟨span, hspan, hstart, hstop⟩ <;> refine ⟨span, hspan, ?_, ?_⟩
  · refine Nat.le_of_lt_succ (Nat.lt_of_le_of_ne hstart fun heq => ?_)
    have hopen := (sound span hspan).opens
    rw [heq, hc] at hopen
    cases hopen
    exact absurd hchigh (by decide)
  · omega
  · omega
  · refine Nat.lt_of_le_of_ne hstop fun heq => ?_
    have hclose := (sound span hspan).closes
    rw [← heq, Nat.add_sub_cancel, hb] at hclose
    cases hclose
    exact absurd hbhigh (by decide)

variable {spans : List TypeSpan} {front back : List Char} {c : Char} {k : Nat}

theorem getElem?_of_char (hsource : source = bytesOf (front ++ c :: back))
    (hk : k < (String.utf8EncodeChar c).length) :
    source[(bytesOf front).length + k]? = (String.utf8EncodeChar c)[k]? := by
  rw [hsource, Text.bytesOf_append, List.getElem?_append_right (Nat.le_add_right _ _), Nat.add_sub_cancel_left,
    Text.bytesOf_cons, List.getElem?_append_left hk]

/-- The bytes of a character are in spans together. -/
theorem covered_of_char (hsource : source = bytesOf (front ++ c :: back))
    (sound : ∀ span ∈ spans, span.Sound source) (hk : k < (String.utf8EncodeChar c).length) :
    Covered spans ((bytesOf front).length + k) ↔ Covered spans (bytesOf front).length := by
  induction k with
  | zero => rfl
  | succ k ih =>
      have hk' : k < (String.utf8EncodeChar c).length := Nat.lt_of_succ_lt hk
      have hhigh : 128 ≤ c.toNat := by
        refine Nat.le_of_not_lt fun hlow => ?_
        rw [Text.utf8EncodeChar_of_lt hlow] at hk
        exact absurd hk (by simp)
      refine (covered_succ_iff sound ((getElem?_of_char hsource hk').trans (List.getElem?_eq_getElem hk'))
        ((getElem?_of_char hsource hk).trans (List.getElem?_eq_getElem hk)) ?_ ?_).trans (ih hk')
      · exact Text.high_of_mem_utf8EncodeChar hhigh (List.getElem_mem hk')
      · exact Text.high_of_mem_utf8EncodeChar hhigh (List.getElem_mem hk)

/-- Blanked bytes of a character are those of a character or of spaces. -/
theorem exists_bytesOf_map_blankByte (c : Char) :
    ∃ ds, (String.utf8EncodeChar c).map blankByte = bytesOf ds := by
  by_cases hlow : c.toNat < 128
  · rw [Text.utf8EncodeChar_of_lt hlow, List.map_singleton, blankByte]
    split
    · exact ⟨[c], by rw [Text.bytesOf_cons, Text.utf8EncodeChar_of_lt hlow]; rfl⟩
    · exact ⟨[' '], rfl⟩
  · have hspace : ∀ b ∈ String.utf8EncodeChar c, blankByte b = 0x20 := by
      intro b hb
      have hhigh := Text.high_of_mem_utf8EncodeChar (Nat.le_of_not_lt hlow) hb
      refine if_neg ?_
      rintro (rfl | rfl) <;> exact absurd hhigh (by decide)
    refine ⟨List.replicate (String.utf8EncodeChar c).length ' ', ?_⟩
    rw [Text.bytesOf_replicate_space, List.map_congr_left hspace, List.map_const']

/-- At the place of a character, a blanked text has its bytes or blanked ones. -/
theorem blank_of_char (hsource : source = bytesOf (front ++ c :: back))
    (sound : ∀ span ∈ spans, span.Sound source) :
    ∃ ds, ((blank source spans).drop (bytesOf front).length).take (String.utf8EncodeChar c).length = bytesOf ds := by
  have hplace : ∀ g : UInt8 → UInt8, (∀ k < (String.utf8EncodeChar c).length,
      (blank source spans)[(bytesOf front).length + k]? = (source[(bytesOf front).length + k]?).map g) →
      ((blank source spans).drop (bytesOf front).length).take (String.utf8EncodeChar c).length =
        (String.utf8EncodeChar c).map g := by
    intro g hg
    refine List.ext_getElem? fun k => ?_
    rw [List.getElem?_take, List.getElem?_map]
    split
    · next hk => rw [List.getElem?_drop, hg k hk, getElem?_of_char hsource hk]
    · next hk => rw [List.getElem?_eq_none (Nat.le_of_not_lt hk)]; rfl
  by_cases hcovered : Covered spans (bytesOf front).length
  · rw [hplace blankByte fun k hk => getElem?_blank_of_covered ((covered_of_char hsource sound hk).mpr hcovered)]
    exact exists_bytesOf_map_blankByte c
  · refine ⟨[c], ?_⟩
    rw [hplace id fun k hk => ?_]
    · rw [List.map_id, Text.bytesOf_cons]
      exact (List.append_nil _).symm
    · rw [getElem?_blank_of_not_covered (mt (covered_of_char hsource sound hk).mp hcovered), Option.map_id_fun]
      rfl

/-- A text whose spans are sound is still a text when they are blanked out. -/
theorem exists_decode?_blank (text : String) (sound : ∀ span ∈ spans, span.Sound (Text.encode text)) :
    ∃ blanked, Text.decode? (blank (Text.encode text) spans) = some blanked := by
  have hsource := Text.encode_eq text
  have hlength : (blank (Text.encode text) spans).length = (bytesOf ([] ++ text.toList)).length := by
    rw [length_blank, hsource, List.nil_append]
  obtain ⟨ds, hds⟩ := Text.exists_bytesOf [] text.toList hlength fun front c back hparts =>
    blank_of_char (by rw [hsource, hparts, List.nil_append]) sound
  exact ⟨String.ofList ds, by rw [show blank (Text.encode text) spans = bytesOf ds from hds, Text.decode?_bytesOf]⟩

/--
The types between tags and templates are found in every text, each in its brackets and with only blanks up to
a template.  Blanking them out overwrites their bytes with spaces, apart from those of line breaks, leaves all
other bytes where they are, and gives a text again.
-/
theorem blank_findAll (text : String) (tags : List String) :
    let source := Text.encode text
    let spans := findAll source tags
    (∀ span ∈ spans, span.Sound source) ∧
      (blank source spans).length = source.length ∧
      (∀ i, Covered spans i → (blank source spans)[i]? = source[i]?.map blankByte) ∧
      (∀ i, ¬ Covered spans i → (blank source spans)[i]? = source[i]?) ∧
      ∃ blanked, Text.decode? (blank source spans) = some blanked := by
  intro source spans
  have sound : ∀ span ∈ spans, span.Sound source := fun _ h => sound_of_mem_findAll h
  exact ⟨sound, length_blank source spans, fun _ => getElem?_blank_of_covered,
    fun _ => getElem?_blank_of_not_covered, exists_decode?_blank text sound⟩

example : findAll (Text.encode "a.b<c>\x60d\x60; b<'>'>\x0A\x60f\x60") ["b"] = [⟨12, 17, 18⟩] := by decide +kernel

end Module.TypeSpan
end Restyle
