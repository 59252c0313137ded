import Restyle.Module.Basic
import Restyle.Module.Edit
import Restyle.Proofs.Tags

/-!
# The outline of a module

What is known about the tree of a module in terms of its bytes: nodes stand in order in it, its statements
and tags begin with a byte that is not blank, and their last lines are not blank.
-/

namespace Restyle

open Restyle.Tsx (Node Cursor Spans AllNodes)

/-! ## Bytes of characters -/

namespace Text

theorem loop_toList (bytes : ByteArray) (i : Nat) (r : List UInt8) :
    ByteArray.toList.loop bytes i r = r.reverse ++ bytes.data.toList.drop i := by
  fun_induction ByteArray.toList.loop bytes i r with
  | case1 i r h ih =>
      have hlt : i < bytes.data.size := h
      rw [ih, List.reverse_cons, List.append_assoc, List.drop_eq_getElem_cons (i := i) hlt]
      congr 1
      simp only [ByteArray.get!, List.singleton_append, List.cons.injEq, and_true]
      rw [getElem!_pos bytes.data i hlt, Array.getElem_toList]
  | case2 i r h =>
      have hle : bytes.data.toList.length ≤ i := Nat.not_lt.mp h
      rw [List.drop_eq_nil_of_le hle, List.append_nil]

theorem toList_eq (bytes : ByteArray) : bytes.toList = bytes.data.toList := by
  rw [ByteArray.toList, loop_toList]
  rfl

/-- The bytes of characters. -/
def bytesOf (cs : List Char) : List UInt8 := cs.flatMap String.utf8EncodeChar

theorem encode_eq (s : String) : encode s = bytesOf s.toList := by
  unfold encode bytesOf String.toUTF8
  rw [toList_eq, ← String.utf8Encode_toList, List.utf8Encode, List.data_toByteArray]

@[simp] theorem bytesOf_append (cs ds : List Char) : bytesOf (cs ++ ds) = bytesOf cs ++ bytesOf ds :=
  List.flatMap_append

theorem bytesOf_cons (c : Char) (cs : List Char) :
    bytesOf (c :: cs) = String.utf8EncodeChar c ++ bytesOf cs := List.flatMap_cons

theorem length_bytesOf (cs : List Char) : (bytesOf cs).length = Cursor.byteSize cs := by
  induction cs with
  | nil => rfl
  | cons c cs ih =>
      rw [bytesOf_cons, List.length_append, String.length_utf8EncodeChar, ih, Cursor.byteSize_cons]

/-- What decoding gives has the bytes that were decoded. -/
theorem encode_of_decode? {bytes : List UInt8} {s : String} (h : decode? bytes = some s) :
    encode s = bytes := by
  unfold decode? String.fromUTF8? at h
  split at h
  · cases h
    exact toList_eq _
  · cases h

/-- The bytes of a character are its code below 128, and at least 128 otherwise. -/
theorem of_mem_utf8EncodeChar {c : Char} {b : UInt8} (h : b ∈ String.utf8EncodeChar c) :
    b.toNat = c.toNat ∨ 128 ≤ b.toNat := by
  unfold String.utf8EncodeChar at h
  dsimp only at h
  split at h
  · next hascii =>
      cases List.mem_singleton.mp h
      left
      rw [UInt8.toNat_ofNat']
      exact Nat.mod_eq_of_lt (by omega)
  · right
    have hof : ∀ n, n < 256 → 128 ≤ n → 128 ≤ (UInt8.ofNat n).toNat := by
      intro n hn hle
      rwa [UInt8.toNat_ofNat', Nat.mod_eq_of_lt hn]
    split at h
    · simp only [List.mem_cons, List.not_mem_nil, or_false] at h
      rcases h with rfl | rfl <;> exact hof _ (by omega) (by omega)
    split at h
    · simp only [List.mem_cons, List.not_mem_nil, or_false] at h
      rcases h with rfl | rfl | rfl <;> exact hof _ (by omega) (by omega)
    · simp only [List.mem_cons, List.not_mem_nil, or_false] at h
      rcases h with rfl | rfl | rfl | rfl <;> exact hof _ (by omega) (by omega)

theorem isBlankByte_iff {b : UInt8} :
    isBlankByte b = true ↔ b.toNat = 0x20 ∨ (0x09 ≤ b.toNat ∧ b.toNat ≤ 0x0D) := by
  simp only [isBlankByte, Bool.or_eq_true, Bool.and_eq_true, beq_iff_eq, decide_eq_true_eq,
    UInt8.le_iff_toNat_le, ← UInt8.toNat_inj]
  rfl

/-- A character that is no white space has no blank bytes. -/
theorem not_blank_of_solid {c : Char} (hc : Tsx.IsSolid c) {b : UInt8}
    (hb : b ∈ String.utf8EncodeChar c) : isBlankByte b = false := by
  rw [← Bool.not_eq_true, isBlankByte_iff]
  intro hblank
  rcases of_mem_utf8EncodeChar hb with hcode | hhigh
  · simp only [Tsx.IsSolid, Tsx.isSpace, Bool.or_eq_false_iff, beq_eq_false_iff_ne, Bool.and_eq_false_iff,
      decide_eq_false_iff_not] at hc
    omega
  · omega

/-- Only a line feed has the byte of a line break. -/
theorem lineBreak_not_mem_bytesOf {cs : List Char} (h : '\n' ∉ cs) : lineBreak ∉ bytesOf cs := by
  intro hmem
  obtain ⟨c, hc, hb⟩ := List.mem_flatMap.mp hmem
  rcases of_mem_utf8EncodeChar hb with hcode | hhigh
  · have hnewline : c = '\n' := Char.toNat_inj.mp hcode.symm
    exact h (hnewline ▸ hc)
  · exact absurd hhigh (by decide)

end Text

open Text (bytesOf isBlankByte lineBreak)

/-! ## Stretches of bytes -/

/-- A stretch of bytes that does not start with a blank and whose last line is not blank. -/
structure SolidBytes (bytes : List UInt8) (start stop : Nat) : Prop where
  within : stop ≤ bytes.length
  first : ∃ b, bytes[start]? = some b ∧ isBlankByte b = false
  last : ∃ i b, start ≤ i ∧ i < stop ∧ bytes[i]? = some b ∧ isBlankByte b = false ∧
    ∀ j, i < j → j < stop → bytes[j]? ≠ some lineBreak

theorem SolidBytes.lt {bytes : List UInt8} {start stop : Nat} (h : SolidBytes bytes start stop) :
    start < stop := by
  obtain ⟨i, b, hle, hlt, -⟩ := h.last
  exact Nat.lt_of_le_of_lt hle hlt

/-- The first byte of a character. -/
theorem exists_utf8EncodeChar (c : Char) : ∃ b bs, String.utf8EncodeChar c = b :: bs := by
  cases hbytes : String.utf8EncodeChar c with
  | nil =>
      have hlength := String.length_utf8EncodeChar c
      rw [hbytes] at hlength
      exact absurd hlength (Nat.ne_of_lt c.utf8Size_pos)
  | cons b bs => exact ⟨b, bs, rfl⟩

/-- What is solid in characters is solid in bytes. -/
theorem solidBytes_of_solid {text : List Char} {start stop : Nat} (h : Tsx.Solid text start stop) :
    SolidBytes (bytesOf text) start stop := by
  obtain ⟨before, taken, after, rfl, rfl, rfl, ⟨c, rest, htaken, hc⟩, front, d, tail, htaken', hd, htail⟩ := h
  rw [← Text.length_bytesOf before, ← Text.length_bytesOf (before ++ taken)]
  refine ⟨?_, ?_, ?_⟩
  · rw [Text.bytesOf_append (before ++ taken), List.length_append]
    exact Nat.le_add_right _ _
  · obtain ⟨b, bs, hb⟩ := exists_utf8EncodeChar c
    refine ⟨b, ?_, Text.not_blank_of_solid hc (hb ▸ List.mem_cons_self)⟩
    rw [htaken, Text.bytesOf_append, Text.bytesOf_append, Text.bytesOf_cons, hb, List.append_assoc,
      List.getElem?_append_right (Nat.le_refl _), Nat.sub_self]
    rfl
  · obtain ⟨b, bs, hb⟩ := exists_utf8EncodeChar d
    have hbytes : bytesOf (before ++ taken) = bytesOf (before ++ front) ++ b :: (bs ++ bytesOf tail) := by
      rw [htaken', ← List.append_assoc, Text.bytesOf_append, Text.bytesOf_cons, hb, List.cons_append]
    have hline : lineBreak ∉ bs ++ bytesOf tail := by
      rw [List.mem_append, not_or]
      refine ⟨fun hmem => ?_, Text.lineBreak_not_mem_bytesOf htail⟩
      have hblank := Text.not_blank_of_solid hd (hb ▸ List.mem_cons_of_mem b hmem)
      exact absurd hblank (by decide)
    have hlength : (bytesOf (before ++ taken)).length =
        (bytesOf (before ++ front)).length + (1 + (bs ++ bytesOf tail).length) := by
      rw [hbytes, List.length_append, List.length_cons, Nat.add_comm 1]
    refine ⟨(bytesOf (before ++ front)).length, b, ?_, ?_, ?_,
      Text.not_blank_of_solid hd (hb ▸ List.mem_cons_self), fun j hj hstop hbreak => ?_⟩
    · rw [Text.bytesOf_append before, List.length_append]
      exact Nat.le_add_right _ _
    · omega
    · rw [Text.bytesOf_append (before ++ taken), hbytes, List.append_assoc,
        List.getElem?_append_right (Nat.le_refl _), Nat.sub_self]
      rfl
    · obtain ⟨k, rfl⟩ := Nat.exists_eq_add_of_lt hj
      rw [Text.bytesOf_append (before ++ taken), List.getElem?_append_left hstop, hbytes,
        List.getElem?_append_right (by omega), Nat.add_assoc, Nat.add_sub_cancel_left,
        List.getElem?_cons_succ] at hbreak
      exact hline (List.mem_of_getElem? hbreak)

/-! ## Blanks in the place of types -/

namespace Module.TypeSpan

theorem length_blank (source : List UInt8) (spans : List TypeSpan) :
    (blank source spans).length = source.length := by
  rw [blank, List.length_mapIdx]

/-- Blanking makes no byte that is no blank, and leaves line breaks. -/
theorem getElem?_blank {source : List UInt8} {spans : List TypeSpan} {i : Nat} {b : UInt8}
    (h : (blank source spans)[i]? = some b) (hb : isBlankByte b = false ∨ b = lineBreak) :
    source[i]? = some b := by
  rw [blank, List.getElem?_mapIdx] at h
  obtain ⟨c, hc, h⟩ := Option.map_eq_some_iff.mp h
  split at h
  · subst h
    rcases hb with hb | hb <;> exact absurd hb (by decide)
  · rwa [← h]

theorem getElem?_blank_lineBreak {source : List UInt8} {spans : List TypeSpan} {i : Nat}
    (h : source[i]? = some lineBreak) : (blank source spans)[i]? = some lineBreak := by
  rw [blank, List.getElem?_mapIdx, h]
  rfl

/-- What is solid after blanking is so before. -/
theorem solidBytes_of_blank {source : List UInt8} {spans : List TypeSpan} {start stop : Nat}
    (h : SolidBytes (blank source spans) start stop) : SolidBytes source start stop := by
  obtain ⟨b, hfirst, hb⟩ := h.first
  obtain ⟨i, c, hle, hlt, hlast, hc, hline⟩ := h.last
  refine ⟨length_blank source spans ▸ h.within, ⟨b, getElem?_blank hfirst (.inl hb), hb⟩,
    i, c, hle, hlt, getElem?_blank hlast (.inl hc), hc, fun j hj hstop hbreak => ?_⟩
  exact hline j hj hstop (getElem?_blank_lineBreak hbreak)

end Module.TypeSpan

/-! ## Reading modules -/

namespace Tsx

theorem Spans.on {text : List Char} {c c' : Cursor} {ns : List Node} (h : Spans c ns c') (hon : c.On text) :
    c'.On text := by
  obtain ⟨taken, htaken⟩ := h.passes
  exact hon.after htaken

/-- The statements of a text stand in order and are well-formed. -/
theorem readStatements_spec {text : List Char} (depth fuel : Nat) {c : Cursor} (hon : c.On text) :
    Spans c (readStatements depth fuel c).1 (readStatements depth fuel c).2.2 ∧
      AllNodes (Formed (Solid text)) (readStatements depth fuel c).1 := by
  induction fuel generalizing c with
  | zero => exact ⟨.nil c, .nil⟩
  | succ fuel ih =>
      rw [readStatements]
      split
      · next nodes c' hread =>
          have hreads : Reads Rule.form (.form (.rule .statement)) c nodes c' :=
            Reads.of_read depth _ _ _ _ hread
          have hmore := ih (hreads.spans.on hon)
          exact ⟨hreads.spans.append hmore.1, (hreads.formed hon).append hmore.2⟩
      · have hcomments := (preserved_formed text).skipped hon
        dsimp only
        split
        · exact ⟨.skip c, hcomments⟩
        · have hnext : Spans c.skip.2 [] c.skip.2.nextLine := .advance _ _
          have hspans := (Spans.skip c).append hnext
          rw [List.append_nil] at hspans
          have hmore := ih (hspans.on hon)
          exact ⟨hspans.append hmore.1, hcomments.append hmore.2⟩

theorem readProgramLine_spec (text : List Char) (c : Cursor) :
    Spans c (readProgramLine c).1 (readProgramLine c).2 ∧
      AllNodes (Formed (Solid text)) (readProgramLine c).1 := by
  unfold readProgramLine
  split
  · exact ⟨.leaf _ _ _, .singleton (formed_of_isOrdinary rfl) .nil⟩
  · exact ⟨.nil c, .nil⟩

/-- The tree of a text lies within it and is well-formed. -/
theorem Source.read_spec (text : String) :
    (Source.read text).root.kind = .program ∧ (Source.read text).root.Laid ∧
      (Source.read text).root.stop ≤ (bytesOf text.toList).length ∧
      AllNodes (Formed (Solid text.toList)) (Source.read text).root.children := by
  have hstart : Cursor.On text.toList { rest := text.toList } := ⟨[], rfl, rfl⟩
  have hline := readProgramLine_spec text.toList { rest := text.toList }
  have hbody := readStatements_spec (readingFuel text.toList) (text.toList.length + 1) (hline.1.on hstart)
  have hspans := hline.1.append hbody.1
  obtain ⟨before, htext, hstop⟩ := hspans.on hstart
  refine ⟨rfl, (Node.laid_iff _).mpr ⟨hspans.laid.le, hspans.laid⟩, ?_, hline.2.append hbody.2⟩
  have hend : (Source.read text).root.stop = (readStatements (readingFuel text.toList)
    (text.toList.length + 1) (readProgramLine { rest := text.toList }).2).2.2.pos := rfl
  rw [hend, hstop, Text.length_bytesOf, htext, Cursor.byteSize_append]
  exact Nat.le_add_right _ _

end Tsx

/-- What is known about the tree of a module. -/
structure Module.Outline (m : Module) : Prop where
  kind : m.root.kind = .program
  laid : m.root.Laid
  stop : m.root.stop ≤ m.bytes.length
  formed : AllNodes (Tsx.Formed (SolidBytes m.bytes)) m.root.children

/-- The tree of a text whose solid stretches are those of a module. -/
theorem outline_of_text {m : Module} {text : String} (hroot : m.root = (Tsx.Source.read text).root)
    (hlength : (bytesOf text.toList).length ≤ m.bytes.length)
    (hsolid : ∀ start stop, SolidBytes (bytesOf text.toList) start stop → SolidBytes m.bytes start stop) :
    m.Outline := by
  obtain ⟨hkind, hlaid, hstop, hformed⟩ := Tsx.Source.read_spec text
  rw [← hroot] at hkind hlaid hstop hformed
  exact ⟨hkind, hlaid, Nat.le_trans hstop hlength,
    fun x hx => (hformed x hx).imp fun start stop h => hsolid start stop (solidBytes_of_solid h)⟩

/-- The tree of a module some of whose bytes are blanked out before it is read. -/
theorem outline_of_blank {m : Module} {spans : List Module.TypeSpan} (hroot : m.root =
    (Tsx.Source.read ((Text.decode? (Module.TypeSpan.blank m.bytes spans)).getD "")).root) : m.Outline := by
  cases hdecode : Text.decode? (Module.TypeSpan.blank m.bytes spans) with
  | some blanked =>
      rw [hdecode, Option.getD_some] at hroot
      have hbytes := Text.encode_of_decode? hdecode
      rw [Text.encode_eq] at hbytes
      refine outline_of_text hroot ?_ fun start stop h => ?_
      · exact Nat.le_of_eq (by rw [hbytes, Module.TypeSpan.length_blank])
      · rw [hbytes] at h
        exact Module.TypeSpan.solidBytes_of_blank h
  | none =>
      rw [hdecode, Option.getD_none] at hroot
      refine outline_of_text hroot (Nat.zero_le _) fun start stop h => ?_
      obtain ⟨b, hfirst, -⟩ := h.first
      cases hfirst

/-- The tree of a module that has been read. -/
theorem Module.outline_read (text path : String) : (Module.read text path).Outline := by
  unfold Module.read
  dsimp only
  split
  · refine outline_of_text rfl ?_ fun start stop h => ?_
    · exact Nat.le_of_eq (congrArg List.length (Text.encode_eq text).symm)
    · rwa [← Text.encode_eq] at h
  · exact outline_of_blank rfl

end Restyle
