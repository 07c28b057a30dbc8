import ElastosCar.Strings.Ranges

/-!
# Reading the bytes of a string

The searches and the comparisons of `String` go over C strings by their bytes. `byteAt` and `charAt`
are what they read there; what is behind the terminator cannot be read.

In a string of characters, what `GetCharInternal` reads lies within the string from any place on
(`charAt_inside`), also from the middle of a character, where it takes a single byte for a character
(`GetCharInternal_tail`).
-/

namespace ElastosCar.ElString

/-- `string[i]`, where the bytes before the terminator are given. -/
def byteAt (string : List UInt8) (i : ℕ) : Option UInt8 := (string ++ [0])[i]?

/-- `GetCharInternal(p, &numBytes)`, which reads as many bytes as it counts. -/
def readChar (signed : Bool) (p : List UInt8) : Option (UInt32 × ℕ) :=
  let r := GetCharInternal signed p
  if r.2 ≤ p.length then some r else none

/-- `GetCharInternal(string + i, &numBytes)`. -/
def charAt (signed : Bool) (string : List UInt8) (i : ℕ) : Option (UInt32 × ℕ) :=
  readChar signed ((string ++ [0]).drop i)

/-! ### The first byte of a character -/

/-- The first byte of a character. -/
def lead (c : UInt32) : UInt8 := (utf8 c).headD 0

variable {c : UInt32} {cs ds : List UInt32} {i k : ℕ} {string : List UInt8}

theorem utf8_eq_lead_cons (hvalid : IsValidChar c = true) : utf8 c = lead c :: (utf8 c).tail := by
  obtain ⟨b, r, hbytes⟩ := List.exists_cons_of_ne_nil (utf8_ne_nil hvalid)
  rw [lead, hbytes]
  rfl

theorem lead_ne_zero (hvalid : IsValidChar c = true) (hne : c ≠ 0) : lead c ≠ 0 := by
  intro hzero
  refine hne ((zero_mem_utf8_iff c).mp ?_)
  rw [utf8_eq_lead_cons hvalid, hzero]
  exact List.mem_cons_self

/-- Of an ASCII character there is one byte, and it is the character. -/
theorem utf8_of_lt (h : c < 0x80) : utf8 c = [c.toUInt8] ∧ c.toUInt8.toUInt32 = c := by
  have hlt : c.toNat < 0x80 := h
  have hvalid : IsValidChar c = true := by
    have hsmall : ¬(0x10FFFF < c) := fun h' => absurd (show 0x10FFFF < c.toNat from h') (by omega)
    have hsurrogate : ¬(0xD800 ≤ c) := fun h' =>
      absurd (show 0xD800 ≤ c.toNat from h') (by omega)
    simp [IsValidChar, hsmall, hsurrogate]
  rcases utf8_cases hvalid with ⟨-, -, hbytes⟩ | ⟨h', -⟩ | ⟨h', -⟩ | ⟨h', -⟩
  · rw [hbytes, UInt32.or_zero]
    refine ⟨rfl, UInt32.toNat_inj.mp ?_⟩
    rw [UInt8.toNat_toUInt32, UInt32.toNat_toUInt8]
    omega
  all_goals omega

theorem isASCII_iff : ∀ b : UInt8, IsASCII b = true ↔ b.toNat < 0x80 := by
  decide +kernel

theorem tailRange : ∀ b : UInt8, 0x80 ≤ ((b ||| 0x80) &&& 0xBF).toNat ∧
    ((b ||| 0x80) &&& 0xBF).toNat < 0xC0 := by
  decide +kernel

/-- The other characters begin with a byte that tells their length, and go on with bytes that begin
none. -/
theorem utf8_of_le (hvalid : IsValidChar c = true) (h : 0x80 ≤ c) : 0xC0 ≤ (lead c).toNat ∧
    ∀ b ∈ (utf8 c).tail, 0x80 ≤ b.toNat ∧ b.toNat < 0xC0 := by
  have hle : 0x80 ≤ c.toNat := h
  have htail : ∀ x : UInt32, 0x80 ≤ (tailByte x).toNat ∧ (tailByte x).toNat < 0xC0 := by
    intro x
    rw [tailByte_eq]
    exact tailRange x.toUInt8
  have hshift := toNat_shiftRight_six
  rcases utf8_cases hvalid with ⟨h', -⟩ | ⟨-, h', -, hbytes⟩ | ⟨-, h', -, hbytes⟩ |
    ⟨-, h', -, hbytes⟩
  · omega
  · have hlead := toNat_firstByte_two (x := c >>> 6) (by rw [hshift]; omega)
    rw [lead, hbytes, List.headD_cons, hlead, List.tail_cons]
    exact ⟨Nat.le_add_right _ _, by simpa only [List.forall_mem_singleton] using htail c⟩
  · have hlead := toNat_firstByte_three (x := c >>> 6 >>> 6) (by rw [hshift, hshift]; omega)
    rw [lead, hbytes, List.headD_cons, hlead, List.tail_cons]
    refine ⟨by omega, ?_⟩
    rw [List.forall_mem_cons, List.forall_mem_singleton]
    exact ⟨htail _, htail _⟩
  · have hlead := toNat_firstByte_four (x := c >>> 6 >>> 6 >>> 6)
      (by rw [hshift, hshift, hshift]; omega)
    rw [lead, hbytes, List.headD_cons, hlead, List.tail_cons]
    refine ⟨by omega, ?_⟩
    rw [List.forall_mem_cons, List.forall_mem_cons, List.forall_mem_singleton]
    exact ⟨htail _, htail _, htail _⟩

theorem isASCII_lead_iff (hvalid : IsValidChar c = true) : IsASCII (lead c) = true ↔ c < 0x80 := by
  rw [isASCII_iff]
  by_cases h : c < 0x80
  · obtain ⟨hbytes, hchar⟩ := utf8_of_lt h
    have hlead : (lead c).toUInt32 = c := by
      rw [lead, hbytes, List.headD_cons, hchar]
    refine iff_of_true ?_ h
    rw [← UInt8.toNat_toUInt32, hlead]
    exact h
  · obtain ⟨hlead, -⟩ := utf8_of_le hvalid (UInt32.not_lt.mp h)
    exact iff_of_false (by omega) h

theorem getByteCount_eq_one_iff (hvalid : IsValidChar c = true) :
    GetByteCount c = 1 ↔ c < 0x80 := by
  have hlt : c < 0x80 ↔ c.toNat < 0x80 := Iff.rfl
  rcases utf8_cases hvalid with ⟨h, hcount, -⟩ | ⟨h, -, hcount, -⟩ | ⟨h, -, hcount, -⟩ |
    ⟨h, -, hcount, -⟩ <;> rw [hcount, hlt] <;> omega

theorem sequenceLength_lead (hvalid : IsValidChar c = true) :
    UTF8SequenceLength (lead c) = GetByteCount c := by
  obtain ⟨b, r, hbytes, hlen⟩ := isWord_utf8 hvalid
  rw [← length_utf8, ← hlen, lead, hbytes, List.headD_cons]

/-- A byte that begins no character is read as one of six bits. -/
theorem GetCharInternal_tail {b : UInt8} (h : 0x80 ≤ b.toNat) (h' : b.toNat < 0xC0) (signed : Bool)
    (r : List UInt8) : GetCharInternal signed (b :: r) = ((b &&& 0x3F).toUInt32, 1) := by
  have hbits : ∀ b : UInt8, 0x80 ≤ b.toNat → b.toNat < 0xC0 → ∀ signed,
      ofChar signed b &&& 0x40 = 0 ∧ ofChar signed b &&& 0x3F = (b &&& 0x3F).toUInt32 := by
    decide +kernel
  have hascii : IsASCII b = false := by
    rw [Bool.eq_false_iff, ne_eq, isASCII_iff]
    omega
  obtain ⟨hmask, hkeep⟩ := hbits b h h' signed
  rw [← hkeep]
  exact GetCharInternal_of_loop hascii (readLoop_end hmask) (by decide)

/-! ### What is read at a character -/

theorem byteAt_length (string : List UInt8) : byteAt string string.length = some 0 := by
  rw [byteAt, List.getElem?_append_right le_rfl, Nat.sub_self]
  rfl

theorem byteAt_of_lt (hi : i < string.length) : byteAt string i = some string[i] := by
  rw [byteAt, List.getElem?_append_left hi, List.getElem?_eq_getElem hi]

theorem IsText.drop (hchar : IsText cs) (k : ℕ) : IsText (cs.drop k) :=
  fun c hc => hchar c (List.mem_of_mem_drop hc)

theorem IsText.getElem (hchar : IsText cs) (hk : k < cs.length) :
    cs[k] ≠ 0 ∧ IsValidChar cs[k] = true := hchar _ (List.getElem_mem hk)

/-- The characters from a place on. -/
theorem drop_charOffset (hk : k < cs.length) :
    (cs.flatMap utf8 ++ [0]).drop (charOffset cs k) =
      utf8 cs[k] ++ ((cs.drop (k + 1)).flatMap utf8 ++ [0]) := by
  rw [charOffset, Code.drop_offset, List.drop_eq_getElem_cons hk, List.flatMap_cons,
    List.append_assoc]

theorem charOffset_succ (hk : k < cs.length) :
    charOffset cs (k + 1) = charOffset cs k + GetByteCount cs[k] := by
  rw [charOffset, Code.offset_succ hk, length_utf8]

theorem charOffset_add_le (hk : k < cs.length) :
    charOffset cs k + GetByteCount cs[k] ≤ (cs.flatMap utf8).length := by
  rw [← charOffset_succ hk]
  exact Code.offset_le utf8 cs (k + 1)

theorem IsText.charOffset_lt (hchar : IsText cs) (hk : k < cs.length) :
    charOffset cs k < (cs.flatMap utf8).length := by
  have hle := charOffset_add_le hk
  have hpos := (pos_GetByteCount_iff cs[k]).mpr (hchar.getElem hk).2
  omega

theorem IsText.byteAt (hchar : IsText cs) (hk : k < cs.length) :
    byteAt (cs.flatMap utf8) (charOffset cs k) = some (lead cs[k]) := by
  rw [ElString.byteAt, ← Nat.add_zero (charOffset cs k), ← List.getElem?_drop, drop_charOffset hk,
    utf8_eq_lead_cons (hchar.getElem hk).2]
  rfl

theorem readChar_utf8 (hvalid : IsValidChar c = true) (signed : Bool) (r : List UInt8) :
    readChar signed (utf8 c ++ r) = some (c, GetByteCount c) := by
  rw [readChar, GetCharInternal_utf8 hvalid]
  refine if_pos ?_
  rw [List.length_append, length_utf8]
  exact Nat.le_add_right _ _

theorem IsText.charAt (hchar : IsText cs) (signed : Bool) (hk : k < cs.length) :
    charAt signed (cs.flatMap utf8) (charOffset cs k) = some (cs[k], GetByteCount cs[k]) := by
  rw [ElString.charAt, drop_charOffset hk, readChar_utf8 (hchar.getElem hk).2]

/-! ### What is read anywhere -/

/-- **From any place of a string of characters**, a character is read that lies within it. -/
theorem IsText.charAt_inside (hchar : IsText cs) (signed : Bool)
    (hi : i < (cs.flatMap utf8).length) :
    ∃ ch n, ElString.charAt signed (cs.flatMap utf8) i = some (ch, n) ∧ 1 ≤ n ∧
      i + n ≤ (cs.flatMap utf8).length := by
  obtain ⟨k, j, hk, hj, rfl⟩ := Code.exists_place hi
  obtain ⟨-, hvalid⟩ := hchar.getElem hk
  have hle := charOffset_add_le hk
  rw [length_utf8] at hj
  rcases Nat.eq_zero_or_pos j with rfl | hpos
  · exact ⟨_, _, hchar.charAt signed hk, (pos_GetByteCount_iff _).mpr hvalid, hle⟩
  · -- in the middle of a character a single byte is read
    have hj' : j < (utf8 cs[k]).length := (length_utf8 cs[k]).symm ▸ hj
    have hrest := Code.drop_offset_add utf8 [0] hk hj'.le
    have hmem : (utf8 cs[k])[j] ∈ (utf8 cs[k]).tail := by
      rw [← List.drop_one, List.mem_drop_iff_getElem]
      exact ⟨j - 1, by rw [length_utf8]; omega, by simp only [Nat.add_sub_cancel' hpos]⟩
    have hlarge : 0x80 ≤ cs[k] := by
      rw [← UInt32.not_lt, ← getByteCount_eq_one_iff hvalid]
      omega
    obtain ⟨hlo, hhi⟩ := (utf8_of_le hvalid hlarge).2 _ hmem
    rw [ElString.charAt, hrest, List.drop_eq_getElem_cons hj',
      List.cons_append, readChar, GetCharInternal_tail hlo hhi]
    exact ⟨_, 1, if_pos (Nat.succ_pos _), le_rfl, by rw [charOffset] at hle; omega⟩

end ElastosCar.ElString
