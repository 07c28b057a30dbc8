import ElastosCar.Lib.Bytes
import ElastosCar.Lib.Scan

/-!
# The characters of a `String`

The static functions of `String` that encode a `Char32` and decode one: `GetByteCount` and
`WriteUTFBytesToBuffer` of `Append`, `UTF8SequenceLength`, by which characters are counted, and
`GetCharInternal`, which has a count of its own. The three counts agree on what the encoder writes
(`isWord_utf8`, `GetCharInternal_utf8`), and on every byte that begins a character at all
(`numToRead_eq`).

Whether `char` is signed is left to the compiler.
-/

namespace ElastosCar

namespace ElString

/-! ### Encoding -/

def INVALID_CHAR : UInt32 := 0x110000

def IsValidChar (c : UInt32) : Bool := !(0x10FFFF < c || (0xD800 ≤ c && c ≤ 0xDFFF))

def GetByteCount (c : UInt32) : ℕ :=
  if 0x10FFFF < c || (0xD800 ≤ c && c ≤ 0xDFFF) then 0
  else if c < 0x80 then 1
  else if c < 0x800 then 2
  else if c < 0x10000 then 3
  else 4

def kByteMask : UInt32 := 0xBF

def kByteMark : UInt32 := 0x80

def kFirstByteMark : ℕ → UInt32
  | 2 => 0xC0
  | 3 => 0xE0
  | 4 => 0xF0
  | _ => 0

/-- The cases of `WriteUTFBytesToBuffer` above the last, which fall through: what is left of the
character, and the bytes written so far. -/
def tailBytes : ℕ → UInt32 → UInt32 × List UInt8
  | 0, srcChar => (srcChar, [])
  | n + 1, srcChar =>
    let r := tailBytes n (srcChar >>> 6)
    (r.1, r.2 ++ [((srcChar ||| kByteMark) &&& kByteMask).toUInt8])

def WriteUTFBytesToBuffer (srcChar : UInt32) : ℕ → List UInt8
  | 0 => []
  | n + 1 =>
    let r := tailBytes n srcChar
    (r.1 ||| kFirstByteMark (n + 1)).toUInt8 :: r.2

/-- The bytes that `Append` writes for a character. -/
def utf8 (c : UInt32) : List UInt8 := WriteUTFBytesToBuffer c (GetByteCount c)

/-! ### Decoding -/

def IsASCII (c : UInt8) : Bool := c &&& 0x80 = 0

def UTF8SequenceLengthNonASCII (b0 : UInt8) : ℕ :=
  if b0 &&& 0xC0 ≠ 0xC0 then 0
  else if b0 &&& 0xE0 = 0xC0 then 2
  else if b0 &&& 0xF0 = 0xE0 then 3
  else if b0 &&& 0xF8 = 0xF0 then 4
  else 0

def UTF8SequenceLength (b0 : UInt8) : ℕ := if IsASCII b0 then 1 else UTF8SequenceLengthNonASCII b0

/-- A `char` as a `Char32`. -/
def ofChar (signed : Bool) (b : UInt8) : UInt32 :=
  if signed && 0x80 ≤ b then b.toUInt32 ||| 0xFFFFFF00 else b.toUInt32

/-- What the loop of `GetCharInternal` carries. -/
structure Reading where
  result : UInt32
  mask : UInt32
  to_ignore_mask : UInt32
  num_to_read : ℕ
deriving DecidableEq, Repr

/-- The loop of `GetCharInternal` for at most the given number of passes. After seven passes the mask
is zero. -/
def readLoop (first_char : UInt32) : ℕ → List UInt8 → Reading → Reading
  | 0, _, r => r
  | n + 1, cur, r =>
    if first_char &&& r.mask ≠ 0 then
      readLoop first_char n cur.tail
        { result := (r.result <<< 6) + (cur.headD 0 &&& 0x3F).toUInt32
          mask := r.mask >>> 1
          to_ignore_mask := r.to_ignore_mask ||| r.mask
          num_to_read := r.num_to_read + 1 }
    else r

/-- `GetCharInternal`: the character and `*numBytes`. -/
def GetCharInternal (signed : Bool) : List UInt8 → UInt32 × ℕ
  | [] => (0, 1)
  | b :: cur =>
    if IsASCII b then (b.toUInt32, 1)
    else
      let first_char := ofChar signed b
      let r := readLoop first_char 8 cur ⟨first_char, 0x40, 0xFFFFFF80, 1⟩
      (r.result &&& ~~~((r.to_ignore_mask ||| r.mask) <<< (UInt32.ofNat (6 * (r.num_to_read - 1)))),
        r.num_to_read)

/-- The `*numBytes` of `GetCharInternal`, which the first byte alone decides. -/
def numToRead (b : UInt8) : ℕ := (GetCharInternal false [b]).2

/-! ### Lengths -/

/-- The first byte decides the length. The sign of `char` does not reach the bits that are counted, and
where `UTF8SequenceLength` finds a character, `GetCharInternal` reads as many bytes. -/
theorem numToRead_spec : ∀ b : UInt8, numToRead b ≠ 0 ∧
    (UTF8SequenceLength b ≠ 0 → numToRead b = UTF8SequenceLength b) ∧
    (readLoop (ofChar true b) 8 [] ⟨ofChar true b, 0x40, 0xFFFFFF80, 1⟩).num_to_read =
      (readLoop (ofChar false b) 8 [] ⟨ofChar false b, 0x40, 0xFFFFFF80, 1⟩).num_to_read := by
  decide +kernel

theorem numToRead_eq (b : UInt8) (h : UTF8SequenceLength b ≠ 0) :
    numToRead b = UTF8SequenceLength b := (numToRead_spec b).2.1 h

/-! ### The bytes of a character -/

/-- A byte that is not the first of a character. -/
def tailByte (x : UInt32) : UInt8 := ((x ||| kByteMark) &&& kByteMask).toUInt8

theorem tailByte_eq (x : UInt32) : tailByte x = (x.toUInt8 ||| 0x80) &&& 0xBF := by
  rw [tailByte, UInt32.toUInt8_and, UInt32.toUInt8_or]
  rfl

theorem tailBits_spec : ∀ b : UInt8, (b ||| 0x80) &&& 0xBF ≠ 0 ∧
    (((b ||| 0x80) &&& 0xBF) &&& 0x3F).toNat = b.toNat % 64 := by
  decide +kernel

theorem toNat_tailByte (x : UInt32) : ((tailByte x &&& 0x3F).toUInt32).toNat = x.toNat % 64 := by
  rw [tailByte_eq, UInt8.toNat_toUInt32, (tailBits_spec _).2, UInt32.toNat_toUInt8]
  omega

theorem tailByte_ne_zero (x : UInt32) : tailByte x ≠ 0 := by
  rw [tailByte_eq]
  exact (tailBits_spec _).1

theorem toNat_shiftRight_six (x : UInt32) : (x >>> 6).toNat = x.toNat / 64 := by
  rw [UInt32.toNat_shiftRight]
  exact Nat.shiftRight_eq_div_pow _ _

/-- The first byte of a character: the mark of its length, and the bits that are left. -/
theorem firstByte_or : ∀ b : UInt8,
    (b.toNat < 0x20 → (b ||| 0xC0).toNat = 0xC0 + b.toNat) ∧
    (b.toNat < 0x10 → (b ||| 0xE0).toNat = 0xE0 + b.toNat) ∧
    (b.toNat < 0x08 → (b ||| 0xF0).toNat = 0xF0 + b.toNat) := by
  decide +kernel

theorem toNat_firstByte_two {x : UInt32} (h : x.toNat < 0x20) :
    ((x ||| 0xC0).toUInt8).toNat = 0xC0 + x.toNat := by
  have hx : x.toUInt8.toNat = x.toNat := by
    rw [UInt32.toNat_toUInt8]
    omega
  rw [UInt32.toUInt8_or]
  exact ((firstByte_or x.toUInt8).1 (by omega)).trans (by rw [hx])

theorem toNat_firstByte_three {x : UInt32} (h : x.toNat < 0x10) :
    ((x ||| 0xE0).toUInt8).toNat = 0xE0 + x.toNat := by
  have hx : x.toUInt8.toNat = x.toNat := by
    rw [UInt32.toNat_toUInt8]
    omega
  rw [UInt32.toUInt8_or]
  exact ((firstByte_or x.toUInt8).2.1 (by omega)).trans (by rw [hx])

theorem toNat_firstByte_four {x : UInt32} (h : x.toNat < 0x08) :
    ((x ||| 0xF0).toUInt8).toNat = 0xF0 + x.toNat := by
  have hx : x.toUInt8.toNat = x.toNat := by
    rw [UInt32.toNat_toUInt8]
    omega
  rw [UInt32.toUInt8_or]
  exact ((firstByte_or x.toUInt8).2.2 (by omega)).trans (by rw [hx])

/-! ### Reading characters of two, three and four bytes -/

/-- What the first byte tells, of a character of one byte or two. -/
theorem lead_spec : ∀ b : UInt8, (b.toNat < 0x80 → IsASCII b = true) ∧
    (0xC0 ≤ b.toNat → b.toNat < 0xE0 → IsASCII b = false ∧ UTF8SequenceLength b = 2 ∧
      ∀ signed, ofChar signed b &&& 0x40 ≠ 0 ∧ ofChar signed b &&& 0x20 = 0) ∧
    ∀ signed, (ofChar signed b).toNat % 256 = b.toNat := by
  decide +kernel

/-- What the first byte tells, of a longer character. -/
theorem lead_long_spec : ∀ b : UInt8,
    (0xE0 ≤ b.toNat → b.toNat < 0xF0 → IsASCII b = false ∧ UTF8SequenceLength b = 3 ∧
      ∀ signed, ofChar signed b &&& 0x40 ≠ 0 ∧ ofChar signed b &&& 0x20 ≠ 0 ∧
        ofChar signed b &&& 0x10 = 0) ∧
    (0xF0 ≤ b.toNat → b.toNat < 0xF8 → IsASCII b = false ∧ UTF8SequenceLength b = 4 ∧
      ∀ signed, ofChar signed b &&& 0x40 ≠ 0 ∧ ofChar signed b &&& 0x20 ≠ 0 ∧
        ofChar signed b &&& 0x10 ≠ 0 ∧ ofChar signed b &&& 0x08 = 0) := by
  decide +kernel

theorem ascii_of_lt (b : UInt8) (h : b.toNat < 0x80) : IsASCII b = true := (lead_spec b).1 h

theorem toNat_ofChar (b : UInt8) (signed : Bool) : (ofChar signed b).toNat % 256 = b.toNat :=
  (lead_spec b).2.2 signed

/-- One pass of the loop: six more bits. -/
theorem toNat_shift_add (x : UInt32) (b : UInt8) :
    ((x <<< 6) + (b &&& 0x3F).toUInt32).toNat =
      (x.toNat * 64 + (b &&& 0x3F).toUInt32.toNat) % 4294967296 := by
  rw [UInt32.toNat_add, UInt32.toNat_shiftLeft]
  have hshift : x.toNat <<< ((6 : UInt32).toNat % 32) = x.toNat * 64 := Nat.shiftLeft_eq _ _
  rw [hshift]
  omega

theorem readLoop_pass {first_char result mask ignore : UInt32} (mask' ignore' : UInt32) {n k : ℕ}
    {b : UInt8} {cur : List UInt8} (h : first_char &&& mask ≠ 0) (hmask : mask >>> 1 = mask')
    (hignore : ignore ||| mask = ignore') :
    readLoop first_char (n + 1) (b :: cur) ⟨result, mask, ignore, k⟩ =
      readLoop first_char n cur ⟨(result <<< 6) + (b &&& 0x3F).toUInt32, mask', ignore', k + 1⟩ := by
  rw [readLoop, if_pos h, ← hmask, ← hignore]
  rfl

theorem readLoop_end {first_char : UInt32} {n : ℕ} {cur : List UInt8} {r : Reading}
    (h : first_char &&& r.mask = 0) : readLoop first_char (n + 1) cur r = r := by
  rw [readLoop, if_neg (by simpa using h)]

/-- What `GetCharInternal` does with the end of the loop. -/
theorem GetCharInternal_of_loop {signed : Bool} {b : UInt8} {cur : List UInt8}
    {result mask ignore keep : UInt32} {k : ℕ} (hascii : IsASCII b = false)
    (hloop : readLoop (ofChar signed b) 8 cur ⟨ofChar signed b, 0x40, 0xFFFFFF80, 1⟩ =
      ⟨result, mask, ignore, k⟩)
    (hkeep : ~~~((ignore ||| mask) <<< UInt32.ofNat (6 * (k - 1))) = keep) :
    GetCharInternal signed (b :: cur) = (result &&& keep, k) := by
  rw [GetCharInternal, if_neg (by simp [hascii])]
  simp only [hloop, hkeep]

theorem read_two {b0 : UInt8} (h : 0xC0 ≤ b0.toNat) (h' : b0.toNat < 0xE0) (signed : Bool)
    (b1 : UInt8) (r : List UInt8) : GetCharInternal signed (b0 :: b1 :: r) =
      (((ofChar signed b0 <<< 6) + (b1 &&& 0x3F).toUInt32) &&& 0x7FF, 2) := by
  obtain ⟨hascii, -, hbits⟩ := (lead_spec b0).2.1 h h'
  obtain ⟨h40, h20⟩ := hbits signed
  exact GetCharInternal_of_loop hascii
    ((readLoop_pass 0x20 0xFFFFFFC0 h40 rfl rfl).trans (readLoop_end h20)) (by decide)

theorem read_three {b0 : UInt8} (h : 0xE0 ≤ b0.toNat) (h' : b0.toNat < 0xF0) (signed : Bool)
    (b1 b2 : UInt8) (r : List UInt8) : GetCharInternal signed (b0 :: b1 :: b2 :: r) =
      (((((ofChar signed b0 <<< 6) + (b1 &&& 0x3F).toUInt32) <<< 6) + (b2 &&& 0x3F).toUInt32) &&&
        0xFFFF, 3) := by
  obtain ⟨hascii, -, hbits⟩ := (lead_long_spec b0).1 h h'
  obtain ⟨h40, h20, h10⟩ := hbits signed
  exact GetCharInternal_of_loop hascii ((readLoop_pass 0x20 0xFFFFFFC0 h40 rfl rfl).trans
    ((readLoop_pass 0x10 0xFFFFFFE0 h20 rfl rfl).trans (readLoop_end h10))) (by decide)

theorem read_four {b0 : UInt8} (h : 0xF0 ≤ b0.toNat) (h' : b0.toNat < 0xF8) (signed : Bool)
    (b1 b2 b3 : UInt8) (r : List UInt8) : GetCharInternal signed (b0 :: b1 :: b2 :: b3 :: r) =
      (((((((ofChar signed b0 <<< 6) + (b1 &&& 0x3F).toUInt32) <<< 6) +
        (b2 &&& 0x3F).toUInt32) <<< 6) + (b3 &&& 0x3F).toUInt32) &&& 0x1FFFFF, 4) := by
  obtain ⟨hascii, -, hbits⟩ := (lead_long_spec b0).2 h h'
  obtain ⟨h40, h20, h10, h08⟩ := hbits signed
  exact GetCharInternal_of_loop hascii ((readLoop_pass 0x20 0xFFFFFFC0 h40 rfl rfl).trans
    ((readLoop_pass 0x10 0xFFFFFFE0 h20 rfl rfl).trans
      ((readLoop_pass 0x08 0xFFFFFFF0 h10 rfl rfl).trans (readLoop_end h08)))) (by decide)

/-! ### What is written is read -/

theorem toNat_and_mask (x : UInt32) {mask : UInt32} {n : ℕ} (h : mask.toNat = 2 ^ n - 1) :
    (x &&& mask).toNat = x.toNat % 2 ^ n := by
  rw [UInt32.toNat_and, h, Nat.and_two_pow_sub_one_eq_mod]

/-- A character that can be written, by the bytes it takes. -/
theorem utf8_cases {c : UInt32} (hvalid : IsValidChar c = true) :
    (c.toNat < 0x80 ∧ GetByteCount c = 1 ∧ utf8 c = [(c ||| 0).toUInt8]) ∨
    (0x80 ≤ c.toNat ∧ c.toNat < 0x800 ∧ GetByteCount c = 2 ∧
      utf8 c = [((c >>> 6) ||| 0xC0).toUInt8, tailByte c]) ∨
    (0x800 ≤ c.toNat ∧ c.toNat < 0x10000 ∧ GetByteCount c = 3 ∧
      utf8 c = [((c >>> 6 >>> 6) ||| 0xE0).toUInt8, tailByte (c >>> 6), tailByte c]) ∨
    (0x10000 ≤ c.toNat ∧ c.toNat ≤ 0x10FFFF ∧ GetByteCount c = 4 ∧
      utf8 c = [((c >>> 6 >>> 6 >>> 6) ||| 0xF0).toUInt8, tailByte (c >>> 6 >>> 6),
        tailByte (c >>> 6), tailByte c]) := by
  have hnot : ¬ (0x10FFFF < c || (0xD800 ≤ c && c ≤ 0xDFFF)) = true := by
    rw [IsValidChar, Bool.not_eq_true'] at hvalid
    rw [hvalid]
    exact Bool.false_ne_true
  have hmax : c.toNat ≤ 0x10FFFF := by
    have h : ¬ 0x10FFFF < c := fun h => hnot (by simp [h])
    exact Nat.not_lt.mp h
  by_cases h1 : c < 0x80
  · have hcount : GetByteCount c = 1 := by rw [GetByteCount, if_neg hnot, if_pos h1]
    exact .inl ⟨h1, hcount, by rw [utf8, hcount]; rfl⟩
  · have h1' : 0x80 ≤ c.toNat := Nat.not_lt.mp h1
    by_cases h2 : c < 0x800
    · have hcount : GetByteCount c = 2 := by rw [GetByteCount, if_neg hnot, if_neg h1, if_pos h2]
      exact .inr (.inl ⟨h1', h2, hcount, by rw [utf8, hcount]; rfl⟩)
    · have h2' : 0x800 ≤ c.toNat := Nat.not_lt.mp h2
      by_cases h3 : c < 0x10000
      · have hcount : GetByteCount c = 3 := by
          rw [GetByteCount, if_neg hnot, if_neg h1, if_neg h2, if_pos h3]
        exact .inr (.inr (.inl ⟨h2', h3, hcount, by rw [utf8, hcount]; rfl⟩))
      · have h3' : 0x10000 ≤ c.toNat := Nat.not_lt.mp h3
        have hcount : GetByteCount c = 4 := by
          rw [GetByteCount, if_neg hnot, if_neg h1, if_neg h2, if_neg h3]
        exact .inr (.inr (.inr ⟨h3', hmax, hcount, by rw [utf8, hcount]; rfl⟩))

theorem GetByteCount_eq_zero_iff (c : UInt32) : GetByteCount c = 0 ↔ IsValidChar c = false := by
  rw [GetByteCount, IsValidChar, Bool.not_eq_false']
  split_ifs with h
  · exact iff_of_true rfl h
  all_goals exact iff_of_false (by decide) h

/-- **The decoder reads what the encoder writes.** -/
theorem GetCharInternal_utf8 {c : UInt32} (hvalid : IsValidChar c = true) (signed : Bool)
    (r : List UInt8) : GetCharInternal signed (utf8 c ++ r) = (c, GetByteCount c) := by
  have hlt := c.toNat_lt
  rcases utf8_cases hvalid with ⟨h, hcount, hbytes⟩ | ⟨h, h', hcount, hbytes⟩ |
    ⟨h, h', hcount, hbytes⟩ | ⟨h, h', hcount, hbytes⟩
  · have hzero : c ||| 0 = c := UInt32.or_zero
    have hbyte : c.toUInt8.toNat = c.toNat := by
      rw [UInt32.toNat_toUInt8]
      omega
    have hascii : IsASCII c.toUInt8 = true := ascii_of_lt _ (hbyte ▸ h)
    rw [hbytes, hcount, hzero, List.cons_append, GetCharInternal, if_pos hascii]
    refine congrArg (·, 1) (UInt32.toNat_inj.mp ?_)
    rw [UInt8.toNat_toUInt32, hbyte]
  · have hfirst : (c >>> 6).toNat < 0x20 := by
      rw [toNat_shiftRight_six]
      omega
    have hlead := toNat_firstByte_two hfirst
    rw [toNat_shiftRight_six] at hlead
    rw [hbytes, hcount, List.cons_append, List.cons_append,
      read_two (by omega) (by omega)]
    refine congrArg (·, 2) (UInt32.toNat_inj.mp ?_)
    have hofChar := toNat_ofChar ((c >>> 6) ||| 0xC0).toUInt8 signed
    rw [toNat_and_mask _ (n := 11) rfl, toNat_shift_add, toNat_tailByte]
    omega
  · have hfirst : (c >>> 6 >>> 6).toNat < 0x10 := by
      rw [toNat_shiftRight_six, toNat_shiftRight_six]
      omega
    have hlead := toNat_firstByte_three hfirst
    rw [toNat_shiftRight_six, toNat_shiftRight_six] at hlead
    rw [hbytes, hcount, List.cons_append, List.cons_append, List.cons_append,
      read_three (by omega) (by omega)]
    refine congrArg (·, 3) (UInt32.toNat_inj.mp ?_)
    have hofChar := toNat_ofChar ((c >>> 6 >>> 6) ||| 0xE0).toUInt8 signed
    rw [toNat_and_mask _ (n := 16) rfl, toNat_shift_add, toNat_shift_add, toNat_tailByte,
      toNat_tailByte, toNat_shiftRight_six]
    omega
  · have hfirst : (c >>> 6 >>> 6 >>> 6).toNat < 0x08 := by
      rw [toNat_shiftRight_six, toNat_shiftRight_six, toNat_shiftRight_six]
      omega
    have hlead := toNat_firstByte_four hfirst
    rw [toNat_shiftRight_six, toNat_shiftRight_six, toNat_shiftRight_six] at hlead
    rw [hbytes, hcount, List.cons_append, List.cons_append, List.cons_append, List.cons_append,
      read_four (by omega) (by omega)]
    refine congrArg (·, 4) (UInt32.toNat_inj.mp ?_)
    have hofChar := toNat_ofChar ((c >>> 6 >>> 6 >>> 6) ||| 0xF0).toUInt8 signed
    rw [toNat_and_mask _ (n := 21) rfl, toNat_shift_add, toNat_shift_add, toNat_shift_add,
      toNat_tailByte, toNat_tailByte, toNat_tailByte, toNat_shiftRight_six, toNat_shiftRight_six]
    omega

/-- The scans find the characters that are written. -/
theorem isWord_utf8 {c : UInt32} (hvalid : IsValidChar c = true) :
    Scan.IsWord UTF8SequenceLength (utf8 c) := by
  have hlt := c.toNat_lt
  rcases utf8_cases hvalid with ⟨h, hcount, hbytes⟩ | ⟨h, h', hcount, hbytes⟩ |
    ⟨h, h', hcount, hbytes⟩ | ⟨h, h', hcount, hbytes⟩ <;> rw [hbytes]
  · have hbyte : (c ||| 0).toUInt8.toNat = c.toNat := by
      rw [UInt32.or_zero, UInt32.toNat_toUInt8]
      omega
    refine ⟨_, _, rfl, ?_⟩
    rw [UTF8SequenceLength, if_pos (ascii_of_lt _ (hbyte ▸ h))]
    rfl
  · have hlead := toNat_firstByte_two (x := c >>> 6) (by rw [toNat_shiftRight_six]; omega)
    rw [toNat_shiftRight_six] at hlead
    exact ⟨_, _, rfl, ((lead_spec _).2.1 (by omega) (by omega)).2.1⟩
  · have hlead := toNat_firstByte_three (x := c >>> 6 >>> 6)
      (by rw [toNat_shiftRight_six, toNat_shiftRight_six]; omega)
    rw [toNat_shiftRight_six, toNat_shiftRight_six] at hlead
    exact ⟨_, _, rfl, ((lead_long_spec _).1 (by omega) (by omega)).2.1⟩
  · have hlead := toNat_firstByte_four (x := c >>> 6 >>> 6 >>> 6)
      (by rw [toNat_shiftRight_six, toNat_shiftRight_six, toNat_shiftRight_six]; omega)
    rw [toNat_shiftRight_six, toNat_shiftRight_six, toNat_shiftRight_six] at hlead
    exact ⟨_, _, rfl, ((lead_long_spec _).2 (by omega) (by omega)).2.1⟩

theorem length_utf8 (c : UInt32) : (utf8 c).length = GetByteCount c := by
  have htail : ∀ n (x : UInt32), (tailBytes n x).2.length = n := by
    intro n
    induction n with
    | zero => intro x; rfl
    | succ n ih =>
      intro x
      rw [tailBytes, List.length_append, ih]
      rfl
  rw [utf8]
  cases GetByteCount c with
  | zero => rfl
  | succ n => exact congrArg (· + 1) (htail n c)

/-- A character other than NUL is written without a zero. -/
theorem zero_mem_utf8_iff (c : UInt32) : 0 ∈ utf8 c ↔ c = 0 := by
  cases hvalid : IsValidChar c with
  | false =>
    have hne : c ≠ 0 := by
      rintro rfl
      exact absurd hvalid (by decide)
    have hnil : utf8 c = [] := List.length_eq_zero_iff.mp
      ((length_utf8 c).trans ((GetByteCount_eq_zero_iff c).mpr hvalid))
    rw [hnil]
    exact iff_of_false List.not_mem_nil hne
  | true =>
    have hzero : c = 0 ↔ c.toNat = 0 := UInt32.toNat_inj.symm
    have hfirst : ∀ b : UInt8, b.toNat ≠ 0 → 0 ≠ b := by
      rintro b hb rfl
      exact hb rfl
    rcases utf8_cases hvalid with ⟨h, -, hbytes⟩ | ⟨h, h', -, hbytes⟩ | ⟨h, h', -, hbytes⟩ |
      ⟨h, h', -, hbytes⟩ <;> rw [hbytes]
    · rw [UInt32.or_zero, List.mem_singleton, hzero, ← UInt8.toNat_inj, UInt32.toNat_toUInt8]
      change 0 = c.toNat % 256 ↔ c.toNat = 0
      omega
    · have hlead := toNat_firstByte_two (x := c >>> 6) (by rw [toNat_shiftRight_six]; omega)
      refine iff_of_false ?_ (by rw [hzero]; omega)
      simp only [List.mem_cons, List.not_mem_nil, or_false, not_or]
      exact ⟨hfirst _ (by rw [hlead]; omega), (tailByte_ne_zero _).symm⟩
    · have hlead := toNat_firstByte_three (x := c >>> 6 >>> 6)
        (by rw [toNat_shiftRight_six, toNat_shiftRight_six]; omega)
      refine iff_of_false ?_ (by rw [hzero]; omega)
      simp only [List.mem_cons, List.not_mem_nil, or_false, not_or]
      exact ⟨hfirst _ (by rw [hlead]; omega), (tailByte_ne_zero _).symm, (tailByte_ne_zero _).symm⟩
    · have hlead := toNat_firstByte_four (x := c >>> 6 >>> 6 >>> 6)
        (by rw [toNat_shiftRight_six, toNat_shiftRight_six, toNat_shiftRight_six]; omega)
      refine iff_of_false ?_ (by rw [hzero]; omega)
      simp only [List.mem_cons, List.not_mem_nil, or_false, not_or]
      exact ⟨hfirst _ (by rw [hlead]; omega), (tailByte_ne_zero _).symm, (tailByte_ne_zero _).symm,
        (tailByte_ne_zero _).symm⟩

/-! ### The scans -/

/-- The step of a scan that counts characters; it stops at the NUL. -/
def charLen (b : UInt8) : ℕ := if b = 0 then 0 else UTF8SequenceLength b

/-- The step of a scan that reads characters; it stops at the NUL. -/
def readLen (b : UInt8) : ℕ := if b = 0 then 0 else numToRead b

theorem readLen_eq {b : UInt8} (h : charLen b ≠ 0) : readLen b = charLen b := by
  rw [charLen] at h ⊢
  rw [readLen]
  split_ifs with hb
  · rfl
  · rw [if_neg hb] at h
    exact numToRead_eq b h

theorem isWord_charLen {c : UInt32} (hvalid : IsValidChar c = true) (hne : c ≠ 0) :
    Scan.IsWord charLen (utf8 c) := by
  obtain ⟨b, r, hbytes, hlen⟩ := isWord_utf8 hvalid
  refine ⟨b, r, hbytes, ?_⟩
  have hb : b ≠ 0 := by
    rintro rfl
    exact hne ((zero_mem_utf8_iff c).mp (hbytes ▸ List.mem_cons_self))
  rw [charLen, if_neg hb, hlen]

theorem isWord_readLen {c : UInt32} (hvalid : IsValidChar c = true) (hne : c ≠ 0) :
    Scan.IsWord readLen (utf8 c) := by
  obtain ⟨b, r, hbytes, hlen⟩ := isWord_charLen hvalid hne
  have hpos : charLen b ≠ 0 := by
    rw [hlen, hbytes]
    exact Nat.succ_ne_zero _
  exact ⟨b, r, hbytes, (readLen_eq hpos).trans hlen⟩

end ElString

end ElastosCar
