import ElastosCar.Strings.Utf8
import ElastosCar.Types

/-!
# `String`

The functions of `elstring.cpp` on the value of a `String`: the bytes of the `SharedBuffer` that
`mString` points into, and `mCharCount`, which keeps the number of characters once they have been
counted. Which `String`s share a buffer, and when a buffer is freed, is left out here; allocations
succeed.

Half of the functions measure the string with `GetByteLength`, which is the size of the buffer but
one, and half with `strlen`.
-/

namespace ElastosCar

/-- A `String`. -/
structure ElString where
  /-- The buffer, its last byte included. -/
  mString : Option (List UInt8) := none
  mCharCount : UInt32 := 0
deriving DecidableEq, Repr

/-- What the platform decides: the sign of `char`, and the tables of the C library. -/
structure Platform where
  signed : Bool
  isspace : UInt8 → Bool
  _String_ToLowerCase : UInt32 → UInt32
  _String_ToUpperCase : UInt32 → UInt32

namespace ElString

/-- `_allocFromUTF8`; the shared empty string where there are no bytes. -/
def _allocFromUTF8 (bytes : List UInt8) : List UInt8 := if bytes = [] then [0] else bytes ++ [0]

/-- What `strlen` reads, and its terminator. -/
def terminated (data : List UInt8) : List UInt8 := data.takeWhile (· ≠ 0) ++ [0]

/-! ### The count -/

def SetCounted (charCount : UInt32) (s : ElString) : ElString :=
  { s with mCharCount := (0x7FFFFFFF &&& charCount) ||| 0x80000000 }

def ClearCounted (s : ElString) : ElString := { s with mCharCount := 0 }

def IsCounted (s : ElString) : Bool := s.mCharCount &&& 0x80000000 ≠ 0

def IsNullOrEmpty (s : ElString) : Bool := s.mString.elim true fun data => data.headD 0 = 0

def GetByteLength (s : ElString) : ℕ :=
  if s.IsNullOrEmpty then 0 else s.mString.elim 0 fun data => data.length - 1

/-- The buffer, up to the `pEnd` of the loops. -/
def data (s : ElString) : List UInt8 := s.mString.getD []

/-- The loop of `GetLength`: `passes` has `p` at each of its passes. -/
def countChars (s : ElString) : ℕ := (Scan.passes charLen s.data).length

def GetLength (s : ElString) : ℕ × ElString :=
  if s.IsNullOrEmpty then (0, s)
  else if s.IsCounted then ((0x7FFFFFFF &&& s.mCharCount).toNat, s)
  else (s.countChars, s.SetCounted (UInt32.ofNat s.countChars))

/-! ### Constructors -/

/-- `String(const char*)`. -/
def ofChars (other : Option CString) : ElString :=
  { mString := other.map fun other => _allocFromUTF8 other.chars }

/-- `String(const char*, Int32)`, with the bytes that the second argument counts. -/
def ofCharsN (other : Option (List UInt8)) : ElString :=
  match other with
  | none | some [] => {}
  | some other => { mString := some (_allocFromUTF8 other) }

/-- `String(const ArrayOf<Byte>&, Int32)`. -/
def ofBytes (array : List UInt8) (offset : ℤ) : ElString :=
  if 0 ≤ offset ∧ offset < array.length then
    { mString := some (_allocFromUTF8 (array.drop offset.toNat)) }
  else {}

/-- `String(const ArrayOf<Byte>&, Int32, Int32)`. -/
def ofBytesN (array : List UInt8) (offset length : ℤ) : ElString :=
  if 0 ≤ offset ∧ 0 < length ∧ offset < array.length ∧ offset + length ≤ array.length then
    { mString := some (_allocFromUTF8 ((array.drop offset.toNat).take length.toNat)) }
  else {}

/-! ### Updates -/

/-- `SetTo(const char*)`. -/
def SetToChars (other : Option CString) (s : ElString) : ElString :=
  match other with
  | none => if s.mString = none then s else { s with mString := none }.SetCounted 0
  | some other => { s with mString := some (_allocFromUTF8 other.chars) }.ClearCounted

/-- `SetTo(const char*, Int32)`. -/
def SetToCharsN (other : List UInt8) (s : ElString) : ElString :=
  { s with mString := some (_allocFromUTF8 other) }.ClearCounted

def RealAppend (other : List UInt8) (s : ElString) : ElString :=
  if other = [] then s
  else { s.ClearCounted with
    mString := some (s.data.take s.GetByteLength ++ other ++ [0]) }

/-- `Append(const char*, Int32)`. An array that is not terminated is measured with `strlen` all the
same, but not where the string is empty. -/
def AppendN (other : List UInt8) (s : ElString) : ElString :=
  if other = [] then s
  else if s.GetByteLength = 0 then s.SetToCharsN other
  else s.RealAppend (other.takeWhile (· ≠ 0))

/-- `Append(const char*)`. -/
def AppendChars (other : CString) (s : ElString) : ElString := s.AppendN other.chars

/-- `Append(Char32)`. -/
def AppendChar (ch : UInt32) (s : ElString) : ECode × ElString :=
  if IsValidChar ch then (NOERROR, s.AppendN (utf8 ch)) else (E_INVALID_ARGUMENT, s)

/-- `Append(const String&)`. -/
def AppendString (other : ElString) (s : ElString) : ElString :=
  if s.GetByteLength = 0 then other
  else s.RealAppend (other.data.take other.GetByteLength)

/-- The places that `p` comes to in a loop over the characters of a C string, where the loop has not
ended. -/
def places (string : List UInt8) : List (List UInt8) :=
  (Scan.passes charLen string ++ [Scan.stop charLen string]).filter fun p => p.headD 0 ≠ 0

def CharIndexToByteIndex (string : Option (List UInt8)) (charIndex : ℤ) : ℤ :=
  match string with
  | none => -1
  | some string =>
    if string.headD 0 = 0 ∨ charIndex < 0 then -1
    else ((places (terminated string))[charIndex.toNat]?).elim (-1) fun p =>
      (terminated string).length - p.length

/-- `Append(const String&, Int32)`. -/
def AppendFrom (other : ElString) (charOffset : ℤ) (s : ElString) : ECode × ElString :=
  if other.IsNullOrEmpty then (NOERROR, s)
  else
    let byteOffset := CharIndexToByteIndex other.mString charOffset
    if byteOffset < 0 then (E_INVALID_ARGUMENT, s)
    else
      let byteLength := other.GetByteLength
      let byteOffset := min byteLength byteOffset.toNat
      (NOERROR, s.AppendN ((other.data.drop byteOffset).take (byteLength - byteOffset)))

/-- `Append(const String&, Int32, Int32)`: the bytes from `startByte` to `endByte`, which the loop
finds. -/
def AppendRange (other : ElString) (offset numOfChars : ℤ) (s : ElString) : ECode × ElString :=
  if other.IsNullOrEmpty ∨ numOfChars ≤ 0 then (NOERROR, s)
  else
    let string := terminated other.data
    let ps := Scan.passes charLen string
    let ends := (places string)[offset.toNat + numOfChars.toNat]?
    if offset < 0 ∨ ps.length ≤ offset.toNat then (E_INVALID_ARGUMENT, s)
    -- the loop has come to a byte that begins no character
    else if ends = none ∧ (Scan.stop charLen string).headD 0 ≠ 0 then (E_INVALID_ARGUMENT, s)
    else
      let startByte := (ps[offset.toNat]?).elim 0 fun p => string.length - p.length
      let endByte := ends.elim (string.length - 1) fun p => string.length - p.length
      (NOERROR, s.AppendN ((string.drop startByte).take (endByte - startByte)))

/-- `Append(const ArrayOf<Char32>&, Int32, Int32)`. Elements that are no characters take no bytes. -/
def AppendArray (array : List UInt32) (offset length : ℤ) (s : ElString) : ECode × ElString :=
  let offset := max 0 offset
  if array.length ≤ offset then (E_INVALID_ARGUMENT, s)
  else
    let length := min (array.length - offset) length
    if length ≤ 0 then (NOERROR, s)
    else
      let chars := (array.drop offset.toNat).take length.toNat
      let appendedCharCount := (chars.filter fun c => 0 < GetByteCount c).length
      let bytes := chars.flatMap utf8
      if bytes = [] then (NOERROR, s)
      else (NOERROR, if s.IsNullOrEmpty then
        (s.RealAppend bytes).SetCounted (UInt32.ofNat appendedCharCount)
        else (s.RealAppend bytes).ClearCounted)

/-- `String(const ArrayOf<Char32>&, Int32, Int32)`. -/
def ofArray (array : List UInt32) (offset length : ℤ) : ElString :=
  (AppendArray array offset length { mString := some [0] }).2

/-- `UnlockBuffer(Int32)` of a buffer of one byte more. -/
def UnlockBuffer (numBytes : ℕ) (s : ElString) : ElString :=
  let r := s.GetLength
  if numBytes ≠ r.1 then { r.2 with mString := some (s.data.take numBytes ++ [0]) } else r.2

/-- `AppendFormat`, where `text` is what `vsnprintf` prints; where it fails it returns -1, and the
buffer is made a byte shorter. A buffer of no bytes is outside the model. -/
def AppendFormat (text : Option (List UInt8)) (s : ElString) : Option ElString :=
  let s := s.ClearCounted
  let oldLength := s.GetByteLength
  match text with
  | some [] => some s
  | some text => some ({ s with
      mString := some (s.data.take oldLength ++ text ++ [0]) }.UnlockBuffer (oldLength + text.length))
  | none =>
    if oldLength = 0 then none
    else some ({ s with mString := some (s.data.take oldLength) }.UnlockBuffer (oldLength - 1))

/-! ### Queries -/

section Platform

variable (env : Platform)

def GetChar (index : ℤ) (s : ElString) : UInt32 :=
  if s.IsNullOrEmpty ∨ index < 0 then INVALID_CHAR
  else ((Scan.passes charLen s.data)[index.toNat]?).elim INVALID_CHAR fun p =>
    (GetCharInternal env.signed p).1

/-- The characters that the loop of `GetChars` reads: the first are counted, the others read. -/
def readChars (start num : ℕ) (data : List UInt8) : List UInt32 :=
  ((Scan.passes charLen data ++ [Scan.stop charLen data])[start]?).elim [] fun p =>
    ((Scan.passes readLen p).take num).map fun p => (GetCharInternal env.signed p).1

/-- `GetChars(Int32, Int32)`. `GetLength` has set the count, so that the test at the end, which would
set it once more, never succeeds. -/
def GetChars (start last : ℤ) (s : ElString) : List UInt32 × ElString :=
  let r := s.GetLength
  let last := min (r.1 : ℤ) last
  if last ≤ start ∨ start < 0 then ([], r.2)
  else
    let num := (last - start).toNat
    -- an array is zero where nothing has been stored
    ((readChars env start.toNat num s.data ++ List.replicate num 0).take num, r.2)

/-- `GetChars(Int32)`. -/
def GetCharsFrom (start : ℤ) (s : ElString) : List UInt32 × ElString :=
  let r := s.GetLength
  r.2.GetChars env start r.1

/-- `GetChar16s(Int32, Int32)`. -/
def GetChar16s (start last : ℤ) (s : ElString) : List UInt16 × ElString :=
  let r := s.GetChars env start last
  (r.1.map UInt32.toUInt16, r.2)

/-- `GetBytes(Int32, Int32)`. -/
def GetBytes (start last : ℤ) (s : ElString) : List UInt8 :=
  let last := min (s.GetByteLength : ℤ) last
  if last ≤ start ∨ start < 0 then []
  else (s.data.drop start.toNat).take (last - start).toNat

def ToByteIndex (charIndex : ℤ) (s : ElString) : ℤ := CharIndexToByteIndex s.mString charIndex

/-- `p + byteLength >= pEnd` behind the loop of `ByteIndexOf`, which ends with the length of the last
character it has read. -/
def reachesEnd (data : List UInt8) : Bool :=
  let p := Scan.stop readLen data
  p.headD 0 ≠ 0 || p.length ≤ ((Scan.passes readLen data).getLast?.elim 0 fun p => readLen (p.headD 0))

/-- `ByteIndexOf`. The count that it sets at the end is `--i`, and `i` has not been moved. -/
def ByteIndexOf (target : UInt32) (s : ElString) : ℤ × ElString :=
  if !IsValidChar target || s.IsNullOrEmpty then (-1, s)
  else
    match (Scan.passes readLen s.data).find? fun p => (GetCharInternal env.signed p).1 = target with
    | some p => (s.data.length - p.length, s)
    | none => (-1, if reachesEnd s.data && !s.IsCounted then s.SetCounted 0xFFFFFFFF else s)

/-- `IndexOf(Char32, Int32)`. -/
def IndexOf (target : UInt32) (start : ℤ) (s : ElString) : ℤ :=
  let start := max 0 start
  if !IsValidChar target || s.GetByteLength ≤ start then -1
  else ((Scan.passes charLen s.data ++ [Scan.stop charLen s.data])[start.toNat]?).elim (-1) fun p =>
    ((Scan.passes readLen p).findIdx? fun p => (GetCharInternal env.signed p).1 = target).elim (-1)
      fun i => start + i

/-- `LastIndexOf(Char32, Int32)`. -/
def LastIndexOf (target : UInt32) (start : ℤ) (s : ElString) : ℤ × ElString :=
  if s.mString = none ∨ IsValidChar target = false then (-1, s)
  else
    let r := s.GetChars env 0 (max 0 start + 1)
    ((r.1.reverse.findIdx? fun c => c = target).elim (-1) fun i => r.1.length - 1 - i, r.2)

/-- `Substring(Int32, Int32)`, and the string with its count. -/
def Substring (start last : ℤ) (s : ElString) : ElString × ElString :=
  if s.mString = none then ({}, s)
  else if start < 0 ∨ last ≤ 0 ∨ s.IsNullOrEmpty then ({ mString := some [0] }, s)
  else
    let byteCount := s.GetByteLength
    let r := s.GetLength
    let last := min (r.1 : ℤ) last
    if last ≤ start then ({ mString := some [0] }, r.2)
    else if start = 0 ∧ last = r.1 then
      ({ mString := some (_allocFromUTF8 (s.data.takeWhile (· ≠ 0))) }, r.2)
    else
      let ps := Scan.passes charLen s.data
      let p1 := if start = byteCount then byteCount
        else (ps[start.toNat]?).elim 0 fun p => s.data.length - p.length
      let p2 := if start = byteCount then byteCount
        else (ps[last.toNat]?).elim byteCount fun p => s.data.length - p.length
      (ofCharsN (some ((s.data.drop p1).take (p2 - p1))), r.2)

/-- `Replace`, and the string with its count. -/
def Replace (oldChar newChar : UInt32) (s : ElString) : ElString × ElString :=
  let r := s.GetCharsFrom env 0
  if oldChar ∈ r.1 then
    let chars := r.1.map fun c => if c = oldChar then newChar else c
    (ofArray chars 0 chars.length, r.2)
  else (r.2, r.2)

/-- `ToLowerCase(Char32)`. -/
def toLower (codePoint : UInt32) : UInt32 :=
  if 65 ≤ codePoint ∧ codePoint ≤ 90 then codePoint + 32
  else if codePoint < 192 then codePoint
  else env._String_ToLowerCase codePoint

/-- `ToUpperCase(Char32)`. -/
def toUpper (codePoint : UInt32) : UInt32 :=
  if 97 ≤ codePoint ∧ codePoint ≤ 122 then codePoint - 32
  else if codePoint < 181 then codePoint
  else env._String_ToUpperCase codePoint

/-- `ToLowerCase` and `ToUpperCase` of a part of the string, by the conversion of a character. -/
def convert (f : UInt32 → UInt32) (offset numOfChars : ℤ) (s : ElString) : ElString × ElString :=
  let offset := max offset 0
  let r := s.GetCharsFrom env 0
  if r.1 = [] then ({ mString := some [0] }, r.2)
  else
    let chars := r.1.mapIdx fun i c => if offset ≤ i ∧ i < offset + numOfChars then f c else c
    (ofArray chars 0 chars.length, r.2)

/-- `ToLowerCase(Int32, Int32)`. -/
def ToLowerCase (offset numOfChars : ℤ) (s : ElString) : ElString × ElString :=
  s.convert env (toLower env) offset numOfChars

/-- `ToUpperCase(Int32, Int32)`. -/
def ToUpperCase (offset numOfChars : ℤ) (s : ElString) : ElString × ElString :=
  s.convert env (toUpper env) offset numOfChars

/-- The bytes before the `end` of `TrimEnd` and `Trim`. -/
def withoutEnd (s : ElString) : List UInt8 :=
  ((s.data.take s.GetByteLength).reverse.dropWhile env.isspace).reverse

/-- `str - mString` behind the loop of `TrimStart` and `Trim`. -/
def leading (s : ElString) : ℕ := (s.data.takeWhile fun b => env.isspace b && b ≠ 0).length

def TrimStart (s : ElString) : ElString :=
  if s.mString = none then {}
  else if s.GetByteLength = s.leading env then { mString := some [0] }
  else ofCharsN (some ((s.data.take s.GetByteLength).drop (s.leading env)))

def TrimEnd (s : ElString) : ElString :=
  if s.mString = none then {}
  else if s.withoutEnd env = [] then { mString := some [0] }
  else ofCharsN (some (s.withoutEnd env))

def Trim (s : ElString) : ElString :=
  if s.mString = none then {}
  else if (s.withoutEnd env).length ≤ s.leading env then { mString := some [0] }
  else ofCharsN (some ((s.withoutEnd env).drop (s.leading env)))

end Platform

/-! ### What is counted -/

theorem or_and (a b c : UInt32) : (a ||| b) &&& c = (a &&& c) ||| (b &&& c) :=
  UInt32.toBitVec_inj.mp BitVec.and_or_distrib_right

/-- The characters that the count stands for, where it is set. -/
def counted (s : ElString) : ℕ := (0x7FFFFFFF &&& s.mCharCount).toNat

theorem not_isCounted_of_zero {s : ElString} (h : s.mCharCount = 0) : ¬ s.IsCounted = true := by
  rw [IsCounted, h]
  decide

@[simp]
theorem isCounted_SetCounted (n : UInt32) (s : ElString) : (s.SetCounted n).IsCounted = true := by
  have hlow : (0x7FFFFFFF &&& n) &&& 0x80000000 = 0 := by
    rw [UInt32.and_comm, ← UInt32.and_assoc]
    exact UInt32.zero_and
  have hflag : ((0x7FFFFFFF &&& n) ||| 0x80000000) &&& 0x80000000 = 0x80000000 := by
    rw [or_and, hlow, UInt32.and_self, UInt32.zero_or]
  refine decide_eq_true ?_
  change ((0x7FFFFFFF &&& n) ||| 0x80000000) &&& 0x80000000 ≠ 0
  rw [hflag]
  decide

/-- The flag takes nothing from the low bits. -/
theorem counted_SetCounted (n : UInt32) (s : ElString) :
    (s.SetCounted n).counted = n.toNat % 2147483648 := by
  have hlow : (0x7FFFFFFF &&& n).toNat = n.toNat % 2147483648 := by
    rw [UInt32.and_comm]
    exact toNat_and_mask n (n := 31) rfl
  have hflag : ((0x7FFFFFFF &&& n) ||| 0x80000000).toNat = 2147483648 + n.toNat % 2147483648 := by
    have hor := Nat.two_pow_add_eq_or_of_lt (i := 31) (b := n.toNat % 2147483648) (by omega) 1
    rw [UInt32.toNat_or, hlow, Nat.or_comm]
    exact hor.symm
  change (0x7FFFFFFF &&& ((0x7FFFFFFF &&& n) ||| 0x80000000)).toNat = _
  rw [UInt32.and_comm, toNat_and_mask _ (n := 31) rfl, hflag]
  omega

/-! ### What is appended -/

/-- The elements of an array that `Append` goes through. -/
def taken (array : List UInt32) (offset length : ℤ) : List UInt32 :=
  let offset := max 0 offset
  (array.drop offset.toNat).take (min (array.length - offset) length).toNat

/-- `Append` of the elements of an array. -/
def appendTaken (chars : List UInt32) (s : ElString) : ElString :=
  let bytes := chars.flatMap utf8
  if bytes = [] then s
  else if s.IsNullOrEmpty then
    (s.RealAppend bytes).SetCounted (UInt32.ofNat (chars.filter IsValidChar).length)
  else (s.RealAppend bytes).ClearCounted

theorem utf8_eq_nil {c : UInt32} (h : IsValidChar c = false) : utf8 c = [] :=
  List.length_eq_zero_iff.mp ((length_utf8 c).trans ((GetByteCount_eq_zero_iff c).mpr h))

theorem pos_GetByteCount_iff (c : UInt32) : 0 < GetByteCount c ↔ IsValidChar c = true := by
  rw [Nat.pos_iff_ne_zero, ne_eq, GetByteCount_eq_zero_iff, Bool.not_eq_false]

theorem AppendArray_snd (array : List UInt32) (offset length : ℤ) (s : ElString) :
    (AppendArray array offset length s).2 = s.appendTaken (taken array offset length) := by
  have hnil : s.appendTaken [] = s := rfl
  have hfilter : ∀ chars : List UInt32,
      chars.filter (fun c => decide (0 < GetByteCount c)) = chars.filter IsValidChar := by
    intro chars
    refine List.filter_congr fun c _ => ?_
    rw [Bool.eq_iff_iff, decide_eq_true_iff, pos_GetByteCount_iff]
  rw [AppendArray, taken]
  simp only
  split_ifs with hoffset hlength hbytes hempty
  · rw [List.drop_eq_nil_of_le (by omega), List.take_nil, hnil]
  · rw [Int.toNat_of_nonpos hlength, List.take_zero, hnil]
  · rw [appendTaken]
    simp only
    rw [if_pos hbytes]
  · rw [appendTaken, hfilter]
    simp only
    rw [if_neg hbytes, if_pos hempty]
  · rw [appendTaken]
    simp only
    rw [if_neg hbytes, if_neg hempty]

theorem ofArray_eq (array : List UInt32) :
    ofArray array 0 array.length = appendTaken array { mString := some [0] } := by
  have htaken : taken array 0 array.length = array := by
    rw [taken]
    simp
  rw [ofArray, AppendArray_snd, htaken]

end ElString

end ElastosCar
