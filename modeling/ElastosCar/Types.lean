import ElastosCar.Lib.Bytes

/-!
# The CAR base types

The types of `elatypes.h`, `elaerror.h` and `marshal_comm.h` that the marshalling code is
written in, on the 32-bit little-endian layout the runtime is built for: `UInt32` words and
`UInt64` double words with their object representation, `htonl`, error codes, `EMuid`,
`EGuid` and the `String` value (null, or bytes without a zero).

An `EMuid` is sixteen bytes on every path the code takes with it (`memcpy`, stack slots of
four words), so it is kept as its four words: `mData1`, the pair `mData2`/`mData3`, and the
two halves of `mData4`.
-/

namespace ElastosCar

/-! ### Words -/

/-- The object representation of a 32-bit word. -/
def wordBytes (v : UInt32) : List UInt8 := toLE 4 v.toNat

/-- The 32-bit word with the given object representation. -/
def wordOf (bs : List UInt8) : UInt32 := UInt32.ofNat (ofLE bs)

/-- The object representation of a 64-bit word. -/
def dwordBytes (v : UInt64) : List UInt8 := toLE 8 v.toNat

/-- The 64-bit word with the given object representation. -/
def dwordOf (bs : List UInt8) : UInt64 := UInt64.ofNat (ofLE bs)

@[simp]
theorem length_wordBytes (v : UInt32) : (wordBytes v).length = 4 := by simp [wordBytes]

@[simp]
theorem length_dwordBytes (v : UInt64) : (dwordBytes v).length = 8 := by simp [dwordBytes]

@[simp]
theorem wordOf_wordBytes (v : UInt32) : wordOf (wordBytes v) = v := by
  rw [wordOf, wordBytes, ofLE_toLE_of_lt (by simpa using v.toNat_lt), UInt32.ofNat_toNat]

@[simp]
theorem dwordOf_dwordBytes (v : UInt64) : dwordOf (dwordBytes v) = v := by
  rw [dwordOf, dwordBytes, ofLE_toLE_of_lt (by simpa using v.toNat_lt), UInt64.ofNat_toNat]

theorem wordBytes_wordOf {bs : List UInt8} (h : bs.length = 4) : wordBytes (wordOf bs) = bs := by
  have hlt : ofLE bs < 4294967296 := by simpa [h] using ofLE_lt bs
  rw [wordBytes, wordOf, UInt32.toNat_ofNat_of_lt' hlt, ← h, toLE_ofLE]

/-- `htonl` on a little-endian machine: the four bytes in the other order. -/
def htonl (v : UInt32) : UInt32 := wordOf (wordBytes v).reverse

/-- `ntohl` is the same swap. -/
def ntohl (v : UInt32) : UInt32 := htonl v

@[simp]
theorem wordBytes_htonl (v : UInt32) : wordBytes (htonl v) = (wordBytes v).reverse :=
  wordBytes_wordOf (by simp)

@[simp]
theorem ntohl_htonl (v : UInt32) : ntohl (htonl v) = v := by
  rw [ntohl, htonl, wordBytes_htonl, List.reverse_reverse, wordOf_wordBytes]

/-! ### Error codes -/

/-- An `ECode`, an `Int32` kept as its 32 bits. -/
abbrev ECode := UInt32

def NOERROR : ECode := 0

def S_FALSE : ECode := 1

def E_DOES_NOT_EXIST : ECode := 0x80010000

def E_INVALID_OPERATION : ECode := 0x80020000

def E_FILE_NOT_FOUND : ECode := 0x80050000

def E_OUT_OF_MEMORY : ECode := 0x80070000

def E_INVALID_ARGUMENT : ECode := 0x80080000

def E_NO_INTERFACE : ECode := 0x800A0000

def E_FAIL : ECode := 0x800C0000

/-- `FAILED`: the code is negative. -/
def failed (ec : ECode) : Bool := decide (0x80000000 ≤ ec)

theorem E_OUT_OF_MEMORY_ne : E_OUT_OF_MEMORY ≠ NOERROR := by decide

@[simp]
theorem failed_NOERROR : failed NOERROR = false := by decide

/-! ### Null tags -/

def MSH_NULL : UInt32 := 0

/-- `(UInt32)-2`. -/
def MSH_NOT_NULL : UInt32 := 0xFFFFFFFE

theorem MSH_NOT_NULL_ne : MSH_NOT_NULL ≠ MSH_NULL := by decide

/-! ### Identifiers and strings -/

/-- A 128-bit identifier as the four words it is copied in. -/
structure EMuid where
  w0 : UInt32
  w1 : UInt32
  w2 : UInt32
  w3 : UInt32
deriving DecidableEq, Repr

namespace EMuid

def words (id : EMuid) : List UInt32 := [id.w0, id.w1, id.w2, id.w3]

/-- The sixteen bytes of an identifier. -/
def bytes (id : EMuid) : List UInt8 :=
  wordBytes id.w0 ++ wordBytes id.w1 ++ wordBytes id.w2 ++ wordBytes id.w3

/-- The identifier with the given sixteen bytes. -/
def ofBytes (bs : List UInt8) : EMuid :=
  ⟨wordOf (bs.take 4), wordOf ((bs.drop 4).take 4), wordOf ((bs.drop 8).take 4),
    wordOf ((bs.drop 12).take 4)⟩

@[simp]
theorem length_bytes (id : EMuid) : id.bytes.length = 16 := by simp [bytes]

@[simp]
theorem ofBytes_bytes (id : EMuid) : ofBytes id.bytes = id := by
  simp [ofBytes, bytes, List.drop_append, List.drop_eq_nil_of_le,
    List.take_of_length_le]

theorem bytes_ofBytes {bs : List UInt8} (h : bs.length = 16) : (ofBytes bs).bytes = bs := by
  have h8 : (bs.drop 4).drop 4 = bs.drop 8 := List.drop_drop
  have h12 : (bs.drop 8).drop 4 = bs.drop 12 := List.drop_drop
  have hlast : (bs.drop 12).take 4 = bs.drop 12 := List.take_of_length_le (by rw [List.length_drop, h])
  rw [bytes, ofBytes, wordBytes_wordOf (by rw [List.length_take, h]; rfl),
    wordBytes_wordOf (by rw [List.length_take, List.length_drop, h]; rfl),
    wordBytes_wordOf (by rw [List.length_take, List.length_drop, h]; rfl), hlast,
    wordBytes_wordOf (by rw [List.length_drop, h]), ← h12, List.append_assoc, List.append_assoc,
    List.take_append_drop, ← h8, List.take_append_drop, List.take_append_drop]

end EMuid

/-- The value of a `String`: `none` is the null `String`. -/
abbrev CarString := Option CString

/-- An `EGuid`: class id, name and car code. The name is the string `mUunm` points to. -/
structure EGuid where
  mClsid : EMuid
  mUunm : CString
  mCarcode : UInt32
deriving DecidableEq, Repr

/-- The 24 bytes of an `EGuid` object whose `mUunm` pointer has the bits `ptr`. -/
def EGuid.bytes (id : EGuid) (ptr : UInt32) : List UInt8 :=
  id.mClsid.bytes ++ wordBytes ptr ++ wordBytes id.mCarcode

@[simp]
theorem EGuid.length_bytes (id : EGuid) (ptr : UInt32) : (id.bytes ptr).length = 24 := by
  simp [EGuid.bytes]

end ElastosCar
