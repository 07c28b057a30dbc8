import ElastosCar.Types

/-!
# The keys of the hash tables

There are two class templates `HashTable`. That of `reflection/hashtable.h` has keys of four types, which
it hashes word by word or character by character and compares with `memcmp` or `strcmp`; its table is
allocated by the first `Put`. That of `elasys/hashtable.h` has strings only, which it compares with
`tstrcmp`; the empty string is no key for it, and its table is allocated by the constructor.
-/

namespace ElastosCar

/-! ### Hashing and comparing -/

/-- One round of `Hash`. -/
def hashRound (value word : UInt32) : UInt32 := value ^^^ ((value <<< 5) + (value >>> 3) + word)

/-- A `char` as an `unsigned long`. -/
def charWord (charSigned : Bool) (ch : UInt8) : UInt32 :=
  if charSigned ∧ 128 ≤ ch.toNat then 0xFFFFFF00 ||| ch.toUInt32 else ch.toUInt32

/-- A `char` as an `int`. -/
def charInt (charSigned : Bool) (ch : UInt8) : ℤ :=
  if charSigned ∧ 128 ≤ ch.toNat then ch.toNat - 256 else ch.toNat

/-- A string whose length is an `Int32`. -/
abbrev StringKey := { s : CString // s.chars.length < 2147483647 }

/-- `Hash` of a string. -/
def hashString (charSigned : Bool) (key : StringKey) : UInt32 :=
  key.1.chars.foldl (fun value ch => hashRound value (charWord charSigned ch))
    (30 * charWord charSigned (key.1.terminated.headD 0))

/-- The loop of `tstrcmp`. -/
def tstrcmp (charSigned : Bool) : (str1 str2 : List UInt8) → ℤ
  | a :: str1, b :: str2 =>
    let ret := charInt charSigned a - charInt charSigned b
    if ret = 0 ∧ b ≠ 0 then tstrcmp charSigned str1 str2 else ret
  | _, _ => 0

theorem charInt_sub_eq_zero (charSigned : Bool) {a b : UInt8} :
    charInt charSigned a - charInt charSigned b = 0 ↔ a = b := by
  have ha := a.toNat_lt
  have hb := b.toNat_lt
  rw [charInt, charInt, ← UInt8.toNat_inj]
  cases charSigned with
  | false =>
    simp only [Bool.false_eq_true, false_and, if_false]
    omega
  | true =>
    simp only [true_and]
    split_ifs <;> omega

/-- `tstrcmp` tells strings apart. -/
theorem tstrcmp_eq_zero (charSigned : Bool) {a b : List UInt8} (ha : 0 ∉ a) (hb : 0 ∉ b) :
    tstrcmp charSigned (a ++ [0]) (b ++ [0]) = 0 ↔ a = b := by
  induction a generalizing b with
  | nil =>
    cases b with
    | nil => simp [tstrcmp]
    | cons y b =>
      have hret := (charInt_sub_eq_zero charSigned).not.mpr (List.ne_of_not_mem_cons hb)
      simp [tstrcmp, hret]
  | cons x a ih =>
    cases b with
    | nil =>
      have hret := (charInt_sub_eq_zero charSigned).not.mpr (List.ne_of_not_mem_cons ha).symm
      simp [tstrcmp, hret]
    | cons y b =>
      rw [List.cons_append, List.cons_append, tstrcmp, List.cons.injEq]
      by_cases hxy : x = y
      · have hy : y ≠ 0 := (List.ne_of_not_mem_cons hb).symm
        rw [if_pos ⟨(charInt_sub_eq_zero charSigned).mpr hxy, hy⟩,
          ih (List.not_mem_of_not_mem_cons ha) (List.not_mem_of_not_mem_cons hb)]
        exact (and_iff_right hxy).symm
      · have hret := (charInt_sub_eq_zero charSigned).not.mpr hxy
        rw [if_neg fun h => hret h.1]
        exact iff_of_false hret fun h => hxy h.1

/-! ### The key types -/

/-- What a table does with its keys. -/
structure HashTraits (Key : Type) where
  hash : Key → UInt32
  keycmp : Key → Key → Bool
  /-- By how much an entry is longer than a `HashEntry`. -/
  keylen : Key → ℕ
  /-- Whether the key passes the first test of each operation. -/
  accepts : Key → Bool
  /-- Whether the constructor allocates the table. -/
  allocates : Bool
  keycmp_iff : ∀ a b, keycmp a b = true ↔ a = b
  keylen_lt : ∀ a, keylen a < 2147483648

/-- `Type_UInt32`. -/
def uInt32Traits : HashTraits UInt32 where
  hash key := hashRound 0 key
  keycmp a b := decide (wordBytes a = wordBytes b)
  keylen _ := 4
  accepts _ := true
  allocates := false
  keycmp_iff a b := by
    rw [decide_eq_true_iff]
    exact ⟨fun h => by simpa using congrArg wordOf h, congrArg _⟩
  keylen_lt _ := by decide

/-- `Type_UInt64`. -/
def uInt64Traits : HashTraits UInt64 where
  hash key := hashRound (hashRound 0 (wordOf ((dwordBytes key).take 4)))
    (wordOf ((dwordBytes key).drop 4))
  keycmp a b := decide (dwordBytes a = dwordBytes b)
  keylen _ := 8
  accepts _ := true
  allocates := false
  keycmp_iff a b := by
    rw [decide_eq_true_iff]
    exact ⟨fun h => by simpa using congrArg dwordOf h, congrArg _⟩
  keylen_lt _ := by decide

/-- `Type_EMuid`. -/
def eMuidTraits : HashTraits EMuid where
  hash key := hashRound (hashRound (hashRound (hashRound 0 key.w0) key.w1) key.w2) key.w3
  keycmp a b := decide (a.bytes = b.bytes)
  keylen _ := 16
  accepts _ := true
  allocates := false
  keycmp_iff a b := by
    rw [decide_eq_true_iff]
    exact ⟨fun h => by simpa using congrArg EMuid.ofBytes h, congrArg _⟩
  keylen_lt _ := by decide

/-- `Type_String`: `strcmp` finds no difference. -/
def stringTraits (charSigned : Bool) : HashTraits StringKey where
  hash := hashString charSigned
  keycmp a b := decide (a.1.terminated = b.1.terminated)
  keylen key := key.1.chars.length + 1
  accepts _ := true
  allocates := false
  keycmp_iff a b := by
    rw [decide_eq_true_iff]
    exact ⟨fun h => Subtype.ext (CString.ext (List.append_cancel_right h)), fun h => h ▸ rfl⟩
  keylen_lt key := Nat.succ_lt_succ key.2

/-- The keys of the library's copy. Its `HashEntry` has room for the terminator. -/
def libraryTraits (charSigned : Bool) : HashTraits StringKey where
  hash := hashString charSigned
  keycmp a b := decide (tstrcmp charSigned a.1.terminated b.1.terminated = 0)
  keylen key := key.1.chars.length
  accepts key := !key.1.chars.isEmpty
  allocates := true
  keycmp_iff a b := by
    rw [decide_eq_true_iff]
    exact (tstrcmp_eq_zero charSigned a.1.zero_notMem b.1.zero_notMem).trans
      ⟨fun h => Subtype.ext (CString.ext h), fun h => h ▸ rfl⟩
  keylen_lt key := key.2.trans (by decide)

/-- The four key types of the reflection's copy, and the library's copy. -/
inductive HashTableType
  | uInt32
  | uInt64
  | string
  | eMuid
  | library
deriving DecidableEq, Repr

namespace HashTableType

abbrev Key : HashTableType → Type
  | .uInt32 => UInt32
  | .uInt64 => UInt64
  | .string | .library => StringKey
  | .eMuid => EMuid

instance : (type : HashTableType) → DecidableEq type.Key
  | .uInt32 => inferInstanceAs (DecidableEq UInt32)
  | .uInt64 => inferInstanceAs (DecidableEq UInt64)
  | .string | .library => inferInstanceAs (DecidableEq StringKey)
  | .eMuid => inferInstanceAs (DecidableEq EMuid)

def traits (charSigned : Bool) : (type : HashTableType) → HashTraits type.Key
  | .uInt32 => uInt32Traits
  | .uInt64 => uInt64Traits
  | .string => stringTraits charSigned
  | .eMuid => eMuidTraits
  | .library => libraryTraits charSigned

end HashTableType

end ElastosCar
