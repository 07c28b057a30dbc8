import Mathlib

/-!
# Byte blocks and little-endian words

The byte-level kit: a block of memory is a function from offsets to bytes, `load` reads a
run of bytes out of it and `store` overwrites one. Numbers are laid out least significant
byte first by `toLE` and read back by `ofLE`. Nothing here knows what the bytes are for.

* `load_store_self` and `load_store_of_disjoint` are the read-over-write laws; `load_append`
  splits a read.
* `ofLE_toLE` and `toLE_ofLE` say that the two conversions are inverse up to the width.
* `cstring` scans for a zero byte, with `cstring_append` the law for zero-free bytes followed
  by a zero.
-/

namespace ElastosCar

/-- A block of memory: the byte at every offset. How many of the offsets belong to the
block is the business of whoever owns it. -/
abbrev Block := ℕ → UInt8

/-! ### Loads and stores -/

/-- The `n` bytes from offset `off` on. -/
def load (d : Block) (off n : ℕ) : List UInt8 := (List.range n).map fun i => d (off + i)

/-- Overwrite the bytes from offset `off` on with `bs`. -/
def store (d : Block) (off : ℕ) (bs : List UInt8) : Block := fun i =>
  if off ≤ i ∧ i < off + bs.length then bs.getD (i - off) 0 else d i

@[simp]
theorem length_load (d : Block) (off n : ℕ) : (load d off n).length = n := by
  simp [load]

@[simp]
theorem load_zero (d : Block) (off : ℕ) : load d off 0 = [] := rfl

theorem load_append (d : Block) (off m n : ℕ) :
    load d off (m + n) = load d off m ++ load d (off + m) n := by
  simp only [load, List.range_add, List.map_append, List.map_map]
  congr 1
  refine List.map_congr_left fun i _ => ?_
  simp only [Function.comp_apply, Nat.add_assoc]

/-- Blocks that agree on a range read the same there. -/
theorem load_congr {d e : Block} {off n : ℕ} (h : ∀ i, off ≤ i → i < off + n → d i = e i) :
    load d off n = load e off n := by
  refine List.map_congr_left fun i hi => ?_
  rw [List.mem_range] at hi
  exact h _ (by omega) (by omega)

@[simp]
theorem load_store_self (d : Block) (off : ℕ) (bs : List UInt8) :
    load (store d off bs) off bs.length = bs := by
  refine List.ext_getElem (by simp) fun i h1 h2 => ?_
  simp only [load, store, List.getElem_map, List.getElem_range]
  rw [if_pos (by omega), Nat.add_sub_cancel_left, List.getD_eq_getElem _ _ h2]

/-- A store leaves every range it does not meet as it was. -/
theorem load_store_of_disjoint (d : Block) {off o n : ℕ} {bs : List UInt8}
    (h : o + n ≤ off ∨ off + bs.length ≤ o) : load (store d off bs) o n = load d o n := by
  refine load_congr fun i h1 h2 => ?_
  rw [store, if_neg (by omega)]

theorem store_apply_of_lt (d : Block) {off i : ℕ} {bs : List UInt8} (h : i < off) :
    store d off bs i = d i := by
  rw [store, if_neg (by omega)]

/-- A range inside a longer read. -/
theorem load_drop_take (d : Block) (off n k m : ℕ) (h : k + m ≤ n) :
    ((load d off n).drop k).take m = load d (off + k) m := by
  obtain ⟨r, rfl⟩ : ∃ r, n = k + m + r := ⟨n - (k + m), by omega⟩
  rw [load_append, load_append, List.append_assoc,
    List.drop_left' (by simp), List.take_left' (by simp)]

/-- Part of what was just stored. -/
theorem load_store_sub (d : Block) (off : ℕ) (bs : List UInt8) {k m : ℕ}
    (h : k + m ≤ bs.length) :
    load (store d off bs) (off + k) m = (bs.drop k).take m := by
  rw [← load_drop_take _ _ bs.length _ _ h, load_store_self]

theorem load_eq_append {d : Block} {off n : ℕ} {as bs : List UInt8}
    (h : load d off n = as ++ bs) :
    load d off as.length = as ∧ load d (off + as.length) bs.length = bs := by
  have hn : n = as.length + bs.length := by
    rw [← List.length_append, ← h, length_load]
  subst hn
  rw [load_append] at h
  exact List.append_inj h (by simp)

/-! ### Little-endian numbers -/

/-- The low `n` bytes of a number, least significant first. -/
def toLE : ℕ → ℕ → List UInt8
  | 0, _ => []
  | n + 1, v => UInt8.ofNat v :: toLE n (v / 256)

/-- The number whose bytes, least significant first, are given. -/
def ofLE : List UInt8 → ℕ
  | [] => 0
  | b :: bs => b.toNat + 256 * ofLE bs

@[simp]
theorem length_toLE (n v : ℕ) : (toLE n v).length = n := by
  induction n generalizing v with
  | zero => rfl
  | succ n ih => simp [toLE, ih]

/-- Reading back `n` bytes gives the number up to the width. -/
theorem ofLE_toLE (n v : ℕ) : ofLE (toLE n v) = v % 256 ^ n := by
  induction n generalizing v with
  | zero => simp [toLE, ofLE, Nat.mod_one]
  | succ n ih =>
    have hb : (UInt8.ofNat v).toNat = v % 256 := by simp [UInt8.toNat_ofNat']
    simp only [toLE, ofLE, ih, hb]
    rw [pow_succ, Nat.mul_comm (256 ^ n) 256, Nat.mod_mul]

theorem ofLE_toLE_of_lt {n v : ℕ} (h : v < 256 ^ n) : ofLE (toLE n v) = v := by
  rw [ofLE_toLE, Nat.mod_eq_of_lt h]

theorem toLE_ofLE (bs : List UInt8) : toLE bs.length (ofLE bs) = bs := by
  induction bs with
  | nil => rfl
  | cons b bs ih =>
    have hb := b.toNat_lt
    have h1 : UInt8.ofNat (b.toNat + 256 * ofLE bs) = b := by
      apply UInt8.toNat_inj.mp
      rw [UInt8.toNat_ofNat']
      omega
    have h2 : (b.toNat + 256 * ofLE bs) / 256 = ofLE bs := by omega
    simp only [List.length_cons, ofLE, toLE, h1, h2, ih]

theorem ofLE_lt (bs : List UInt8) : ofLE bs < 256 ^ bs.length := by
  induction bs with
  | nil => simp [ofLE]
  | cons b bs ih =>
    have hb := b.toNat_lt
    simp only [ofLE, List.length_cons, pow_succ]
    omega

/-- Byte `i` of a laid out number. -/
theorem getElem_toLE {n v i : ℕ} (h : i < (toLE n v).length) :
    (toLE n v)[i] = UInt8.ofNat (v / 256 ^ i) := by
  induction n generalizing v i with
  | zero => simp [toLE] at h
  | succ n ih =>
    cases i with
    | zero => simp [toLE]
    | succ i =>
      have h' : i < (toLE n (v / 256)).length := by simpa using h
      simp only [toLE, List.getElem_cons_succ, ih h', Nat.div_div_eq_div_mul, pow_succ,
        Nat.mul_comm 256]

/-- The bytes past a number's own width are zero. -/
theorem drop_toLE_of_lt {n v j : ℕ} (h : v < 256 ^ j) :
    (toLE n v).drop j = List.replicate (n - j) 0 := by
  refine List.ext_getElem (by simp) fun i h1 h2 => ?_
  have hlt : v < 256 ^ (j + i) := lt_of_lt_of_le h (Nat.pow_le_pow_right (by decide) (by omega))
  rw [List.getElem_drop, getElem_toLE, List.getElem_replicate, Nat.div_eq_of_lt hlt]
  rfl

/-! ### Terminated strings -/

/-- `char` data up to its terminator: bytes without a zero. -/
@[ext]
structure CString where
  chars : List UInt8
  zero_notMem : 0 ∉ chars
deriving DecidableEq, Repr

/-- The bytes of a `char` array, terminator included. -/
def CString.terminated (s : CString) : List UInt8 := s.chars ++ [0]

@[simp]
theorem CString.length_terminated (s : CString) : s.terminated.length = s.chars.length + 1 := by
  simp [CString.terminated]

/-! The empty string, and names of one letter or digit. -/

theorem zero_notMem_nil : (0 : UInt8) ∉ ([] : List UInt8) := List.not_mem_nil

theorem zero_notMem_a : (0 : UInt8) ∉ ([0x61] : List UInt8) := by decide

theorem zero_notMem_b : (0 : UInt8) ∉ ([0x62] : List UInt8) := by decide

theorem zero_notMem_m : (0 : UInt8) ∉ ([0x6D] : List UInt8) := by decide

theorem zero_notMem_one : (0 : UInt8) ∉ ([0x31] : List UInt8) := by decide

theorem zero_notMem_two : (0 : UInt8) ∉ ([0x32] : List UInt8) := by decide

theorem zero_notMem_takeWhile (bs : List UInt8) : 0 ∉ bs.takeWhile (· ≠ 0) := fun hz => by
  simpa using List.mem_takeWhile_imp hz

/-- The bytes up to the first zero byte, when there is one. -/
def cstring (bs : List UInt8) : Option CString :=
  if 0 ∈ bs then some ⟨bs.takeWhile (· ≠ 0), zero_notMem_takeWhile bs⟩ else none

theorem takeWhile_append_zero {s r : List UInt8} (h : 0 ∉ s) :
    (s ++ 0 :: r).takeWhile (· ≠ 0) = s := by
  induction s with
  | nil => simp
  | cons b s ih =>
    simp only [List.mem_cons, not_or] at h
    simpa [List.takeWhile_cons, Ne.symm h.1] using ih h.2

/-- Zero-free bytes followed by a zero are what a scan finds. -/
theorem cstring_append (s : CString) (r : List UInt8) : cstring (s.chars ++ 0 :: r) = some s := by
  rw [cstring, if_pos (by simp)]
  exact congrArg some (CString.ext (takeWhile_append_zero s.zero_notMem))

/-- What a scan finds is followed by a zero. -/
theorem eq_append_of_cstring {bs : List UInt8} {s : CString} (h : cstring bs = some s) :
    ∃ r, bs = s.chars ++ 0 :: r := by
  unfold cstring at h
  split at h
  · rename_i hz
    obtain rfl := Option.some.inj h
    obtain ⟨l, r, rfl, hl⟩ := List.eq_append_cons_of_mem hz
    exact ⟨r, congrArg (· ++ 0 :: r) (takeWhile_append_zero hl).symm⟩
  · cases h

/-- A scan that meets a zero stops before the end. -/
theorem length_takeWhile_lt {bs : List UInt8} (hz : 0 ∈ bs) :
    (bs.takeWhile (· ≠ 0)).length < bs.length := by
  induction bs with
  | nil => simp at hz
  | cons b bs ih =>
    by_cases hb : b = 0
    · simp [hb]
    · have hz' : 0 ∈ bs := by simpa [Ne.symm hb] using hz
      simpa [List.takeWhile_cons, hb] using ih hz'

theorem length_cstring_lt {bs : List UInt8} {s : CString} (h : cstring bs = some s) :
    s.chars.length < bs.length := by
  unfold cstring at h
  split at h
  · next hz =>
    obtain rfl := Option.some.inj h
    exact length_takeWhile_lt hz
  · cases h

end ElastosCar
