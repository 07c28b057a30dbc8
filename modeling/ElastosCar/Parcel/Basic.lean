import ElastosCar.Types

/-!
# The RPC parcel: storage and raw writes

`CRemoteParcel` of `linux_rpc/CRemoteParcel.cpp`: a growable block `mData` with a size, a
capacity and a position, all `UInt32` and all computed with the wrapping arithmetic of the
code. This module has the storage layer — `ContinueWrite`, `GrowData`, `RestartWrite` — and
the two writers everything else goes through, `WriteInplace`/`Write` and `WriteAligned`.

* The block is a function of the offset; only its first `mDataCapacity` bytes belong to the
  parcel. A write past them is still a store of the model, and `Bounds.lean` says when none
  happens.
* Memory comes from an `Allocator`, which decides for each request whether it succeeds and
  what the fresh bytes hold. `requests` counts the requests made so far; it is the one field
  the class does not have.
* `mOwner` is left out: `InitState` sets it to `NULL` and nothing else assigns it, so the
  branches of `RestartWrite` and `ContinueWrite` that test it are never taken.

The central result is `growData_eq`: what a growth step does when its arithmetic does not
wrap.
-/

namespace ElastosCar

/-- The memory a parcel allocates from: the answer to the `k`-th request, for `n` bytes, is
`none` when the request fails and otherwise the contents of the fresh memory. -/
abbrev Allocator := ℕ → ℕ → Option Block

/-- Every request is granted. -/
def Allocator.Succeeds (env : Allocator) : Prop := ∀ k n, (env k n).isSome

/-- An allocator that always succeeds, with zeroed memory. -/
def Allocator.zeros : Allocator := fun _ _ => some fun _ => 0

theorem Allocator.zeros_succeeds : Allocator.zeros.Succeeds := fun _ _ => rfl

/-- `CRemoteParcel`, with the initial values of `InitState`. -/
structure CRemoteParcel where
  mError : ECode := NOERROR
  mData : Option Block := none
  mDataSize : UInt32 := 0
  mDataCapacity : UInt32 := 0
  mDataPos : UInt32 := 0
  mObjects : List UInt32 := []
  mObjectsCapacity : UInt32 := 0
  mNextObjectHint : UInt32 := 0
  requests : ℕ := 0

/-- `PAD_SIZE`. -/
def padSize (s : UInt32) : UInt32 := (s + 3) &&& ~~~3

/-- Rounding up to a multiple of four, without the wrap of `padSize`. -/
def pad4 (n : ℕ) : ℕ := (n + 3) / 4 * 4

/-- A `sizeof`, as the `UInt32` it is used as. -/
abbrev sizeOf32 (bs : List UInt8) : UInt32 := UInt32.ofNat bs.length

namespace CRemoteParcel

/-- The memory behind `mData`. -/
def block (p : CRemoteParcel) : Block := p.mData.getD fun _ => 0

/-- `DataSize`. -/
def dataSize (p : CRemoteParcel) : UInt32 :=
  if p.mDataSize > p.mDataPos then p.mDataSize else p.mDataPos

/-- `SetDataPositionInner`, which `SetDataPosition` calls. -/
def setDataPosition (pos : UInt32) (p : CRemoteParcel) : CRemoteParcel :=
  { p with mDataPos := pos, mNextObjectHint := 0 }

/-- `memcpy` to an offset of the block. -/
def memcpy (off : ℕ) (bs : List UInt8) (p : CRemoteParcel) : CRemoteParcel :=
  { p with mData := p.mData.map fun d => store d off bs }

/-- `ContinueWrite`. Growing goes through `realloc`, which keeps the first `mDataCapacity`
bytes; the first block comes from `malloc`. -/
def continueWrite (env : Allocator) (desired : UInt32) (p : CRemoteParcel) :
    ECode × CRemoteParcel :=
  match p.mData with
  | some d =>
    if desired > p.mDataCapacity then
      match env p.requests desired.toNat with
      | some fresh =>
        (NOERROR, { p with
          mData := some fun i => if i < p.mDataCapacity.toNat then d i else fresh i
          mDataCapacity := desired
          requests := p.requests + 1 })
      | none =>
        (E_OUT_OF_MEMORY, { p with mError := E_OUT_OF_MEMORY, requests := p.requests + 1 })
    else
      (NOERROR, { p with
        mDataSize := if p.mDataSize > desired then desired else p.mDataSize
        mDataPos := if p.mDataPos > desired then desired else p.mDataPos })
  | none =>
    match env p.requests desired.toNat with
    | some fresh =>
      (NOERROR, { p with
        mData := some fresh
        mDataSize := 0
        mDataPos := 0
        mDataCapacity := desired
        requests := p.requests + 1 })
    | none =>
      (E_OUT_OF_MEMORY, { p with mError := E_OUT_OF_MEMORY, requests := p.requests + 1 })

/-- `GrowData`: half as much again as the data and the new bytes need. -/
def growData (env : Allocator) (len : UInt32) (p : CRemoteParcel) : ECode × CRemoteParcel :=
  let newSize := (p.mDataSize + len) * 3 / 2
  if newSize ≤ p.mDataSize then (E_OUT_OF_MEMORY, p) else p.continueWrite env newSize

/-- `RestartWrite`. -/
def restartWrite (env : Allocator) (desired : UInt32) (p : CRemoteParcel) :
    ECode × CRemoteParcel :=
  match env p.requests desired.toNat with
  | none =>
    if desired > p.mDataCapacity then
      (E_OUT_OF_MEMORY, { p with mError := E_OUT_OF_MEMORY, requests := p.requests + 1 })
    else
      (NOERROR, { p with
        mDataSize := 0, mDataPos := 0, mObjects := [], mObjectsCapacity := 0
        mNextObjectHint := 0, requests := p.requests + 1 })
  | some fresh =>
    (NOERROR, { p with
      mData := some fun i => if i < p.mDataCapacity.toNat then p.block i else fresh i
      mDataCapacity := desired
      mDataSize := 0, mDataPos := 0, mObjects := [], mObjectsCapacity := 0
      mNextObjectHint := 0, requests := p.requests + 1 })

/-- `SetData`: install a received buffer. -/
def setData (env : Allocator) (buffer : List UInt8) (p : CRemoteParcel) :
    ECode × CRemoteParcel :=
  match p.restartWrite env (sizeOf32 buffer) with
  | (ec, p) =>
    if failed ec then (ec, p)
    else (ec, { p.memcpy 0 buffer with mDataSize := sizeOf32 buffer })

/-- `SetDataSize`. -/
def setDataSize (env : Allocator) (size : UInt32) (p : CRemoteParcel) :
    ECode × CRemoteParcel :=
  match p.continueWrite env size with
  | (ec, p) => if failed ec then (ec, p) else (ec, { p with mDataSize := size })

/-- `SetDataCapacity`. -/
def setDataCapacity (env : Allocator) (size : UInt32) (p : CRemoteParcel) :
    ECode × CRemoteParcel :=
  if size > p.mDataCapacity then p.continueWrite env size else (NOERROR, p)

/-- `FinishWrite`. -/
def finishWrite (len : UInt32) (p : CRemoteParcel) : CRemoteParcel :=
  let pos := p.mDataPos + len
  { p with mDataPos := pos, mDataSize := if pos > p.mDataSize then pos else p.mDataSize }

/-- The little-endian `mask` table of `WriteInplace`. -/
def padMask (n : UInt32) : UInt32 :=
  if n = 1 then 0x00ffffff else if n = 2 then 0x0000ffff else if n = 3 then 0x000000ff else 0

/-- The part of `WriteInplace` after `restart_write`: clear the padding in the last word and
hand out the position. The word before the block, which a wrapped `padded` of zero can name
at position zero, is not part of the model's memory. -/
def writeInplaceAt (len padded : UInt32) (p : CRemoteParcel) : Option ℕ × CRemoteParcel :=
  let off := p.mDataPos.toNat + padded.toNat - 4
  let masked :=
    if padded ≠ len ∧ 4 ≤ p.mDataPos.toNat + padded.toNat then
      p.memcpy off (wordBytes (wordOf (load p.block off 4) &&& padMask (padded - len)))
    else p
  (p.mData.map fun _ => p.mDataPos.toNat, masked.finishWrite padded)

/-- `WriteInplace`: the offset of the reserved bytes, `none` for a `NULL` result. -/
def writeInplace (env : Allocator) (len : UInt32) (p : CRemoteParcel) :
    Option ℕ × CRemoteParcel :=
  let padded := padSize len
  -- sanity check for integer overflow
  if p.mDataPos + padded < p.mDataPos then (none, p)
  else if p.mDataPos + padded ≤ p.mDataCapacity then p.writeInplaceAt len padded
  else
    match p.growData env padded with
    | (ec, p) => if ec = NOERROR then p.writeInplaceAt len padded else (none, p)

/-- `Write`: `len` bytes from `data`. -/
def write (env : Allocator) (data : List UInt8) (len : UInt32) (p : CRemoteParcel) :
    ECode × CRemoteParcel :=
  match p.writeInplace env len with
  | (some off, p) => (NOERROR, p.memcpy off (data.take len.toNat))
  | (none, p) => (p.mError, p)

/-- The part of `WriteAligned` after `restart_write`. -/
def writeAlignedAt (value : List UInt8) (p : CRemoteParcel) : CRemoteParcel :=
  (p.memcpy p.mDataPos.toNat value).finishWrite (sizeOf32 value)

/-- `WriteAligned` at a type whose values have the object representation `value`. -/
def writeAligned (env : Allocator) (value : List UInt8) (p : CRemoteParcel) :
    ECode × CRemoteParcel :=
  if p.mDataPos + sizeOf32 value ≤ p.mDataCapacity then (NOERROR, p.writeAlignedAt value)
  else
    match p.growData env (sizeOf32 value) with
    | (ec, p) => if ec = NOERROR then (NOERROR, p.writeAlignedAt value) else (ec, p)

/-! ### Padding arithmetic -/

theorem and_compl_three (n : ℕ) (h : n < 2 ^ 32) : n &&& 4294967292 = n / 4 * 4 := by
  have hm : (4294967292 : ℕ) = (2 ^ 30 - 1) <<< 2 := by decide
  have hn : n / 4 * 4 = (n >>> 2) <<< 2 := by
    rw [Nat.shiftRight_eq_div_pow, Nat.shiftLeft_eq]
  rw [hm, hn]
  apply Nat.eq_of_testBit_eq
  intro i
  simp only [Nat.testBit_and, Nat.testBit_shiftLeft, Nat.testBit_shiftRight,
    Nat.testBit_two_pow_sub_one]
  rcases Nat.lt_or_ge i 2 with hi | hi
  · simp [show ¬ 2 ≤ i by omega]
  · have hi2 : 2 + (i - 2) = i := by omega
    by_cases h30 : i - 2 < 30
    · simp [hi, hi2, h30]
    · have : n.testBit i = false := Nat.testBit_lt_two_pow
        (lt_of_lt_of_le h (Nat.pow_le_pow_right (by decide) (by omega)))
      simp [hi2, this]

theorem toNat_padSize (s : UInt32) : (padSize s).toNat = (s.toNat + 3) % 4294967296 / 4 * 4 := by
  have h3 : (~~~(3 : UInt32)) = 4294967292 := by decide
  rw [padSize, h3, UInt32.toNat_and, UInt32.toNat_add]
  exact and_compl_three _ (Nat.mod_lt _ (by decide))

/-- Below the wrap, `PAD_SIZE` rounds up. -/
theorem toNat_padSize_of_le {s : UInt32} (h : s.toNat ≤ 4294967292) :
    (padSize s).toNat = pad4 s.toNat := by
  rw [toNat_padSize, pad4, Nat.mod_eq_of_lt (by omega)]

/-! ### Growth -/

/-- What a growth step for `n` bytes in all leaves as it was, and what it provides. -/
structure Grown (p p' : CRemoteParcel) (n : ℕ) : Prop where
  error : p'.mError = p.mError
  size : p'.mDataSize = p.mDataSize
  pos : p'.mDataPos = p.mDataPos
  objects : p'.mObjects = p.mObjects
  hint : p'.mNextObjectHint = p.mNextObjectHint
  data : p'.mData.isSome
  cap : p'.mDataCapacity.toNat = 3 * n / 2
  keep : ∀ i < p.mDataCapacity.toNat, p'.block i = p.block i

/-- The block is allocated exactly when there is capacity, and the data fits in it. -/
structure Stored (p : CRemoteParcel) : Prop where
  null : p.mData = none → p.mDataCapacity = 0
  size_le : p.mDataSize.toNat ≤ p.mDataCapacity.toNat
  pos_le : p.mDataPos.toNat ≤ p.mDataSize.toNat

theorem Stored.eq_zero_of_null {p : CRemoteParcel} (hp : p.Stored) (h : p.mData = none) :
    p.mDataSize = 0 ∧ p.mDataPos = 0 := by
  have hc : p.mDataCapacity.toNat = 0 := by rw [hp.null h]; rfl
  have h1 := hp.size_le
  have h2 := hp.pos_le
  exact ⟨UInt32.toNat_inj.mp (by simp; omega), UInt32.toNat_inj.mp (by simp; omega)⟩

/-- **A growth step whose product does not wrap** keeps the data and makes room. -/
theorem growData_eq {env : Allocator} (henv : env.Succeeds) {p : CRemoteParcel} (hp : p.Stored)
    {n : UInt32} (h3 : 3 * (p.mDataSize.toNat + n.toNat) < 4294967296)
    (hcap : p.mDataCapacity.toNat < p.mDataSize.toNat + n.toNat) :
    ∃ p', p.growData env n = (NOERROR, p') ∧
      Grown p p' (p.mDataSize.toNat + n.toNat) := by
  have hsize := hp.size_le
  have hnew : ((p.mDataSize + n) * 3 / 2).toNat
      = 3 * (p.mDataSize.toNat + n.toNat) / 2 := by
    simp only [UInt32.toNat_div, UInt32.toNat_mul, UInt32.toNat_add, UInt32.reduceToNat]
    omega
  have hgt : ¬ (p.mDataSize + n) * 3 / 2 ≤ p.mDataSize := by
    rw [UInt32.le_iff_toNat_le, hnew]
    omega
  obtain ⟨fresh, hfresh⟩ :=
    Option.isSome_iff_exists.mp (henv p.requests ((p.mDataSize + n) * 3 / 2).toNat)
  rw [growData, if_neg hgt, continueWrite]
  cases hd : p.mData with
  | some d =>
    have hgt' : (p.mDataSize + n) * 3 / 2 > p.mDataCapacity := by
      rw [gt_iff_lt, UInt32.lt_iff_toNat_lt, hnew]
      omega
    simp only [if_pos hgt', hfresh]
    refine ⟨_, rfl, ⟨rfl, rfl, rfl, rfl, rfl, rfl, hnew, fun i hi => ?_⟩⟩
    simp [block, hd, hi]
  | none =>
    obtain ⟨hs0, hp0⟩ := hp.eq_zero_of_null hd
    simp only [hfresh]
    refine ⟨_, rfl, ⟨rfl, hs0.symm, hp0.symm, rfl, rfl, rfl, hnew, fun i hi => ?_⟩⟩
    rw [hp.null hd] at hi
    simp at hi

end CRemoteParcel

end ElastosCar
