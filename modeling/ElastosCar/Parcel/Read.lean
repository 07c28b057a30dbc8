import ElastosCar.Lib.Run
import ElastosCar.Parcel.Append

/-!
# The RPC parcel: reads

The `Read*` operations of `linux_rpc/CRemoteParcel.cpp`. A read returns its `ECode` and the
value its out-parameter holds afterwards; where the code leaves the out-parameter alone, the
operation takes the value that was there before.

* Every byte is fetched by `peek`, which faults at an offset that is not below `mDataSize`.
  An `assert` that fails ends the run with its own fault.
* `Reads r bs v` is the specification of a read on a parcel that holds the bytes `bs` at its
  position: it returns `v` and moves past `bs`. Sequences of reads compose by `Reads.bind`.
-/

namespace ElastosCar

/-- Ways in which a run of the code ends abnormally. -/
inductive Fault
  /-- A byte outside the valid data was read. -/
  | outOfBounds
  /-- A `NULL` pointer was dereferenced. -/
  | nullPointer
  /-- A word that is not the address of an object of the type was dereferenced. -/
  | wildPointer
  /-- An `assert` failed. -/
  | assertion
deriving DecidableEq, Repr

/-- A read operation. -/
abbrev ReadM := Run CRemoteParcel Fault

/-- `assert`. -/
def carAssert {σ : Type} (b : Bool) : Run σ Fault Unit := if b then pure () else throw .assertion

namespace CRemoteParcel

/-- Move the position by `n`, in 32 bits. -/
def advance (p : CRemoteParcel) (n : UInt32) : CRemoteParcel := { p with mDataPos := p.mDataPos + n }

/-- Fetch `n` bytes of the data from offset `off` on. -/
def peek (off n : ℕ) : ReadM (List UInt8) := fun p =>
  if n = 0 ∨ off + n ≤ p.mDataSize.toNat then .ok (load p.block off n, p) else .error .outOfBounds

/-- The test of `Read` and `ReadInplace`. -/
def canRead (len : UInt32) (p : CRemoteParcel) : Bool :=
  decide (p.mDataPos + padSize len ≥ p.mDataPos ∧ p.mDataPos + padSize len ≤ p.mDataSize)

/-- `ReadInplace`: the offset of the bytes, `none` for `NULL`. -/
def readInplace (len : UInt32) : ReadM (Option ℕ) := do
  let p ← get
  if p.canRead len then
    set (p.advance (padSize len))
    pure (some p.mDataPos.toNat)
  else pure none

/-- `Read`: the bytes copied out, `none` when the read fails and copies nothing. -/
def read (len : UInt32) : ReadM (ECode × Option (List UInt8)) := do
  let p ← get
  if p.canRead len then
    let bs ← peek p.mDataPos.toNat len.toNat
    set (p.advance (padSize len))
    pure (NOERROR, some bs)
  else pure (E_FAIL, none)

/-- `ReadAligned` at a type of `n` bytes. -/
def readAligned (n : UInt32) : ReadM (ECode × Option (List UInt8)) := do
  let p ← get
  if p.mDataPos + n ≤ p.mDataSize then
    let bs ← peek p.mDataPos.toNat n.toNat
    set (p.advance n)
    pure (NOERROR, some bs)
  else pure (E_FAIL, none)

/-- `memchr(·, 0, n)` at an offset of the data: the bytes are looked at one by one, so a zero
inside the data ends the search even when `n` reaches past it. -/
def memchr (off n : ℕ) : ReadM (Option CString) := fun p =>
  match cstring (load p.block off (min n (p.mDataSize.toNat - off))) with
  | some s => .ok (some s, p)
  | none => if n ≤ p.mDataSize.toNat - off then .ok (none, p) else .error .outOfBounds

/-- `ReadCStringInner`: the string found, `none` for `NULL`. -/
def readCStringInner : ReadM (Option CString) := do
  let p ← get
  let avail := p.mDataSize - p.mDataPos
  if avail > 0 then
    match ← memchr p.mDataPos.toNat avail.toNat with
    | some s =>
      set (p.advance (padSize (UInt32.ofNat s.chars.length + 1)))
      pure (some s)
    | none => pure none
  else pure none

/-- `ReadInt32`, also at the unsigned type. -/
def readInt32 (old : UInt32) : ReadM (ECode × UInt32) := do
  match ← readAligned 4 with
  | (ec, some bs) => pure (ec, ntohl (wordOf bs))
  | (ec, none) => pure (ec, old)

/-- The readers that go through `ReadInt32` and convert; they store zero on failure. -/
def readVia {α : Type} (conv : UInt32 → α) (zero : α) (junk : UInt32) : ReadM (ECode × α) := do
  let (ec, i) ← readInt32 junk
  pure (ec, if failed ec then zero else conv i)

/-- `ReadByte`. -/
def readByte (junk : UInt32) : ReadM (ECode × UInt8) := readVia UInt32.toUInt8 0 junk

/-- `ReadBoolean`. -/
def readBoolean (junk : UInt32) : ReadM (ECode × Bool) := readVia (fun i => decide (i ≠ 0)) false junk

/-- `ReadChar`. -/
def readChar (junk : UInt32) : ReadM (ECode × UInt32) := readVia id 0 junk

/-- `ReadInt16`. -/
def readInt16 (junk : UInt32) : ReadM (ECode × Int16) := readVia (fun i => i.toUInt16.toInt16) 0 junk

/-- `ReadInt64`. -/
def readInt64 (old : UInt64) : ReadM (ECode × UInt64) := do
  match ← readAligned 8 with
  | (ec, some bs) => pure (ec, dwordOf bs)
  | (ec, none) => pure (ec, old)

/-- `ReadFloat`, as bits. -/
def readFloat (old : UInt32) : ReadM (ECode × UInt32) := do
  match ← readAligned 4 with
  | (ec, some bs) => pure (ec, wordOf bs)
  | (ec, none) => pure (ec, old)

/-- `ReadDouble`, as bits. -/
def readDouble (old : UInt64) : ReadM (ECode × UInt64) := readInt64 old

/-- `ReadString`. The `NULL` of `ReadCStringInner` becomes the null `String`. -/
def readString (junk : UInt32) : ReadM (ECode × CarString) := do
  let (ec, tag) ← readInt32 junk
  if failed ec ∨ tag = MSH_NULL then pure (ec, none)
  else
    carAssert (tag = MSH_NOT_NULL)
    let s ← readCStringInner
    pure (NOERROR, s)

/-- What a read leaves at the address `ReadStruct` is given. -/
inductive StructSlot
  /-- Nothing was stored. -/
  | untouched
  /-- `*address = NULL`. -/
  | null
  /-- The bytes copied to `address`. -/
  | block (bs : List UInt8)
deriving DecidableEq, Repr

/-- `ReadStruct`; `tag₀` and `len₀` are what the locals `tag` and `len` hold uninitialised. -/
def readStruct (tag₀ len₀ : UInt32) : ReadM (ECode × StructSlot) := do
  let (ec, tag) ← readInt32 tag₀
  if failed ec ∨ tag = MSH_NULL then pure (ec, .null)
  else
    carAssert (tag = MSH_NOT_NULL)
    let (_, len) ← readInt32 len₀
    match ← read len with
    | (ec, some bs) => pure (ec, .block bs)
    | (ec, none) => pure (ec, .untouched)

/-- `ReadEMuid`. -/
def readEMuid (old : EMuid) : ReadM (ECode × EMuid) := do
  match ← read 16 with
  | (ec, some bs) => pure (ec, EMuid.ofBytes bs)
  | (ec, none) => pure (ec, old)

/-- `ReadEGuid`. `strlen` and `strcpy` take the result of `ReadCStringInner` as it is, so a
`NULL` there is a fault. The pointer bits read from the wire are overwritten. -/
def readEGuid : ReadM (ECode × Option EGuid) := do
  match ← read 24 with
  | (ec, none) => pure (ec, none)
  | (_, some bs) =>
    match ← readCStringInner with
    | some s =>
      pure (NOERROR, some ⟨EMuid.ofBytes (bs.take 16), s, wordOf ((bs.drop 20).take 4)⟩)
    | none => throw .nullPointer

/-! ### Reading what is there -/

/-- From the position on, the data is exactly `bs`. -/
structure Holds (p : CRemoteParcel) (bs : List UInt8) : Prop where
  size : p.mDataPos.toNat + bs.length = p.mDataSize.toNat
  lt : p.mDataSize.toNat < 2 ^ 30
  bytes : load p.block p.mDataPos.toNat bs.length = bs

/-- `r` returns `v` on every parcel that holds `bs` at its position, and moves past `bs`. -/
def Reads {α : Type} (r : ReadM α) (bs : List UInt8) (v : α) : Prop :=
  ∀ p rest, Holds p (bs ++ rest) → r p = .ok (v, p.advance (sizeOf32 bs))

@[simp]
theorem advance_zero (p : CRemoteParcel) : p.advance 0 = p := by simp [advance]

theorem advance_advance (p : CRemoteParcel) (m n : UInt32) :
    (p.advance m).advance n = p.advance (m + n) := by
  simp [advance, add_assoc]

theorem sizeOf32_append (as bs : List UInt8) : sizeOf32 (as ++ bs) = sizeOf32 as + sizeOf32 bs := by
  simp only [sizeOf32, List.length_append, UInt32.ofNat_add]

section

variable {p : CRemoteParcel} {bs rest : List UInt8}

theorem Holds.length_le (h : Holds p (bs ++ rest)) :
    p.mDataPos.toNat + bs.length ≤ p.mDataSize.toNat := by
  have := h.size
  rw [List.length_append] at this
  omega

theorem Holds.toNat_add (h : Holds p (bs ++ rest)) :
    (p.mDataPos + sizeOf32 bs).toNat = p.mDataPos.toNat + bs.length := by
  have h1 := h.length_le
  have h2 := h.lt
  rw [UInt32.toNat_add, toNat_sizeOf32 (by omega), Nat.mod_eq_of_lt (by omega)]

theorem Holds.load_eq (h : Holds p (bs ++ rest)) :
    load p.block p.mDataPos.toNat bs.length = bs := (load_eq_append h.bytes).1

/-- Moving past the bytes leaves the rest. -/
theorem Holds.advance (h : Holds p (bs ++ rest)) : Holds (p.advance (sizeOf32 bs)) rest where
  size := by
    have := h.size
    rw [List.length_append] at this
    change (p.mDataPos + sizeOf32 bs).toNat + rest.length = p.mDataSize.toNat
    rw [h.toNat_add]
    omega
  lt := h.lt
  bytes := by
    change load p.block (p.mDataPos + sizeOf32 bs).toNat rest.length = rest
    rw [h.toNat_add]
    exact (load_eq_append h.bytes).2

theorem Holds.peek (h : Holds p (bs ++ rest)) :
    peek p.mDataPos.toNat bs.length p = .ok (bs, p) := by
  rw [CRemoteParcel.peek, if_pos (Or.inr h.length_le), h.load_eq]

end

/-! ### Composing reads -/

section

variable {α β : Type} {r : ReadM α} {f : α → ReadM β} {as bs : List UInt8} {v : α} {w : β}

theorem Reads.pure (v : α) : Reads (pure v) [] v := fun p rest _ => by
  simp [sizeOf32]

/-- **Sequences of reads** read the bytes one after the other. -/
theorem Reads.bind (hr : Reads r as v) (hf : Reads (f v) bs w) : Reads (r >>= f) (as ++ bs) w := by
  intro p rest h
  rw [List.append_assoc] at h
  rw [Run.bind_ok (hr p _ h), hf _ _ h.advance, advance_advance, sizeOf32_append]

/-- A read followed by a computation on its result. -/
theorem Reads.map (hr : Reads r as v) (hf : f v = Pure.pure w) : Reads (r >>= f) as w := by
  rw [← List.append_nil as]
  exact hr.bind (hf ▸ Reads.pure w)

theorem reads_assert {b : Bool} (hb : b = true) : Reads (carAssert b) [] () := by
  rw [carAssert, if_pos hb]
  exact Reads.pure ()

end

/-! ### The readers -/

theorem reads_readAligned {bs : List UInt8} {n : UInt32} (hn : sizeOf32 bs = n) (hlt : bs.length < 2 ^ 31) :
    Reads (readAligned n) bs (NOERROR, some bs) := by
  subst hn
  intro p rest h
  have hle : p.mDataPos + sizeOf32 bs ≤ p.mDataSize := by
    rw [UInt32.le_iff_toNat_le, h.toNat_add]
    exact h.length_le
  simp only [readAligned, Run.get_bind, if_pos hle]
  rw [toNat_sizeOf32 (by omega), Run.bind_ok h.peek]
  rfl

/-- What `Write` appended, `Read` finds. -/
theorem reads_read (bs : List UInt8) {n : UInt32} (hn : sizeOf32 bs = n) :
    Reads (read n) (padded bs) (NOERROR, some bs) := by
  subst hn
  intro p rest h
  have hle := h.length_le
  have hlt := h.lt
  have hpad := le_pad4 bs.length
  rw [length_padded] at hle
  have hn : (sizeOf32 bs).toNat = bs.length := toNat_sizeOf32 (by omega)
  have hps : padSize (sizeOf32 bs) = sizeOf32 (padded bs) := by
    apply UInt32.toNat_inj.mp
    rw [toNat_padSize_of_le (by omega), hn, toNat_sizeOf32 (by rw [length_padded]; omega), length_padded]
  have hcan : p.canRead (sizeOf32 bs) = true := by
    rw [canRead, hps, decide_eq_true_iff, ge_iff_le, UInt32.le_iff_toNat_le, UInt32.le_iff_toNat_le,
      h.toNat_add]
    exact ⟨by omega, h.length_le⟩
  have hpeek : peek p.mDataPos.toNat bs.length p = .ok (bs, p) := by
    rw [padded, List.append_assoc] at h
    exact h.peek
  simp only [read, Run.get_bind, if_pos hcan]
  rw [hn, Run.bind_ok hpeek, hps]
  rfl

/-- What `WriteCStringInner` appended, `ReadCStringInner` finds. -/
theorem reads_readCStringInner (s : CString) :
    Reads readCStringInner (padded s.terminated) (some s) := by
  intro p rest h
  have hle := h.length_le
  have hlt := h.lt
  have hpad := le_pad4 s.terminated.length
  have hlen := s.length_terminated
  rw [length_padded] at hle
  have havail : (p.mDataSize - p.mDataPos).toNat = p.mDataSize.toNat - p.mDataPos.toNat :=
    UInt32.toNat_sub_of_le _ _ (UInt32.le_iff_toNat_le.mpr (by omega))
  have hpos : p.mDataSize - p.mDataPos > 0 := by
    rw [gt_iff_lt, UInt32.lt_iff_toNat_lt, havail, UInt32.toNat_zero]
    omega
  have hbytes : load p.block p.mDataPos.toNat (p.mDataSize.toNat - p.mDataPos.toNat)
      = s.chars ++ 0 :: (List.replicate (pad4 s.terminated.length - s.terminated.length) 0 ++ rest) := by
    have := h.bytes
    rw [show (padded s.terminated ++ rest).length = p.mDataSize.toNat - p.mDataPos.toNat by
      have := h.size; omega] at this
    rw [this]
    simp [padded, CString.terminated]
  have hscan : memchr p.mDataPos.toNat (p.mDataSize - p.mDataPos).toNat p = .ok (some s, p) := by
    rw [memchr, havail, Nat.min_self, hbytes, cstring_append]
  have hps : padSize (UInt32.ofNat s.chars.length + 1) = sizeOf32 (padded s.terminated) := by
    have h1 : UInt32.ofNat s.chars.length + 1 = sizeOf32 s.terminated := by
      rw [sizeOf32, hlen, UInt32.ofNat_add]
      rfl
    apply UInt32.toNat_inj.mp
    rw [h1, toNat_padSize_of_le (by rw [toNat_sizeOf32 (by omega)]; omega),
      toNat_sizeOf32 (by omega), toNat_sizeOf32 (by rw [length_padded]; omega), length_padded]
  simp only [readCStringInner, Run.get_bind, if_pos hpos]
  rw [Run.bind_ok hscan]
  simp only [Run.set_bind, hps]
  rfl

end CRemoteParcel

end ElastosCar
