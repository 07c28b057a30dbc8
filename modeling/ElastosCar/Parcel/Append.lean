import ElastosCar.Parcel.Basic

/-!
# Writes at the end of a parcel

The specification of the raw writers on a parcel positioned at the end of its data
(`Ready`): a write appends its bytes, padded with zeros to a multiple of four, and changes
nothing that was there. `Appends w bs` packages this for a writer `w`, so that a typed
writer is specified by the bytes it appends and sequences of writes compose by
`Appends.seq`.

A growth step is safe as long as `GrowData`'s product stays below `2 ^ 32` (`Room`); the
bound of `Appends` on the total, `2 ^ 30` bytes, is a convenient sufficient condition.
-/

namespace ElastosCar

/-- Bytes padded with zeros to a multiple of four. -/
def padded (bs : List UInt8) : List UInt8 := bs ++ List.replicate (pad4 bs.length - bs.length) 0

theorem le_pad4 (n : ℕ) : n ≤ pad4 n := by
  rw [pad4]
  omega

theorem pad4_lt (n : ℕ) : pad4 n < n + 4 := by
  rw [pad4]
  omega

@[simp]
theorem length_padded (bs : List UInt8) : (padded bs).length = pad4 bs.length := by
  have := le_pad4 bs.length
  simp only [padded, List.length_append, List.length_replicate]
  omega

theorem padded_of_dvd {bs : List UInt8} (h : 4 ∣ bs.length) : padded bs = bs := by
  have : pad4 bs.length = bs.length := by
    rw [pad4]
    omega
  simp [padded, this]

theorem padded_append {bs : List UInt8} (h : 4 ∣ bs.length) (cs : List UInt8) :
    padded (bs ++ cs) = bs ++ padded cs := by
  have : pad4 (bs.length + cs.length) - (bs.length + cs.length) = pad4 cs.length - cs.length := by
    rw [pad4, pad4]
    omega
  rw [padded, padded, List.length_append, this, List.append_assoc]

namespace CRemoteParcel

/-- The data written so far. -/
def contents (p : CRemoteParcel) : List UInt8 := load p.block 0 p.mDataSize.toNat

@[simp]
theorem length_contents (p : CRemoteParcel) : p.contents.length = p.mDataSize.toNat := by
  simp [contents]

/-- A parcel positioned at the end of its data, with no error recorded. -/
structure Ready (p : CRemoteParcel) : Prop extends p.Stored where
  pos_eq : p.mDataPos = p.mDataSize
  error : p.mError = NOERROR

/-- A new parcel (`CRemoteParcel(FALSE)`) is ready. -/
theorem ready_new : Ready {} := ⟨⟨fun _ => rfl, le_rfl, le_rfl⟩, rfl, rfl⟩

/-- There is room for `n` more bytes at the end, or the growth step that makes room does not
wrap. -/
def Room (p : CRemoteParcel) (n : ℕ) : Prop :=
  p.mDataSize.toNat + n ≤ p.mDataCapacity.toNat ∨ 3 * (p.mDataSize.toNat + n) < 4294967296

theorem room_of_lt {p : CRemoteParcel} {n : ℕ} (h : p.mDataSize.toNat + n < 2 ^ 30) :
    p.Room n := Or.inr (by omega)

theorem Room.lt {p : CRemoteParcel} {n : ℕ} (h : p.Room n) :
    p.mDataSize.toNat + n < 4294967296 := by
  have := p.mDataCapacity.toNat_lt
  rcases h with h | h <;> omega

/-- The capacity once there is room for `n` more bytes. -/
def roomyCapacity (p : CRemoteParcel) (n : ℕ) : ℕ :=
  if p.mDataSize.toNat + n ≤ p.mDataCapacity.toNat then p.mDataCapacity.toNat
  else 3 * (p.mDataSize.toNat + n) / 2

theorem le_roomyCapacity (p : CRemoteParcel) (n : ℕ) :
    p.mDataSize.toNat + n ≤ p.roomyCapacity n := by
  rw [roomyCapacity]
  split <;> omega

/-- What `restart_write` starts from: the block is there and has room for `n` bytes at the
position, which is the end of the data. -/
structure Reserved (p q : CRemoteParcel) (n : ℕ) : Prop where
  ready : q.Ready
  size : q.mDataSize = p.mDataSize
  objects : q.mObjects = p.mObjects
  data : q.mData.isSome
  cap : q.mDataCapacity.toNat = p.roomyCapacity n
  contents_eq : q.contents = p.contents

theorem Reserved.room {p q : CRemoteParcel} {n : ℕ} (h : Reserved p q n) :
    q.mDataSize.toNat + n ≤ q.mDataCapacity.toNat := by
  rw [h.cap, h.size]
  exact le_roomyCapacity p n

/-- A ready parcel that has room is its own reservation. -/
theorem reserved_self {q : CRemoteParcel} (hq : q.Ready) (hd : q.mData.isSome) {n : ℕ}
    (h : q.mDataSize.toNat + n ≤ q.mDataCapacity.toNat) : Reserved q q n :=
  ⟨hq, rfl, rfl, hd, by rw [roomyCapacity, if_pos h], rfl⟩

/-- Growing a ready parcel reserves the room asked for. -/
theorem reserved_of_grown {p q : CRemoteParcel} (hp : p.Ready) {n : ℕ}
    (hn : ¬ p.mDataSize.toNat + n ≤ p.mDataCapacity.toNat)
    (h : Grown p q (p.mDataSize.toNat + n)) : Reserved p q n where
  ready := {
    null := fun hn => absurd h.data (by simp [hn])
    size_le := by rw [h.size, h.cap]; omega
    pos_le := by rw [h.size, h.pos, hp.pos_eq]
    pos_eq := by rw [h.size, h.pos, hp.pos_eq]
    error := by rw [h.error, hp.error] }
  size := h.size
  objects := h.objects
  data := h.data
  cap := by rw [h.cap, roomyCapacity, if_neg hn]
  contents_eq := by
    rw [contents, contents, h.size]
    refine load_congr fun i _ hi => h.keep i ?_
    have := hp.size_le
    omega

/-- **Reserving room** at the end of a ready parcel: either the capacity suffices and nothing
happens, or one growth step does. -/
theorem reserve {env : Allocator} (henv : env.Succeeds) {p : CRemoteParcel} (hp : p.Ready)
    {n : UInt32} (hroom : p.Room n.toNat) (h0 : n ≠ 0 ∨ p.mData.isSome) :
    (p.mDataPos + n ≤ p.mDataCapacity ∧ Reserved p p n.toNat) ∨
      (¬ p.mDataPos + n ≤ p.mDataCapacity ∧
        ∃ q, p.growData env n = (NOERROR, q) ∧ Reserved p q n.toNat) := by
  have hlt := hroom.lt
  have hsum : (p.mDataPos + n).toNat = p.mDataSize.toNat + n.toNat := by
    rw [hp.pos_eq, UInt32.toNat_add, Nat.mod_eq_of_lt (by omega)]
  rw [UInt32.le_iff_toNat_le, hsum]
  by_cases hcap : p.mDataSize.toNat + n.toNat ≤ p.mDataCapacity.toNat
  · refine Or.inl ⟨hcap, hp, rfl, rfl, ?_, by rw [roomyCapacity, if_pos hcap], rfl⟩
    rcases h0 with h0 | h0
    · rcases hd : p.mData with _ | d
      · have hn : n.toNat = 0 := by
          rw [hp.null hd] at hcap
          simp at hcap
          omega
        exact absurd (UInt32.toNat_inj.mp (by simpa using hn)) h0
      · rfl
    · exact h0
  · obtain ⟨q, hq, hg⟩ := growData_eq henv hp.toStored (n := n)
      (by rcases hroom with h | h <;> omega) (by omega)
    exact Or.inr ⟨hcap, q, hq, reserved_of_grown hp hcap hg⟩

/-! ### Storing at the end -/

/-- `q` is `p` with the bytes `bs` after its data. -/
structure Appended (p q : CRemoteParcel) (bs : List UInt8) : Prop where
  ready : q.Ready
  contents_eq : q.contents = p.contents ++ bs
  objects : q.mObjects = p.mObjects
  cap : q.mDataCapacity.toNat = p.roomyCapacity bs.length

/-- Storing bytes at the end of the data and moving the position past them appends them. -/
theorem Reserved.appended {p q r : CRemoteParcel} {bs : List UInt8} (h : Reserved p q bs.length)
    (hsize : r.mDataSize.toNat = q.mDataSize.toNat + bs.length) (hpos : r.mDataPos = r.mDataSize)
    (hcap : r.mDataCapacity = q.mDataCapacity) (herr : r.mError = q.mError)
    (hobj : r.mObjects = q.mObjects) (hdata : r.mData.isSome)
    (hkeep : load r.block 0 q.mDataSize.toNat = load q.block 0 q.mDataSize.toNat)
    (hnew : load r.block q.mDataSize.toNat bs.length = bs) : Appended p r bs := by
  refine ⟨⟨⟨fun hn => ?_, ?_, ?_⟩, hpos, ?_⟩, ?_, ?_, ?_⟩
  · rw [hn] at hdata
    cases hdata
  · rw [hcap, hsize]
    exact h.room
  · rw [hpos]
  · rw [herr, h.ready.error]
  · rw [contents, hsize, load_append, hkeep, Nat.zero_add, hnew, ← h.contents_eq, contents]
  · rw [hobj, h.objects]
  · rw [hcap, h.cap]

theorem block_memcpy {p : CRemoteParcel} (h : p.mData.isSome) (off : ℕ) (bs : List UInt8) :
    (p.memcpy off bs).block = store p.block off bs := by
  obtain ⟨d, hd⟩ := Option.isSome_iff_exists.mp h
  simp [memcpy, block, hd]

/-- `FinishWrite` at the end of the data moves both the position and the size. -/
theorem finishWrite_ready {q : CRemoteParcel} (hq : q.Ready) {n : UInt32}
    (h : q.mDataSize.toNat + n.toNat < 4294967296) :
    (q.finishWrite n).mDataSize = q.mDataSize + n ∧
      (q.finishWrite n).mDataPos = q.mDataSize + n ∧
      (q.finishWrite n).mDataSize.toNat = q.mDataSize.toNat + n.toNat := by
  have hsum : (q.mDataSize + n).toNat = q.mDataSize.toNat + n.toNat := by
    rw [UInt32.toNat_add, Nat.mod_eq_of_lt (by omega)]
  have hs : (q.finishWrite n).mDataSize = q.mDataSize + n := by
    simp only [finishWrite, hq.pos_eq]
    split
    · rfl
    · next hle =>
      rw [gt_iff_lt, UInt32.lt_iff_toNat_lt, hsum] at hle
      exact UInt32.toNat_inj.mp (by omega)
  exact ⟨hs, by simp [finishWrite, hq.pos_eq], by rw [hs, hsum]⟩

theorem toNat_sizeOf32 {bs : List UInt8} (h : bs.length < 4294967296) :
    (sizeOf32 bs).toNat = bs.length := UInt32.toNat_ofNat_of_lt' h

/-- `WriteAligned` after `restart_write`. -/
theorem appended_writeAlignedAt {p q : CRemoteParcel} {value : List UInt8}
    (h : Reserved p q value.length) : Appended p (q.writeAlignedAt value) value := by
  have hcap := q.mDataCapacity.toNat_lt
  have hroom := h.room
  have hn : (sizeOf32 value).toNat = value.length := toNat_sizeOf32 (by omega)
  have hr : (q.memcpy q.mDataPos.toNat value).Ready :=
    ⟨⟨fun hd => absurd h.data (by simpa [memcpy] using hd), h.ready.size_le,
      h.ready.pos_le⟩, h.ready.pos_eq, h.ready.error⟩
  obtain ⟨h1, h2, h3⟩ := finishWrite_ready hr (n := sizeOf32 value)
    (by simp only [memcpy, hn]; omega)
  have hblock : (q.writeAlignedAt value).block = store q.block q.mDataSize.toNat value := by
    rw [← h.ready.pos_eq, ← block_memcpy h.data]
    rfl
  refine h.appended (h3.trans (by rw [hn]; rfl)) (h2.trans h1.symm) rfl rfl rfl
    (by simpa [writeAlignedAt, finishWrite, memcpy] using h.data) ?_ ?_
  · rw [hblock, load_store_of_disjoint _ (Or.inl (by omega))]
  · rw [hblock, load_store_self]

/-! ### Padding -/

/-- Masking a word with one of the pad masks clears its last `k` bytes. -/
theorem drop_wordBytes_padMask (w : UInt32) {k : UInt32} (hk : 0 < k.toNat) (hk4 : k.toNat < 4) :
    (wordBytes (w &&& padMask k)).drop (4 - k.toNat) = List.replicate k.toNat 0 := by
  have hmask : ∃ j, k.toNat = 4 - j ∧ j ≤ 4 ∧ (padMask k).toNat = 2 ^ (8 * j) - 1 := by
    have h3 : k.toNat = 1 ∨ k.toNat = 2 ∨ k.toNat = 3 := by omega
    rcases h3 with h | h | h
    · exact ⟨3, h, by decide, by rw [show k = 1 from UInt32.toNat_inj.mp h]; rfl⟩
    · exact ⟨2, h, by decide, by rw [show k = 2 from UInt32.toNat_inj.mp h]; rfl⟩
    · exact ⟨1, h, by decide, by rw [show k = 3 from UInt32.toNat_inj.mp h]; rfl⟩
  obtain ⟨j, hkj, hj, hm⟩ := hmask
  have hlt : (w &&& padMask k).toNat < 256 ^ j := by
    rw [UInt32.toNat_and, hm, Nat.and_two_pow_sub_one_eq_mod, show (256 : ℕ) = 2 ^ 8 from rfl,
      ← Nat.pow_mul]
    exact Nat.mod_lt _ (Nat.two_pow_pos _)
  rw [show 4 - k.toNat = j by omega, wordBytes, drop_toLE_of_lt hlt, show 4 - j = k.toNat by omega]

/-- The parcel after the padding of `WriteInplace` is cleared and before `FinishWrite`. -/
private def masked (len padded : UInt32) (q : CRemoteParcel) : CRemoteParcel :=
  if padded ≠ len ∧ 4 ≤ q.mDataPos.toNat + padded.toNat then
    q.memcpy (q.mDataPos.toNat + padded.toNat - 4)
      (wordBytes (wordOf (load q.block (q.mDataPos.toNat + padded.toNat - 4) 4)
        &&& padMask (padded - len)))
  else q

private theorem writeInplaceAt_eq (len padded : UInt32) (q : CRemoteParcel) :
    q.writeInplaceAt len padded
      = (q.mData.map fun _ => q.mDataPos.toNat, (q.masked len padded).finishWrite padded) := rfl

/-- Masking changes the block only, and only from the position on. -/
private theorem masked_cases (len padded : UInt32) (q : CRemoteParcel) :
    q.masked len padded = q ∨ padded ≠ len ∧
      ∃ w, q.masked len padded = q.memcpy (q.mDataPos.toNat + padded.toNat - 4) (wordBytes w) := by
  rw [masked]
  split
  · next h => exact Or.inr ⟨h.1, _, rfl⟩
  · exact Or.inl rfl

theorem four_le_pad4 {len padLen : UInt32} (hpad : padLen.toNat = pad4 len.toNat)
    (hne : padLen ≠ len) : 4 ≤ padLen.toNat := by
  have hne' : padLen.toNat ≠ len.toNat := fun h => hne (UInt32.toNat_inj.mp h)
  rw [hpad, pad4] at hne' ⊢
  omega

/-- After masking, the padding is zero. -/
private theorem load_masked {q : CRemoteParcel} (hd : q.mData.isSome) {len padded : UInt32}
    (hpad : padded.toNat = pad4 len.toNat) :
    load (q.masked len padded).block (q.mDataPos.toNat + len.toNat) (pad4 len.toNat - len.toNat)
      = List.replicate (pad4 len.toNat - len.toNat) 0 := by
  have hle := le_pad4 len.toNat
  have hlt := pad4_lt len.toNat
  by_cases heq : padded = len
  · simp [← hpad, heq]
  · have hne : padded.toNat ≠ len.toNat := fun h => heq (UInt32.toNat_inj.mp h)
    have hk : (padded - len).toNat = pad4 len.toNat - len.toNat := by
      rw [UInt32.toNat_sub_of_le _ _ (UInt32.le_iff_toNat_le.mpr (by omega)), hpad]
    have h4 : 4 ≤ padded.toNat := four_le_pad4 hpad heq
    rw [masked, if_pos ⟨heq, by omega⟩, block_memcpy hd,
      show q.mDataPos.toNat + len.toNat = q.mDataPos.toNat + padded.toNat - 4
        + (4 - (padded - len).toNat) by omega,
      load_store_sub _ _ _ (by simp; omega), ← hk,
      drop_wordBytes_padMask _ (by omega) (by omega)]
    simp

/-- `WriteInplace` after `restart_write`, and the copy `Write` makes to its result. -/
theorem appended_writeInplaceAt {p q : CRemoteParcel} {bs : List UInt8} {len padLen : UInt32}
    (hlen : len.toNat = bs.length) (hpad : padLen.toNat = pad4 len.toNat)
    (h : Reserved p q (padded bs).length) :
    ∃ r, q.writeInplaceAt len padLen = (some q.mDataPos.toNat, r) ∧
      Appended p (r.memcpy q.mDataPos.toNat bs) (padded bs) := by
  have hcap := q.mDataCapacity.toNat_lt
  have hroom := h.room
  have hle := le_pad4 len.toNat
  have hpos : q.mDataPos.toNat = q.mDataSize.toNat := by rw [h.ready.pos_eq]
  rw [length_padded, ← hlen] at hroom
  have hd : (q.masked len padLen).mData.isSome := by
    rcases masked_cases len padLen q with hm | ⟨-, w, hm⟩ <;> rw [hm] <;> simp [memcpy, h.data]
  have hr : (q.masked len padLen).Ready := by
    rcases masked_cases len padLen q with hm | ⟨hne, w, hm⟩
    · rw [hm]
      exact h.ready
    · rw [hm]
      exact ⟨⟨fun hn => absurd h.data (by simpa [memcpy] using hn), h.ready.size_le,
        h.ready.pos_le⟩, h.ready.pos_eq, h.ready.error⟩
  have hsame : (q.masked len padLen).mDataSize = q.mDataSize ∧
      (q.masked len padLen).mDataCapacity = q.mDataCapacity ∧
      (q.masked len padLen).mError = q.mError ∧
      (q.masked len padLen).mObjects = q.mObjects := by
    rcases masked_cases len padLen q with hm | ⟨-, w, hm⟩ <;> rw [hm] <;> simp [memcpy]
  obtain ⟨h1, h2, h3⟩ := finishWrite_ready hr (n := padLen) (by rw [hsame.1]; omega)
  obtain ⟨d, hqd⟩ := Option.isSome_iff_exists.mp h.data
  refine ⟨_, by rw [writeInplaceAt_eq, hqd]; rfl, ?_⟩
  have hblock : (((q.masked len padLen).finishWrite padLen).memcpy q.mDataPos.toNat bs).block
      = store (q.masked len padLen).block q.mDataSize.toNat bs := by
    rw [block_memcpy (by simpa [finishWrite] using hd), hpos]
    rfl
  refine h.appended (h3.trans ?_) (h2.trans h1.symm) hsame.2.1 hsame.2.2.1 hsame.2.2.2
    (by simpa [memcpy, finishWrite] using hd) ?_ ?_
  · rw [hsame.1, length_padded, ← hlen, hpad]
  · rw [hblock, load_store_of_disjoint _ (Or.inl (by omega))]
    rcases masked_cases len padLen q with hm | ⟨hne, w, hm⟩
    · rw [hm]
    · have h4 := four_le_pad4 hpad hne
      rw [hm, block_memcpy h.data, load_store_of_disjoint _ (Or.inl (by omega))]
  · rw [hblock, length_padded, ← hlen,
      show pad4 len.toNat = bs.length + (pad4 len.toNat - len.toNat) by omega, load_append,
      load_store_self, load_store_of_disjoint _ (Or.inr le_rfl), ← hlen, ← hpos,
      load_masked h.data hpad, padded, ← hlen]

/-! ### The writers -/

/-- **`WriteAligned` at the end of the data** appends the value. -/
theorem appended_writeAligned {env : Allocator} (henv : env.Succeeds) {p : CRemoteParcel}
    (hp : p.Ready) {value : List UInt8} (hne : value ≠ []) (hroom : p.Room value.length) :
    ∃ q, p.writeAligned env value = (NOERROR, q) ∧ Appended p q value := by
  have hn : (sizeOf32 value).toNat = value.length := toNat_sizeOf32 (by have := hroom.lt; omega)
  have hne' : sizeOf32 value ≠ 0 := fun h => by
    rw [h] at hn
    exact hne (List.eq_nil_of_length_eq_zero hn.symm)
  rw [writeAligned]
  rcases reserve henv hp (hn ▸ hroom) (Or.inl hne') with ⟨hle, hres⟩ | ⟨hle, q, hq, hres⟩
  · rw [if_pos hle]
    exact ⟨_, rfl, appended_writeAlignedAt (hn ▸ hres)⟩
  · rw [if_neg hle, hq]
    exact ⟨_, rfl, appended_writeAlignedAt (hn ▸ hres)⟩

/-- An empty write to a parcel without a block is the one successful write that is reported
through `mError`; it changes nothing. -/
theorem write_nil_of_null {env : Allocator} {p : CRemoteParcel} (hp : p.Ready)
    (hd : p.mData = none) : p.write env [] 0 = (NOERROR, p) := by
  obtain ⟨hs, hpos⟩ := hp.eq_zero_of_null hd
  have hc := hp.null hd
  obtain ⟨mError, mData, mDataSize, mDataCapacity, mDataPos, _, _, _, _⟩ := p
  simp only at hs hpos hd hc
  have he := hp.error
  simp only at he
  subst hs hpos hd hc he
  rfl

/-- **`Write` at the end of the data** appends the bytes and their padding. -/
theorem appended_write {env : Allocator} (henv : env.Succeeds) {p : CRemoteParcel}
    (hp : p.Ready) (bs : List UInt8) (hroom : p.Room (padded bs).length) :
    ∃ q, p.write env bs (sizeOf32 bs) = (NOERROR, q) ∧ Appended p q (padded bs) := by
  have hlt := hroom.lt
  have hle := le_pad4 bs.length
  rw [length_padded] at hlt
  have hn : (sizeOf32 bs).toNat = bs.length := toNat_sizeOf32 (by omega)
  have hpad : (padSize (sizeOf32 bs)).toNat = pad4 (sizeOf32 bs).toNat := by
    refine toNat_padSize_of_le ?_
    rw [pad4] at hlt
    omega
  have hpl : (padSize (sizeOf32 bs)).toNat = (padded bs).length := by rw [hpad, hn, length_padded]
  by_cases h0 : padSize (sizeOf32 bs) ≠ 0 ∨ p.mData.isSome
  · have hwrap : ¬ p.mDataPos + padSize (sizeOf32 bs) < p.mDataPos := by
      rw [UInt32.lt_iff_toNat_lt, UInt32.toNat_add, hp.pos_eq, Nat.mod_eq_of_lt (by
        rw [hpl, length_padded]
        omega)]
      omega
    rw [write, writeInplace]
    simp only [if_neg hwrap]
    rcases reserve henv hp (hpl ▸ hroom) h0 with ⟨hle, hres⟩ | ⟨hle, q, hq, hres⟩
    · obtain ⟨r, hr, happ⟩ := appended_writeInplaceAt hn hpad (hpl ▸ hres)
      simp only [if_pos hle, hr, hn]
      exact ⟨_, rfl, by simpa using happ⟩
    · obtain ⟨r, hr, happ⟩ := appended_writeInplaceAt hn hpad (hpl ▸ hres)
      simp only [if_neg hle, hq, if_true, hr, hn]
      exact ⟨_, rfl, by simpa using happ⟩
  · simp only [ne_eq, not_or, not_not, Option.not_isSome_iff_eq_none] at h0
    have hnil : bs = [] := by
      rw [h0.1] at hpl
      refine List.eq_nil_of_length_eq_zero ?_
      rw [length_padded] at hpl
      simp at hpl
      omega
    subst hnil
    refine ⟨p, write_nil_of_null hp h0.2, hp, by simp [padded, pad4], rfl, ?_⟩
    rw [roomyCapacity, if_pos (by simpa [padded, pad4] using hp.size_le)]

/-! ### Sequences of writes -/

/-- `w` succeeds on every ready parcel with fewer than `2 ^ 30` bytes in the end, and appends
`bs`. -/
def Appends (w : CRemoteParcel → ECode × CRemoteParcel) (bs : List UInt8) : Prop :=
  ∀ p : CRemoteParcel, p.Ready → p.mDataSize.toNat + bs.length < 2 ^ 30 →
    ∃ q, w p = (NOERROR, q) ∧ q.Ready ∧ q.contents = p.contents ++ bs ∧ q.mObjects = p.mObjects

variable {v w : CRemoteParcel → ECode × CRemoteParcel} {bs bs₁ bs₂ : List UInt8}

/-- **Writes one after the other** append one after the other. The result of the first one is
ignored, as the typed writers do. -/
theorem Appends.seq (h₁ : Appends v bs₁) (h₂ : Appends w bs₂) :
    Appends (fun p => w (v p).2) (bs₁ ++ bs₂) := by
  intro p hp hlt
  rw [List.length_append] at hlt
  obtain ⟨q, hq, hready, hcontents, hobj⟩ := h₁ p hp (by omega)
  have hsize : q.mDataSize.toNat = p.mDataSize.toNat + bs₁.length := by
    rw [← length_contents, hcontents, List.length_append, length_contents]
  obtain ⟨r, hr, hready', hcontents', hobj'⟩ := h₂ q hready (by omega)
  refine ⟨r, by simp only [hq, hr], hready', ?_, hobj'.trans hobj⟩
  rw [hcontents', hcontents, List.append_assoc]

theorem appends_write {env : Allocator} (henv : env.Succeeds) (bs : List UInt8) {n : UInt32}
    (hn : sizeOf32 bs = n) : Appends (write env bs n) (padded bs) := by
  subst hn
  intro p hp hlt
  obtain ⟨q, hq, h⟩ := appended_write henv hp bs (room_of_lt hlt)
  exact ⟨q, hq, h.ready, h.contents_eq, h.objects⟩

theorem appends_writeAligned {env : Allocator} (henv : env.Succeeds) (hpos : 0 < bs.length) :
    Appends (writeAligned env bs) bs := by
  intro p hp hlt
  obtain ⟨q, hq, h⟩ := appended_writeAligned henv hp (List.ne_nil_of_length_pos hpos)
    (room_of_lt hlt)
  exact ⟨q, hq, h.ready, h.contents_eq, h.objects⟩

end CRemoteParcel

end ElastosCar
