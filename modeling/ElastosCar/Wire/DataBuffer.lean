import ElastosCar.Parcel.Typed

/-!
# The buffer of a message

`DataBuffer` of `linux_rpc/DataBuffer.cpp` gathers the bytes of a message before they are sent
and after they were received. Its size and capacity are `Int32`; `malloc`, `realloc` and
`memcpy` take them as `size_t`, so the memory behind `mBuf` has `mCapacity` bytes with
`mCapacity` read as an unsigned number.

`append_spec` says what `Append` does while three times the new size is below `2 ^ 32 - 1`, and
`lt_of_append` that an `Append` which grows the buffer without overrunning it meets that bound:
past it, the growth step asks for less than is needed.
-/

namespace ElastosCar

/-- `DataBuffer`. -/
structure DataBuffer where
  mSize : Int32
  mCapacity : Int32
  mBuf : Block
  requests : ℕ

namespace DataBuffer

/-- `new DataBuffer()`. The `NULL` of a refused `malloc` is dereferenced by the first
`Append`. -/
def new (env : Allocator) : Except Fault DataBuffer :=
  match env 0 128 with
  | some fresh => .ok ⟨0, 128, fresh, 1⟩
  | none => .error .nullPointer

/-- The bytes in the buffer, as a number. -/
def size (d : DataBuffer) : ℕ := d.mSize.toUInt32.toNat

/-- The bytes allocated for it. -/
def room (d : DataBuffer) : ℕ := d.mCapacity.toUInt32.toNat

/-- `Data` and `DataSize`. -/
def contents (d : DataBuffer) : List UInt8 := load d.mBuf 0 d.size

/-- The first half of `Append`: make room. -/
def grow (env : Allocator) (size : Int32) : Run DataBuffer Fault Unit := fun d =>
  if d.mSize + size > d.mCapacity then
    let newSize := (d.mSize + size) * 3 / 2
    match env d.requests newSize.toUInt32.toNat with
    | some fresh =>
      .ok ((), { d with
        mBuf := fun i => if i < d.room then d.mBuf i else fresh i
        mCapacity := newSize
        requests := d.requests + 1 })
    | none => .error .assertion
  else .ok ((), d)

/-- The second half: `memcpy`. -/
def memcpy (buf : List UInt8) (size : Int32) : Run DataBuffer Fault Unit := fun d =>
  let n := size.toUInt32.toNat
  if n ≤ buf.length ∧ d.size + n ≤ d.room then
    .ok ((), { d with mBuf := store d.mBuf d.size (buf.take n), mSize := d.mSize + size })
  else .error .outOfBounds

/-- `Append`. -/
def append (env : Allocator) (buf : List UInt8) (size : Int32) : Run DataBuffer Fault Unit := do
  grow env size
  memcpy buf size

/-- `Reset`. -/
def reset (d : DataBuffer) : DataBuffer := { d with mSize := 0 }

end DataBuffer

/-- The size of a block of bytes, as an `Int32`. -/
abbrev size32 (bs : List UInt8) : Int32 := (UInt32.ofNat bs.length).toInt32

/-! ### Signed sizes -/

/-- A signed number, read as unsigned. -/
theorem toNat_toUInt32_eq (c : Int32) :
    (c.toUInt32.toNat : ℤ) = if 0 ≤ c.toInt then c.toInt else c.toInt + 4294967296 := by
  have h1 : c.toUInt32.toNat = c.toBitVec.toNat := rfl
  have h2 : c.toInt = c.toBitVec.toInt := rfl
  have hlt := c.toBitVec.isLt
  rw [h1, h2, BitVec.toInt_eq_toNat_cond]
  split <;> split <;> omega

/-- An unsigned number, read as signed. -/
theorem toInt_toInt32_ofNat {n : ℕ} (h : n < 4294967296) :
    (UInt32.ofNat n).toInt32.toInt = if n < 2147483648 then (n : ℤ) else n - 4294967296 := by
  have hn : (UInt32.ofNat n).toBitVec.toNat = n := by
    rw [UInt32.toNat_toBitVec, UInt32.toNat_ofNat_of_lt' h]
  have hint : (UInt32.ofNat n).toInt32.toInt = (UInt32.ofNat n).toBitVec.toInt := rfl
  rw [hint, BitVec.toInt_eq_toNat_cond, hn]
  split <;> split <;> omega

theorem toInt32_ofNat_add (m n : ℕ) :
    (UInt32.ofNat m).toInt32 + (UInt32.ofNat n).toInt32 = (UInt32.ofNat (m + n)).toInt32 := by
  rw [← UInt32.toInt32_add, ← UInt32.ofNat_add]

theorem toInt_div_two (a : Int32) :
    (a / 2).toInt = if 0 ≤ a.toInt then a.toInt / 2 else -(-a.toInt / 2) := by
  have hlt := a.toInt_lt
  have hle := a.le_toInt
  rw [Int32.toInt_div, show (2 : Int32).toInt = 2 from rfl]
  have hdiv : a.toInt.tdiv 2 = if 0 ≤ a.toInt then a.toInt / 2 else -(-a.toInt / 2) := by
    split
    · next h => exact Int.tdiv_eq_ediv_of_nonneg h
    · next h => rw [← Int.tdiv_eq_ediv_of_nonneg (by omega), Int.neg_tdiv, neg_neg]
  rw [hdiv]
  norm_num only at hlt hle ⊢
  rw [Int.bmod_def]
  split_ifs <;> omega

/-- The capacity that `Append` asks for when it needs `n` bytes, read as unsigned: enough while
three times `n` is below `2 ^ 32 - 1`, and too little from there on. -/
theorem growth_cases {n : ℕ} (h : n < 2147483648) :
    (3 * n < 4294967295 → n ≤ ((UInt32.ofNat n).toInt32 * 3 / 2).toUInt32.toNat) ∧
      (4294967295 ≤ 3 * n → ((UInt32.ofNat n).toInt32 * 3 / 2).toUInt32.toNat < n) := by
  have h3 : ((UInt32.ofNat n).toInt32 * 3).toInt
      = if 3 * n < 2147483648 then (3 * n : ℤ) else 3 * n - 4294967296 := by
    rw [Int32.toInt_mul, toInt_toInt32_ofNat (by omega), if_pos h,
      show (3 : Int32).toInt = 3 from rfl, Int.bmod_def]
    norm_num only
    split_ifs <;> omega
  have hc := toNat_toUInt32_eq ((UInt32.ofNat n).toInt32 * 3 / 2)
  rw [toInt_div_two, h3] at hc
  constructor <;> intro hn <;> split_ifs at hc <;> omega

namespace DataBuffer

/-! ### Append -/

/-- The size is not negative, and the bytes are in the memory. -/
structure Valid (d : DataBuffer) : Prop where
  size_lt : d.size < 2147483648
  size_le : d.size ≤ d.room

theorem mSize_eq (d : DataBuffer) : d.mSize = (UInt32.ofNat d.size).toInt32 := by
  rw [size, UInt32.ofNat_toNat, Int32.toInt32_toUInt32]

@[simp]
theorem length_contents (d : DataBuffer) : d.contents.length = d.size := by simp [contents]

theorem valid_reset (d : DataBuffer) : d.reset.Valid := ⟨Nat.two_pow_pos 31, Nat.zero_le _⟩

@[simp]
theorem contents_reset (d : DataBuffer) : d.reset.contents = [] := rfl

/-- A new buffer is empty. -/
theorem new_eq {env : Allocator} {d : DataBuffer} (h : new env = .ok d) :
    d.Valid ∧ d.contents = [] ∧ d.mSize = 0 ∧ d.mCapacity = 128 := by
  rw [new] at h
  split at h
  · cases h
    exact ⟨⟨Nat.two_pow_pos 31, Nat.zero_le _⟩, rfl, rfl, rfl⟩
  · cases h

theorem new_ok {env : Allocator} (henv : env.Succeeds) :
    ∃ d, new env = .ok d ∧ d.Valid ∧ d.contents = [] := by
  obtain ⟨fresh, hfresh⟩ := Option.isSome_iff_exists.mp (henv 0 128)
  have hnew : new env = .ok ⟨0, 128, fresh, 1⟩ := by rw [new, hfresh]
  exact ⟨_, hnew, (new_eq hnew).1, (new_eq hnew).2.1⟩

/-- Making room keeps the bytes. -/
theorem grow_contents {env : Allocator} {n : Int32} {d g : DataBuffer} (hd : d.size ≤ d.room)
    (h : grow env n d = .ok ((), g)) : g.mSize = d.mSize ∧ g.contents = d.contents := by
  rw [grow] at h
  split at h
  · dsimp only at h
    split at h
    · cases h
      refine ⟨rfl, load_congr fun i _ hi => ?_⟩
      have hlt : i < d.room := lt_of_lt_of_le (by rwa [Nat.zero_add] at hi) hd
      exact if_pos hlt
    · cases h
  · cases h
    exact ⟨rfl, rfl⟩

/-- Room is made while the new size is below the bound. -/
theorem grow_spec {env : Allocator} (henv : env.Succeeds) {d : DataBuffer} {n : ℕ}
    (hn : 3 * (d.size + n) < 4294967295) :
    ∃ g, grow env (UInt32.ofNat n).toInt32 d = .ok ((), g) ∧ d.size + n ≤ g.room := by
  have hsum : d.mSize + (UInt32.ofNat n).toInt32 = (UInt32.ofNat (d.size + n)).toInt32 := by
    rw [mSize_eq, toInt32_ofNat_add]
  rw [grow, hsum]
  split
  · obtain ⟨fresh, hfresh⟩ := Option.isSome_iff_exists.mp
      (henv d.requests ((UInt32.ofNat (d.size + n)).toInt32 * 3 / 2).toUInt32.toNat)
    simp only [hfresh]
    exact ⟨_, rfl, (growth_cases (by omega)).1 hn⟩
  · next h =>
    refine ⟨d, rfl, ?_⟩
    rw [gt_iff_lt, Int32.lt_iff_toInt_lt, toInt_toInt32_ofNat (by omega), if_pos (by omega)] at h
    have hroom := toNat_toUInt32_eq d.mCapacity
    rw [room]
    split_ifs at hroom <;> omega

theorem toNat_size32 {bs : List UInt8} (h : bs.length < 4294967296) :
    (size32 bs).toUInt32.toNat = bs.length := by
  rw [UInt32.toUInt32_toInt32, UInt32.toNat_ofNat_of_lt' h]

/-- What an `Append` that succeeds leaves. -/
theorem append_contents {env : Allocator} {d d' : DataBuffer} (hd : d.size ≤ d.room)
    {bs : List UInt8} (hbs : bs.length < 4294967296) (h : append env bs (size32 bs) d = .ok ((), d')) :
    d'.size = d.size + bs.length ∧ d'.size ≤ d'.room ∧ d'.contents = d.contents ++ bs := by
  obtain ⟨⟨⟩, g, hg, hm⟩ := Run.bind_eq_ok h
  obtain ⟨hsize, hcontents⟩ := grow_contents hd hg
  have hgsize : g.size = d.size := by rw [size, hsize, size]
  rw [memcpy] at hm
  simp only [toNat_size32 hbs, List.take_length] at hm
  split at hm
  swap
  · cases hm
  next hfits =>
  cases hm
  -- the copy ends inside the memory
  have hlt : d.size + bs.length < 4294967296 := by
    rw [← hgsize]
    exact hfits.2.trans_lt (UInt32.toNat_lt _)
  have hnew : DataBuffer.size ⟨g.mSize + size32 bs, g.mCapacity, store g.mBuf g.size bs, g.requests⟩
      = d.size + bs.length := by
    have hsum : g.mSize + size32 bs = (UInt32.ofNat (d.size + bs.length)).toInt32 := by
      rw [hsize, mSize_eq, toInt32_ofNat_add]
    rw [size, hsum, UInt32.toUInt32_toInt32, UInt32.toNat_ofNat_of_lt' hlt]
  refine ⟨hnew, ?_, ?_⟩
  · rw [hnew, ← hgsize]
    exact hfits.2
  · rw [contents, hnew, load_append, ← hcontents, contents, hgsize]
    congr 1
    · exact load_store_of_disjoint _ (.inl (by simp))
    · rw [Nat.zero_add]
      exact load_store_self _ _ _

/-- **`Append` appends**, whatever growth it takes. -/
theorem append_spec {env : Allocator} (henv : env.Succeeds) {d : DataBuffer} (hd : d.Valid)
    (bs : List UInt8) (hlt : 3 * (d.size + bs.length) < 4294967295) :
    ∃ d', append env bs (size32 bs) d = .ok ((), d') ∧ d'.Valid ∧
      d'.contents = d.contents ++ bs := by
  obtain ⟨g, hg, hroom⟩ := grow_spec henv hlt
  have hgsize : g.size = d.size := by rw [size, (grow_contents hd.size_le hg).1, size]
  have hok : append env bs (size32 bs) d
      = .ok ((), { g with
          mBuf := store g.mBuf g.size (bs.take bs.length), mSize := g.mSize + size32 bs }) := by
    rw [append, Run.bind_ok hg, memcpy]
    simp only [toNat_size32 (show bs.length < _ by omega)]
    rw [if_pos ⟨le_rfl, by omega⟩]
  obtain ⟨hsize, hle, hcontents⟩ := append_contents hd.size_le (by omega) hok
  exact ⟨_, hok, ⟨by omega, hle⟩, hcontents⟩

/-- An `Append` within the capacity does not change it. -/
theorem mCapacity_of_append {env : Allocator} {d d' : DataBuffer} {bs : List UInt8} {n : Int32}
    (hle : ¬ d.mSize + n > d.mCapacity) (h : append env bs n d = .ok ((), d')) :
    d'.mCapacity = d.mCapacity := by
  rw [append, Run.bind_ok (by rw [grow, if_neg hle]), memcpy] at h
  split at h
  · cases h
    rfl
  · cases h

/-- An `Append` that grows the buffer and overruns neither block meets the bound. -/
theorem lt_of_append {env : Allocator} {d d' : DataBuffer} {bs : List UInt8}
    (hbs : bs.length < 4294967296) (hcap : d.mCapacity = 128)
    (h : append env bs (size32 bs) d = .ok ((), d')) :
    d.size + bs.length ≤ 128 ∨ 3 * (d.size + bs.length) < 4294967295 := by
  have hn := toNat_size32 hbs
  have hsum : d.mSize + size32 bs = (UInt32.ofNat (d.size + bs.length)).toInt32 := by
    rw [mSize_eq, toInt32_ofNat_add]
  obtain ⟨⟨⟩, g, hg, hm⟩ := Run.bind_eq_ok h
  rw [memcpy] at hm
  simp only [hn] at hm
  split at hm
  swap
  · cases hm
  next hfits =>
  rw [grow, hsum] at hg
  split at hg
  swap
  · -- no growth: the bytes fit into the initial capacity
    cases hg
    rw [room, hcap] at hfits
    exact .inl hfits.2
  next hgt =>
  dsimp only at hg
  split at hg
  swap
  · cases hg
  cases hg
  refine .inr (not_le.mp fun hle => ?_)
  have hroom : d.size + bs.length
      ≤ ((UInt32.ofNat (d.size + bs.length)).toInt32 * 3 / 2).toUInt32.toNat := hfits.2
  rcases Nat.lt_or_ge (d.size + bs.length) 2147483648 with hlt | hge
  · exact absurd hroom (not_le.mpr ((growth_cases hlt).2 hle))
  · -- the sum is negative, and nothing grows
    have hlt := hroom.trans_lt (UInt32.toNat_lt _)
    rw [hcap, gt_iff_lt, Int32.lt_iff_toInt_lt, toInt_toInt32_ofNat hlt, if_neg (by omega)] at hgt
    have h128 : (128 : Int32).toInt = 128 := rfl
    omega

end DataBuffer

end ElastosCar
