import ElastosCar.Callback.ParcelGrowth
import ElastosCar.Lib.Trace

/-!
# Writing to a callback parcel

Each case of `WriteValue` adds a cell (`Holds.put`), if the allocations succeed (`Allocs.Fresh`) and
the value and the parcel are `Spared` two defects:

* a growth of the data buffer must not meet a value that it cannot move;
* the `String` objects of an `ArrayOfString` are assigned in memory where nothing has been constructed,
  and what they are assigned is the text that happens to be at `mDataPtr`. The strings are then copied
  into buffers of the size of that text. `TextsFit` says that the memory is as it would have to be.

With that a parcel decodes to what has been written to it (`decode_of_spared`). It does not after a
string and a struct that needs a larger buffer (`string_lost`).
-/

namespace ElastosCar

/-! ### Sizes -/

theorem le_ROUND4 (n : ℕ) : n ≤ ROUND4 n := by
  rw [ROUND4]
  omega

theorem four_dvd_ROUND4 (n : ℕ) : 4 ∣ ROUND4 n := Nat.dvd_mul_left 4 _

theorem ROUND4_le {n m : ℕ} (h : n ≤ m) (h4 : 4 ∣ m) : ROUND4 n ≤ m := by
  rw [ROUND4]
  omega

theorem ROUND8_add_le {n m : ℕ} (h : n + 8 ≤ m) (h4 : 4 ∣ n) (h8 : 8 ∣ m) : ROUND8 n + 8 ≤ m := by
  rw [ROUND8]
  omega

/-- The bytes that the room check of a value asks for. -/
def CallbackValue.need : CallbackValue → ℕ
  | struct v => ROUND4 v.length + 4
  | emuid _ => ROUND4 16
  | eguid v => ROUND4 (24 + v.mUunm.chars.length + 1)
  | arrayOf (some v) => ROUND4 (20 + v.payload.length + 4) + 4
  | arrayOfString v => ROUND4 (CCallbackParcel.stringsSize v.strings) + 4
  | _ => 0

/-- The number of its `String` objects. -/
def CallbackValue.count (v : CallbackValue) : ℕ := v.strings?.elim 0 List.length

theorem CallbackValue.four_dvd_need (v : CallbackValue) : 4 ∣ v.need := by
  rcases v with _ | _ | _ | _ | _ | _ | _ | _ | _ | _ | _ | _ | _ | (_ | _) | _ <;>
    simp [need, ROUND4]

namespace CCallbackParcel

variable {arm : Bool} {s : CCallbackParcel} {cells : List Cell} {a : Allocs} {v : CallbackValue}

/-! ### The conditions of a write -/

/-- The room check fails. -/
def Full (s : CCallbackParcel) (need : ℕ) : Prop := s.mDataBufCapacity < s.mDataPtr + need

instance (s : CCallbackParcel) (need : ℕ) : Decidable (s.Full need) :=
  inferInstanceAs (Decidable (_ < _))

/-- The capacity behind the room check. -/
def capacityFor (s : CCallbackParcel) (need : ℕ) : ℕ :=
  if s.Full need then s.mDataBufCapacity + growth need else s.mDataBufCapacity

/-- What the data buffer has from `mDataPtr` on behind the room check. -/
def fresh (s : CCallbackParcel) (a : Allocs) (need : ℕ) : Block :=
  if s.Full need then a.dataFill else s.data

/-- The `String` objects from `obj` on hold null, and at the place of each string that is not null
there is a text at least as long. -/
def TextsFit (d : Block) (capacity : ℕ) : ℕ → ℕ → List CarString → Prop
  | _, _, [] => True
  | obj, ptr, v :: l => d.word obj = 0 ∧
      ∃ text, cstring (load d ptr (capacity - ptr)) = some text ∧
        match v with
        | none => TextsFit d capacity (obj + 8) ptr l
        | some v => v.chars.length ≤ text.chars.length ∧
            TextsFit d capacity (obj + 8) (ptr + ROUND4 (v.chars.length + 1)) l

/-- What successful allocations return. -/
structure Fresh (s : CCallbackParcel) (v : CallbackValue) (a : Allocs) : Prop where
  newString : s.strings a.newString = none
  address : s.Full v.need → a.dataBuf.toNat + s.capacityFor v.need ≤ 4294967296
  capacity : s.Full v.need → s.capacityFor v.need < 2147483648
  shared_ne : ∀ i < v.count, a.shared i ≠ 0 ∧ s.shared (a.shared i) = none
  shared_inj : ∀ i < v.count, ∀ j < v.count, a.shared i = a.shared j → i = j

/-! ### Making room -/

/-- What the room check of a value leaves alone, and the room it makes. -/
structure Reserved (s : CCallbackParcel) (a : Allocs) (need : ℕ) (s' : CCallbackParcel) : Prop where
  mElemTypes : s'.mElemTypes = s.mElemTypes
  mTypeBufCapacity : s'.mTypeBufCapacity = s.mTypeBufCapacity
  mElemPtr : s'.mElemPtr = s.mElemPtr
  mElemBufCapacity : s'.mElemBufCapacity = s.mElemBufCapacity
  mDataPtr : s'.mDataPtr = s.mDataPtr
  mDataBufCapacity : s'.mDataBufCapacity = s.capacityFor need
  shared : s'.shared = s.shared
  gElEmptyString : s'.gElEmptyString = s.gElEmptyString
  room : s.mDataPtr + need ≤ s'.mDataBufCapacity
  fresh : ∀ i, s.mDataPtr ≤ i → s'.data i = s.fresh a need i

theorem Holds.reserve (h : Holds arm s cells) (hfresh : s.Fresh v a)
    (hmov : s.Full v.need → ∀ c ∈ cells, c.value.Movable) :
    ∃ s', s.reserve arm a v.need = some s' ∧ Holds arm s' cells ∧ s.Reserved a v.need s' := by
  have haddress := hfresh.address
  have hcapacity := hfresh.capacity
  by_cases hfull : s.Full v.need
  · have hcap : s.capacityFor v.need = s.mDataBufCapacity + growth v.need := if_pos hfull
    rw [hcap] at haddress hcapacity
    obtain ⟨bufs, hgrow, hholds, hdata⟩ := h.growDataBuffer (hmov hfull) a v.four_dvd_need
      (haddress hfull) ((hcapacity hfull).trans (by decide))
    refine ⟨_, (if_pos hfull).trans hgrow, hholds, rfl, rfl, rfl, rfl, rfl, hcap.symm, rfl, rfl, ?_,
      ?_⟩
    · have hroom := h.room.data
      change _ ≤ s.mDataBufCapacity + growth v.need
      rw [growth]
      split <;> omega
    · rw [fresh, if_pos hfull]
      exact hdata
  · have hcap : s.capacityFor v.need = s.mDataBufCapacity := if_neg hfull
    refine ⟨s, if_neg hfull, h, rfl, rfl, rfl, rfl, rfl, hcap.symm, rfl, rfl, Nat.le_of_not_lt hfull,
      fun i _ => ?_⟩
    rw [fresh, if_neg hfull]

/-! ### Elements that hold the value -/

/-- A write has added its value behind the cells. -/
def Adds (arm : Bool) (s : CCallbackParcel) (cells : List Cell) (v : CallbackValue)
    (r : Option CCallbackParcel) : Prop :=
  ∃ s', r = some s' ∧ Holds arm { s' with mElemTypes := s'.mElemTypes ++ [v.type] }
    (cells ++ [⟨v, place arm s.mElemPtr v.type, s.mDataPtr⟩])

/-- A value of one word. -/
theorem Holds.putWord (h : Holds arm s cells) (hcount : s.mElemTypes.length < s.mTypeBufCapacity)
    (hfits : s.mElemPtr + 4 ≤ s.mElemBufCapacity) {w : UInt32} (hword : v.word? = some w)
    (hdword : v.dword? = none) (hstring : v.string? = none) (hchunk : v.chunk? = none)
    (hstrings : v.strings? = none) : Adds arm s cells v (s.putWord w) := by
  have hplace : place arm s.mElemPtr v.type = s.mElemPtr ∧ width v.type = 4 := by
    rcases v with _ | _ | _ | _ | _ | _ | _ | _ | _ | _ | _ | _ | _ | _ | _ <;>
      first | exact ⟨rfl, rfl⟩ | cases hdword
  have hlength : v.length = 0 := by
    rw [CallbackValue.length, hchunk, hstrings]
    rfl
  have hroom := h.room
  refine ⟨_, if_pos hfits, h.push ⟨hfits, ?_, hroom.elem8, hroom.data, hroom.data4,
    hroom.capacity4, hroom.address, hroom.capacity, hroom.empty⟩ ?_ rfl ?_ ?_ ?_ (fun _ _ => rfl) rfl
    (fun _ _ h => h) (fun _ _ h => h) ?_⟩
  · exact Nat.dvd_add hroom.elem4 (Nat.dvd_refl 4)
  · rw [List.length_append]
    exact hcount
  · rw [hplace.1, hplace.2]
  · rw [hlength, Nat.add_zero]
  · intro i hi
    exact Block.setWord_apply_of_clear (.inl hi)
  · constructor
    · intro w' hw'
      obtain rfl : w = w' := Option.some.inj (hword.symm.trans hw')
      rw [hplace.1]
      exact Block.word_setWord_self ..
    · intro x hx
      exact absurd (hdword.symm.trans hx) (by simp)
    · intro x hx
      exact absurd (hstring.symm.trans hx) (by simp)
    · intro k hk
      exact absurd (hchunk.symm.trans hk) (by simp)
    · intro l hl
      exact absurd (hstrings.symm.trans hl) (by simp)

/-- The element buffer that `putDword` stores into. -/
theorem putDword_eq (arm : Bool) (d : UInt64) (s : CCallbackParcel) :
    s.putDword arm d = (putWord d.toUInt32 { s with
      mElemBufCapacity := if s.mElemBufCapacity < s.mElemPtr + 4 + 4 then s.mElemBufCapacity + 128
        else s.mElemBufCapacity
      mElemPtr := if arm then ROUND8 s.mElemPtr else s.mElemPtr }).bind fun s =>
        s.putWord (d >>> 32).toUInt32 := by
  by_cases hfull : s.mElemBufCapacity < s.mElemPtr + 4 + 4
  · rw [putDword, if_pos hfull, if_pos hfull]
    cases arm <;> rfl
  · rw [putDword, if_neg hfull, if_neg hfull]
    cases arm <;> rfl

theorem putWords_eq {lo hi : UInt32} (h : s.mElemPtr + 8 ≤ s.mElemBufCapacity) :
    ((s.putWord lo).bind fun s => s.putWord hi) = some { s with
      mElemBuf := (s.mElemBuf.setWord s.mElemPtr lo).setWord (s.mElemPtr + 4) hi
      mElemPtr := s.mElemPtr + 4 + 4 } := by
  have hlo : s.mElemPtr + 4 ≤ s.mElemBufCapacity := by omega
  rw [CCallbackParcel.putWord, if_pos hlo, Option.bind_some]
  exact if_pos h

/-- A value of two words, aligned on ARM. -/
theorem Holds.putDword (h : Holds arm s cells) (hcount : s.mElemTypes.length < s.mTypeBufCapacity)
    {d : UInt64} (hdword : v.dword? = some d) : Adds arm s cells v (s.putDword arm d) := by
  have hplace : place arm s.mElemPtr v.type = (if arm then ROUND8 s.mElemPtr else s.mElemPtr) ∧
      width v.type = 8 ∧ v.length = 0 ∧ v.word? = none ∧ v.string? = none ∧ v.chunk? = none ∧
      v.strings? = none := by
    rcases v with _ | _ | _ | _ | _ | _ | _ | _ | _ | _ | _ | _ | _ | _ | _ <;>
      first | exact ⟨rfl, rfl, rfl, rfl, rfl, rfl, rfl⟩ | cases hdword
  obtain ⟨hplace, hwidth, hlength, hword, hstring, hchunk, hstrings⟩ := hplace
  have hroom := h.room
  obtain ⟨cap, hcap⟩ : ∃ cap, cap = (if s.mElemBufCapacity < s.mElemPtr + 4 + 4 then
      s.mElemBufCapacity + 128 else s.mElemBufCapacity) := ⟨_, rfl⟩
  have hcap8 : 8 ∣ cap ∧ s.mElemPtr + 8 ≤ cap ∧ s.mElemBufCapacity ≤ cap := by
    have h8 := hroom.elem8
    have hle := hroom.elem
    rw [hcap]
    split <;> omega
  obtain ⟨hcap8, hptr, hle⟩ := hcap8
  have hfits : place arm s.mElemPtr v.type + 8 ≤ cap := by
    rw [hplace]
    split
    · exact ROUND8_add_le hptr hroom.elem4 hcap8
    · exact hptr
  have h4 : 4 ∣ place arm s.mElemPtr v.type := by
    rw [hplace]
    split
    · exact Nat.dvd_trans (by decide) (Nat.dvd_mul_left 8 _)
    · exact hroom.elem4
  have hput : s.putDword arm d = some { s with
      mElemBufCapacity := cap
      mElemBuf := (s.mElemBuf.setWord (place arm s.mElemPtr v.type) d.toUInt32).setWord
        (place arm s.mElemPtr v.type + 4) (d >>> 32).toUInt32
      mElemPtr := place arm s.mElemPtr v.type + 4 + 4 } := by
    rw [putDword_eq, ← hcap, ← hplace]
    exact putWords_eq hfits
  refine ⟨_, hput, h.push ⟨?_, ?_, hcap8, hroom.data, hroom.data4, hroom.capacity4, hroom.address,
    hroom.capacity, hroom.empty⟩ ?_ rfl ?_ ?_ ?_ (fun _ _ => rfl) rfl (fun _ _ h => h) (fun _ _ h => h) ?_⟩
  · exact hfits
  · exact Nat.dvd_add (Nat.dvd_add h4 (Nat.dvd_refl 4)) (Nat.dvd_refl 4)
  · rw [List.length_append]
    exact hcount
  · rw [hwidth]
  · rw [hlength, Nat.add_zero]
  · intro i hi
    have hle := le_place arm s.mElemPtr v.type
    change ((s.mElemBuf.setWord _ _).setWord _ _) i = _
    rw [Block.setWord_apply_of_clear (.inl (by omega)), Block.setWord_apply_of_clear (.inl (by omega))]
  · constructor
    · intro w hw
      exact absurd (hword.symm.trans hw) (by simp)
    · intro x hx
      obtain rfl : d = x := Option.some.inj (hdword.symm.trans hx)
      refine ⟨?_, Block.word_setWord_self ..⟩
      refine (word_congr fun i _ hi => ?_).trans (Block.word_setWord_self s.mElemBuf _ _)
      exact Block.setWord_apply_of_clear (.inl hi)
    · intro x hx
      exact absurd (hstring.symm.trans hx) (by simp)
    · intro k hk
      exact absurd (hchunk.symm.trans hk) (by simp)
    · intro l hl
      exact absurd (hstrings.symm.trans hl) (by simp)

/-- A string: the element points to the new `String` object. -/
theorem Holds.putString (h : Holds arm s cells) (hcount : s.mElemTypes.length < s.mTypeBufCapacity)
    (hfits : s.mElemPtr + 4 ≤ s.mElemBufCapacity) (hnew : s.strings a.newString = none)
    (x : CarString) : Adds arm s cells (.string x) (s.put arm a (.string x)) := by
  have hroom := h.room
  refine ⟨_, if_pos hfits, h.push ⟨hfits, ?_, hroom.elem8, hroom.data, hroom.data4,
    hroom.capacity4, hroom.address, hroom.capacity, hroom.empty⟩ ?_ rfl rfl (Nat.le_refl _) ?_ (fun _ _ => rfl) rfl
    ?_ (fun _ _ h => h) ?_⟩
  · exact Nat.dvd_add hroom.elem4 (Nat.dvd_refl 4)
  · rw [List.length_append]
    exact hcount
  · intro i hi
    exact Block.setWord_apply_of_clear (.inl hi)
  · intro p y hy
    have hne : p ≠ a.newString := by
      rintro rfl
      rw [hnew] at hy
      cases hy
    rw [← hy]
    exact Function.update_of_ne hne _ _
  · constructor
    · intro w hw
      cases hw
    · intro y hy
      cases hy
    · intro y hy
      obtain rfl : x = y := Option.some.inj hy
      have hword : (s.mElemBuf.setWord s.mElemPtr a.newString).word s.mElemPtr = a.newString :=
        Block.word_setWord_self ..
      change Function.update s.strings a.newString (some x)
        ((s.mElemBuf.setWord s.mElemPtr a.newString).word s.mElemPtr) = some x
      rw [hword, Function.update_self]
    · intro k hk
      cases hk
    · intro l hl
      cases hl

/-! ### Values in the data buffer -/

/-- The parcel after a copy to `mDataPtr`. -/
abbrev copied (s : CCallbackParcel) (k : Chunk) (advance : ℕ) : CCallbackParcel :=
  { s with
    mElemBuf := s.mElemBuf.setWord s.mElemPtr
      (s.mDataBuf + UInt32.ofNat s.mDataPtr + UInt32.ofNat k.head)
    mElemPtr := s.mElemPtr + 4
    data := store s.data s.mDataPtr (k.bytes (s.mDataBuf + UInt32.ofNat s.mDataPtr))
    mDataPtr := s.mDataPtr + advance }

theorem putData_eq (advance : ℕ) {need head : ℕ} {bytes : UInt32 → List UInt8} {k : Chunk}
    {s' : CCallbackParcel} (hreserve : s.reserve arm a need = some s') (hhead : k.head = head)
    (hbytes : ∀ addr, bytes addr = k.bytes addr)
    (hfits : s'.mDataPtr + k.length ≤ s'.mDataBufCapacity)
    (helem : s'.mElemPtr + 4 ≤ s'.mElemBufCapacity) :
    s.putData arm a need head bytes advance = some (s'.copied k advance) := by
  rw [CCallbackParcel.putData, hreserve, Option.bind_some]
  simp only [hbytes, Chunk.length_bytes]
  rw [if_pos hfits, ← hhead]
  exact if_pos helem

/-- What a copy leaves alone. -/
theorem copied_elem (s : CCallbackParcel) (k : Chunk) (advance : ℕ) :
    ∀ i < s.mElemPtr, (s.copied k advance).mElemBuf i = s.mElemBuf i := by
  intro i hi
  exact Block.setWord_apply_of_clear (.inl hi)

theorem copied_data (s : CCallbackParcel) (k : Chunk) (advance i : ℕ)
    (h : i < s.mDataPtr ∨ s.mDataPtr + k.length ≤ i) :
    (s.copied k advance).data i = s.data i := by
  rcases h with h | h
  · exact store_apply_of_lt _ h
  · change store _ _ _ i = _
    rw [store, Chunk.length_bytes, if_neg (by omega)]

/-- What a copy stores. -/
theorem copied_chunk (s : CCallbackParcel) (k : Chunk) (advance : ℕ) :
    (s.copied k advance).mElemBuf.word s.mElemPtr = s.mDataBuf + UInt32.ofNat (s.mDataPtr + k.head) ∧
      load (s.copied k advance).data s.mDataPtr k.length =
        k.bytes (s.mDataBuf + UInt32.ofNat s.mDataPtr) := by
  constructor
  · rw [UInt32.ofNat_add, ← add_assoc]
    exact Block.word_setWord_self ..
  · have hload := load_store_self s.data s.mDataPtr (k.bytes (s.mDataBuf + UInt32.ofNat s.mDataPtr))
    rwa [Chunk.length_bytes] at hload

/-- A value that is a chunk in the data buffer. -/
theorem Holds.putData (h : Holds arm s cells) (hcount : s.mElemTypes.length < s.mTypeBufCapacity)
    (helem : s.mElemPtr + 4 ≤ s.mElemBufCapacity) (hfresh : s.Fresh v a)
    (hmov : s.Full v.need → ∀ c ∈ cells, c.value.Movable) {k : Chunk} (hchunk : v.chunk? = some k)
    (hword : v.word? = none) (hdword : v.dword? = none) (hstring : v.string? = none)
    (hstrings : v.strings? = none) {head advance : ℕ} {bytes : UInt32 → List UInt8}
    (hhead : k.head = head) (hbytes : ∀ addr, bytes addr = k.bytes addr) (hle : k.length ≤ advance)
    (h4 : 4 ∣ advance) (hneed : advance ≤ v.need) :
    Adds arm s cells v (s.putData arm a v.need head bytes advance) := by
  have hplace : place arm s.mElemPtr v.type = s.mElemPtr ∧ width v.type = 4 := by
    rcases v with _ | _ | _ | _ | _ | _ | _ | _ | _ | _ | _ | _ | _ | _ | _ <;>
      first | exact ⟨rfl, rfl⟩ | cases hdword
  have hlength : v.length = k.length := by
    rw [CallbackValue.length, hchunk, hstrings]
    rfl
  obtain ⟨s', hreserve, hholds, hsame⟩ := h.reserve hfresh hmov
  have hroom := hholds.room
  have hfits := hsame.room
  rw [Adds, ← hsame.mDataPtr, ← hsame.mElemPtr]
  rw [← hsame.mDataPtr] at hfits
  rw [← hsame.mElemPtr] at helem hplace
  rw [← hsame.mElemBufCapacity] at helem
  refine ⟨_, putData_eq advance hreserve hhead hbytes (by omega) helem, hholds.push ⟨helem, ?_, hroom.elem8, ?_,
    ?_, hroom.capacity4, hroom.address, hroom.capacity, hroom.empty⟩ ?_ rfl ?_ ?_ (copied_elem s' k advance)
    (fun i hi => copied_data s' k advance i (.inl hi)) rfl (fun _ _ h => h) (fun _ _ h => h) ?_⟩
  · exact Nat.dvd_add hroom.elem4 (Nat.dvd_refl 4)
  · exact (Nat.add_le_add_left hneed _).trans hfits
  · exact Nat.dvd_add hroom.data4 h4
  · rw [List.length_append, hsame.mElemTypes, hsame.mTypeBufCapacity]
    exact hcount
  · rw [hplace.1, hplace.2]
  · rw [hlength]
    exact Nat.add_le_add_left hle _
  · obtain ⟨hptr, hload⟩ := copied_chunk s' k advance
    refine .of_chunk hchunk hword hdword hstring ?_ hload fun l hl => ?_
    · rw [hplace.1]
      exact hptr
    · exact absurd (hstrings.symm.trans hl) (by simp)

/-! ### Arrays of strings -/

theorem TextsFit.congr {d e : Block} {capacity : ℕ} {l : List CarString} :
    ∀ {obj ptr : ℕ}, (∀ i, obj ≤ i → e i = d i) → obj + 8 * l.length ≤ ptr →
      TextsFit d capacity obj ptr l → TextsFit e capacity obj ptr l := by
  induction l with
  | nil => exact fun _ _ _ => trivial
  | cons v l ih =>
    intro obj ptr hde hle ⟨hword, text, htext, hrest⟩
    rw [List.length_cons] at hle
    have hnext : ∀ i, obj + 8 ≤ i → e i = d i := fun i hi => hde i (by omega)
    refine ⟨?_, text, ?_, ?_⟩
    · rw [← hword]
      exact word_congr fun i hi _ => hde i hi
    · rw [← htext]
      exact congrArg cstring (load_congr fun i hi _ => hde i (by omega))
    · cases v with
      | none => exact ih hnext (by omega) hrest
      | some v => exact ⟨hrest.1, ih hnext (by omega) hrest.2⟩

/-- A copy fits where the text is that is looked at first. -/
theorem ptr_add_ROUND4_le {d : Block} {ptr capacity n : ℕ} {text : CString}
    (htext : cstring (load d ptr (capacity - ptr)) = some text) (hn : n ≤ text.chars.length)
    (hptr : 4 ∣ ptr) (hcap : 4 ∣ capacity) : ptr + ROUND4 (n + 1) ≤ capacity := by
  have hlt := length_cstring_lt htext
  rw [length_load] at hlt
  have hle : ROUND4 (n + 1) ≤ capacity - ptr := ROUND4_le (by omega) (Nat.dvd_sub hcap hptr)
  omega

/-- The assignment of one string. -/
theorem assignString_spec {alloc : UInt32} {obj : ℕ} {v : CarString} {text : CString}
    (hobj : obj + 8 ≤ s.mDataBufCapacity) (hzero : s.data.word obj = 0)
    (htext : cstring (load s.data s.mDataPtr (s.mDataBufCapacity - s.mDataPtr)) = some text)
    (hv : ∀ x ∈ v, x.chars.length ≤ text.chars.length)
    (hempty : s.gElEmptyString ≠ 0 ∧ s.shared s.gElEmptyString = some [0])
    (halloc : alloc ≠ 0 ∧ s.shared alloc = none) :
    ∃ (d : Block) (sh : UInt32 → Option (List UInt8)), assignString alloc obj v s = some { s with
        data := d
        shared := sh
        mDataPtr := s.mDataPtr + v.elim 0 fun x => ROUND4 (x.chars.length + 1) } ∧
      (∀ i, (i < obj ∨ obj + 8 ≤ i) → d i = s.data i) ∧
      (∀ q x, s.shared q = some x → sh q = some x) ∧
      (∀ q, q ≠ alloc → s.shared q = none → sh q = none) ∧ HoldsString sh (d.word obj) v := by
  have hword : ∀ w w' : UInt32, ((s.data.setWord obj w).setWord (obj + 4) w').word obj = w := by
    intro w w'
    refine (word_congr fun i _ hi => ?_).trans (Block.word_setWord_self s.data obj w)
    exact Block.setWord_apply_of_clear (.inl hi)
  have hclear : ∀ (w w' : UInt32) (i : ℕ), (i < obj ∨ obj + 8 ≤ i) →
      ((s.data.setWord obj w).setWord (obj + 4) w') i = s.data i := by
    intro w w' i hi
    rw [Block.setWord_apply_of_clear (by omega), Block.setWord_apply_of_clear (by omega)]
  cases v with
  | none =>
    refine ⟨_, s.shared, ?_, hclear 0 0x80000000, fun _ _ h => h, fun _ _ h => h, hword _ _⟩
    rw [assignString, if_pos ⟨hobj, hzero⟩, htext, Option.bind_some]
    rfl
  | some v =>
    obtain ⟨buf, hbuf⟩ : ∃ buf, buf = if text.chars.length = 0 then s.gElEmptyString else alloc :=
      ⟨_, rfl⟩
    have hlen : v.chars.length ≤ text.chars.length := hv v rfl
    refine ⟨_, Function.update s.shared buf
      (some (v.terminated ++ text.terminated.drop (v.chars.length + 1))), ?_, hclear buf 0, ?_, ?_, ?_⟩
    · rw [assignString, if_pos ⟨hobj, hzero⟩, htext, Option.bind_some]
      simp only [← hbuf]
      exact if_pos (Nat.add_le_add_right hlen 1)
    · intro q x hx
      rw [Function.update_apply]
      split
      · subst q
        rw [hbuf] at hx
        split at hx
        · -- the shared empty string is overwritten by itself
          rename_i hzero
          have hnil : v.chars = [] := List.length_eq_zero_iff.mp (by omega)
          rw [hempty.2] at hx
          rw [← hx, CString.terminated, CString.terminated, hnil, List.length_eq_zero_iff.mp hzero]
          rfl
        · rw [halloc.2] at hx
          cases hx
      · exact hx
    · intro q hq hnone
      rw [Function.update_apply]
      split
      · subst q
        rw [hbuf] at hnone hq
        split at hq
        · rename_i hzero
          rw [if_pos hzero, hempty.2] at hnone
          cases hnone
        · exact absurd rfl hq
      · exact hnone
    · rw [hword]
      refine ⟨?_, ?_⟩
      · rw [hbuf]
        split
        · exact hempty.1
        · exact halloc.1
      · rw [Function.update_self, Option.bind_some, CString.terminated, List.append_assoc]
        exact cstring_append v _

/-- The loop over the strings. -/
theorem assignStrings_spec {n obj : ℕ} {l : List CarString}
    (hinj : ∀ i < n, ∀ j < n, a.shared i = a.shared j → i = j) :
    ∀ {i : ℕ} {s : CCallbackParcel}, i + l.length ≤ n →
      TextsFit s.data s.mDataBufCapacity (obj + 8 * i) s.mDataPtr l →
      obj + 8 * (i + l.length) ≤ s.mDataPtr → s.mDataPtr ≤ s.mDataBufCapacity →
      4 ∣ s.mDataPtr → 4 ∣ s.mDataBufCapacity →
      (s.gElEmptyString ≠ 0 ∧ s.shared s.gElEmptyString = some [0]) →
      (∀ j < n, i ≤ j → a.shared j ≠ 0 ∧ s.shared (a.shared j) = none) →
      ∃ (d : Block) (sh : UInt32 → Option (List UInt8)) (p : ℕ),
        assignStrings a obj i l s = some { s with data := d, shared := sh, mDataPtr := p } ∧
        (∀ j, (j < obj + 8 * i ∨ obj + 8 * (i + l.length) ≤ j) → d j = s.data j) ∧
        (∀ q x, s.shared q = some x → sh q = some x) ∧
        s.mDataPtr ≤ p ∧ p ≤ s.mDataBufCapacity ∧ 4 ∣ p ∧
        ∀ j v, l[j]? = some v → HoldsString sh (d.word (obj + 8 * (i + j))) v := by
  induction l with
  | nil =>
    intro i s _ _ _ hptr h4 _ _ _
    exact ⟨s.data, s.shared, s.mDataPtr, rfl, fun _ _ => rfl, fun _ _ h => h, le_rfl, hptr, h4,
      fun j v hj => by simp at hj⟩
  | cons v l ih =>
    intro i s hn ⟨hzero, text, htext, hrest⟩ hobj hptr h4 hcap4 hempty hnew
    rw [List.length_cons] at hobj hn
    have hv : ∀ x ∈ v, x.chars.length ≤ text.chars.length := by
      rintro x rfl
      exact hrest.1
    obtain ⟨d, sh, hassign, hclear, hmono, hnone, hholds⟩ :=
      assignString_spec (by omega) hzero htext hv hempty (hnew i (by omega) le_rfl)
    have hnext : s.mDataPtr + (v.elim 0 fun x => ROUND4 (x.chars.length + 1)) ≤
          s.mDataBufCapacity ∧
        4 ∣ s.mDataPtr + (v.elim 0 fun x => ROUND4 (x.chars.length + 1)) ∧
        TextsFit d s.mDataBufCapacity (obj + 8 * (i + 1))
          (s.mDataPtr + v.elim 0 fun x => ROUND4 (x.chars.length + 1)) l := by
      have hagree : ∀ j, obj + 8 * i + 8 ≤ j → d j = s.data j := fun j hj => hclear j (.inr hj)
      rw [Nat.mul_add, ← Nat.add_assoc]
      cases v with
      | none => exact ⟨hptr, h4, hrest.congr hagree (by simp; omega)⟩
      | some x =>
        exact ⟨ptr_add_ROUND4_le htext hrest.1 h4 hcap4, Nat.dvd_add h4 (four_dvd_ROUND4 _),
          hrest.2.congr hagree (by simp; omega)⟩
    obtain ⟨hptr', h4', hfit'⟩ := hnext
    obtain ⟨d', sh', p, hall, hclear', hmono', hle, hp, hp4, hholds'⟩ := ih (i := i + 1)
      (s := { s with
        data := d
        shared := sh
        mDataPtr := s.mDataPtr + v.elim 0 fun x => ROUND4 (x.chars.length + 1) })
      (by omega) hfit' (by change _ ≤ s.mDataPtr + _; omega) hptr' h4' hcap4
      ⟨hempty.1, hmono _ _ hempty.2⟩ fun j hjn hj => by
        obtain ⟨hne, hfree⟩ := hnew j hjn (by omega)
        refine ⟨hne, hnone _ (fun heq => ?_) hfree⟩
        have hij := hinj j hjn i (by omega) heq
        omega
    refine ⟨d', sh', p, ?_, fun j hj => ?_, fun q x hx => hmono' q x (hmono q x hx),
      (Nat.le_add_right _ _).trans hle, hp, hp4, fun j x hx => ?_⟩
    · rw [assignStrings, hassign]
      exact hall
    · rw [List.length_cons] at hj
      rw [hclear' j (by omega)]
      exact hclear j (by omega)
    · cases j with
      | zero =>
        obtain rfl : v = x := Option.some.inj hx
        have hword : d'.word (obj + 8 * (i + 0)) = d.word (obj + 8 * i) :=
          word_congr fun k _ hk => hclear' k (.inl (by omega))
        rw [hword]
        exact hholds.mono hmono'
      | succ j =>
        rw [show i + (j + 1) = i + 1 + j by omega]
        exact hholds' j x hx

theorem stringsSize_ge (strings : List CarString) : 20 + 8 * strings.length ≤ stringsSize strings :=
  Nat.le_add_right _ _

/-- An array of strings: its objects are behind the quintet. -/
theorem Holds.putArrayOfString {v : StringsArg} (h : Holds arm s cells)
    (hcount : s.mElemTypes.length < s.mTypeBufCapacity)
    (helem : s.mElemPtr + 4 ≤ s.mElemBufCapacity)
    (hfresh : s.Fresh (.arrayOfString v) a)
    (hmov : s.Full (CallbackValue.arrayOfString v).need → ∀ c ∈ cells, c.value.Movable)
    (htexts : TextsFit (s.fresh a (CallbackValue.arrayOfString v).need)
      (s.capacityFor (CallbackValue.arrayOfString v).need) (s.mDataPtr + 24)
      (s.mDataPtr + 24 + 8 * v.strings.length) v.strings) :
    Adds arm s cells (.arrayOfString v) (s.putArrayOfString arm a v) := by
  obtain ⟨k, hchunk, hhead, hbytes, hlength⟩ : ∃ k, (CallbackValue.arrayOfString v).chunk? = some k ∧
      k.head = 4 ∧ (∀ addr, wordBytes (UInt32.ofNat (stringsSize v.strings)) ++
        quintetBytes v.mFlags v.mReserve v.mUsed (8 * v.strings.length) (addr + 24) =
          k.bytes addr) ∧ k.length = 24 := by
    refine ⟨_, rfl, rfl, fun addr => ?_, ?_⟩
    · simp [Chunk.bytes, quintetBytes]
    · simp [Chunk.length]
  have hround : ROUND4 (8 * v.strings.length) = 8 * v.strings.length := by
    rw [ROUND4]
    omega
  have hneed : 24 + 8 * v.strings.length ≤ (CallbackValue.arrayOfString v).need := by
    have hsize := stringsSize_ge v.strings
    have hle := le_ROUND4 (stringsSize v.strings)
    change _ ≤ ROUND4 (stringsSize v.strings) + 4
    omega
  obtain ⟨s', hreserve, hholds, hsame⟩ := h.reserve hfresh hmov
  have hroom := hholds.room
  have hfits := hsame.room
  rw [Adds, ← hsame.mDataPtr, ← hsame.mElemPtr]
  rw [← hsame.mElemPtr, ← hsame.mElemBufCapacity] at helem
  rw [← hsame.mDataPtr] at hfits
  have hput : s.putArrayOfString arm a v = assignStrings a (s'.mDataPtr + 24) 0 v.strings
      (s'.copied k (24 + 8 * v.strings.length)) := by
    have hput := putData_eq (24 + 8 * v.strings.length) hreserve hhead hbytes
      (by rw [hlength]; omega) helem
    have hobj : s'.mDataPtr + (24 + 8 * v.strings.length) - 8 * v.strings.length =
        s'.mDataPtr + 24 := by omega
    change (s.putData arm a _ 4 _ (24 + ROUND4 (8 * v.strings.length))).bind _ = _
    simp only [hround]
    refine (congrArg (Option.bind · _) hput).trans ?_
    change assignStrings a (s'.mDataPtr + (24 + 8 * v.strings.length) - 8 * v.strings.length) 0 _ _ =
      _
    rw [hobj]
  have htexts' : TextsFit (s'.copied k (24 + 8 * v.strings.length)).data s'.mDataBufCapacity
      (s'.mDataPtr + 24 + 8 * 0) (s'.mDataPtr + (24 + 8 * v.strings.length)) v.strings := by
    rw [← hsame.mDataPtr, ← hsame.mDataBufCapacity, Nat.add_assoc _ 24 (8 * _)] at htexts
    refine htexts.congr (fun i hi => ?_) (by omega)
    rw [copied_data s' k _ i (.inr (by omega))]
    exact hsame.fresh i (by rw [← hsame.mDataPtr]; omega)
  have hend : s'.mDataPtr + (24 + 8 * v.strings.length) ≤ s'.mDataBufCapacity := by omega
  have h4 : 4 ∣ s'.mDataPtr + (24 + 8 * v.strings.length) :=
    Nat.dvd_add hroom.data4 ⟨6 + 2 * v.strings.length, by omega⟩
  have hobjects : s'.mDataPtr + 24 + 8 * (0 + v.strings.length) ≤
      s'.mDataPtr + (24 + 8 * v.strings.length) := by omega
  obtain ⟨d, sh, ptr, hassign, hclear, hmono, hle, hptr, hptr4, hstrings⟩ :=
    assignStrings_spec hfresh.shared_inj (Nat.zero_add _).le htexts' hobjects hend h4 hroom.capacity4
      hroom.empty fun j hj _ => by
        rw [hsame.shared]
        exact hfresh.shared_ne j hj
  refine ⟨_, hput.trans hassign, hholds.push ⟨helem, ?_, hroom.elem8, hptr, hptr4, hroom.capacity4,
    hroom.address, hroom.capacity, hroom.empty.1, hmono _ _ hroom.empty.2⟩ ?_ rfl rfl ?_
    (copied_elem s' k (24 + 8 * v.strings.length)) ?_ rfl (fun _ _ h => h) hmono ?_⟩
  · exact Nat.dvd_add hroom.elem4 (Nat.dvd_refl 4)
  · rw [List.length_append, hsame.mElemTypes, hsame.mTypeBufCapacity]
    exact hcount
  · rw [CallbackValue.length_arrayOfString]
    exact hle
  · intro i hi
    exact (hclear i (.inl (by omega))).trans (copied_data s' k _ i (.inl hi))
  · obtain ⟨hptr, hload⟩ := copied_chunk s' k (24 + 8 * v.strings.length)
    refine .of_chunk hchunk rfl rfl rfl hptr (Eq.trans ?_ hload) fun l hl i x hx => ?_
    · exact load_congr fun i _ hi => hclear i (.inl (by rw [hlength] at hi; omega))
    · obtain rfl : v.strings = l := Option.some.inj hl
      have hobj := hstrings i x hx
      rwa [Nat.zero_add] at hobj

/-! ### All values -/

/-- Every case of the switch adds its value, within the conditions. -/
theorem Holds.put (h : Holds arm s cells) (hcount : s.mElemTypes.length < s.mTypeBufCapacity)
    (helem : s.mElemPtr + 4 ≤ s.mElemBufCapacity) (hfresh : s.Fresh v a)
    (hmov : s.Full v.need → ∀ c ∈ cells, c.value.Movable)
    (htexts : ∀ l ∈ v.strings?, TextsFit (s.fresh a v.need) (s.capacityFor v.need) (s.mDataPtr + 24)
      (s.mDataPtr + 24 + 8 * l.length) l) : Adds arm s cells v (s.put arm a v) := by
  cases v with
  | byte | boolean | char | int16 | int32 | float | interfacePtr =>
    exact h.putWord hcount helem rfl rfl rfl rfl rfl
  | int64 | double => exact h.putDword hcount rfl
  | string x => exact h.putString hcount helem hfresh.newString x
  | struct v =>
    obtain ⟨k, hchunk, hhead, hbytes, hlength⟩ : ∃ k, (CallbackValue.struct v).chunk? = some k ∧
        k.head = 4 ∧ (∀ addr, wordBytes (UInt32.ofNat v.length) ++ v = k.bytes addr) ∧
        k.length = 4 + v.length := ⟨_, rfl, rfl, fun _ => by simp [Chunk.bytes], by simp [Chunk.length]⟩
    have hle := le_ROUND4 v.length
    exact h.putData hcount helem hfresh hmov hchunk rfl rfl rfl rfl hhead hbytes (by omega)
      (Nat.dvd_add (Nat.dvd_refl 4) (four_dvd_ROUND4 _)) (Nat.add_comm _ _).le
  | emuid v =>
    obtain ⟨k, hchunk, hhead, hbytes, hlength⟩ : ∃ k, (CallbackValue.emuid v).chunk? = some k ∧
        k.head = 0 ∧ (∀ addr : UInt32, v.bytes = k.bytes addr) ∧ k.length = 16 :=
      ⟨_, rfl, rfl, fun _ => by simp [Chunk.bytes], by simp [Chunk.length]⟩
    exact h.putData hcount helem hfresh hmov hchunk rfl rfl rfl rfl hhead hbytes hlength.le (by decide)
      (by decide : 16 ≤ ROUND4 16)
  | eguid v =>
    obtain ⟨k, hchunk, hhead, hbytes, hlength⟩ : ∃ k, (CallbackValue.eguid v).chunk? = some k ∧
        k.head = 0 ∧ (∀ addr, v.bytes (addr + 24) ++ v.mUunm.terminated = k.bytes addr) ∧
        k.length = 24 + v.mUunm.chars.length + 1 :=
      ⟨_, rfl, rfl, fun _ => by simp [Chunk.bytes, EGuid.bytes], by simp [Chunk.length]; omega⟩
    exact h.putData hcount helem hfresh hmov hchunk rfl rfl rfl rfl hhead hbytes
      (hlength.le.trans (le_ROUND4 _)) (four_dvd_ROUND4 _) le_rfl
  | arrayOf v =>
    cases v with
    | none => exact h.putWord hcount helem rfl rfl rfl rfl rfl
    | some v =>
      obtain ⟨k, hchunk, hhead, hbytes, hlength⟩ : ∃ k,
          (CallbackValue.arrayOf (some v)).chunk? = some k ∧ k.head = 4 ∧
          (∀ addr, wordBytes (UInt32.ofNat (20 + v.payload.length)) ++ quintetBytes v.mFlags
            v.mReserve v.mUsed v.payload.length (addr + 24) ++ v.payload = k.bytes addr) ∧
          k.length = 24 + v.payload.length :=
        ⟨_, rfl, rfl, fun _ => by simp [Chunk.bytes, quintetBytes], by simp [Chunk.length]⟩
      have hle := le_ROUND4 v.payload.length
      have hround : 24 + ROUND4 v.payload.length ≤ ROUND4 (20 + v.payload.length + 4) + 4 := by
        rw [ROUND4, ROUND4]
        omega
      exact h.putData hcount helem hfresh hmov hchunk rfl rfl rfl rfl hhead hbytes (by omega)
        (Nat.dvd_add (by decide) (four_dvd_ROUND4 _)) hround
  | arrayOfString v => exact h.putArrayOfString hcount helem hfresh hmov (htexts _ rfl)

/-- The first room checks change nothing but capacities. -/
theorem prepare_eq (s : CCallbackParcel) : ∃ mTypeBufCapacity mElemBufCapacity,
    s.prepare = { s with mTypeBufCapacity, mElemBufCapacity } ∧
      mTypeBufCapacity = (if s.mTypeBufCapacity ≤ s.mElemTypes.length then s.mTypeBufCapacity + 10
        else s.mTypeBufCapacity) ∧
      mElemBufCapacity = (if s.mElemBufCapacity < s.mElemPtr + 4 then s.mElemBufCapacity + 128
        else s.mElemBufCapacity) := by
  refine ⟨_, _, ?_, rfl, rfl⟩
  rw [prepare]
  by_cases htypes : s.mTypeBufCapacity ≤ s.mElemTypes.length <;>
    by_cases helem : s.mElemBufCapacity < s.mElemPtr + 4 <;>
    simp [htypes, helem, GrowTypeBuffer, GrowElemBuffer]

/-- The first room checks, and what they make room for. -/
theorem Holds.prepare (h : Holds arm s cells) : Holds arm s.prepare cells ∧
    s.prepare.mElemTypes.length < s.prepare.mTypeBufCapacity ∧
    s.prepare.mElemPtr + 4 ≤ s.prepare.mElemBufCapacity := by
  obtain ⟨typeCap, elemCap, hprep, htypeCap, helemCap⟩ := s.prepare_eq
  have hroom := h.room
  have hcaps : s.mElemTypes.length < typeCap ∧ s.mElemPtr + 4 ≤ elemCap ∧ 8 ∣ elemCap := by
    have htypes := h.types
    have hle := hroom.elem
    have h8 := hroom.elem8
    rw [htypeCap, helemCap]
    refine ⟨?_, ?_, ?_⟩ <;> split <;> omega
  obtain ⟨hcount, helem, h8⟩ := hcaps
  rw [hprep]
  refine ⟨⟨⟨(Nat.le_add_right _ _).trans helem, hroom.elem4, h8, hroom.data, hroom.data4,
    hroom.capacity4, hroom.address, hroom.capacity, hroom.empty⟩, hcount.le, h.elems, h.ptr,
    fun c hc => ?_, h.below, h.before⟩, hcount, helem⟩
  exact (h.stored c hc).congr (fun _ _ _ => rfl) (fun _ _ _ => rfl) rfl (fun _ _ h => h)
    (fun _ _ h => h)

/-! ### A parcel and what has been written to it -/

/-- The system a new parcel is made in. -/
structure Heap where
  mDataBuf : UInt32
  strings : UInt32 → Option CarString
  shared : UInt32 → Option (List UInt8)
  gElEmptyString : UInt32
  /-- A buffer does not go around the end of the address space. -/
  address : mDataBuf.toNat + 128 ≤ 4294967296
  empty : gElEmptyString ≠ 0 ∧ shared gElEmptyString = some [0]

/-- `CCallbackParcel()`. -/
def new (heap : Heap) : CCallbackParcel :=
  { mDataBuf := heap.mDataBuf
    strings := heap.strings
    shared := heap.shared
    gElEmptyString := heap.gElEmptyString }

/-- A call of a `Write` function. -/
structure Call where
  value : CallbackValue
  alloc : Allocs

structure Session where
  parcel : CCallbackParcel
  written : List CallbackValue := []

namespace Session

def step (arm : Bool) (t : Session) (c : Call) : Option Session :=
  (t.parcel.WriteValue arm c.value c.alloc).map fun parcel => ⟨parcel, t.written ++ [c.value]⟩

/-- A call that the defects spare. -/
structure Spared (t : Session) (c : Call) : Prop where
  fresh : t.parcel.Fresh c.value c.alloc
  movable : t.parcel.Full c.value.need → ∀ v ∈ t.written, v.Movable
  texts : ∀ l ∈ c.value.strings?, TextsFit (t.parcel.fresh c.alloc c.value.need)
    (t.parcel.capacityFor c.value.need) (t.parcel.mDataPtr + 24)
    (t.parcel.mDataPtr + 24 + 8 * l.length) l

/-- The parcel holds what has been written. -/
def Sound (arm : Bool) (t : Session) : Prop :=
  ∃ cells, Holds arm t.parcel cells ∧ cells.map Cell.value = t.written

theorem sound_new (heap : Heap) : Sound arm ⟨new heap, []⟩ :=
  ⟨[], ⟨⟨Nat.zero_le _, dvd_zero 4, ⟨16, rfl⟩, Nat.zero_le _, dvd_zero 4, ⟨32, rfl⟩, heap.address,
    (by decide : 128 < 4294967296), heap.empty⟩, Nat.zero_le _, rfl, rfl, by simp, by simp, .nil⟩, rfl⟩

theorem sound_step (t : Session) (c : Call) (h : Sound arm t) (hok : t.Spared c) :
    ∃ t', step arm t c = some t' ∧ Sound arm t' := by
  obtain ⟨cells, hholds, hwritten⟩ := h
  obtain ⟨hholds', hcount, helem⟩ := hholds.prepare
  obtain ⟨typeCap, elemCap, hprep, -, -⟩ := t.parcel.prepare_eq
  rw [hprep] at hholds' hcount helem
  obtain ⟨s', hput, hadds⟩ := hholds'.put (a := c.alloc) (v := c.value) hcount helem
    ⟨hok.fresh.1, hok.fresh.2, hok.fresh.3, hok.fresh.4, hok.fresh.5⟩
    (fun hfull b hb => hok.movable hfull _ (hwritten ▸ List.mem_map_of_mem hb)) hok.texts
  refine ⟨⟨_, t.written ++ [c.value]⟩, ?_, _, hadds, ?_⟩
  · rw [step, WriteValue, writeElem, hprep, if_pos hcount, hput]
    rfl
  · rw [List.map_append, hwritten]
    rfl

theorem written_of_run {t t' : Session} {calls : List Call}
    (h : Trace.run (step arm) t calls = some t') : t'.written = t.written ++ calls.map Call.value := by
  induction calls generalizing t with
  | nil =>
    obtain rfl := Option.some.inj h
    rw [List.map_nil, List.append_nil]
  | cons c calls ih =>
    obtain ⟨t1, hstep, hrun⟩ := Trace.run_cons_eq_some.mp h
    obtain ⟨parcel, -, rfl⟩ := Option.map_eq_some_iff.mp hstep
    rw [ih hrun, List.append_assoc]
    rfl

/-- **The contents of a callback parcel.** As long as the calls are spared, each of them goes through,
and the parcel decodes to the values written so far. -/
theorem decode_of_spared (arm : Bool) (heap : Heap) (calls : List Call)
    (hok : Trace.Meets (step arm) Spared ⟨new heap, []⟩ calls) :
    ∃ t, Trace.run (step arm) ⟨new heap, []⟩ calls = some t ∧
      t.parcel.decode arm = some (calls.map Call.value) := by
  obtain ⟨t, hrun, cells, hholds, hcells⟩ :=
    Trace.exists_run_of_meets sound_step (sound_new heap) hok
  refine ⟨t, hrun, ?_⟩
  rw [hholds.decode, hcells, written_of_run hrun]
  rfl

/-- A heap for runs on given values: the buffers and objects are apart. -/
def heap : Heap where
  mDataBuf := 0x1000
  strings _ := none
  shared p := if p = 0x8000 then some [0] else none
  gElEmptyString := 0x8000
  address := by decide
  empty := by decide

def alloc (newString : UInt32) : Allocs :=
  ⟨newString, 0x2000, fun _ => 0, fun i => 0x9000 + UInt32.ofNat i⟩

/-- An array, a struct that does not fit behind it, and a string. -/
def letter : List Call :=
  [⟨.arrayOf (some ⟨0, 0, 4, [1, 2, 3, 4]⟩), alloc 0x3000⟩, ⟨.struct (List.replicate 128 1), alloc 0x3000⟩,
    ⟨.string (some ⟨[0x62], by decide⟩), alloc 0x3000⟩]

theorem spared_of_clear {t : Session} {c : Call} (hcount : c.value.strings? = none)
    (hnew : t.parcel.strings c.alloc.newString = none)
    (hcap : t.parcel.capacityFor c.value.need ≤ 4096 ∧ c.alloc.dataBuf.toNat ≤ 65536)
    (hmov : t.parcel.Full c.value.need → ∀ v ∈ t.written, v.Movable) : t.Spared c where
  fresh := by
    refine ⟨hnew, fun _ => by omega, fun _ => by omega, ?_, ?_⟩
    all_goals
      intro i hi
      rw [CallbackValue.count, hcount] at hi
      exact absurd hi (Nat.not_lt_zero i)
  movable := hmov
  texts l hl := absurd (hcount.symm.trans hl) (by simp)

theorem letter_spared : Trace.Meets (step true) Spared ⟨new heap, []⟩ letter := by
  have hfirst : (step true ⟨new heap, []⟩ letter[0]).map (fun t => (t.parcel.strings 0x3000,
      t.parcel.capacityFor letter[1].value.need, t.written)) =
        some (none, 388, [letter[0].value]) := by decide +kernel
  have hsecond : ((step true ⟨new heap, []⟩ letter[0]).bind fun t => step true t letter[1]).map
      (fun t => (t.parcel.strings 0x3000, t.parcel.capacityFor letter[2].value.need,
        decide (t.parcel.Full letter[2].value.need))) = some (none, 388, false) := by decide +kernel
  refine ⟨spared_of_clear rfl rfl ⟨by decide, by decide⟩ (fun _ v hv => by cases hv), fun t1 h1 => ?_⟩
  change step true _ letter[0] = some t1 at h1
  rw [h1] at hfirst hsecond
  obtain ⟨hstrings, hcap, hwritten⟩ := by simpa only [Option.map_some, Option.some.injEq,
    Prod.mk.injEq] using hfirst
  refine ⟨spared_of_clear rfl hstrings ⟨hcap.le.trans (by decide), by decide⟩ ?_, fun t2 h2 => ?_⟩
  · intro _ v hv
    rw [hwritten] at hv
    rw [List.mem_singleton.mp hv]
    trivial
  · change step true t1 letter[1] = some t2 at h2
    rw [Option.bind_some, h2] at hsecond
    obtain ⟨hstrings, hcap, hfull⟩ := by simpa only [Option.map_some, Option.some.injEq,
      Prod.mk.injEq] using hsecond
    refine ⟨spared_of_clear rfl hstrings ⟨hcap.le.trans (by decide), by decide⟩ fun h => ?_,
      fun _ _ => trivial⟩
    exact absurd h (of_decide_eq_false hfull)

theorem decode_letter : ∃ t, Trace.run (step true) ⟨new heap, []⟩ letter = some t ∧
    t.parcel.decode true = some (letter.map Call.value) :=
  decode_of_spared true heap letter letter_spared

/-- A string, and a struct that the data buffer has to grow for. -/
def stringAndStruct : List Call :=
  [⟨.string (some ⟨[0x61], by decide⟩), alloc 0x3000⟩,
    ⟨.struct (List.replicate 128 1), alloc 0x3000⟩]

/-- The string is looked for at a place relative to the new data buffer, where there is none. -/
theorem string_lost : ∃ t, Trace.run (step false) ⟨new heap, []⟩ stringAndStruct = some t ∧
    t.parcel.decode false ≠ some (stringAndStruct.map Call.value) := by
  have hrun : (Trace.run (step false) ⟨new heap, []⟩ stringAndStruct).map
      (fun t => t.parcel.decode false) = some none := by decide +kernel
  obtain ⟨t, ht, hnone⟩ := Option.map_eq_some_iff.mp hrun
  refine ⟨t, ht, ?_⟩
  rw [hnone]
  exact (Option.some_ne_none _).symm

end Session

end CCallbackParcel

end ElastosCar
