import ElastosCar.Callback.CCallbackParcel

/-!
# What a callback parcel holds

A `Cell` is a value with its places in the element buffer and the data buffer, and `Stored` says that
the parcel holds it there: the element, the bytes in the data buffer with the pointer inside them, and
what the element points to elsewhere.

* `Stored.congr`: a cell stays stored as long as its own places and the base of the data buffer are
  left alone.
* `Stored.decodeAt`: a stored cell decodes to its value.
-/

namespace ElastosCar

/-! ### What a value is stored as -/

/-- What a value leaves in the data buffer: some bytes, the pointer to what follows them, more bytes.
The element points behind the first `head` bytes. -/
structure Chunk where
  head : ℕ
  pre : List UInt8
  inner : Bool
  post : List UInt8

namespace Chunk

/-- The bytes of a chunk at an address. Both pointers, `mUunm` and `mBuf`, point 24 bytes on. -/
def bytes (k : Chunk) (addr : UInt32) : List UInt8 :=
  k.pre ++ ((if k.inner then wordBytes (addr + 24) else []) ++ k.post)

def length (k : Chunk) : ℕ := k.pre.length + (if k.inner then 4 else 0) + k.post.length

@[simp]
theorem length_bytes (k : Chunk) (addr : UInt32) : (k.bytes addr).length = k.length := by
  rw [bytes, length, List.length_append, List.length_append]
  split <;> simp [Nat.add_assoc]

end Chunk

namespace CallbackValue

/-- The element of a value that is stored in one word. -/
def word? : CallbackValue → Option UInt32
  | byte v | boolean v => some v.toUInt32
  | int16 v => some v.toInt16.toInt32.toUInt32
  | char v | int32 v | float v | interfacePtr v => some v
  | arrayOf none => some 0
  | _ => none

def dword? : CallbackValue → Option UInt64
  | int64 v | double v => some v
  | _ => none

def string? : CallbackValue → Option CarString
  | string v => some v
  | _ => none

def chunk? : CallbackValue → Option Chunk
  | struct v => some ⟨4, wordBytes (UInt32.ofNat v.length) ++ v, false, []⟩
  | emuid v => some ⟨0, v.bytes, false, []⟩
  | eguid v => some ⟨0, v.mClsid.bytes, true, wordBytes v.mCarcode ++ v.mUunm.terminated⟩
  | arrayOf (some v) => some ⟨4, wordBytes (UInt32.ofNat (20 + v.payload.length)) ++
      (wordBytes v.mFlags ++ wordBytes v.mReserve ++ wordBytes v.mUsed ++
        wordBytes (UInt32.ofNat v.payload.length)), true, v.payload⟩
  | arrayOfString v => some ⟨4, wordBytes (UInt32.ofNat (CCallbackParcel.stringsSize v.strings)) ++
      (wordBytes v.mFlags ++ wordBytes v.mReserve ++ wordBytes v.mUsed ++
        wordBytes (UInt32.ofNat (8 * v.strings.length))), true, []⟩
  | _ => none

def strings? : CallbackValue → Option (List CarString)
  | arrayOfString v => some v.strings
  | _ => none

/-- The bytes of a value in the data buffer. -/
def length (v : CallbackValue) : ℕ :=
  (v.chunk?.elim 0 Chunk.length) + v.strings?.elim 0 fun l => 8 * l.length

theorem length_struct (v : List UInt8) : (struct v).length = 4 + v.length := by
  simp [length, chunk?, strings?, Chunk.length]

theorem length_emuid (v : EMuid) : (emuid v).length = 16 := by
  simp [length, chunk?, strings?, Chunk.length]

theorem length_eguid (v : EGuid) : (eguid v).length = 24 + v.mUunm.terminated.length := by
  simp [length, chunk?, strings?, Chunk.length]
  omega

theorem length_arrayOf (v : ArrayArg) : (arrayOf (some v)).length = 24 + v.payload.length := by
  simp [length, chunk?, strings?, Chunk.length]

theorem length_arrayOfString (v : StringsArg) :
    (arrayOfString v).length = 24 + 8 * v.strings.length := by
  simp [length, chunk?, strings?, Chunk.length]

end CallbackValue

/-- A value with the offsets of its element and of its data. -/
structure Cell where
  value : CallbackValue
  pos : ℕ
  off : ℕ

namespace Cell

def width (c : Cell) : ℕ := CCallbackParcel.width c.value.type

def length (c : Cell) : ℕ := c.value.length

end Cell

namespace CCallbackParcel

variable {s s' : CCallbackParcel} {c : Cell}

/-- The string of a `String` object that holds a pointer. -/
def HoldsString (shared : UInt32 → Option (List UInt8)) (mString : UInt32) : CarString → Prop
  | none => mString = 0
  | some v => mString ≠ 0 ∧ (shared mString).bind cstring = some v

theorem HoldsString.mono {shared shared' : UInt32 → Option (List UInt8)} {mString : UInt32}
    {v : CarString} (hmono : ∀ p x, shared p = some x → shared' p = some x)
    (h : HoldsString shared mString v) : HoldsString shared' mString v := by
  cases v with
  | none => exact h
  | some v =>
    obtain ⟨bytes, hbytes, hv⟩ := Option.bind_eq_some_iff.mp h.2
    exact ⟨h.1, Option.bind_eq_some_iff.mpr ⟨bytes, hmono _ _ hbytes, hv⟩⟩

/-- The parcel holds the value of a cell at its place. -/
structure Stored (s : CCallbackParcel) (c : Cell) : Prop where
  word : ∀ w ∈ c.value.word?, s.mElemBuf.word c.pos = w
  dword : ∀ v ∈ c.value.dword?, s.mElemBuf.word c.pos = v.toUInt32 ∧
    s.mElemBuf.word (c.pos + 4) = (v >>> 32).toUInt32
  string : ∀ v ∈ c.value.string?, s.strings (s.mElemBuf.word c.pos) = some v
  chunk : ∀ k ∈ c.value.chunk?, s.mElemBuf.word c.pos = s.mDataBuf + UInt32.ofNat (c.off + k.head) ∧
    load s.data c.off k.length = k.bytes (s.mDataBuf + UInt32.ofNat c.off)
  strings : ∀ l ∈ c.value.strings?, ∀ i v, l[i]? = some v →
    HoldsString s.shared (s.data.word (c.off + 24 + 8 * i)) v

theorem word_congr {d e : Block} {o : ℕ} (h : ∀ i, o ≤ i → i < o + 4 → d i = e i) :
    d.word o = e.word o := by
  rw [Block.word, Block.word, load_congr h]

theorem width_le (type : CallbackType) : 4 ≤ width type := by
  cases type <;> decide

/-- The object of the `i`-th string lies within the chunk. -/
theorem objects_le {l : List CarString} {i : ℕ} (h : l ∈ c.value.strings?) (hi : i < l.length) :
    24 + 8 * i + 8 ≤ c.length := by
  obtain ⟨value, pos, off⟩ := c
  rcases value with _ | _ | _ | _ | _ | _ | _ | _ | _ | _ | _ | _ | _ | _ | v
  case arrayOfString =>
    obtain rfl : v.strings = l := Option.some.inj h
    rw [Cell.length, CallbackValue.length_arrayOfString]
    omega
  all_goals cases h

theorem chunk_le {k : Chunk} (h : k ∈ c.value.chunk?) : k.length ≤ c.length := by
  rw [Cell.length, CallbackValue.length, Option.mem_def.mp h]
  exact Nat.le_add_right _ _

/-- A cell stays stored while its places are left alone and nothing it points to is forgotten. -/
theorem Stored.congr (h : s.Stored c)
    (helem : ∀ i, c.pos ≤ i → i < c.pos + c.width → s'.mElemBuf i = s.mElemBuf i)
    (hdata : ∀ i, c.off ≤ i → i < c.off + c.length → s'.data i = s.data i)
    (hbuf : s'.mDataBuf = s.mDataBuf)
    (hstrings : ∀ p x, s.strings p = some x → s'.strings p = some x)
    (hshared : ∀ p x, s.shared p = some x → s'.shared p = some x) : s'.Stored c := by
  have hwidth := width_le c.value.type
  have hword : s'.mElemBuf.word c.pos = s.mElemBuf.word c.pos :=
    word_congr fun i h1 h2 => helem i h1 (by rw [Cell.width]; omega)
  refine ⟨fun w hw => hword.trans (h.word w hw), fun v hv => ?_, fun v hv => ?_, fun k hk => ?_,
    fun l hl i v hi => ?_⟩
  · have h8 : c.width = 8 := by
      rw [Cell.width]
      cases hc : c.value <;> rw [hc] at hv <;> first | rfl | cases hv
    refine ⟨hword.trans (h.dword v hv).1, ?_⟩
    rw [← (h.dword v hv).2]
    exact word_congr fun i h1 h2 => helem i (by omega) (by omega)
  · exact hstrings _ _ (hword ▸ h.string v hv)
  · obtain ⟨hp, hbytes⟩ := h.chunk k hk
    have hle := chunk_le hk
    rw [hword, hbuf]
    refine ⟨hp, ?_⟩
    rw [← hbytes]
    exact load_congr fun i h1 h2 => hdata i h1 (by omega)
  · have hlt := (List.getElem?_eq_some_iff.mp hi).1
    have hle := objects_le hl hlt
    have hobj : s'.data.word (c.off + 24 + 8 * i) = s.data.word (c.off + 24 + 8 * i) :=
      word_congr fun j h1 h2 => hdata j (by omega) (by omega)
    rw [hobj]
    exact (h.strings l hl i v hi).mono hshared

/-! ### Decoding -/

theorem toUInt16_signExtend (v : UInt16) : v.toInt16.toInt32.toUInt32.toUInt16 = v := by
  rw [← UInt16.toBitVec_inj]
  change (v.toBitVec.signExtend 32).setWidth 16 = v.toBitVec
  ext i hi
  rw [BitVec.getElem_setWidth, BitVec.getLsbD_signExtend, if_pos hi, BitVec.getLsbD_eq_getElem hi]
  simp [show i < 32 by omega]

theorem dword_words (v : UInt64) :
    (v >>> 32).toUInt32.toUInt64 <<< 32 ||| v.toUInt32.toUInt64 = v := by
  have hhigh : ((v >>> 32).toUInt32.toUInt64 <<< 32).toNat = v.toNat / 2 ^ 32 * 2 ^ 32 := by
    have hv := v.toNat_lt
    simp [Nat.shiftRight_eq_div_pow, Nat.shiftLeft_eq]
    omega
  have hlow : v.toUInt32.toUInt64.toNat = v.toNat % 2 ^ 32 := by simp
  have hor := Nat.shiftLeft_add_eq_or_of_lt (i := 32) (b := v.toNat % 2 ^ 32) (by omega)
    (v.toNat / 2 ^ 32)
  rw [Nat.shiftLeft_eq] at hor
  rw [← UInt64.toNat_inj, UInt64.toNat_or, hhigh, hlow, ← hor]
  omega

/-- An offset in the data buffer is found again from the pointer to it. -/
theorem offsetAt_ofNat (s : CCallbackParcel) {o : ℕ} (h : o < 4294967296) :
    offsetAt s.mDataBuf (s.mDataBuf + UInt32.ofNat o) = o := by
  rw [offsetAt_base_add]
  exact UInt32.toNat_ofNat_of_lt' h

theorem deref_ofNat {o n : ℕ} (hcap : s.mDataBufCapacity < 4294967296)
    (h : o + n ≤ s.mDataBufCapacity) :
    s.deref (s.mDataBuf + UInt32.ofNat o) n = some (load s.data o n) := by
  rw [deref, s.offsetAt_ofNat (by omega)]
  exact if_pos h

theorem derefChars_ofNat {o : ℕ} {v : CString} (hcap : s.mDataBufCapacity < 4294967296)
    (hload : load s.data o v.terminated.length = v.terminated)
    (h : o + v.terminated.length ≤ s.mDataBufCapacity) :
    s.derefChars (s.mDataBuf + UInt32.ofNat o) = some v := by
  obtain ⟨r, hr⟩ : ∃ r, s.mDataBufCapacity - o = v.terminated.length + r :=
    ⟨s.mDataBufCapacity - o - v.terminated.length, by omega⟩
  rw [derefChars, s.offsetAt_ofNat (by omega)]
  simp only [hr, load_append, hload]
  rw [CString.terminated, List.append_assoc]
  exact cstring_append v _

theorem derefString_ofNat {o : ℕ} {v : CarString} (hcap : s.mDataBufCapacity < 4294967296)
    (h : o + 8 ≤ s.mDataBufCapacity) (hv : HoldsString s.shared (s.data.word o) v) :
    s.derefString (s.mDataBuf + UInt32.ofNat o) = some v := by
  have hword : wordOf ((load s.data o 8).take 4) = s.data.word o := by
    rw [load_append _ _ 4 4, List.take_left' (by simp)]
    rfl
  rw [derefString, deref_ofNat hcap h, Option.bind_some]
  simp only [hword]
  cases v with
  | none => exact if_pos hv
  | some v => rw [if_neg hv.1, hv.2, Option.map_some]

theorem mapM_eq_some {α β : Type} {f : α → Option β} {g : α → β} {l : List α}
    (h : ∀ a ∈ l, f a = some (g a)) : l.mapM f = some (l.map g) := by
  induction l with
  | nil => rfl
  | cons a l ih =>
    rw [List.mapM_cons, h a List.mem_cons_self,
      ih fun b hb => h b (List.mem_cons_of_mem a hb)]
    rfl

/-- The fields of the quintet in a chunk, behind the size. -/
theorem quintet_fields (a b c d e : UInt32) {bs : List UInt8}
    (hbs : bs = wordBytes a ++ wordBytes b ++ wordBytes c ++ wordBytes d ++ wordBytes e) :
    wordOf (bs.take 4) = a ∧ wordOf ((bs.drop 4).take 4) = b ∧ wordOf ((bs.drop 8).take 4) = c ∧
      wordOf ((bs.drop 12).take 4) = d ∧ wordOf (bs.drop 16) = e := by
  subst hbs
  simp [List.drop_append, List.drop_eq_nil_of_le]

section DecodeAt

variable {pos off : ℕ}

theorem decodeAt_struct {v : List UInt8} (h : s.Stored ⟨.struct v, pos, off⟩)
    (hcap : s.mDataBufCapacity < 4294967296)
    (hend : off + (Cell.mk (.struct v) pos off).length ≤ s.mDataBufCapacity) :
    s.decodeAt (.Struct, pos) = some (.struct v) := by
  obtain ⟨hw, hload⟩ := h.chunk _ rfl
  rw [Cell.length, CallbackValue.length_struct] at hend
  have hbytes : load s.data off (wordBytes (UInt32.ofNat v.length) ++ v).length =
      wordBytes (UInt32.ofNat v.length) ++ v := by
    simpa [Chunk.bytes, Chunk.length] using hload
  obtain ⟨hsize, hv⟩ := load_eq_append hbytes
  rw [length_wordBytes] at hsize hv
  have hbefore : s.mDataBuf + UInt32.ofNat (off + 4) - 4 = s.mDataBuf + UInt32.ofNat off := by
    rw [UInt32.ofNat_add, ← add_assoc]
    exact add_sub_cancel_right _ _
  change ((s.deref (s.mElemBuf.word pos - 4) 4).map fun bs => (wordOf bs).toNat).bind
    (fun n => (s.deref (s.mElemBuf.word pos) n).map CallbackValue.struct) = _
  have hptr : s.mElemBuf.word pos = s.mDataBuf + UInt32.ofNat (off + 4) := hw
  have h4 : off + 4 ≤ s.mDataBufCapacity := by omega
  have hend' : off + 4 + v.length ≤ s.mDataBufCapacity := by omega
  have hnat : (UInt32.ofNat v.length).toNat = v.length :=
    UInt32.toNat_ofNat_of_lt' (by rw [UInt32.size]; omega)
  rw [hptr, hbefore, deref_ofNat hcap h4, hsize, Option.map_some, Option.bind_some,
    wordOf_wordBytes, hnat, deref_ofNat hcap hend', hv, Option.map_some]

theorem decodeAt_emuid {v : EMuid} (h : s.Stored ⟨.emuid v, pos, off⟩)
    (hcap : s.mDataBufCapacity < 4294967296)
    (hend : off + (Cell.mk (.emuid v) pos off).length ≤ s.mDataBufCapacity) :
    s.decodeAt (.EMuid, pos) = some (.emuid v) := by
  obtain ⟨hw, hload⟩ := h.chunk _ rfl
  rw [Cell.length, CallbackValue.length_emuid] at hend
  have hbytes : load s.data off 16 = v.bytes := by simpa [Chunk.bytes, Chunk.length] using hload
  change (s.deref (s.mElemBuf.word pos) 16).map (fun bs => CallbackValue.emuid (EMuid.ofBytes bs)) = _
  rw [hw, Nat.add_zero, deref_ofNat hcap hend, hbytes, Option.map_some, EMuid.ofBytes_bytes]

theorem decodeAt_eguid {v : EGuid} (h : s.Stored ⟨.eguid v, pos, off⟩)
    (hcap : s.mDataBufCapacity < 4294967296)
    (hend : off + (Cell.mk (.eguid v) pos off).length ≤ s.mDataBufCapacity) :
    s.decodeAt (.EGuid, pos) = some (.eguid v) := by
  obtain ⟨hw, hload⟩ := h.chunk _ rfl
  rw [Cell.length, CallbackValue.length_eguid] at hend
  obtain ⟨name, hname⟩ : ∃ p, p = s.mDataBuf + UInt32.ofNat (off + 24) := ⟨_, rfl⟩
  have hbytes : load s.data off (24 + v.mUunm.terminated.length) =
      v.bytes name ++ v.mUunm.terminated := by
    rw [hname, UInt32.ofNat_add, ← add_assoc, EGuid.bytes]
    simpa [Chunk.bytes, Chunk.length, Nat.add_assoc, Nat.add_comm] using hload
  rw [← EGuid.length_bytes v name, ← List.length_append] at hbytes
  obtain ⟨hid, htext⟩ := load_eq_append hbytes
  rw [EGuid.length_bytes] at hid htext
  have hptr : wordOf (((v.bytes name).drop 16).take 4) = name := by
    simp [EGuid.bytes]
  have hclsid : EMuid.ofBytes ((v.bytes name).take 16) = v.mClsid := by
    rw [EGuid.bytes, List.append_assoc, List.take_left' (by simp), EMuid.ofBytes_bytes]
  have hcarcode : wordOf ((v.bytes name).drop 20) = v.mCarcode := by
    simp [EGuid.bytes, List.drop_append, List.drop_eq_nil_of_le]
  change ((s.deref (s.mElemBuf.word pos) 24).bind fun bs =>
    (s.derefChars (wordOf ((bs.drop 16).take 4))).map fun name =>
      CallbackValue.eguid ⟨EMuid.ofBytes (bs.take 16), name, wordOf (bs.drop 20)⟩) = _
  have hend24 : off + 24 ≤ s.mDataBufCapacity := by omega
  rw [hw, Nat.add_zero, deref_ofNat hcap hend24, hid, Option.bind_some, hptr, hname,
    derefChars_ofNat hcap htext (by omega), Option.map_some, ← hname, hclsid, hcarcode]

/-- The quintet of a stored array, and what its pointers point to. -/
theorem quintet_of_chunk {size mFlags mReserve mUsed : UInt32} {mSize : ℕ} {post : List UInt8}
    (hload : load s.data off (Chunk.mk 4 (wordBytes size ++ (wordBytes mFlags ++ wordBytes mReserve ++
      wordBytes mUsed ++ wordBytes (UInt32.ofNat mSize))) true post).length =
        (Chunk.mk 4 (wordBytes size ++ (wordBytes mFlags ++ wordBytes mReserve ++
          wordBytes mUsed ++ wordBytes (UInt32.ofNat mSize))) true post).bytes
            (s.mDataBuf + UInt32.ofNat off)) :
    load s.data (off + 4) 20 =
        quintetBytes mFlags mReserve mUsed mSize (s.mDataBuf + UInt32.ofNat (off + 24)) ∧
      load s.data (off + 24) post.length = post := by
  obtain ⟨buf, hbuf⟩ : ∃ p, p = s.mDataBuf + UInt32.ofNat (off + 24) := ⟨_, rfl⟩
  have hbytes : load s.data off (24 + post.length) =
      wordBytes size ++ (quintetBytes mFlags mReserve mUsed mSize buf ++ post) := by
    rw [hbuf, UInt32.ofNat_add, ← add_assoc, quintetBytes]
    simpa [Chunk.bytes, Chunk.length, Nat.add_assoc, Nat.add_comm] using hload
  have hlength : (quintetBytes mFlags mReserve mUsed mSize buf).length = 20 := by
    simp [quintetBytes]
  have hall : 24 + post.length =
      (wordBytes size ++ (quintetBytes mFlags mReserve mUsed mSize buf ++ post)).length := by
    simp [hlength]
    omega
  rw [hall] at hbytes
  obtain ⟨-, hrest⟩ := load_eq_append hbytes
  obtain ⟨hquintet, hpost⟩ := load_eq_append hrest
  rw [hlength, length_wordBytes] at hquintet
  rw [hlength, length_wordBytes] at hpost
  exact ⟨hbuf ▸ hquintet, hpost⟩

theorem decodeAt_arrayOf {v : ArrayArg} (h : s.Stored ⟨.arrayOf (some v), pos, off⟩)
    (hcap : s.mDataBufCapacity < 4294967296)
    (hend : off + (Cell.mk (.arrayOf (some v)) pos off).length ≤ s.mDataBufCapacity)
    (hbuf : s.mDataBuf.toNat + s.mDataBufCapacity ≤ 4294967296) :
    s.decodeAt (.ArrayOf, pos) = some (.arrayOf (some v)) := by
  obtain ⟨hw, hload⟩ := h.chunk _ rfl
  rw [Cell.length, CallbackValue.length_arrayOf] at hend
  obtain ⟨hquintet, hpayload⟩ := quintet_of_chunk hload
  obtain ⟨h1, h2, h3, h4, h5⟩ := quintet_fields _ _ _ _ _ hquintet
  have hptr : s.mElemBuf.word pos = s.mDataBuf + UInt32.ofNat (off + 4) := hw
  have hnull : s.mDataBuf + UInt32.ofNat (off + 4) ≠ 0 := by
    intro h0
    have hnat := congrArg UInt32.toNat h0
    rw [UInt32.toNat_add, UInt32.toNat_ofNat_of_lt' (by rw [UInt32.size]; omega)] at hnat
    rw [Nat.mod_eq_of_lt (by omega)] at hnat
    exact absurd hnat (by simp)
  have hsize : (UInt32.ofNat v.payload.length).toNat = v.payload.length :=
    UInt32.toNat_ofNat_of_lt' (by rw [UInt32.size]; omega)
  have hend20 : off + 4 + 20 ≤ s.mDataBufCapacity := by omega
  have hend' : off + 24 + v.payload.length ≤ s.mDataBufCapacity := by omega
  change (if s.mElemBuf.word pos = 0 then some (CallbackValue.arrayOf none)
    else (s.deref (s.mElemBuf.word pos) 20).bind fun bs =>
      (s.deref (wordOf (bs.drop 16)) (wordOf ((bs.drop 12).take 4)).toNat).map fun payload =>
        CallbackValue.arrayOf (some ⟨wordOf (bs.take 4), wordOf ((bs.drop 4).take 4),
          wordOf ((bs.drop 8).take 4), payload⟩)) = _
  rw [hptr, if_neg hnull, deref_ofNat hcap hend20, Option.bind_some, h1, h2, h3, h4, h5, hsize,
    deref_ofNat hcap hend', hpayload, Option.map_some]

theorem decodeAt_arrayOfString {v : StringsArg} (h : s.Stored ⟨.arrayOfString v, pos, off⟩)
    (hcap : s.mDataBufCapacity < 4294967296)
    (hend : off + (Cell.mk (.arrayOfString v) pos off).length ≤ s.mDataBufCapacity) :
    s.decodeAt (.ArrayOfString, pos) = some (.arrayOfString v) := by
  obtain ⟨hw, hload⟩ := h.chunk _ rfl
  rw [Cell.length, CallbackValue.length_arrayOfString] at hend
  obtain ⟨hquintet, -⟩ := quintet_of_chunk hload
  obtain ⟨h1, h2, h3, h4, h5⟩ := quintet_fields _ _ _ _ _ hquintet
  have hptr : s.mElemBuf.word pos = s.mDataBuf + UInt32.ofNat (off + 4) := hw
  have hsize : (UInt32.ofNat (8 * v.strings.length)).toNat / 8 = v.strings.length := by
    rw [UInt32.toNat_ofNat_of_lt' (by rw [UInt32.size]; omega)]
    omega
  have hend20 : off + 4 + 20 ≤ s.mDataBufCapacity := by omega
  have hstrings : (List.range v.strings.length).mapM (fun i =>
      s.derefString (s.mDataBuf + UInt32.ofNat (off + 24) + UInt32.ofNat (8 * i))) =
        some v.strings := by
    have hall : ∀ i ∈ List.range v.strings.length,
        s.derefString (s.mDataBuf + UInt32.ofNat (off + 24) + UInt32.ofNat (8 * i)) =
          some (v.strings.getD i none) := by
      intro i hi
      rw [List.mem_range] at hi
      have hobj := h.strings _ rfl i _ (List.getElem?_eq_getElem hi)
      rw [add_assoc, ← UInt32.ofNat_add, List.getD_eq_getElem _ _ hi]
      exact derefString_ofNat hcap (by omega) hobj
    rw [mapM_eq_some hall]
    congr 1
    exact List.ext_getElem (by simp) fun i h1 h2 => by simp [List.getElem?_eq_getElem h2]
  change ((s.deref (s.mElemBuf.word pos) 20).bind fun bs =>
    ((List.range ((wordOf ((bs.drop 12).take 4)).toNat / 8)).mapM fun i =>
      s.derefString (wordOf (bs.drop 16) + UInt32.ofNat (8 * i))).map fun strings =>
        CallbackValue.arrayOfString ⟨wordOf (bs.take 4), wordOf ((bs.drop 4).take 4),
          wordOf ((bs.drop 8).take 4), strings⟩) = _
  rw [hptr, deref_ofNat hcap hend20, Option.bind_some, h1, h2, h3, h4, h5, hsize, hstrings,
    Option.map_some]

end DecodeAt

/-- A stored cell inside the data buffer decodes to its value. -/
theorem Stored.decodeAt (h : s.Stored c) (hcap : s.mDataBufCapacity < 4294967296)
    (hend : c.off + c.length ≤ s.mDataBufCapacity)
    (hbuf : s.mDataBuf.toNat + s.mDataBufCapacity ≤ 4294967296) :
    s.decodeAt (c.value.type, c.pos) = some c.value := by
  obtain ⟨value, pos, off⟩ := c
  cases value with
  | byte v =>
    change some (CallbackValue.byte (s.mElemBuf.word pos).toUInt8) = _
    rw [h.word _ rfl, UInt8.toUInt8_toUInt32]
  | boolean v =>
    change some (CallbackValue.boolean (s.mElemBuf.word pos).toUInt8) = _
    rw [h.word _ rfl, UInt8.toUInt8_toUInt32]
  | int16 v =>
    change some (CallbackValue.int16 (s.mElemBuf.word pos).toUInt16) = _
    rw [h.word _ rfl, toUInt16_signExtend]
  | char v => exact congrArg (some ∘ CallbackValue.char) (h.word _ rfl)
  | int32 v => exact congrArg (some ∘ CallbackValue.int32) (h.word _ rfl)
  | float v => exact congrArg (some ∘ CallbackValue.float) (h.word _ rfl)
  | interfacePtr v => exact congrArg (some ∘ CallbackValue.interfacePtr) (h.word _ rfl)
  | int64 v =>
    obtain ⟨hlow, hhigh⟩ := h.dword _ rfl
    change some (CallbackValue.int64 ((s.mElemBuf.word (pos + 4)).toUInt64 <<< 32 |||
      (s.mElemBuf.word pos).toUInt64)) = _
    rw [hlow, hhigh, dword_words]
  | double v =>
    obtain ⟨hlow, hhigh⟩ := h.dword _ rfl
    change some (CallbackValue.double ((s.mElemBuf.word (pos + 4)).toUInt64 <<< 32 |||
      (s.mElemBuf.word pos).toUInt64)) = _
    rw [hlow, hhigh, dword_words]
  | string v => exact congrArg (Option.map CallbackValue.string) (h.string _ rfl)
  | struct v => exact decodeAt_struct h hcap hend
  | emuid v => exact decodeAt_emuid h hcap hend
  | eguid v => exact decodeAt_eguid h hcap hend
  | arrayOf v =>
    cases v with
    | none => exact if_pos (h.word _ rfl)
    | some v => exact decodeAt_arrayOf h hcap hend hbuf
  | arrayOfString v => exact decodeAt_arrayOfString h hcap hend

end CCallbackParcel

end ElastosCar
