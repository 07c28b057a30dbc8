import ElastosCar.Callback.ParcelCells

/-!
# Growing the buffers of a callback parcel

`GrowDataBuffer` moves the data buffer and adjusts the pointers to it. It takes along too much and too
little: a `String` element points to the heap and is adjusted all the same, a null `ArrayOf` is looked
into, and the strings of an `ArrayOfString`, which are in shared buffers, are taken for data of the
parcel. `CallbackValue.Movable` is what it moves as it should (`rebase_spec`).

`Holds` is the invariant of a parcel: its cells lie one behind the other in both buffers, and each is
stored. It makes the parcel decode to the values of the cells (`Holds.decode`), and a move keeps it if
all of them are movable (`Holds.growDataBuffer`).
-/

namespace ElastosCar

/-- What `GrowDataBuffer` can take along: no heap pointer, and nothing null where it looks. -/
def CallbackValue.Movable : CallbackValue → Prop
  | string _ => False
  | arrayOf none => False
  | arrayOfString v => ∀ x ∈ v.strings, x = none
  | _ => True

/-! ### Moving one element -/

namespace Chunk

variable {k : Chunk} {d : Block} {o : ℕ} {addr addr' : UInt32}

/-- The pointer of a chunk. -/
theorem word_inner (hk : k.inner = true) (h : load d o k.length = k.bytes addr) :
    d.word (o + k.pre.length) = addr + 24 := by
  rw [bytes, if_pos hk, ← length_bytes k addr, bytes, if_pos hk] at h
  obtain ⟨-, h⟩ := load_eq_append h
  obtain ⟨h, -⟩ := load_eq_append h
  rw [length_wordBytes] at h
  rw [Block.word, h]
  exact wordOf_wordBytes _

/-- A chunk is moved by adjusting its pointer. -/
theorem load_setWord_inner (hk : k.inner = true) (h : load d o k.length = k.bytes addr) :
    load (d.setWord (o + k.pre.length) (addr' + 24)) o k.length = k.bytes addr' := by
  have hlength : k.length = k.pre.length + (4 + k.post.length) := by
    rw [length, if_pos hk]
    omega
  rw [bytes, if_pos hk, ← length_bytes k addr, bytes, if_pos hk] at h
  obtain ⟨hpre, h⟩ := load_eq_append h
  obtain ⟨-, hpost⟩ := load_eq_append h
  rw [length_wordBytes] at hpost
  have hword : load (d.setWord (o + k.pre.length) (addr' + 24)) (o + k.pre.length) 4 =
      wordBytes (addr' + 24) := by
    have hself := load_store_self d (o + k.pre.length) (wordBytes (addr' + 24))
    rwa [length_wordBytes] at hself
  rw [hlength, load_append, load_append, hword, bytes, if_pos hk,
    Block.load_setWord_of_disjoint (by omega), hpre, Block.load_setWord_of_disjoint (by omega), hpost]

end Chunk

namespace CCallbackParcel

variable {s : CCallbackParcel} {c : Cell} {dataBuf : UInt32} {bufs : Block × Block}

/-- The parcel in the middle of a move: some elements point into the new buffer. -/
abbrev during (s : CCallbackParcel) (dataBuf : UInt32) (bufs : Block × Block) : CCallbackParcel :=
  { s with mElemBuf := bufs.1, mDataBuf := dataBuf, data := bufs.2 }

theorem rebased_ptr (s : CCallbackParcel) (dataBuf : UInt32) (o : ℕ) :
    dataBuf + (s.mDataBuf + UInt32.ofNat o - s.mDataBuf) = dataBuf + UInt32.ofNat o := by
  rw [add_sub_cancel_left]

/-- A value that is stored in the data buffer only. -/
theorem Stored.of_chunk {k : Chunk} (hchunk : c.value.chunk? = some k) (hword : c.value.word? = none)
    (hdword : c.value.dword? = none) (hstring : c.value.string? = none)
    (hptr : s.mElemBuf.word c.pos = s.mDataBuf + UInt32.ofNat (c.off + k.head))
    (hload : load s.data c.off k.length = k.bytes (s.mDataBuf + UInt32.ofNat c.off))
    (hstrings : ∀ l ∈ c.value.strings?, ∀ i v, l[i]? = some v →
      HoldsString s.shared (s.data.word (c.off + 24 + 8 * i)) v) : s.Stored c where
  word w hw := by rw [hword] at hw; cases hw
  dword v hv := by rw [hdword] at hv; cases hv
  string v hv := by rw [hstring] at hv; cases hv
  chunk k' hk' := by
    rw [hchunk] at hk'
    obtain rfl : k = k' := Option.some.inj hk'
    exact ⟨hptr, hload⟩
  strings := hstrings

/-- A value that has nothing in the data buffer is stored wherever that is. -/
theorem Stored.of_no_chunk (h : s.Stored c) (hchunk : c.value.chunk? = none)
    (hstrings : c.value.strings? = none) (dataBuf : UInt32) (data : Block) :
    (s.during dataBuf (s.mElemBuf, data)).Stored c where
  word := h.word
  dword := h.dword
  string := h.string
  chunk k hk := by rw [hchunk] at hk; cases hk
  strings l hl := by rw [hstrings] at hl; cases hl

/-- What a move leaves alone outside a cell. -/
structure Frame (bufs bufs' : Block × Block) (c : Cell) : Prop where
  elem : ∀ i, (i < c.pos ∨ c.pos + c.width ≤ i) → bufs'.1 i = bufs.1 i
  data : ∀ i, (i < c.off ∨ c.off + c.length ≤ i) → bufs'.2 i = bufs.2 i

theorem Frame.refl (bufs : Block × Block) (c : Cell) : Frame bufs bufs c :=
  ⟨fun _ _ => rfl, fun _ _ => rfl⟩

/-- A new element in the place of a cell. -/
theorem Frame.setElem (bufs : Block × Block) (c : Cell) (w : UInt32) :
    Frame bufs (bufs.1.setWord c.pos w, bufs.2) c where
  elem i hi := by
    have hwidth := width_le c.value.type
    refine Block.setWord_apply_of_clear ?_
    rw [Cell.width] at hi
    omega
  data _ _ := rfl

/-- The move of a chunk without a pointer: the element is adjusted. -/
theorem stored_moved {k : Chunk} (dataBuf : UInt32) (hs : (s.during s.mDataBuf bufs).Stored c)
    (hchunk : c.value.chunk? = some k) (hk : k.inner = false) (hword : c.value.word? = none)
    (hdword : c.value.dword? = none) (hstring : c.value.string? = none)
    (hstrings : c.value.strings? = none) :
    (s.during dataBuf (bufs.1.setWord c.pos (dataBuf + UInt32.ofNat (c.off + k.head)), bufs.2)).Stored
      c := by
  refine .of_chunk hchunk hword hdword hstring (Block.word_setWord_self ..) ?_ ?_
  · have hload := (hs.chunk k hchunk).2
    rw [Chunk.bytes, hk] at hload
    rw [Chunk.bytes, hk]
    exact hload
  · intro l hl
    rw [hstrings] at hl
    cases hl

/-- The move of a chunk with a pointer: the element and the pointer are adjusted. -/
theorem stored_moved_inner {k : Chunk} (dataBuf : UInt32) (hs : (s.during s.mDataBuf bufs).Stored c)
    (hchunk : c.value.chunk? = some k) (hk : k.inner = true) (hpre : k.pre.length ≤ 20)
    (hword : c.value.word? = none) (hdword : c.value.dword? = none)
    (hstring : c.value.string? = none) :
    (s.during dataBuf (bufs.1.setWord c.pos (dataBuf + UInt32.ofNat (c.off + k.head)),
        bufs.2.setWord (c.off + k.pre.length) (dataBuf + UInt32.ofNat c.off + 24))).Stored c ∧
      Frame bufs (bufs.1.setWord c.pos (dataBuf + UInt32.ofNat (c.off + k.head)),
        bufs.2.setWord (c.off + k.pre.length) (dataBuf + UInt32.ofNat c.off + 24)) c := by
  have hload := (hs.chunk k hchunk).2
  have hlength : k.pre.length + 4 ≤ c.length := by
    have hle := chunk_le hchunk
    rw [Chunk.length, if_pos hk] at hle
    omega
  refine ⟨.of_chunk hchunk hword hdword hstring (Block.word_setWord_self ..)
    (Chunk.load_setWord_inner hk hload) fun l hl i v hi => ?_, (Frame.setElem bufs c _).elem, ?_⟩
  · have hobj := hs.strings l hl i v hi
    have hkeep : (bufs.2.setWord (c.off + k.pre.length) (dataBuf + UInt32.ofNat c.off + 24)).word
        (c.off + 24 + 8 * i) = bufs.2.word (c.off + 24 + 8 * i) :=
      word_congr fun j h1 _ => Block.setWord_apply_of_clear (by omega)
    rw [hkeep]
    exact hobj
  · intro i hi
    exact Block.setWord_apply_of_clear (by omega)

/-- The pointer that `rebase` finds in a chunk. -/
theorem inner_of_stored {k : Chunk} (hs : s.Stored c) (hchunk : c.value.chunk? = some k)
    (hk : k.inner = true) (hhead : k.pre.length = k.head + 16)
    (hcap : s.mDataBufCapacity < 4294967296) (hend : c.off + c.length ≤ s.mDataBufCapacity) :
    offsetAt s.mDataBuf (s.mElemBuf.word c.pos) = c.off + k.head ∧
      c.off + k.head + 20 ≤ s.mDataBufCapacity ∧
      s.data.word (c.off + k.head + 16) = s.mDataBuf + UInt32.ofNat (c.off + 24) := by
  obtain ⟨hptr, hload⟩ := hs.chunk k hchunk
  have hle := chunk_le hchunk
  rw [Chunk.length, if_pos hk] at hle
  refine ⟨?_, by omega, ?_⟩
  · rw [hptr, s.offsetAt_ofNat (by omega)]
  · rw [Nat.add_assoc, ← hhead, Chunk.word_inner hk hload, UInt32.ofNat_add, ← add_assoc]
    rfl

/-- What `rebase` makes of a chunk with a pointer. -/
theorem rebased_inner {k : Chunk} (dataBuf : UInt32) (hs : s.Stored c) (hchunk : c.value.chunk? = some k)
    (hk : k.inner = true) (hhead : k.pre.length = k.head + 16)
    (hcap : s.mDataBufCapacity < 4294967296) (hend : c.off + c.length ≤ s.mDataBufCapacity)
    (hword : bufs.1.word c.pos = s.mElemBuf.word c.pos) :
    (bufs.1.setWord c.pos (dataBuf + (bufs.1.word c.pos - s.mDataBuf)),
        bufs.2.setWord (offsetAt s.mDataBuf (bufs.1.word c.pos) + 16)
          (dataBuf + (s.data.word (offsetAt s.mDataBuf (bufs.1.word c.pos) + 16) - s.mDataBuf))) =
      (bufs.1.setWord c.pos (dataBuf + UInt32.ofNat (c.off + k.head)),
        bufs.2.setWord (c.off + k.pre.length) (dataBuf + UInt32.ofNat c.off + 24)) := by
  obtain ⟨hoffset, -, hinner⟩ := inner_of_stored hs hchunk hk hhead hcap hend
  have hptr : dataBuf + UInt32.ofNat (c.off + 24) = dataBuf + UInt32.ofNat c.off + 24 := by
    rw [UInt32.ofNat_add, ← add_assoc]
    rfl
  rw [hword, hoffset, hinner, (hs.chunk k hchunk).1, rebased_ptr, rebased_ptr, hptr, hhead,
    ← Nat.add_assoc]

/-- The number of strings that `GrowDataBuffer` and `Clone` find in a stored array. -/
theorem used_of_stored {v : StringsArg} {pos off : ℕ} (hs : s.Stored ⟨.arrayOfString v, pos, off⟩)
    (hcap : s.mDataBufCapacity < 4294967296)
    (hend : off + (Cell.mk (.arrayOfString v) pos off).length ≤ s.mDataBufCapacity) :
    (s.data.word (off + 16)).toNat / 8 = v.strings.length ∧
      off + 24 + 8 * v.strings.length ≤ s.mDataBufCapacity := by
  rw [Cell.length, CallbackValue.length_arrayOfString] at hend
  obtain ⟨hquintet, -⟩ := quintet_of_chunk (hs.chunk _ rfl).2
  have hsize : s.data.word (off + 16) = UInt32.ofNat (8 * v.strings.length) := by
    obtain ⟨-, -, -, hd, -⟩ := quintet_fields _ _ _ _ _ hquintet
    rw [load_append _ _ 12 8, List.drop_left' (by simp), load_append _ _ 4 4,
      List.take_left' (by simp)] at hd
    exact hd
  refine ⟨?_, by omega⟩
  rw [hsize, UInt32.toNat_ofNat_of_lt' (by rw [UInt32.size]; omega)]
  omega

/-- `rebase` moves a movable value. -/
theorem rebase_spec (hs : s.Stored c) (hmov : c.value.Movable)
    (hcap : s.mDataBufCapacity < 4294967296) (hend : c.off + c.length ≤ s.mDataBufCapacity)
    (helem : ∀ i, c.pos ≤ i → i < c.pos + c.width → bufs.1 i = s.mElemBuf i)
    (hdata : ∀ i, c.off ≤ i → i < c.off + c.length → bufs.2 i = s.data i) :
    ∃ bufs', s.rebase dataBuf bufs (c.value.type, c.pos) = some bufs' ∧
      (s.during dataBuf bufs').Stored c ∧ Frame bufs bufs' c := by
  have hnow : (s.during s.mDataBuf bufs).Stored c :=
    hs.congr helem hdata rfl (fun _ _ h => h) (fun _ _ h => h)
  have hwordnow : bufs.1.word c.pos = s.mElemBuf.word c.pos := by
    have hwidth := width_le c.value.type
    exact word_congr fun i h1 h2 => helem i h1 (by rw [Cell.width]; omega)
  obtain ⟨value, pos, off⟩ := c
  have hplain : value.chunk? = none → value.strings? = none →
      (s.during dataBuf bufs).Stored ⟨value, pos, off⟩ := fun h1 h2 =>
    hnow.of_no_chunk h1 h2 dataBuf bufs.2
  cases value with
  | byte | boolean | char | int16 | int32 | int64 | float | double | interfacePtr =>
    exact ⟨bufs, rfl, hplain rfl rfl, .refl bufs _⟩
  | string => exact absurd hmov id
  | struct v =>
    obtain ⟨k, hchunk, hk⟩ : ∃ k, (CallbackValue.struct v).chunk? = some k ∧ k.inner = false :=
      ⟨_, rfl, rfl⟩
    have hptr : bufs.1.word pos = s.mDataBuf + UInt32.ofNat (off + k.head) :=
      hwordnow.trans (hs.chunk k hchunk).1
    refine ⟨_, ?_, stored_moved dataBuf hnow hchunk hk rfl rfl rfl rfl, .setElem bufs _ _⟩
    rw [← rebased_ptr s dataBuf (off + k.head), ← hptr]
    rfl
  | emuid v =>
    obtain ⟨k, hchunk, hk⟩ : ∃ k, (CallbackValue.emuid v).chunk? = some k ∧ k.inner = false :=
      ⟨_, rfl, rfl⟩
    have hptr : bufs.1.word pos = s.mDataBuf + UInt32.ofNat (off + k.head) :=
      hwordnow.trans (hs.chunk k hchunk).1
    refine ⟨_, ?_, stored_moved dataBuf hnow hchunk hk rfl rfl rfl rfl, .setElem bufs _ _⟩
    rw [← rebased_ptr s dataBuf (off + k.head), ← hptr]
    rfl
  | eguid v =>
    obtain ⟨k, hchunk, hk, hhead, hpre⟩ : ∃ k, (CallbackValue.eguid v).chunk? = some k ∧
        k.inner = true ∧ k.pre.length = k.head + 16 ∧ k.pre.length ≤ 20 :=
      ⟨_, rfl, rfl, by simp, by simp⟩
    have hrebased := rebased_inner dataBuf hs hchunk hk hhead hcap hend hwordnow
    obtain ⟨hoffset, hfits, -⟩ := inner_of_stored hs hchunk hk hhead hcap hend
    refine ⟨_, ?_, stored_moved_inner dataBuf hnow hchunk hk hpre rfl rfl rfl⟩
    rw [← hrebased]
    refine if_pos ?_
    rw [hwordnow, hoffset]
    exact hfits
  | arrayOf v =>
    cases v with
    | none => exact absurd hmov id
    | some v =>
      obtain ⟨k, hchunk, hk, hhead, hpre⟩ : ∃ k, (CallbackValue.arrayOf (some v)).chunk? = some k ∧
          k.inner = true ∧ k.pre.length = k.head + 16 ∧ k.pre.length ≤ 20 :=
        ⟨_, rfl, rfl, by simp, by simp⟩
      have hrebased := rebased_inner dataBuf hs hchunk hk hhead hcap hend hwordnow
      obtain ⟨hoffset, hfits, -⟩ := inner_of_stored hs hchunk hk hhead hcap hend
      refine ⟨_, ?_, stored_moved_inner dataBuf hnow hchunk hk hpre rfl rfl rfl⟩
      rw [← hrebased]
      refine if_pos ?_
      rw [hwordnow, hoffset]
      exact hfits
  | arrayOfString v =>
    obtain ⟨k, hchunk, hk, hhead, hpre, hfour⟩ : ∃ k, (CallbackValue.arrayOfString v).chunk? = some k ∧
        k.inner = true ∧ k.pre.length = k.head + 16 ∧ k.pre.length ≤ 20 ∧ k.head = 4 :=
      ⟨_, rfl, rfl, by simp, by simp, rfl⟩
    have hrebased := rebased_inner dataBuf hs hchunk hk hhead hcap hend hwordnow
    obtain ⟨hoffset, hfits, hinner⟩ := inner_of_stored hs hchunk hk hhead hcap hend
    refine ⟨_, ?_, stored_moved_inner dataBuf hnow hchunk hk hpre rfl rfl rfl⟩
    rw [← hrebased]
    refine (if_pos ?_).trans (if_pos fun i hi => ?_)
    · rw [hwordnow, hoffset]
      exact hfits
    · obtain ⟨hused, hobjects⟩ := used_of_stored hs hcap hend
      have hi' : i < v.strings.length := by
        rw [hwordnow, hoffset, hinner] at hi
        split at hi
        · rwa [show off + k.head + 12 = off + 16 by omega, hused] at hi
        · exact absurd hi (Nat.not_lt_zero i)
      have h24 : off + 24 < 4294967296 := by omega
      rw [hwordnow, hoffset, hinner, s.offsetAt_ofNat h24]
      have hle : off + 24 + 8 * i + 8 ≤ off + 24 + 8 * v.strings.length := by omega
      refine ⟨hle.trans hobjects, ?_⟩
      have hobj := hs.strings _ rfl i _ (List.getElem?_eq_getElem hi')
      rw [hmov _ (List.getElem_mem hi')] at hobj
      exact hobj

/-! ### Moving all elements -/

/-- Two cells one behind the other in both buffers. -/
def Before (a b : Cell) : Prop := a.pos + a.width ≤ b.pos ∧ a.off + a.length ≤ b.off

/-- The loop of `GrowDataBuffer` moves all cells if it can move each. -/
theorem foldlM_rebase {cells : List Cell} (dataBuf : UInt32) (hcap : s.mDataBufCapacity < 4294967296)
    (hstored : ∀ c ∈ cells, s.Stored c ∧ c.value.Movable ∧ c.off + c.length ≤ s.mDataBufCapacity)
    (hbefore : cells.Pairwise Before) :
    ∀ bufs : Block × Block,
      (∀ c ∈ cells, (∀ i, c.pos ≤ i → i < c.pos + c.width → bufs.1 i = s.mElemBuf i) ∧
        ∀ i, c.off ≤ i → i < c.off + c.length → bufs.2 i = s.data i) →
      ∃ bufs', (cells.map fun c => (c.value.type, c.pos)).foldlM (s.rebase dataBuf) bufs =
          some bufs' ∧
        (∀ c ∈ cells, (s.during dataBuf bufs').Stored c) ∧
        (∀ i, (∀ c ∈ cells, i < c.pos ∨ c.pos + c.width ≤ i) → bufs'.1 i = bufs.1 i) ∧
        ∀ i, (∀ c ∈ cells, i < c.off ∨ c.off + c.length ≤ i) → bufs'.2 i = bufs.2 i := by
  induction cells with
  | nil => exact fun bufs _ => ⟨bufs, rfl, fun c hc => absurd hc List.not_mem_nil,
      fun _ _ => rfl, fun _ _ => rfl⟩
  | cons c cells ih =>
    intro bufs hbufs
    obtain ⟨hfirst, hrest⟩ := List.pairwise_cons.mp hbefore
    obtain ⟨⟨hs, hmov, hend⟩, hstored⟩ := List.forall_mem_cons.mp hstored
    obtain ⟨⟨helem, hdata⟩, hbufs⟩ := List.forall_mem_cons.mp hbufs
    obtain ⟨bufs1, hrebase, hmoved, hframe⟩ := rebase_spec hs hmov hcap hend helem hdata
    obtain ⟨bufs', hfold, hall, helem', hdata'⟩ := ih hstored hrest bufs1 fun b hb => by
      obtain ⟨hpos, hoff⟩ := hfirst b hb
      refine ⟨fun i h1 h2 => ?_, fun i h1 h2 => ?_⟩
      · rw [hframe.elem i (.inr (by omega))]
        exact (hbufs b hb).1 i h1 h2
      · rw [hframe.data i (.inr (by omega))]
        exact (hbufs b hb).2 i h1 h2
    refine ⟨bufs', ?_, List.forall_mem_cons.mpr ⟨?_, hall⟩, fun i hi => ?_, fun i hi => ?_⟩
    · rw [List.map_cons, List.foldlM_cons, hrebase]
      exact hfold
    · -- the later passes leave the first cell alone
      refine hmoved.congr (fun i h1 h2 => helem' i fun b hb => ?_)
        (fun i h1 h2 => hdata' i fun b hb => ?_) rfl (fun _ _ h => h) (fun _ _ h => h)
      · have hpos := (hfirst b hb).1
        exact .inl (by omega)
      · have hoff := (hfirst b hb).2
        exact .inl (by omega)
    · obtain ⟨hi, hirest⟩ := List.forall_mem_cons.mp hi
      rw [helem' i hirest, hframe.elem i hi]
    · obtain ⟨hi, hirest⟩ := List.forall_mem_cons.mp hi
      rw [hdata' i hirest, hframe.data i hi]

/-! ### The invariant -/

/-- Where the walk over the elements ends. -/
def endPtr (arm : Bool) : ℕ → List CallbackType → ℕ
  | elemPtr, [] => elemPtr
  | elemPtr, type :: l => endPtr arm (place arm elemPtr type + width type) l

theorem elemPtrs_append (arm : Bool) (type : CallbackType) :
    ∀ (elemPtr : ℕ) (l : List CallbackType), elemPtrs arm elemPtr (l ++ [type]) =
      elemPtrs arm elemPtr l ++ [(type, place arm (endPtr arm elemPtr l) type)]
  | _, [] => rfl
  | elemPtr, t :: l => by
    rw [List.cons_append, elemPtrs, elemPtrs_append arm type _ l]
    rfl

theorem endPtr_append (arm : Bool) (type : CallbackType) :
    ∀ (elemPtr : ℕ) (l : List CallbackType), endPtr arm elemPtr (l ++ [type]) =
      place arm (endPtr arm elemPtr l) type + width type
  | _, [] => rfl
  | _, _ :: l => endPtr_append arm type _ l

theorem le_place (arm : Bool) (elemPtr : ℕ) (type : CallbackType) :
    elemPtr ≤ place arm elemPtr type := by
  cases arm <;> cases type <;> simp [place, ROUND8] <;> omega

/-- The pointers of a parcel are inside the buffers, and aligned. The empty string is in its place. -/
structure Room (s : CCallbackParcel) : Prop where
  elem : s.mElemPtr ≤ s.mElemBufCapacity
  elem4 : 4 ∣ s.mElemPtr
  elem8 : 8 ∣ s.mElemBufCapacity
  data : s.mDataPtr ≤ s.mDataBufCapacity
  data4 : 4 ∣ s.mDataPtr
  capacity4 : 4 ∣ s.mDataBufCapacity
  address : s.mDataBuf.toNat + s.mDataBufCapacity ≤ 4294967296
  capacity : s.mDataBufCapacity < 4294967296
  empty : s.gElEmptyString ≠ 0 ∧ s.shared s.gElEmptyString = some [0]

/-- The parcel holds the values of the cells, and nothing else. -/
structure Holds (arm : Bool) (s : CCallbackParcel) (cells : List Cell) : Prop where
  room : s.Room
  types : s.mElemTypes.length ≤ s.mTypeBufCapacity
  elems : elemPtrs arm 0 s.mElemTypes = cells.map fun c => (c.value.type, c.pos)
  ptr : s.mElemPtr = endPtr arm 0 s.mElemTypes
  stored : ∀ c ∈ cells, s.Stored c
  below : ∀ c ∈ cells, c.pos + c.width ≤ s.mElemPtr ∧ c.off + c.length ≤ s.mDataPtr
  before : cells.Pairwise Before

namespace Holds

variable {arm : Bool} {cells : List Cell}

/-- Decoding a parcel gives the values of its cells. -/
theorem decode (h : Holds arm s cells) : s.decode arm = some (cells.map Cell.value) := by
  rw [CCallbackParcel.decode, h.elems, List.mapM_map]
  refine mapM_eq_some fun c hc => (h.stored c hc).decodeAt h.room.capacity ?_ h.room.address
  exact (h.below c hc).2.trans h.room.data

/-- Moving a parcel of movable values. -/
theorem growDataBuffer (h : Holds arm s cells) (hmov : ∀ c ∈ cells, c.value.Movable) (a : Allocs)
    {minSize : ℕ} (h4 : 4 ∣ minSize)
    (haddress : a.dataBuf.toNat + (s.mDataBufCapacity + growth minSize) ≤ 4294967296)
    (hcapacity : s.mDataBufCapacity + growth minSize < 4294967296) :
    ∃ bufs : Block × Block, s.GrowDataBuffer arm a minSize = some { s with
        mElemBuf := bufs.1
        mDataBuf := a.dataBuf
        data := bufs.2
        mDataBufCapacity := s.mDataBufCapacity + growth minSize } ∧
      Holds arm { s with
        mElemBuf := bufs.1
        mDataBuf := a.dataBuf
        data := bufs.2
        mDataBufCapacity := s.mDataBufCapacity + growth minSize } cells ∧
      ∀ i, s.mDataPtr ≤ i → bufs.2 i = a.dataFill i := by
  obtain ⟨bufs, hfold, hall, -, hdata⟩ := foldlM_rebase a.dataBuf h.room.capacity
    (fun c hc => ⟨h.stored c hc, hmov c hc, (h.below c hc).2.trans h.room.data⟩) h.before
    (s.mElemBuf, s.moved a) fun c hc => ⟨fun _ _ _ => rfl, fun i _ hi => by
      have hle := (h.below c hc).2
      exact if_pos (by omega)⟩
  refine ⟨bufs, ?_, ⟨⟨h.room.elem, h.room.elem4, h.room.elem8, ?_, h.room.data4, ?_, haddress,
    hcapacity, h.room.empty⟩, h.types, h.elems, h.ptr, fun c hc => ?_, h.below, h.before⟩, fun i hi => ?_⟩
  · rw [GrowDataBuffer, if_pos h.room.data, h.elems, hfold, Option.map_some]
  · exact h.room.data.trans (Nat.le_add_right _ _)
  · refine Nat.dvd_add h.room.capacity4 ?_
    rw [growth]
    split <;> omega
  · exact (hall c hc).congr (fun _ _ _ => rfl) (fun _ _ _ => rfl) rfl (fun _ _ h => h)
      (fun _ _ h => h)
  · rw [hdata i fun c hc => .inr ((h.below c hc).2.trans hi)]
    exact if_neg (by omega)

/-- A write behind the cells adds a cell. -/
theorem push {s' : CCallbackParcel} {v : CallbackValue} (h : Holds arm s cells) (hroom : s'.Room)
    (hcount : s'.mElemTypes.length ≤ s'.mTypeBufCapacity)
    (htypes : s'.mElemTypes = s.mElemTypes ++ [v.type])
    (hptr : s'.mElemPtr = place arm s.mElemPtr v.type + width v.type)
    (hend : s.mDataPtr + v.length ≤ s'.mDataPtr)
    (helem : ∀ i < s.mElemPtr, s'.mElemBuf i = s.mElemBuf i)
    (hdata : ∀ i < s.mDataPtr, s'.data i = s.data i)
    (hbuf : s'.mDataBuf = s.mDataBuf)
    (hstrings : ∀ p x, s.strings p = some x → s'.strings p = some x)
    (hshared : ∀ p x, s.shared p = some x → s'.shared p = some x)
    (hstored : s'.Stored ⟨v, place arm s.mElemPtr v.type, s.mDataPtr⟩) :
    Holds arm s' (cells ++ [⟨v, place arm s.mElemPtr v.type, s.mDataPtr⟩]) := by
  have hplace := le_place arm s.mElemPtr v.type
  refine ⟨hroom, hcount, ?_, ?_, ?_, ?_, ?_⟩
  · rw [htypes, elemPtrs_append, h.elems, ← h.ptr, List.map_append]
    rfl
  · rw [htypes, endPtr_append, ← h.ptr, hptr]
  · intro c hc
    rcases List.mem_append.mp hc with hc | hc
    · obtain ⟨hpos, hoff⟩ := h.below c hc
      exact (h.stored c hc).congr (fun i _ hi => helem i (by omega))
        (fun i _ hi => hdata i (by omega)) hbuf hstrings hshared
    · obtain rfl := List.mem_singleton.mp hc
      exact hstored
  · intro c hc
    rcases List.mem_append.mp hc with hc | hc
    · obtain ⟨hpos, hoff⟩ := h.below c hc
      exact ⟨by omega, by omega⟩
    · obtain rfl := List.mem_singleton.mp hc
      exact ⟨hptr.ge, hend⟩
  · refine List.pairwise_append.mpr ⟨h.before, List.pairwise_singleton _ _, fun c hc b hb => ?_⟩
    obtain rfl := List.mem_singleton.mp hb
    obtain ⟨hpos, hoff⟩ := h.below c hc
    exact ⟨hpos.trans hplace, hoff⟩

end Holds

end CCallbackParcel

end ElastosCar
