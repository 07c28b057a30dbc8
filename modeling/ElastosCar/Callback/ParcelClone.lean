import ElastosCar.Callback.ParcelDestructor

/-!
# Cloning a callback parcel

`Clone` reads the elements of a parcel and writes each to another with `WriteValue`. It reconstructs the
size that the `Write` function had passed on, and for an `EGuid` that is `sizeof(EGuid)`, so that the
name is not counted. Of an `ArrayOf` the size is read in front of the array, also where that is null.

Without these two a clone is a sequence of the same writes (`clone_eq_run`). If they are spared the
other defects as well, the clone holds what the parcel held, in its own data buffer, and the strings
that the destructor of the parcel deletes are not those of the clone (`clone_of_spared`).
-/

namespace ElastosCar

/-- The values that `Clone` passes on as they were written. -/
structure CallbackValue.Clonable (v : CallbackValue) : Prop where
  name : v.type ≠ .EGuid
  array : v ≠ .arrayOf none

namespace CCallbackParcel

/-! ### The code -/

/-- What a case of `Clone` reads and passes to `WriteValue`. -/
def cloneAt (s : CCallbackParcel) (elem : CallbackType × ℕ) : Option CallbackValue :=
  let w := s.mElemBuf.word elem.2
  let size := (s.deref (w - 4) 4).map fun bs => (wordOf bs).toNat
  match elem.1 with
  | .ArrayOf => size.bind fun size =>
    if w = 0 then some (.arrayOf none)
    else (s.deref w 20).bind fun bs =>
      (s.deref (wordOf (bs.drop 16)) (size - 20)).map fun payload =>
        .arrayOf (some ⟨wordOf (bs.take 4), wordOf ((bs.drop 4).take 4), wordOf ((bs.drop 8).take 4),
          payload⟩)
  -- here the size is what WriteArrayOfString has computed
  | .ArrayOfString => size.bind fun _ => s.decodeAt elem
  | _ => s.decodeAt elem

/-- The switch of `WriteValue` with the size that `Clone` passes on. -/
def cloneValue (arm : Bool) (a : Allocs) : CallbackValue → CCallbackParcel → Option CCallbackParcel
  | .eguid v => putEGuid arm a 24 v
  | v => put arm a v

def cloneFrom (arm : Bool) (src : CCallbackParcel) (allocs : ℕ → Allocs) :
    ℕ → List (CallbackType × ℕ) → CCallbackParcel → Option CCallbackParcel
  | _, [], s => some s
  | i, elem :: l, s => (src.cloneAt elem).bind fun v =>
      (s.writeElem elem.1 (cloneValue arm (allocs i) v)).bind (cloneFrom arm src allocs (i + 1) l)

/-- `Clone`, with the allocations of its calls of `WriteValue`. -/
def Clone (arm : Bool) (src : CCallbackParcel) (allocs : ℕ → Allocs) (s : CCallbackParcel) :
    Option CCallbackParcel :=
  cloneFrom arm src allocs 0 (elemPtrs arm 0 src.mElemTypes) s

variable {arm : Bool} {s s' src : CCallbackParcel} {a : Allocs} {v : CallbackValue}

/-! ### A clone is a sequence of writes -/

/-- The size before a stored array. -/
theorem deref_size {c : Cell} {k : Chunk} {size : UInt32} (h : s.Stored c)
    (hcap : s.mDataBufCapacity < 4294967296) (hend : c.off + c.length ≤ s.mDataBufCapacity)
    (hchunk : c.value.chunk? = some k) (hhead : k.head = 4)
    (hsize : ∀ addr, (k.bytes addr).take 4 = wordBytes size) :
    (s.deref (s.mElemBuf.word c.pos - 4) 4).map (fun bs => (wordOf bs).toNat) = some size.toNat := by
  obtain ⟨hptr, hload⟩ := h.chunk k hchunk
  have hle : 4 ≤ k.length := by
    have htake := congrArg List.length (hsize 0)
    rw [List.length_take, Chunk.length_bytes, length_wordBytes] at htake
    omega
  have hchunkle := chunk_le hchunk
  have hbefore : s.mDataBuf + UInt32.ofNat (c.off + k.head) - 4 = s.mDataBuf + UInt32.ofNat c.off := by
    rw [hhead, UInt32.ofNat_add, ← add_assoc]
    exact add_sub_cancel_right _ _
  have hfour : load s.data c.off 4 = wordBytes size := by
    obtain ⟨r, hr⟩ := Nat.exists_eq_add_of_le hle
    rw [← hsize (s.mDataBuf + UInt32.ofNat c.off), ← hload, hr, load_append,
      List.take_left' (length_load _ _ _)]
  rw [hptr, hbefore, deref_ofNat hcap (by omega), hfour, Option.map_some, wordOf_wordBytes]

theorem cloneAt_arrayOf {v : ArrayArg} {pos off : ℕ} (h : s.Stored ⟨.arrayOf (some v), pos, off⟩)
    (hcap : s.mDataBufCapacity < 4294967296)
    (hend : off + (Cell.mk (.arrayOf (some v)) pos off).length ≤ s.mDataBufCapacity)
    (hbuf : s.mDataBuf.toNat + s.mDataBufCapacity ≤ 4294967296) :
    s.cloneAt (.ArrayOf, pos) = some (.arrayOf (some v)) := by
  have hdecode := decodeAt_arrayOf h hcap hend hbuf
  obtain ⟨hw, hload⟩ := h.chunk _ rfl
  obtain ⟨hquintet, -⟩ := quintet_of_chunk hload
  obtain ⟨-, -, -, h4, -⟩ := quintet_fields _ _ _ _ _ hquintet
  obtain ⟨k, hchunk, hhead, hsize⟩ : ∃ k, (CallbackValue.arrayOf (some v)).chunk? = some k ∧
      k.head = 4 ∧ ∀ addr, (k.bytes addr).take 4 =
        wordBytes (UInt32.ofNat (20 + v.payload.length)) :=
    ⟨_, rfl, rfl, fun _ => by simp [Chunk.bytes]⟩
  have hread := deref_size h hcap hend hchunk hhead hsize
  rw [Cell.length, CallbackValue.length_arrayOf] at hend
  have hptr : s.mElemBuf.word pos = s.mDataBuf + UInt32.ofNat (off + 4) := hw
  have hend20 : off + 4 + 20 ≤ s.mDataBufCapacity := by omega
  have hnat : ∀ n, n ≤ 24 + v.payload.length → (UInt32.ofNat n).toNat = n := fun n hn =>
    UInt32.toNat_ofNat_of_lt' (by rw [UInt32.size]; omega)
  change ((s.deref (s.mElemBuf.word pos - 4) 4).map fun bs => (wordOf bs).toNat).bind (fun size =>
    if s.mElemBuf.word pos = 0 then some (CallbackValue.arrayOf none)
    else (s.deref (s.mElemBuf.word pos) 20).bind fun bs =>
      (s.deref (wordOf (bs.drop 16)) (size - 20)).map fun payload =>
        CallbackValue.arrayOf (some ⟨wordOf (bs.take 4), wordOf ((bs.drop 4).take 4),
          wordOf ((bs.drop 8).take 4), payload⟩)) = _
  change (if s.mElemBuf.word pos = 0 then some (CallbackValue.arrayOf none)
    else (s.deref (s.mElemBuf.word pos) 20).bind fun bs =>
      (s.deref (wordOf (bs.drop 16)) (wordOf ((bs.drop 12).take 4)).toNat).map fun payload =>
        CallbackValue.arrayOf (some ⟨wordOf (bs.take 4), wordOf ((bs.drop 4).take 4),
          wordOf ((bs.drop 8).take 4), payload⟩)) = _ at hdecode
  -- the size without the quintet is the length in it
  rw [hptr, deref_ofNat hcap hend20, Option.bind_some, h4, hnat _ (by omega)] at hdecode
  rw [hread, Option.bind_some, hptr, deref_ofNat hcap hend20, Option.bind_some, hnat _ (by omega),
    Nat.add_sub_cancel_left]
  exact hdecode

theorem cloneAt_eq {c : Cell} (h : s.Stored c) (hcap : s.mDataBufCapacity < 4294967296)
    (hend : c.off + c.length ≤ s.mDataBufCapacity)
    (hbuf : s.mDataBuf.toNat + s.mDataBufCapacity ≤ 4294967296) (hv : c.value.Clonable) :
    s.cloneAt (c.value.type, c.pos) = some c.value := by
  have hdecode := h.decodeAt hcap hend hbuf
  obtain ⟨value, pos, off⟩ := c
  cases value with
  | arrayOf v =>
    cases v with
    | none => exact absurd rfl hv.array
    | some v => exact cloneAt_arrayOf h hcap hend hbuf
  | arrayOfString v =>
    obtain ⟨k, hchunk, hhead, hsize⟩ : ∃ k, (CallbackValue.arrayOfString v).chunk? = some k ∧
        k.head = 4 ∧ ∀ addr, (k.bytes addr).take 4 =
          wordBytes (UInt32.ofNat (stringsSize v.strings)) :=
      ⟨_, rfl, rfl, fun _ => by simp [Chunk.bytes]⟩
    have hread := deref_size h hcap hend hchunk hhead hsize
    change ((s.deref (s.mElemBuf.word pos - 4) 4).map fun bs => (wordOf bs).toNat).bind
      (fun _ => s.decodeAt (.ArrayOfString, pos)) = _
    rw [hread]
    exact hdecode
  | _ => exact hdecode

/-- The calls that write the values, with their allocations. -/
def callsFrom (allocs : ℕ → Allocs) : ℕ → List CallbackValue → List Call
  | _, [] => []
  | i, v :: l => ⟨v, allocs i⟩ :: callsFrom allocs (i + 1) l

theorem callsFrom_values (allocs : ℕ → Allocs) :
    ∀ (i : ℕ) (l : List CallbackValue), (callsFrom allocs i l).map Call.value = l
  | _, [] => rfl
  | i, v :: l => congrArg (v :: ·) (callsFrom_values allocs (i + 1) l)

theorem cloneValue_eq (hv : v.Clonable) : cloneValue arm a v = put arm a v := by
  cases v with
  | eguid v => exact absurd rfl hv.name
  | _ => rfl

theorem clone_eq_run {allocs : ℕ → Allocs} {cells : List Cell}
    (hread : ∀ c ∈ cells, c.value.Clonable ∧ src.cloneAt (c.value.type, c.pos) = some c.value) :
    ∀ {i : ℕ} {t : Session}, cloneFrom arm src allocs i (cells.map fun c => (c.value.type, c.pos))
        t.parcel =
      (Trace.run (Session.step arm) t (callsFrom allocs i (cells.map Cell.value))).map
        Session.parcel := by
  induction cells with
  | nil => exact rfl
  | cons c cells ih =>
    intro i t
    obtain ⟨⟨hv, hthis⟩, hrest⟩ := List.forall_mem_cons.mp hread
    rw [List.map_cons, cloneFrom, hthis, Option.bind_some, cloneValue_eq hv]
    change (t.parcel.WriteValue arm c.value (allocs i)).bind _ =
      ((Session.step arm t ⟨c.value, allocs i⟩).bind _).map _
    rw [Session.step]
    cases t.parcel.WriteValue arm c.value (allocs i) with
    | none => rfl
    | some parcel => exact ih hrest (t := ⟨parcel, t.written ++ [c.value]⟩)

/-! ### The buffer and the strings of a parcel -/

/-- What a case of the switch does to the data buffer and the strings. -/
structure Moves (s : CCallbackParcel) (a : Allocs) (need : ℕ) (s' : CCallbackParcel) : Prop where
  mDataBuf : s'.mDataBuf = if s.Full need then a.dataBuf else s.mDataBuf
  mDataBufCapacity : s'.mDataBufCapacity = s.capacityFor need
  strings : ∀ p x, s.strings p = some x → s'.strings p = some x

theorem Moves.of_same {need : ℕ} (hfull : ¬ s.Full need) (hbuf : s'.mDataBuf = s.mDataBuf)
    (hcap : s'.mDataBufCapacity = s.mDataBufCapacity)
    (hstrings : ∀ p x, s.strings p = some x → s'.strings p = some x) : s.Moves a need s' where
  mDataBuf := by rw [if_neg hfull, hbuf]
  mDataBufCapacity := by rw [capacityFor, if_neg hfull, hcap]
  strings := hstrings

theorem Moves.reserve {need : ℕ} (h : s.reserve arm a need = some s') : s.Moves a need s' := by
  by_cases hfull : s.Full need
  · have hgrow : s.GrowDataBuffer arm a need = some s' := (if_pos hfull).symm.trans h
    obtain ⟨-, hmap⟩ := Option.ite_none_right_eq_some.mp hgrow
    obtain ⟨bufs, -, rfl⟩ := Option.map_eq_some_iff.mp hmap
    exact ⟨(if_pos hfull).symm, (if_pos hfull).symm, fun _ _ h => h⟩
  · have heq : some s = some s' := (if_neg hfull).symm.trans h
    obtain rfl := Option.some.inj heq
    exact .of_same hfull rfl rfl fun _ _ h => h

theorem Moves.putData {need head advance : ℕ} {bytes : UInt32 → List UInt8}
    (h : s.putData arm a need head bytes advance = some s') : s.Moves a need s' := by
  obtain ⟨s1, hreserve, hrest⟩ := Option.bind_eq_some_iff.mp h
  have hmoves := Moves.reserve hreserve
  obtain ⟨-, hword⟩ := Option.ite_none_right_eq_some.mp hrest
  obtain ⟨-, heq⟩ := Option.ite_none_right_eq_some.mp hword
  obtain rfl := Option.some.inj heq
  exact ⟨hmoves.mDataBuf, hmoves.mDataBufCapacity, hmoves.strings⟩

theorem Moves.put (hdata : s.mDataPtr ≤ s.mDataBufCapacity) (hnew : s.strings a.newString = none)
    (h : s.put arm a v = some s') : s.Moves a v.need s' := by
  have hzero : ¬ s.Full 0 := Nat.not_lt_of_le hdata
  have hword : ∀ {w : UInt32}, s.putWord w = some s' → s.Moves a 0 s' := fun h => by
    obtain ⟨-, heq⟩ := Option.ite_none_right_eq_some.mp h
    obtain rfl := Option.some.inj heq
    exact .of_same hzero rfl rfl fun _ _ h => h
  cases v with
  | byte | boolean | char | int16 | int32 | float | interfacePtr => exact hword h
  | int64 | double =>
    rw [CCallbackParcel.put, putDword_eq] at h
    obtain ⟨s1, hlow, hhigh⟩ := Option.bind_eq_some_iff.mp h
    obtain ⟨-, heq⟩ := Option.ite_none_right_eq_some.mp hlow
    obtain rfl := Option.some.inj heq
    obtain ⟨-, heq⟩ := Option.ite_none_right_eq_some.mp hhigh
    obtain rfl := Option.some.inj heq
    exact .of_same hzero rfl rfl fun _ _ h => h
  | string x =>
    obtain ⟨-, heq⟩ := Option.ite_none_right_eq_some.mp h
    obtain rfl := Option.some.inj heq
    refine .of_same hzero rfl rfl fun p y hy => ?_
    have hne : p ≠ a.newString := by
      rintro rfl
      rw [hnew] at hy
      cases hy
    rw [← hy]
    exact Function.update_of_ne hne _ _
  | struct v =>
    have hput : s.putStruct arm a v = some s' := h
    rw [putStruct] at hput
    exact .putData hput
  | emuid v =>
    have hput : s.putEMuid arm a v = some s' := h
    rw [putEMuid] at hput
    exact .putData hput
  | eguid v =>
    have hput : s.putEGuid arm a (24 + v.mUunm.chars.length + 1) v = some s' := h
    rw [putEGuid] at hput
    exact .putData hput
  | arrayOf v =>
    cases v with
    | none => exact hword h
    | some v =>
      have hput : s.putArrayOf arm a (some v) = some s' := h
      rw [putArrayOf] at hput
      exact .putData hput
  | arrayOfString v =>
    obtain ⟨s1, hput, hassign⟩ := Option.bind_eq_some_iff.mp h
    have hmoves : s.Moves a (ROUND4 (stringsSize v.strings) + 4) s1 := .putData hput
    obtain ⟨-, -, -, hbuf, hcap, hstrings⟩ := assignStrings_elem hassign
    refine ⟨hbuf.trans hmoves.mDataBuf, hcap.trans hmoves.mDataBufCapacity, ?_⟩
    rw [hstrings]
    exact hmoves.strings

/-! ### A parcel beside another -/

/-- The address is one of the data buffer. -/
def InBuffer (s : CCallbackParcel) (p : UInt32) : Prop :=
  offsetAt s.mDataBuf p < s.mDataBufCapacity

/-- A spared call whose allocations are apart from the other parcel. -/
structure SparedBeside (src : CCallbackParcel) (t : Session) (c : Call) : Prop
    extends t.Spared c where
  apart : t.parcel.Full c.value.need → ∀ p,
    offsetAt c.alloc.dataBuf p < t.parcel.capacityFor c.value.need → ¬ src.InBuffer p

/-- The parcel has a data buffer and `String` objects of its own. -/
structure Beside (arm : Bool) (src : CCallbackParcel) (t : Session) : Prop where
  sound : t.Sound arm
  strings : ∀ p x, src.strings p = some x → t.parcel.strings p = some x
  fresh : ∀ e ∈ elemPtrs arm 0 t.parcel.mElemTypes, e.1 = .String →
    src.strings (t.parcel.mElemBuf.word e.2) = none
  apart : ∀ p, t.parcel.InBuffer p → ¬ src.InBuffer p

theorem exists_of_type (h : v.type = .String) : ∃ x, v = .string x := by
  cases v with
  | string x => exact ⟨x, rfl⟩
  | _ => cases h

/-- The cell of a string. -/
theorem Holds.exists_string {cells : List Cell} (h : Holds arm s cells) {e : CallbackType × ℕ}
    (he : e ∈ elemPtrs arm 0 s.mElemTypes) (hstring : e.1 = .String) :
    ∃ c ∈ cells, ∃ x, c.value = .string x ∧ c.pos = e.2 := by
  rw [h.elems] at he
  obtain ⟨c, hc, rfl⟩ := List.mem_map.mp he
  obtain ⟨x, hx⟩ := exists_of_type hstring
  exact ⟨c, hc, x, hx, rfl⟩

theorem Beside.step (t : Session) (c : Call) (h : Beside arm src t) (hok : SparedBeside src t c) :
    ∃ t', Session.step arm t c = some t' ∧ Beside arm src t' := by
  obtain ⟨t', hstep, hsound⟩ := Session.sound_step t c h.sound hok.toSpared
  refine ⟨t', hstep, ?_⟩
  obtain ⟨cells, hholds, hwritten⟩ := h.sound
  obtain ⟨parcel, hwrite, rfl⟩ := Option.map_eq_some_iff.mp hstep
  obtain ⟨-, hmap⟩ := Option.ite_none_right_eq_some.mp hwrite
  obtain ⟨s1, hput, rfl⟩ := Option.map_eq_some_iff.mp hmap
  obtain ⟨types, elem, hprep, -, -⟩ := t.parcel.prepare_eq
  rw [hprep] at hput
  have hmoves := Moves.put (s := { t.parcel with
    mTypeBufCapacity := types, mElemBufCapacity := elem }) hholds.room.data hok.fresh.newString hput
  have hputs := put_puts (s := { t.parcel with
    mTypeBufCapacity := types, mElemBufCapacity := elem }) hholds.ptr.ge hput
  have htypes : s1.mElemTypes = t.parcel.mElemTypes := hputs.carried.types
  refine ⟨hsound, fun p x hx => hmoves.strings p x (h.strings p x hx), fun e he hstring => ?_, ?_⟩
  · change e ∈ elemPtrs arm 0 (s1.mElemTypes ++ [c.value.type]) at he
    rw [htypes, elemPtrs_append] at he
    rcases List.mem_append.mp he with he | he
    · obtain ⟨b, hb, x, hx, -⟩ := hholds.exists_string he hstring
      -- with a string the data buffer has not been moved
      have hfull : ¬ t.parcel.Full c.value.need := by
        intro hfull
        have hmov := hok.movable hfull b.value (hwritten ▸ List.mem_map_of_mem hb)
        rw [hx] at hmov
        exact hmov
      have hbuf : s1.mDataBuf = t.parcel.mDataBuf := hmoves.mDataBuf.trans (if_neg hfull)
      have hword := hputs.carried.words e he
      rw [hstring] at hword
      have hsame : s1.mElemBuf.word e.2 = t.parcel.mElemBuf.word e.2 := by
        refine hword.trans ?_
        rw [hbuf]
        exact add_sub_cancel _ _
      change src.strings (s1.mElemBuf.word e.2) = none
      rw [hsame]
      exact h.fresh e he hstring
    · obtain rfl := List.mem_singleton.mp he
      obtain ⟨x, hvalue⟩ := exists_of_type hstring
      have hword : s1.mElemBuf.word (place arm t.parcel.mElemPtr c.value.type) =
          c.alloc.newString := (hputs.string x hvalue).2
      change src.strings (s1.mElemBuf.word (place arm (endPtr arm 0 t.parcel.mElemTypes) _)) = none
      rw [← hholds.ptr, hword]
      by_contra hne
      obtain ⟨y, hy⟩ := Option.ne_none_iff_exists'.mp hne
      have hused := h.strings _ _ hy
      rw [hok.fresh.newString] at hused
      cases hused
  · intro p hp
    change offsetAt s1.mDataBuf p < s1.mDataBufCapacity at hp
    rw [hmoves.mDataBuf, hmoves.mDataBufCapacity] at hp
    change offsetAt (if t.parcel.Full c.value.need then _ else t.parcel.mDataBuf) p <
      t.parcel.capacityFor c.value.need at hp
    by_cases hfull : t.parcel.Full c.value.need
    · rw [if_pos hfull] at hp
      exact hok.apart hfull p hp
    · rw [if_neg hfull, capacityFor, if_neg hfull] at hp
      exact h.apart p hp

/-! ### The destruction of the source -/

def Disposal.deleted? : Disposal → Option UInt32
  | .delete p => some p
  | .Release _ => none

/-- The `String` objects that the destructor deletes. -/
def deleted (arm : Bool) (s : CCallbackParcel) : List UInt32 :=
  (s.destroy arm).flatMap fun visit => visit.disposals.filterMap Disposal.deleted?

/-- The parcel after the destruction of another one. -/
def after (arm : Bool) (src s : CCallbackParcel) : CCallbackParcel :=
  { s with strings := fun p => if p ∈ src.deleted arm then none else s.strings p }

/-- A string at the end is the only thing that is deleted. -/
theorem mem_destroyFrom {buf : Block} {visit : Visit} {w : UInt32} {l : List CallbackType} :
    ∀ {p : ℕ}, (∀ type ∈ l.dropLast, type ≠ .String) → visit ∈ destroyFrom arm buf p l →
      Disposal.delete w ∈ visit.disposals →
      ∃ e ∈ elemPtrs arm p l, e.1 = .String ∧ buf.word e.2 = w := by
  induction l with
  | nil => exact fun _ h => absurd h List.not_mem_nil
  | cons type l ih =>
    intro p hlast hvisit hw
    by_cases hstring : type = .String
    · subst hstring
      have hnil : l = [] := by
        cases l with
        | nil => rfl
        | cons t l => exact absurd rfl (hlast .String List.mem_cons_self)
      subst hnil
      obtain rfl := List.mem_singleton.mp hvisit
      refine ⟨_, List.mem_cons_self, rfl, ?_⟩
      exact (Disposal.delete.inj (List.mem_singleton.mp hw)).symm
    · rw [Journal.destroyFrom_cons hstring] at hvisit
      rcases List.mem_cons.mp hvisit with rfl | hvisit
      · cases type <;> simp [Journal.disposals] at hw hstring
      · have hrest : ∀ type ∈ l.dropLast, type ≠ .String := by
          intro t ht
          cases l with
          | nil => exact absurd ht List.not_mem_nil
          | cons t' l => exact hlast t (List.mem_cons_of_mem _ ht)
        obtain ⟨e, he, hs, hword⟩ := ih hrest hvisit hw
        exact ⟨e, List.mem_cons_of_mem _ he, hs, hword⟩

theorem Holds.mElemTypes_eq {cells : List Cell} (h : Holds arm s cells) :
    s.mElemTypes = cells.map fun c => c.value.type := by
  rw [← elemPtrs_fst arm 0 s.mElemTypes, h.elems, List.map_map]
  rfl

/-- The destructor deletes strings of the parcel only, if no element follows one. -/
theorem Holds.strings_of_deleted {cells : List Cell} (h : Holds arm src cells)
    (hlast : ∀ v ∈ (cells.map Cell.value).dropLast, v.type ≠ .String) {p : UInt32}
    (hp : p ∈ src.deleted arm) : src.strings p ≠ none := by
  obtain ⟨visit, hvisit, hdisposal⟩ := List.mem_flatMap.mp hp
  obtain ⟨disposal, hmem, hdeleted⟩ := List.mem_filterMap.mp hdisposal
  cases disposal with
  | Release q => cases hdeleted
  | delete q =>
    obtain rfl : q = p := Option.some.inj hdeleted
    have htypes : ∀ type ∈ src.mElemTypes.dropLast, type ≠ .String := by
      rw [h.mElemTypes_eq]
      intro type htype
      rw [← List.map_dropLast] at htype
      obtain ⟨c, hc, rfl⟩ := List.mem_map.mp htype
      refine hlast c.value ?_
      rw [← List.map_dropLast]
      exact List.mem_map_of_mem hc
    obtain ⟨e, he, hstring, hword⟩ := mem_destroyFrom htypes hvisit hmem
    obtain ⟨c, hc, x, hx, hpos⟩ := h.exists_string he hstring
    have hstored := (h.stored c hc).string x (by rw [hx]; rfl)
    rw [hpos, hword] at hstored
    rw [hstored]
    exact Option.some_ne_none x

/-- The clone is as it was when the strings of the source have been deleted. -/
theorem Holds.after {cells : List Cell} (h : Holds arm s cells)
    (hfresh : ∀ e ∈ elemPtrs arm 0 s.mElemTypes, e.1 = .String →
      s.mElemBuf.word e.2 ∉ src.deleted arm) : Holds arm (after arm src s) cells := by
  refine ⟨⟨h.room.elem, h.room.elem4, h.room.elem8, h.room.data, h.room.data4, h.room.capacity4,
    h.room.address, h.room.capacity, h.room.empty⟩, h.types, h.elems, h.ptr, fun c hc => ?_, h.below,
    h.before⟩
  have hstored := h.stored c hc
  refine ⟨hstored.word, hstored.dword, fun v hv => ?_, hstored.chunk, hstored.strings⟩
  have hmem : (c.value.type, c.pos) ∈ elemPtrs arm 0 s.mElemTypes := by
    rw [h.elems]
    exact List.mem_map_of_mem hc
  have htype : c.value.type = .String := by
    cases hvalue : c.value <;> rw [hvalue] at hv <;> first | rfl | cases hv
  change (if s.mElemBuf.word c.pos ∈ src.deleted arm then none else
    s.strings (s.mElemBuf.word c.pos)) = some v
  rw [if_neg (hfresh _ hmem htype)]
  exact hstored.string v hv

/-! ### The clone of a parcel -/

/-- A clone in the making: the new parcel and the allocations of `Clone`. What there is already stays,
and the new parcel is apart from it. -/
structure Cloning (src : CCallbackParcel) where
  heap : Heap
  allocs : ℕ → Allocs
  strings : heap.strings = src.strings
  apart : ∀ p, offsetAt heap.mDataBuf p < 128 → ¬ src.InBuffer p

/-- A clone that the defects spare. -/
structure Cloning.Spared (arm : Bool) (values : List CallbackValue) (k : Cloning src) : Prop where
  clonable : ∀ v ∈ values, v.Clonable
  last : ∀ v ∈ values.dropLast, v.type ≠ .String
  writes : Trace.Meets (Session.step arm) (SparedBeside src) ⟨new k.heap, []⟩
    (callsFrom k.allocs 0 values)

/-- **The clone of a callback parcel** has the types and values of the parcel, in bytes that are not
in the data buffer of the parcel, and still has them when the parcel has been destroyed. -/
theorem clone_of_spared {heap : Heap} {calls : List Call} {t : Session}
    (hok : Trace.Meets (Session.step arm) Session.Spared ⟨new heap, []⟩ calls)
    (hrun : Trace.run (Session.step arm) ⟨new heap, []⟩ calls = some t) {k : Cloning t.parcel}
    (hspared : k.Spared arm t.written) :
    ∃ s cells, t.parcel.Clone arm k.allocs (new k.heap) = some s ∧
      s.mElemTypes = t.parcel.mElemTypes ∧
      t.parcel.decode arm = some t.written ∧ s.decode arm = some t.written ∧
      Holds arm s cells ∧
      (∀ c ∈ cells, ∀ i < c.length, ¬ t.parcel.InBuffer (s.mDataBuf + UInt32.ofNat (c.off + i))) ∧
      (after arm t.parcel s).decode arm = some t.written := by
  obtain ⟨t0, hrun0, cells, hholds, hwritten⟩ :=
    Trace.exists_run_of_meets Session.sound_step (Session.sound_new heap) hok
  obtain rfl := Option.some.inj (hrun.symm.trans hrun0)
  have hroom := hholds.room
  have hread : ∀ c ∈ cells, c.value.Clonable ∧
      t.parcel.cloneAt (c.value.type, c.pos) = some c.value := by
    intro c hc
    have hv := hspared.clonable c.value (hwritten ▸ List.mem_map_of_mem hc)
    exact ⟨hv, cloneAt_eq (hholds.stored c hc) hroom.capacity
      ((hholds.below c hc).2.trans hroom.data) hroom.address hv⟩
  have hstart : Beside arm t.parcel ⟨new k.heap, []⟩ :=
    ⟨Session.sound_new k.heap, fun p x hx => by rw [← hx]; exact congrFun k.strings p,
      fun e he => absurd he List.not_mem_nil, k.apart⟩
  obtain ⟨t', hrun', hbeside⟩ := Trace.exists_run_of_meets Beside.step hstart hspared.writes
  obtain ⟨cells', hholds', hwritten'⟩ := hbeside.sound
  have hvalues : cells'.map Cell.value = t.written := by
    rw [hwritten', Session.written_of_run hrun', callsFrom_values]
    rfl
  have hclone : t.parcel.Clone arm k.allocs (new k.heap) = some t'.parcel := by
    rw [Clone, hholds.elems]
    refine (clone_eq_run hread (t := ⟨new k.heap, []⟩)).trans ?_
    rw [hwritten, hrun', Option.map_some]
  have hafter : Holds arm (after arm t.parcel t'.parcel) cells' := hholds'.after
    fun e he hstring hdeleted => hholds.strings_of_deleted (hwritten ▸ hspared.last) hdeleted
      (hbeside.fresh e he hstring)
  refine ⟨t'.parcel, cells', hclone, ?_, ?_, ?_, hholds', fun c hc i hi => ?_, ?_⟩
  · have hmap : ∀ l : List Cell, (l.map fun c => c.value.type) =
        (l.map Cell.value).map CallbackValue.type := fun l => by rw [List.map_map]; rfl
    rw [hholds'.mElemTypes_eq, hholds.mElemTypes_eq, hmap, hmap, hvalues, hwritten]
  · rw [hholds.decode, hwritten]
  · rw [hholds'.decode, hvalues]
  · refine hbeside.apart _ ?_
    have hend := (hholds'.below c hc).2.trans hholds'.room.data
    have hcap := hholds'.room.capacity
    rw [InBuffer, t'.parcel.offsetAt_ofNat (by omega)]
    omega
  · rw [hafter.decode, hvalues]

/-- An array, a number and a string. -/
def note : List CallbackValue :=
  [.arrayOf (some ⟨0, 0, 4, [1, 2, 3, 4]⟩), .int32 7, .string (some ⟨[0x62], zero_notMem_b⟩)]

theorem spared_note (src : CCallbackParcel) {heap : Heap} (hnew : heap.strings a.newString = none)
    (haddress : a.dataBuf.toNat ≤ 65536) :
    Trace.Meets (Session.step true) (SparedBeside src) ⟨new heap, []⟩
      (callsFrom (fun _ => a) 0 note) := by
  obtain ⟨t1, t2, h1, h2, hs1, hs2, hcap1, hcap2, hptr1, hptr2⟩ : ∃ t1 t2,
      Session.step true ⟨new heap, []⟩ ⟨.arrayOf (some ⟨0, 0, 4, [1, 2, 3, 4]⟩), a⟩ = some t1 ∧
      Session.step true t1 ⟨.int32 7, a⟩ = some t2 ∧
      t1.parcel.strings = heap.strings ∧ t2.parcel.strings = heap.strings ∧
      t1.parcel.mDataBufCapacity = 128 ∧ t2.parcel.mDataBufCapacity = 128 ∧
      t1.parcel.mDataPtr = 28 ∧ t2.parcel.mDataPtr = 28 := by
    refine ⟨_, _, rfl, rfl, ?_⟩
    exact ⟨rfl, rfl, rfl, rfl, rfl, rfl⟩
  have hspared : ∀ {t : Session} {c : Call}, c.alloc = a → c.value.strings? = none →
      t.parcel.strings = heap.strings → ¬ t.parcel.Full c.value.need →
      t.parcel.mDataBufCapacity = 128 → SparedBeside src t c := by
    intro t c hc hstrings hs hfull hcap
    refine ⟨Session.spared_of_clear hstrings (by rw [hs, hc, hnew]) ⟨?_, hc ▸ haddress⟩
      fun h => absurd h hfull, fun h => absurd h hfull⟩
    rw [capacityFor, if_neg hfull, hcap]
    decide
  have hfull1 : ¬ t1.parcel.Full (CallbackValue.int32 7).need := by
    rw [Full, hcap1, hptr1]
    exact of_decide_eq_false rfl
  have hfull2 : ¬ t2.parcel.Full (CallbackValue.string (some ⟨[0x62], by decide⟩)).need := by
    rw [Full, hcap2, hptr2]
    exact of_decide_eq_false rfl
  exact .cons (hspared rfl rfl rfl (of_decide_eq_false rfl) rfl) h1
    (.cons (hspared rfl rfl hs1 hfull1 hcap1) h2 ⟨hspared rfl rfl hs2 hfull2 hcap2, fun _ _ => trivial⟩)

/-- A place for the clone of the note. -/
def noteHeap : Heap :=
  { Session.heap with
    mDataBuf := 0x5000
    strings := Function.update (fun _ => none) 0x3000 (some (some ⟨[0x62], zero_notMem_b⟩))
    address := by decide }

theorem cloned_note : ∃ t s, Trace.run (Session.step true) ⟨new Session.heap, []⟩
      (callsFrom (fun _ => Session.alloc 0x3000) 0 note) = some t ∧
    t.parcel.Clone true (fun _ => Session.alloc 0x7000) (new noteHeap) = some s ∧
    s.decode true = some note ∧ (after true t.parcel s).decode true = some note := by
  obtain ⟨t, ht, hwritten, hbuf, hcap, hstrings⟩ : ∃ t, Trace.run (Session.step true)
      ⟨new Session.heap, []⟩ (callsFrom (fun _ => Session.alloc 0x3000) 0 note) = some t ∧
      t.written = note ∧ t.parcel.mDataBuf = 0x1000 ∧ t.parcel.mDataBufCapacity = 128 ∧
      t.parcel.strings = noteHeap.strings := ⟨_, rfl, rfl, rfl, rfl, rfl⟩
  have hok : Trace.Meets (Session.step true) Session.Spared ⟨new Session.heap, []⟩
      (callsFrom (fun _ => Session.alloc 0x3000) 0 note) :=
    (spared_note (new Session.heap) rfl (by decide)).imp fun _ _ h => h.toSpared
  have hapart : ∀ p, offsetAt noteHeap.mDataBuf p < 128 → ¬ t.parcel.InBuffer p := by
    intro p hp hsrc
    rw [InBuffer, hbuf, hcap] at hsrc
    change (p - 0x5000).toNat < 128 at hp
    change (p - 0x1000).toNat < 128 at hsrc
    rw [UInt32.toNat_sub] at hp hsrc
    have h1 : (0x5000 : UInt32).toNat = 0x5000 := rfl
    have h2 : (0x1000 : UInt32).toNat = 0x1000 := rfl
    have := p.toNat_lt
    omega
  have hspared : Cloning.Spared true t.written
      (⟨noteHeap, fun _ => Session.alloc 0x7000, hstrings.symm, hapart⟩ : Cloning t.parcel) := by
    rw [hwritten]
    refine ⟨?_, by decide, spared_note t.parcel rfl (by decide)⟩
    intro v hv
    fin_cases hv <;> exact ⟨by decide, by decide⟩
  obtain ⟨s, cells, hclone, -, -, hdecode, -, -, hafter⟩ := clone_of_spared hok ht hspared
  exact ⟨t, s, ht, hclone, hwritten ▸ hdecode, hwritten ▸ hafter⟩

/-- An id with a name. -/
def named : EGuid := ⟨⟨0, 0, 0, 0⟩, ⟨[0x61], zero_notMem_a⟩, 0⟩

/-- The name of an `EGuid` is not in the `sizeof(EGuid)` that `Clone` passes on, and the element that
it writes next takes the place of the name. -/
theorem clone_drops_name : ∃ t s, Trace.run (Session.step false) ⟨new Session.heap, []⟩
      (callsFrom (fun _ => Session.alloc 0x3000) 0 [.eguid named, .emuid ⟨1, 1, 1, 1⟩]) = some t ∧
    t.parcel.Clone false (fun _ => Session.alloc 0x7000)
      (new { Session.heap with mDataBuf := 0x5000, address := by decide }) = some s ∧
    t.parcel.decode false = some [.eguid named, .emuid ⟨1, 1, 1, 1⟩] ∧
    s.decode false ≠ some [.eguid named, .emuid ⟨1, 1, 1, 1⟩] := by
  have hrun : (Trace.run (Session.step false) ⟨new Session.heap, []⟩
      (callsFrom (fun _ => Session.alloc 0x3000) 0 [.eguid named, .emuid ⟨1, 1, 1, 1⟩])).map
      (fun t => (elemPtrs false 0 t.parcel.mElemTypes, t.parcel.decodeAt (.EGuid, 0),
        t.parcel.decodeAt (.EMuid, 4))) =
      some ([(.EGuid, 0), (.EMuid, 4)], some (.eguid named), some (.emuid ⟨1, 1, 1, 1⟩)) := by
    decide +kernel
  obtain ⟨t, ht, heq⟩ := Option.map_eq_some_iff.mp hrun
  obtain ⟨helems, hfirst, hsecond⟩ : _ ∧ _ ∧ _ := by simpa only [Prod.mk.injEq] using heq
  have hwrite : (((new { Session.heap with mDataBuf := 0x5000, address := by decide }).writeElem .EGuid
      (cloneValue false (Session.alloc 0x7000) (.eguid named))).bind fun s =>
        s.writeElem .EMuid (cloneValue false (Session.alloc 0x7000) (.emuid ⟨1, 1, 1, 1⟩))).map
      (fun s => (elemPtrs false 0 s.mElemTypes, (s.decodeAt (.EGuid, 0)).any fun v =>
        v = .eguid named)) = some ([(.EGuid, 0), (.EMuid, 4)], false) := by
    decide +kernel
  obtain ⟨s, hs, heq'⟩ := Option.map_eq_some_iff.mp hwrite
  obtain ⟨helems', hlost⟩ := Prod.mk.inj heq'
  refine ⟨t, s, ht, ?_, ?_, fun h => ?_⟩
  · have hread1 : t.parcel.cloneAt (.EGuid, 0) = some (.eguid named) := hfirst
    have hread2 : t.parcel.cloneAt (.EMuid, 4) = some (.emuid ⟨1, 1, 1, 1⟩) := hsecond
    rw [Clone, helems, cloneFrom, hread1, Option.bind_some, ← hs]
    refine congrArg _ (funext fun s => ?_)
    rw [cloneFrom, hread2, Option.bind_some]
    exact Option.bind_fun_some _
  · rw [decode, helems, List.mapM_cons, hfirst, List.mapM_cons, hsecond]
    rfl
  · rw [decode, helems', List.mapM_cons] at h
    obtain ⟨v, hv, hrest⟩ := Option.bind_eq_some_iff.mp h
    obtain ⟨l, -, hl⟩ := Option.bind_eq_some_iff.mp hrest
    obtain rfl := (List.cons.inj (Option.some.inj hl)).1
    rw [hv] at hlost
    simp at hlost

end CCallbackParcel

end ElastosCar
