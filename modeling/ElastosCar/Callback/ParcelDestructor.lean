import ElastosCar.Callback.ParcelWrites

/-!
# The destructor of a callback parcel

`~CCallbackParcel` goes over the elements once more. Its `case Type_String` does not go on behind the
element: the next one is looked for in the place of the string, which has been set to null. On ARM an
aligned element is found again if the string stands before a gap.

What an element holds then is what `WriteValue` has stored, but for the pointers that
`GrowDataBuffer` has adjusted; a string is among these. `Carried` says this of every way a parcel can
change, without a condition on the values (`Journal.kept_of_run`). `destroyed_iff` says when the
destructor does what it should.
-/

namespace ElastosCar

/-- `GrowDataBuffer` adjusts the element. -/
def CallbackType.adjusted : CallbackType → Bool
  | String | Struct | EMuid | EGuid | ArrayOf | ArrayOfString => true
  | _ => false

/-- What the destructor does with a pointer. -/
inductive Disposal
  | Release (p : UInt32)
  | delete (p : UInt32)
deriving DecidableEq, Repr

/-- An element in the destructor's loop: its offset, and what is done with it. -/
structure Visit where
  offset : ℕ
  disposals : List Disposal := []
deriving DecidableEq, Repr

namespace CCallbackParcel

/-- The loop of the destructor. -/
def destroyFrom (arm : Bool) (elemBuf : Block) : ℕ → List CallbackType → List Visit
  | _, [] => []
  | elemPtr, .InterfacePtr :: l =>
    let w := elemBuf.word elemPtr
    ⟨elemPtr, if w ≠ 0 then [.Release w] else []⟩ :: destroyFrom arm elemBuf (elemPtr + 4) l
  | elemPtr, .Int64 :: l | elemPtr, .Double :: l =>
    let elemPtr := if arm then ROUND8 elemPtr else elemPtr
    ⟨elemPtr, []⟩ :: destroyFrom arm elemBuf (elemPtr + 8) l
  | elemPtr, .String :: l =>
    ⟨elemPtr, [.delete (elemBuf.word elemPtr)]⟩ ::
      destroyFrom arm (elemBuf.setWord elemPtr 0) elemPtr l
  | elemPtr, _ :: l => ⟨elemPtr, []⟩ :: destroyFrom arm elemBuf (elemPtr + 4) l

/-- `~CCallbackParcel()`. -/
def destroy (arm : Bool) (s : CCallbackParcel) : List Visit :=
  destroyFrom arm s.mElemBuf 0 s.mElemTypes

variable {arm : Bool} {s s' : CCallbackParcel} {a : Allocs} {v : CallbackValue}

/-! ### The places of the elements -/

theorem elemPtrs_fst (arm : Bool) : ∀ (p : ℕ) (l : List CallbackType),
    (elemPtrs arm p l).map Prod.fst = l
  | _, [] => rfl
  | _, type :: l => congrArg (type :: ·) (elemPtrs_fst arm _ l)

theorem le_of_mem_elemPtrs {e : CallbackType × ℕ} :
    ∀ {p : ℕ} {l : List CallbackType}, e ∈ elemPtrs arm p l →
      p ≤ e.2 ∧ e.2 + width e.1 ≤ endPtr arm p l
  | _, [], h => absurd h List.not_mem_nil
  | p, type :: l, h => by
    have hle : ∀ (q : ℕ) (l : List CallbackType), q ≤ endPtr arm q l := by
      intro q l
      induction l generalizing q with
      | nil => exact le_rfl
      | cons t l ih => exact ((le_place arm q t).trans (Nat.le_add_right _ _)).trans (ih _)
    rcases List.mem_cons.mp h with rfl | h
    · exact ⟨le_place arm p type, hle _ l⟩
    · obtain ⟨h1, h2⟩ := le_of_mem_elemPtrs h
      exact ⟨((le_place arm p type).trans (Nat.le_add_right _ _)).trans h1, h2⟩

theorem four_dvd_of_mem_elemPtrs {e : CallbackType × ℕ} :
    ∀ {p : ℕ} {l : List CallbackType}, 4 ∣ p → e ∈ elemPtrs arm p l → 4 ∣ e.2
  | _, [], _, h => absurd h List.not_mem_nil
  | p, type :: l, h4, h => by
    have hplace : 4 ∣ place arm p type := by
      cases type <;> cases arm <;> simp [place, ROUND8] <;> omega
    have hwidth : 4 ∣ width type := by cases type <;> decide
    rcases List.mem_cons.mp h with rfl | h
    · exact hplace
    · exact four_dvd_of_mem_elemPtrs (Nat.dvd_add hplace hwidth) h

/-! ### What a call does to the elements before -/

/-- The elements of `s` are in `s'` with adjusted pointers. -/
structure Carried (arm : Bool) (s s' : CCallbackParcel) : Prop where
  types : s'.mElemTypes = s.mElemTypes
  words : ∀ e ∈ elemPtrs arm 0 s.mElemTypes, s'.mElemBuf.word e.2 =
    if e.1.adjusted then s'.mDataBuf + (s.mElemBuf.word e.2 - s.mDataBuf) else s.mElemBuf.word e.2

/-- Where the data buffer stays, it is enough that the bytes do. -/
theorem Carried.of_same (hptr : endPtr arm 0 s.mElemTypes ≤ s.mElemPtr)
    (htypes : s'.mElemTypes = s.mElemTypes) (hbuf : s'.mDataBuf = s.mDataBuf)
    (helem : ∀ i < s.mElemPtr, s'.mElemBuf i = s.mElemBuf i) : Carried arm s s' where
  types := htypes
  words e he := by
    have hwidth := width_le e.1
    have hle := (le_of_mem_elemPtrs he).2
    have hword : s'.mElemBuf.word e.2 = s.mElemBuf.word e.2 :=
      word_congr fun i _ hi => helem i (by omega)
    rw [hbuf, hword, add_sub_cancel, ite_self]

theorem Carried.trans {s'' : CCallbackParcel} (h : Carried arm s s') (h' : Carried arm s' s'') :
    Carried arm s s'' where
  types := h'.types.trans h.types
  words e he := by
    rw [h'.words e (h.types ▸ he), h.words e he]
    split
    · rw [add_sub_cancel_left]
    · rfl

/-- A pass of the loop changes one element. -/
theorem rebase_elem {dataBuf : UInt32} {bufs bufs' : Block × Block} {e : CallbackType × ℕ}
    (h : s.rebase dataBuf bufs e = some bufs') : bufs'.1 =
      if e.1.adjusted then bufs.1.setWord e.2 (dataBuf + (bufs.1.word e.2 - s.mDataBuf))
      else bufs.1 := by
  obtain ⟨type, pos⟩ := e
  cases type with
  | Byte | Boolean | Char32 | Int16 | Int32 | Float | InterfacePtr | Int64 | Double =>
    obtain rfl := Option.some.inj h
    rfl
  | String | Struct | EMuid =>
    obtain rfl := Option.some.inj h
    rfl
  | EGuid | ArrayOf =>
    obtain ⟨-, heq⟩ := Option.ite_none_right_eq_some.mp h
    obtain rfl := Option.some.inj heq
    rfl
  | ArrayOfString =>
    obtain ⟨-, h⟩ := Option.ite_none_right_eq_some.mp h
    obtain ⟨-, heq⟩ := Option.ite_none_right_eq_some.mp h
    obtain rfl := Option.some.inj heq
    rfl

theorem foldlM_elem {dataBuf : UInt32} {l : List CallbackType} :
    ∀ {p : ℕ} {bufs bufs' : Block × Block},
      (elemPtrs arm p l).foldlM (s.rebase dataBuf) bufs = some bufs' →
      (∀ i < p, bufs'.1 i = bufs.1 i) ∧
      ∀ e ∈ elemPtrs arm p l, bufs'.1.word e.2 =
        if e.1.adjusted then dataBuf + (bufs.1.word e.2 - s.mDataBuf) else bufs.1.word e.2 := by
  induction l with
  | nil =>
    intro p bufs bufs' h
    obtain rfl := Option.some.inj h
    exact ⟨fun _ _ => rfl, fun e he => absurd he List.not_mem_nil⟩
  | cons type l ih =>
    intro p bufs bufs' h
    obtain ⟨bufs1, hrebase, hrest⟩ := Option.bind_eq_some_iff.mp h
    obtain ⟨hbelow, hwords⟩ := ih hrest
    have hfirst := rebase_elem hrebase
    have hplace := le_place arm p type
    have hwidth := width_le type
    have hclear : ∀ i, i < place arm p type ∨ place arm p type + 4 ≤ i → bufs1.1 i = bufs.1 i := by
      intro i hi
      rw [hfirst]
      split
      · exact Block.setWord_apply_of_clear hi
      · rfl
    refine ⟨fun i hi => ?_, fun e he => ?_⟩
    · rw [hbelow i (by omega), hclear i (.inl (by omega))]
    · rcases List.mem_cons.mp he with rfl | he
      · have hword : bufs'.1.word (place arm p type) = bufs1.1.word (place arm p type) :=
          word_congr fun i _ hi => hbelow i (by omega)
        rw [hword, hfirst]
        change Block.word (if type.adjusted then _ else _) _ = if type.adjusted then _ else _
        split
        · exact Block.word_setWord_self ..
        · rfl
      · have hle := (le_of_mem_elemPtrs he).1
        have hword : bufs1.1.word e.2 = bufs.1.word e.2 :=
          word_congr fun i hi _ => hclear i (.inr (by omega))
        rw [hwords e he, hword]

theorem Carried.reserve {need : ℕ} (hptr : endPtr arm 0 s.mElemTypes ≤ s.mElemPtr)
    (h : s.reserve arm a need = some s') : Carried arm s s' ∧ s'.mElemPtr = s.mElemPtr := by
  rw [CCallbackParcel.reserve] at h
  split at h
  · obtain ⟨-, hmap⟩ := Option.ite_none_right_eq_some.mp h
    obtain ⟨bufs, hfold, rfl⟩ := Option.map_eq_some_iff.mp hmap
    exact ⟨⟨rfl, (foldlM_elem hfold).2⟩, rfl⟩
  · obtain rfl := Option.some.inj h
    exact ⟨.of_same hptr rfl rfl fun _ _ => rfl, rfl⟩

/-- What a case of the switch does to the elements. -/
structure Puts (arm : Bool) (s : CCallbackParcel) (a : Allocs) (v : CallbackValue)
    (s' : CCallbackParcel) : Prop where
  carried : Carried arm s s'
  ptr : s'.mElemPtr = place arm s.mElemPtr v.type + width v.type
  interface : ∀ w, v = .interfacePtr w → s'.mElemBuf.word (place arm s.mElemPtr v.type) = w
  string : ∀ x, v = .string x → s'.mDataBuf = s.mDataBuf ∧
    s'.mElemBuf.word (place arm s.mElemPtr v.type) = a.newString

theorem putWord_carried {w : UInt32} (hptr : endPtr arm 0 s.mElemTypes ≤ s.mElemPtr)
    (h : s.putWord w = some s') : Carried arm s s' ∧ s'.mElemPtr = s.mElemPtr + 4 ∧
      s'.mDataBuf = s.mDataBuf ∧ s'.mElemBuf.word s.mElemPtr = w := by
  obtain ⟨-, heq⟩ := Option.ite_none_right_eq_some.mp h
  obtain rfl := Option.some.inj heq
  refine ⟨.of_same hptr rfl rfl fun i hi => ?_, rfl, rfl, Block.word_setWord_self ..⟩
  exact Block.setWord_apply_of_clear (.inl hi)

theorem putDword_carried {d : UInt64} (hptr : endPtr arm 0 s.mElemTypes ≤ s.mElemPtr)
    (h : s.putDword arm d = some s') : Carried arm s s' ∧
      s'.mElemPtr = (if arm then ROUND8 s.mElemPtr else s.mElemPtr) + 8 := by
  rw [putDword_eq] at h
  obtain ⟨s1, hlow, hhigh⟩ := Option.bind_eq_some_iff.mp h
  obtain ⟨ptr, hge⟩ : ∃ ptr, ptr = (if arm then ROUND8 s.mElemPtr else s.mElemPtr) := ⟨_, rfl⟩
  have hle : s.mElemPtr ≤ ptr := by
    rw [hge]
    exact le_place arm s.mElemPtr .Int64
  rw [← hge] at hlow ⊢
  obtain ⟨-, heq⟩ := Option.ite_none_right_eq_some.mp hlow
  obtain rfl := Option.some.inj heq
  obtain ⟨-, heq⟩ := Option.ite_none_right_eq_some.mp hhigh
  obtain rfl := Option.some.inj heq
  refine ⟨.of_same hptr rfl rfl fun i hi => ?_, rfl⟩
  change (Block.setWord (Block.setWord _ ptr _) (ptr + 4) _) i = _
  rw [Block.setWord_apply_of_clear (.inl (by omega)), Block.setWord_apply_of_clear (.inl (by omega))]

theorem putData_carried {need head advance : ℕ} {bytes : UInt32 → List UInt8}
    (hptr : endPtr arm 0 s.mElemTypes ≤ s.mElemPtr)
    (h : s.putData arm a need head bytes advance = some s') :
    Carried arm s s' ∧ s'.mElemPtr = s.mElemPtr + 4 := by
  obtain ⟨s1, hreserve, hrest⟩ := Option.bind_eq_some_iff.mp h
  obtain ⟨hcarried, hsame⟩ := Carried.reserve hptr hreserve
  obtain ⟨-, hword⟩ := Option.ite_none_right_eq_some.mp hrest
  have hptr1 : endPtr arm 0 s1.mElemTypes ≤ s1.mElemPtr := by
    rw [hcarried.types, hsame]
    exact hptr
  obtain ⟨hcarried', hptr', -⟩ := putWord_carried (s := { s1 with
    data := store s1.data s1.mDataPtr (bytes (s1.mDataBuf + UInt32.ofNat s1.mDataPtr))
    mDataPtr := s1.mDataPtr + advance }) hptr1 hword
  have hend : Carried arm s1 s' := ⟨hcarried'.types, hcarried'.words⟩
  refine ⟨hcarried.trans hend, ?_⟩
  rw [hptr', ← hsame]

theorem assignStrings_elem {obj : ℕ} {l : List CarString} : ∀ {i : ℕ} {s : CCallbackParcel},
    assignStrings a obj i l s = some s' → s'.mElemTypes = s.mElemTypes ∧
      s'.mElemBuf = s.mElemBuf ∧ s'.mElemPtr = s.mElemPtr ∧ s'.mDataBuf = s.mDataBuf ∧
      s'.mDataBufCapacity = s.mDataBufCapacity ∧ s'.strings = s.strings := by
  induction l with
  | nil =>
    intro i s h
    obtain rfl := Option.some.inj h
    exact ⟨rfl, rfl, rfl, rfl, rfl, rfl⟩
  | cons v l ih =>
    intro i s h
    obtain ⟨s1, hfirst, hrest⟩ := Option.bind_eq_some_iff.mp h
    obtain ⟨-, htext⟩ := Option.ite_none_right_eq_some.mp hfirst
    obtain ⟨text, -, htext⟩ := Option.bind_eq_some_iff.mp htext
    cases v with
    | none =>
      obtain rfl := Option.some.inj htext
      have hrec := ih hrest
      exact hrec
    | some v =>
      obtain ⟨-, heq⟩ := Option.ite_none_right_eq_some.mp htext
      obtain rfl := Option.some.inj heq
      have hrec := ih hrest
      exact hrec

theorem put_puts (hptr : endPtr arm 0 s.mElemTypes ≤ s.mElemPtr) (h : s.put arm a v = some s') :
    Puts arm s a v s' := by
  cases v with
  | byte | boolean | char | int16 | int32 | float =>
    obtain ⟨hcarried, hend, -⟩ := putWord_carried hptr h
    exact ⟨hcarried, hend, nofun, nofun⟩
  | interfacePtr w =>
    obtain ⟨hcarried, hend, -, hword⟩ := putWord_carried hptr h
    refine ⟨hcarried, hend, fun w' hw' => ?_, nofun⟩
    obtain rfl : w = w' := CallbackValue.interfacePtr.inj hw'
    exact hword
  | int64 | double =>
    obtain ⟨hcarried, hend⟩ := putDword_carried hptr h
    exact ⟨hcarried, hend, nofun, nofun⟩
  | string x =>
    obtain ⟨hcarried, hend, hbuf, hword⟩ := putWord_carried
      (s := { s with strings := Function.update s.strings a.newString (some x) }) hptr h
    exact ⟨⟨hcarried.types, hcarried.words⟩, hend, nofun, fun _ _ => ⟨hbuf, hword⟩⟩
  | struct v =>
    have hdata : s.putStruct arm a v = some s' := h
    rw [putStruct] at hdata
    obtain ⟨hcarried, hend⟩ := putData_carried hptr hdata
    exact ⟨hcarried, hend, nofun, nofun⟩
  | emuid v =>
    have hdata : s.putEMuid arm a v = some s' := h
    rw [putEMuid] at hdata
    obtain ⟨hcarried, hend⟩ := putData_carried hptr hdata
    exact ⟨hcarried, hend, nofun, nofun⟩
  | eguid v =>
    have hdata : s.putEGuid arm a (24 + v.mUunm.chars.length + 1) v = some s' := h
    rw [putEGuid] at hdata
    obtain ⟨hcarried, hend⟩ := putData_carried hptr hdata
    exact ⟨hcarried, hend, nofun, nofun⟩
  | arrayOf v =>
    have hend : Carried arm s s' ∧ s'.mElemPtr = s.mElemPtr + 4 := by
      cases v with
      | none =>
        obtain ⟨hcarried, hend, -⟩ := putWord_carried hptr h
        exact ⟨hcarried, hend⟩
      | some v =>
        have hdata : s.putArrayOf arm a (some v) = some s' := h
        rw [putArrayOf] at hdata
        exact putData_carried hptr hdata
    exact ⟨hend.1, hend.2, nofun, nofun⟩
  | arrayOfString v =>
    obtain ⟨s1, hdata, hassign⟩ := Option.bind_eq_some_iff.mp h
    obtain ⟨hcarried, hend⟩ := putData_carried hptr hdata
    obtain ⟨htypes, helem, hsame, hbuf, -⟩ := assignStrings_elem hassign
    refine ⟨⟨htypes.trans hcarried.types, fun e he => ?_⟩, hsame.trans hend, nofun, nofun⟩
    rw [helem, hbuf]
    exact hcarried.words e he

/-! ### A parcel with the places of its elements -/

/-- An element as it was written: where, the `String` object made for it, and the address of the data
buffer at that time. -/
structure Noted where
  value : CallbackValue
  pos : ℕ
  newString : UInt32
  mDataBuf : UInt32
deriving DecidableEq, Repr

/-- What the destructor has to do for an element. -/
def Noted.visit (n : Noted) : Visit :=
  ⟨n.pos, match n.value with
    | .interfacePtr w => if w ≠ 0 then [.Release w] else []
    | .string _ => [.delete n.newString]
    | _ => []⟩

structure Journal where
  parcel : CCallbackParcel
  elems : List Noted := []

namespace Journal

def step (arm : Bool) (t : Journal) (c : Call) : Option Journal :=
  (t.parcel.WriteValue arm c.value c.alloc).map fun parcel => ⟨parcel, t.elems ++
    [⟨c.value, place arm t.parcel.mElemPtr c.value.type, c.alloc.newString, t.parcel.mDataBuf⟩]⟩

/-- The elements are where they were written, and the pointers that matter are still there. -/
structure Kept (arm : Bool) (t : Journal) : Prop where
  elems : elemPtrs arm 0 t.parcel.mElemTypes = t.elems.map fun n => (n.value.type, n.pos)
  ptr : t.parcel.mElemPtr = endPtr arm 0 t.parcel.mElemTypes
  interface : ∀ n ∈ t.elems, ∀ w, n.value = .interfacePtr w → t.parcel.mElemBuf.word n.pos = w
  string : ∀ n ∈ t.elems, ∀ x, n.value = .string x →
    t.parcel.mElemBuf.word n.pos = t.parcel.mDataBuf + (n.newString - n.mDataBuf)

theorem kept_step (t : Journal) (c : Call) (t' : Journal) (h : Kept arm t)
    (hstep : step arm t c = some t') : Kept arm t' := by
  obtain ⟨parcel, hwrite, rfl⟩ := Option.map_eq_some_iff.mp hstep
  obtain ⟨-, hmap⟩ := Option.ite_none_right_eq_some.mp hwrite
  obtain ⟨s1, hput, rfl⟩ := Option.map_eq_some_iff.mp hmap
  obtain ⟨types, elem, hprep, -, -⟩ := t.parcel.prepare_eq
  rw [hprep] at hput
  have hputs := put_puts (s := { t.parcel with
    mTypeBufCapacity := types, mElemBufCapacity := elem }) h.ptr.ge hput
  have htypes : s1.mElemTypes = t.parcel.mElemTypes := hputs.carried.types
  have hmem : ∀ n ∈ t.elems, (n.value.type, n.pos) ∈ elemPtrs arm 0 t.parcel.mElemTypes := by
    intro n hn
    rw [h.elems]
    exact List.mem_map_of_mem hn
  constructor
  · change elemPtrs arm 0 (s1.mElemTypes ++ [c.value.type]) = _
    rw [htypes, elemPtrs_append, h.elems, ← h.ptr, List.map_append]
    rfl
  · change s1.mElemPtr = endPtr arm 0 (s1.mElemTypes ++ [c.value.type])
    rw [htypes, endPtr_append, ← h.ptr]
    exact hputs.ptr
  · intro n hn w hw
    rcases List.mem_append.mp hn with hn | hn
    · have hword := hputs.carried.words _ (hmem n hn)
      rw [hw] at hword
      exact hword.trans (h.interface n hn w hw)
    · obtain rfl := List.mem_singleton.mp hn
      exact hputs.interface w hw
  · intro n hn x hx
    rcases List.mem_append.mp hn with hn | hn
    · have hword := hputs.carried.words _ (hmem n hn)
      rw [hx] at hword
      change s1.mElemBuf.word n.pos = s1.mDataBuf + _
      refine hword.trans ?_
      change s1.mDataBuf + (t.parcel.mElemBuf.word n.pos - t.parcel.mDataBuf) = _
      rw [h.string n hn x hx, add_sub_cancel_left]
    · obtain rfl := List.mem_singleton.mp hn
      obtain ⟨hbuf, hword⟩ := hputs.string x hx
      change s1.mElemBuf.word _ = s1.mDataBuf + _
      refine hword.trans ?_
      rw [hbuf]
      exact (add_sub_cancel _ _).symm

/-- The elements of every parcel that calls can make are kept. -/
theorem kept_of_run {heap : Heap} {calls : List Call} {t : Journal}
    (hrun : Trace.run (step arm) ⟨new heap, []⟩ calls = some t) : Kept arm t :=
  Trace.run_induction kept_step ⟨rfl, rfl, fun _ hn => absurd hn List.not_mem_nil,
    fun _ hn => absurd hn List.not_mem_nil⟩ hrun

/-! ### The loop -/

/-- What the loop does with an element. -/
def disposals (buf : Block) (elemPtr : ℕ) : CallbackType → List Disposal
  | .InterfacePtr => if buf.word elemPtr ≠ 0 then [.Release (buf.word elemPtr)] else []
  | .String => [.delete (buf.word elemPtr)]
  | _ => []

theorem destroyFrom_cons {type : CallbackType} (h : type ≠ .String) (buf : Block) (elemPtr : ℕ)
    (l : List CallbackType) : destroyFrom arm buf elemPtr (type :: l) =
      ⟨place arm elemPtr type, disposals buf (place arm elemPtr type) type⟩ ::
        destroyFrom arm buf (place arm elemPtr type + width type) l := by
  cases type <;> first | rfl | exact absurd rfl h

/-- The loop goes on from where it stands, aligned for the type. -/
theorem destroyFrom_head {type : CallbackType} {buf : Block} {elemPtr : ℕ} {l : List CallbackType}
    {visit : Visit} {visits : List Visit}
    (h : destroyFrom arm buf elemPtr (type :: l) = visit :: visits) :
    visit.offset = place arm elemPtr type := by
  by_cases hstring : type = .String
  · subst hstring
    rw [← (List.cons.inj h).1]
    rfl
  · rw [destroyFrom_cons hstring] at h
    rw [← (List.cons.inj h).1]

/-- Two places where the loop finds the same aligned element. -/
theorem destroyFrom_congr {type : CallbackType} {p q : ℕ} (hne : type ≠ .String)
    (h : place arm p type = place arm q type) (buf : Block) (l : List CallbackType) :
    destroyFrom arm buf p (type :: l) = destroyFrom arm buf q (type :: l) := by
  rw [destroyFrom_cons hne, destroyFrom_cons hne, h]

/-- The elements of a list lie one behind the other, and hold what has been stored. -/
structure Laid (arm : Bool) (base : UInt32) (buf : Block) (p : ℕ) (l : List Noted) : Prop where
  elems : elemPtrs arm p (l.map fun n => n.value.type) = l.map fun n => (n.value.type, n.pos)
  interface : ∀ n ∈ l, ∀ w, n.value = .interfacePtr w → buf.word n.pos = w
  string : ∀ n ∈ l, ∀ x, n.value = .string x → buf.word n.pos = base + (n.newString - n.mDataBuf)

variable {base : UInt32} {buf : Block} {p : ℕ} {n : Noted} {l : List Noted}

theorem Laid.pos_eq (h : Laid arm base buf p (n :: l)) : n.pos = place arm p n.value.type := by
  have helems := h.elems
  rw [List.map_cons, List.map_cons, elemPtrs] at helems
  exact (Prod.mk.inj (List.cons.inj helems).1).2.symm

theorem Laid.tail {buf' : Block} (h : Laid arm base buf p (n :: l))
    (hbuf : ∀ i, n.pos + width n.value.type ≤ i → buf' i = buf i) :
    Laid arm base buf' (n.pos + width n.value.type) l := by
  have helems := h.elems
  rw [List.map_cons, List.map_cons, elemPtrs] at helems
  rw [h.pos_eq] at hbuf ⊢
  obtain ⟨-, htail⟩ := List.cons.inj helems
  have hword : ∀ m ∈ l, buf'.word m.pos = buf.word m.pos := by
    intro m hm
    have hmem : (m.value.type, m.pos) ∈ elemPtrs arm (place arm p n.value.type + width n.value.type)
        (l.map fun n => n.value.type) := by
      rw [htail]
      exact List.mem_map_of_mem hm
    have hle := (le_of_mem_elemPtrs hmem).1
    exact word_congr fun i hi _ => hbuf i (hle.trans hi)
  refine ⟨htail, fun m hm w hw => ?_, fun m hm x hx => ?_⟩
  · rw [hword m hm]
    exact h.interface m (List.mem_cons_of_mem _ hm) w hw
  · rw [hword m hm]
    exact h.string m (List.mem_cons_of_mem _ hm) x hx

/-- An element in its place is disposed of as it should, if its pointer has not been adjusted. -/
theorem Laid.disposals_iff (h : Laid arm base buf p (n :: l)) :
    (⟨n.pos, disposals buf n.pos n.value.type⟩ : Visit) = n.visit ↔
      (n.value.type = .String → n.mDataBuf = base) := by
  have hinterface := h.interface n List.mem_cons_self
  have hstring := h.string n List.mem_cons_self
  obtain ⟨value, pos, newString, mDataBuf⟩ := n
  cases value with
  | interfacePtr w =>
    refine iff_of_true ?_ (fun h => by cases h)
    change (⟨pos, if buf.word pos ≠ 0 then [.Release (buf.word pos)] else []⟩ : Visit) = _
    rw [hinterface w rfl]
    rfl
  | string x =>
    change (⟨pos, [.delete (buf.word pos)]⟩ : Visit) = ⟨pos, [.delete newString]⟩ ↔ _
    rw [hstring x rfl]
    constructor
    · intro heq _
      have hword : base + (newString - mDataBuf) = newString := by simpa using heq
      change mDataBuf = base
      rw [eq_sub_of_add_eq hword, sub_sub_cancel]
    · intro heq
      rw [heq rfl, add_sub_cancel]
  | _ => exact iff_of_true rfl (fun h => by cases h)

/-- The element behind a string is found. -/
def Found (arm : Bool) (n m : Noted) : Prop :=
  n.value.type = .String →
    arm = true ∧ (m.value.type = .Int64 ∨ m.value.type = .Double) ∧ n.pos % 8 = 4

theorem found_iff {m : Noted} (h4 : 4 ∣ n.pos) (hstring : n.value.type = .String) :
    Found arm n m ↔ place arm n.pos m.value.type = place arm (n.pos + 4) m.value.type := by
  obtain ⟨k, hk⟩ := h4
  rw [Found]
  cases m.value.type <;> cases arm <;> simp [place, hstring, ROUND8] <;> omega

/-- The loop over elements that are laid out from where it stands. -/
theorem destroyFrom_iff (h4 : 4 ∣ p) (h : Laid arm base buf p l) :
    destroyFrom arm buf p (l.map fun n => n.value.type) = l.map Noted.visit ↔
      l.IsChain (Found arm) ∧ ∀ n ∈ l, n.value.type = .String → n.mDataBuf = base := by
  induction l generalizing p buf with
  | nil => exact iff_of_true rfl ⟨.nil, fun n hn => absurd hn List.not_mem_nil⟩
  | cons n l ih =>
    have hpos := h.pos_eq
    have hhead := h.disposals_iff
    have h4' : 4 ∣ n.pos + width n.value.type := by
      have hmem : (n.value.type, n.pos) ∈ elemPtrs arm p ((n :: l).map fun n => n.value.type) := by
        rw [h.elems]
        exact List.mem_cons_self
      refine Nat.dvd_add (four_dvd_of_mem_elemPtrs h4 hmem) ?_
      cases n.value.type <;> decide
    rw [List.isChain_cons, List.forall_mem_cons, List.map_cons, List.map_cons]
    by_cases hstring : n.value.type = .String
    · -- the loop goes on where the string is, which is null now
      have hplace : place arm p n.value.type = p ∧ width n.value.type = 4 := by
        rw [hstring]
        exact ⟨rfl, rfl⟩
      rw [hplace.1] at hpos
      rw [hplace.2, hpos] at h4'
      have hset : ∀ i, n.pos + width n.value.type ≤ i → (buf.setWord p 0) i = buf i := by
        intro i hi
        rw [hplace.2, hpos] at hi
        exact Block.setWord_apply_of_clear (.inr hi)
      have hlaid := h.tail hset
      rw [hplace.2, hpos] at hlaid
      have htail := ih h4' hlaid
      have hthis : destroyFrom arm buf p (n.value.type :: l.map fun n => n.value.type) =
          ⟨n.pos, disposals buf n.pos n.value.type⟩ ::
            destroyFrom arm (buf.setWord p 0) p (l.map fun n => n.value.type) := by
        rw [hstring, hpos]
        rfl
      rw [hthis, List.cons.injEq, hhead]
      cases l with
      | nil => exact ⟨fun h => ⟨⟨by simp, .nil⟩, h.1, by simp⟩, fun h => ⟨h.2.1, rfl⟩⟩
      | cons m l =>
        have hfound : Found arm n m ↔ _ := found_iff (m := m) (hpos ▸ h4) hstring
        rw [hpos] at hfound
        have hcongr : Found arm n m → destroyFrom arm (buf.setWord p 0) p
            ((m :: l).map fun n => n.value.type) =
              destroyFrom arm (buf.setWord p 0) (p + 4) ((m :: l).map fun n => n.value.type) := by
          intro hm
          refine destroyFrom_congr (fun hms => ?_) (hfound.mp hm) _ _
          rcases (hm hstring).2.1 with h | h <;> rw [hms] at h <;> cases h
        constructor
        · intro ⟨hfirst, hrest⟩
          have hoffset := destroyFrom_head hrest
          have hm : Found arm n m := by
            rw [hfound, ← hoffset]
            exact hlaid.pos_eq
          obtain ⟨hchain, hall⟩ := htail.mp ((hcongr hm).symm.trans hrest)
          refine ⟨⟨fun y hy => ?_, hchain⟩, hfirst, hall⟩
          obtain rfl : m = y := Option.some.inj hy
          exact hm
        · intro ⟨⟨hm, hchain⟩, hfirst, hall⟩
          exact ⟨hfirst, (hcongr (hm m rfl)).trans (htail.mpr ⟨hchain, hall⟩)⟩
    · have htail := ih h4' (h.tail fun _ _ => rfl)
      rw [destroyFrom_cons hstring, ← hpos, List.cons.injEq, hhead, htail]
      constructor
      · intro ⟨hfirst, hchain, hrest⟩
        exact ⟨⟨fun m _ hs => absurd hs hstring, hchain⟩, hfirst, hrest⟩
      · intro ⟨⟨_, hchain⟩, hfirst, hrest⟩
        exact ⟨hfirst, hchain, hrest⟩

/-- **The destructor of a callback parcel.** It visits every element where it was written, releases the
interfaces, deletes the strings and does nothing else, if and only if each string is the last element
or before the gap of an aligned one, and the data buffer is where it was when the string was
written. -/
theorem destroyed_iff {heap : Heap} {calls : List Call} {t : Journal}
    (hrun : Trace.run (step arm) ⟨new heap, []⟩ calls = some t) :
    t.parcel.destroy arm = t.elems.map Noted.visit ↔
      t.elems.IsChain (Found arm) ∧
        ∀ n ∈ t.elems, n.value.type = .String → n.mDataBuf = t.parcel.mDataBuf := by
  have hkept := kept_of_run hrun
  have htypes : t.parcel.mElemTypes = t.elems.map fun n => n.value.type := by
    rw [← elemPtrs_fst arm 0 t.parcel.mElemTypes, hkept.elems, List.map_map]
    rfl
  rw [destroy, htypes]
  exact destroyFrom_iff (dvd_zero 4) ⟨htypes ▸ hkept.elems, hkept.interface, hkept.string⟩

/-- A string before the gap of an aligned element, an interface, and a string at the end. -/
def gap : List Call :=
  [⟨.int32 1, Session.alloc 0⟩, ⟨.string (some ⟨[0x61], zero_notMem_a⟩), Session.alloc 0x3000⟩,
    ⟨.int64 2, Session.alloc 0⟩, ⟨.interfacePtr 0x4000, Session.alloc 0⟩,
    ⟨.string none, Session.alloc 0x5000⟩]

theorem destroyed_gap : ∃ t, Trace.run (step true) ⟨new Session.heap, []⟩ gap = some t ∧
    t.parcel.destroy true = t.elems.map Noted.visit := by
  have hrun : (Trace.run (step true) ⟨new Session.heap, []⟩ gap).map
      (fun t => (t.elems, t.parcel.mDataBuf)) =
        some ([⟨.int32 1, 0, 0, 0x1000⟩, ⟨.string (some ⟨[0x61], by decide⟩), 4, 0x3000, 0x1000⟩,
          ⟨.int64 2, 8, 0, 0x1000⟩, ⟨.interfacePtr 0x4000, 16, 0, 0x1000⟩,
          ⟨.string none, 20, 0x5000, 0x1000⟩], 0x1000) := by decide +kernel
  obtain ⟨t, ht, heq⟩ := Option.map_eq_some_iff.mp hrun
  obtain ⟨helems, hbuf⟩ := Prod.mk.inj heq
  refine ⟨t, ht, (destroyed_iff ht).mpr ⟨?_, ?_⟩⟩
  · rw [helems]
    simp [Found, CallbackValue.type]
  · rw [helems, hbuf]
    simp

/-- A string and an interface behind it. -/
def stringAndInterface : List Call :=
  [⟨.string (some ⟨[0x61], zero_notMem_a⟩), Session.alloc 0x3000⟩, ⟨.interfacePtr 0x4000, Session.alloc 0⟩]

/-- The interface is not released. -/
theorem interface_kept : ∃ t, Trace.run (step false) ⟨new Session.heap, []⟩ stringAndInterface = some t ∧
    t.parcel.destroy false ≠ t.elems.map Noted.visit := by
  have hrun : (Trace.run (step false) ⟨new Session.heap, []⟩ stringAndInterface).map
      (fun t => (t.parcel.destroy false, t.elems.map Noted.visit)) =
        some ([⟨0, [.delete 0x3000]⟩, ⟨0, []⟩], [⟨0, [.delete 0x3000]⟩, ⟨4, [.Release 0x4000]⟩]) := by
    decide +kernel
  obtain ⟨t, ht, heq⟩ := Option.map_eq_some_iff.mp hrun
  refine ⟨t, ht, ?_⟩
  rw [(Prod.mk.inj heq).1, (Prod.mk.inj heq).2]
  decide

end Journal

end CCallbackParcel

end ElastosCar
