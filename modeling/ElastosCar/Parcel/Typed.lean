import ElastosCar.Parcel.Read

/-!
# Typed values in a parcel

The typed `Write*` operations, and the round trip: a sequence of values written to an empty
parcel is read back by the matching `Read*` operations.

* `Value.wire` is the byte string a value occupies: words in network order, double words and
  floats as they are in memory, strings and structs behind a null tag.
* `appends_writeValue` and `reads_readValue` say that the writers produce it and the readers
  consume it; the round trip is the two put together.
-/

namespace ElastosCar

namespace CRemoteParcel

/-! ### The writers -/

/-- `WriteInt32`. -/
def writeInt32 (env : Allocator) (value : UInt32) : CRemoteParcel → ECode × CRemoteParcel :=
  writeAligned env (wordBytes (htonl value))

/-- `WriteByte`. -/
def writeByte (env : Allocator) (value : UInt8) : CRemoteParcel → ECode × CRemoteParcel :=
  writeInt32 env value.toUInt32

/-- `WriteBoolean`. -/
def writeBoolean (env : Allocator) (value : Bool) : CRemoteParcel → ECode × CRemoteParcel :=
  writeInt32 env (if value then 1 else 0)

/-- `WriteChar`. -/
def writeChar (env : Allocator) (value : UInt32) : CRemoteParcel → ECode × CRemoteParcel :=
  writeInt32 env value

/-- `WriteInt16`; the conversion to `Int32` extends the sign. -/
def writeInt16 (env : Allocator) (value : Int16) : CRemoteParcel → ECode × CRemoteParcel :=
  writeInt32 env value.toInt32.toUInt32

/-- `WriteInt64`. -/
def writeInt64 (env : Allocator) (value : UInt64) : CRemoteParcel → ECode × CRemoteParcel :=
  writeAligned env (dwordBytes value)

/-- `WriteFloat`, as bits. -/
def writeFloat (env : Allocator) (value : UInt32) : CRemoteParcel → ECode × CRemoteParcel :=
  writeAligned env (wordBytes value)

/-- `WriteCStringInner`. -/
def writeCStringInner (env : Allocator) (str : CString) : CRemoteParcel → ECode × CRemoteParcel :=
  write env str.terminated (UInt32.ofNat str.chars.length + 1)

/-- `WriteString`. -/
def writeString (env : Allocator) (str : CarString) (p : CRemoteParcel) : ECode × CRemoteParcel :=
  match str with
  | none => p.writeInt32 env MSH_NULL
  | some s => (p.writeInt32 env MSH_NOT_NULL).2.writeCStringInner env s

/-- `WriteStruct`: `none` is the null handle. -/
def writeStruct (env : Allocator) (value : Option (List UInt8)) (size : UInt32)
    (p : CRemoteParcel) : ECode × CRemoteParcel :=
  match value with
  | none => p.writeInt32 env MSH_NULL
  | some bs => ((p.writeInt32 env MSH_NOT_NULL).2.writeInt32 env size).2.write env bs size

/-- `WriteEMuid`. -/
def writeEMuid (env : Allocator) (id : EMuid) : CRemoteParcel → ECode × CRemoteParcel :=
  write env id.bytes 16

/-- `WriteEGuid`; `ptr` is the address in `id.mUunm`. -/
def writeEGuid (env : Allocator) (id : EGuid) (ptr : UInt32) (p : CRemoteParcel) :
    ECode × CRemoteParcel :=
  match p.write env (id.bytes ptr) 24 with
  | (ec, p) => if failed ec then (ec, p) else p.writeCStringInner env id.mUunm

end CRemoteParcel

/-! ### Values and their kinds -/

/-- A value for one of the typed operations. -/
inductive Value
  | byte (v : UInt8)
  | boolean (v : Bool)
  | char32 (v : UInt32)
  | int16 (v : Int16)
  | int32 (v : UInt32)
  | int64 (v : UInt64)
  | float (bits : UInt32)
  | string (v : CarString)
  | emuid (v : EMuid)
  | eguid (v : EGuid)
  | struct (v : Option (List UInt8))
deriving DecidableEq, Repr

/-- Which of the typed operations. -/
inductive Kind
  | byte | boolean | char32 | int16 | int32 | int64 | float | string | emuid | eguid | struct
deriving DecidableEq, Repr

def Value.kind : Value → Kind
  | .byte _ => .byte
  | .boolean _ => .boolean
  | .char32 _ => .char32
  | .int16 _ => .int16
  | .int32 _ => .int32
  | .int64 _ => .int64
  | .float _ => .float
  | .string _ => .string
  | .emuid _ => .emuid
  | .eguid _ => .eguid
  | .struct _ => .struct

/-- What uninitialised locals and the caller's out-parameters hold before a read. -/
structure Junk where
  word : UInt32
  len : UInt32
  dword : UInt64
  id : EMuid

namespace CRemoteParcel

/-- The write operation of a value; `ptr` is the address of the name of an `EGuid`. -/
def writeValue (env : Allocator) (ptr : UInt32) : Value → CRemoteParcel → ECode × CRemoteParcel
  | .byte v => writeByte env v
  | .boolean v => writeBoolean env v
  | .char32 v => writeChar env v
  | .int16 v => writeInt16 env v
  | .int32 v => writeInt32 env v
  | .int64 v => writeInt64 env v
  | .float bits => writeFloat env bits
  | .string v => writeString env v
  | .emuid v => writeEMuid env v
  | .eguid v => writeEGuid env v ptr
  | .struct v => writeStruct env v (sizeOf32 (v.getD []))

/-- The read operation of a kind: its result code, and the value if one was stored. -/
def readValue (junk : Junk) : Kind → ReadM (ECode × Option Value)
  | .byte => do let (ec, v) ← readByte junk.word; pure (ec, some (.byte v))
  | .boolean => do let (ec, v) ← readBoolean junk.word; pure (ec, some (.boolean v))
  | .char32 => do let (ec, v) ← readChar junk.word; pure (ec, some (.char32 v))
  | .int16 => do let (ec, v) ← readInt16 junk.word; pure (ec, some (.int16 v))
  | .int32 => do let (ec, v) ← readInt32 junk.word; pure (ec, some (.int32 v))
  | .int64 => do let (ec, v) ← readInt64 junk.dword; pure (ec, some (.int64 v))
  | .float => do let (ec, v) ← readFloat junk.word; pure (ec, some (.float v))
  | .string => do let (ec, v) ← readString junk.word; pure (ec, some (.string v))
  | .emuid => do let (ec, v) ← readEMuid junk.id; pure (ec, some (.emuid v))
  | .eguid => do let (ec, v) ← readEGuid; pure (ec, v.map .eguid)
  | .struct => do
    match ← readStruct junk.word junk.len with
    | (ec, .untouched) => pure (ec, none)
    | (ec, .null) => pure (ec, some (.struct none))
    | (ec, .block bs) => pure (ec, some (.struct (some bs)))

/-- Write values in order; `ptrs` gives the name addresses. The result has the code of every
write. -/
def writeValues (env : Allocator) :
    (ptrs : ℕ → UInt32) → List Value → CRemoteParcel → List ECode × CRemoteParcel
  | _, [], p => ([], p)
  | ptrs, v :: vs, p =>
    match p.writeValue env (ptrs 0) v with
    | (ec, p) =>
      match p.writeValues env (fun k => ptrs (k + 1)) vs with
      | (ecs, p) => (ec :: ecs, p)

/-- Read values in order. -/
def readValues : (junk : ℕ → Junk) → List Kind → ReadM (List (ECode × Option Value))
  | _, [] => pure []
  | junk, k :: ks => do
    let r ← readValue (junk 0) k
    let rs ← readValues (fun i => junk (i + 1)) ks
    pure (r :: rs)

end CRemoteParcel

/-! ### The wire format -/

/-- A word as `WriteInt32` lays it out. -/
def wire32 (v : UInt32) : List UInt8 := wordBytes (htonl v)

@[simp]
theorem length_wire32 (v : UInt32) : (wire32 v).length = 4 := by simp [wire32]

/-- A string behind its null tag. -/
def wireString : CarString → List UInt8
  | none => wire32 MSH_NULL
  | some s => wire32 MSH_NOT_NULL ++ padded s.terminated

/-- The bytes a value occupies. -/
def Value.wire (ptr : UInt32) : Value → List UInt8
  | .byte v => wire32 v.toUInt32
  | .boolean v => wire32 (if v then 1 else 0)
  | .char32 v => wire32 v
  | .int16 v => wire32 v.toInt32.toUInt32
  | .int32 v => wire32 v
  | .int64 v => dwordBytes v
  | .float bits => wordBytes bits
  | .string v => wireString v
  | .emuid v => v.bytes
  | .eguid v => v.bytes ptr ++ padded v.mUunm.terminated
  | .struct none => wire32 MSH_NULL
  | .struct (some bs) => wire32 MSH_NOT_NULL ++ wire32 (sizeOf32 bs) ++ padded bs

/-- The bytes a sequence of values occupies. -/
def wireValues : (ptrs : ℕ → UInt32) → List Value → List UInt8
  | _, [] => []
  | ptrs, v :: vs => v.wire (ptrs 0) ++ wireValues (fun k => ptrs (k + 1)) vs

namespace CRemoteParcel

section

variable {env : Allocator} (henv : env.Succeeds)
include henv

theorem appends_writeInt32 (v : UInt32) : Appends (writeInt32 env v) (wire32 v) :=
  appends_writeAligned henv (by simp)

theorem appends_writeCStringInner (s : CString) :
    Appends (writeCStringInner env s) (padded s.terminated) := by
  refine appends_write henv _ ?_
  rw [sizeOf32, s.length_terminated, UInt32.ofNat_add]
  rfl

theorem appends_writeString (s : CarString) : Appends (writeString env s) (wireString s) := by
  cases s with
  | none => exact appends_writeInt32 henv _
  | some s => exact (appends_writeInt32 henv _).seq (appends_writeCStringInner henv s)

theorem appends_writeEMuid (id : EMuid) : Appends (writeEMuid env id) id.bytes := by
  have h := appends_write (n := 16) henv id.bytes (by rw [sizeOf32, EMuid.length_bytes]; rfl)
  rwa [padded_of_dvd (by simp)] at h

theorem appends_writeEGuid (id : EGuid) (ptr : UInt32) :
    Appends (writeEGuid env id ptr) (id.bytes ptr ++ padded id.mUunm.terminated) := by
  have h := appends_write (n := 24) henv (id.bytes ptr)
    (by rw [sizeOf32, EGuid.length_bytes]; rfl)
  rw [padded_of_dvd (by simp)] at h
  intro p hp hlt
  obtain ⟨q, hq, hseq⟩ := h.seq (appends_writeCStringInner henv id.mUunm) p hp hlt
  obtain ⟨r, hr, -⟩ := h p hp (by rw [List.length_append] at hlt; omega)
  refine ⟨q, ?_, hseq⟩
  simp only [hr] at hq
  simpa [writeEGuid, hr] using hq

theorem appends_writeStruct (bs : List UInt8) :
    Appends (writeStruct env (some bs) (sizeOf32 bs))
      (wire32 MSH_NOT_NULL ++ wire32 (sizeOf32 bs) ++ padded bs) := by
  have hsize : Appends (write env bs (sizeOf32 bs)) (padded bs) := appends_write henv bs rfl
  exact ((appends_writeInt32 henv MSH_NOT_NULL).seq
    (appends_writeInt32 henv (sizeOf32 bs))).seq hsize

/-- **The writer of a value** appends its wire format. -/
theorem appends_writeValue (ptr : UInt32) (v : Value) :
    Appends (writeValue env ptr v) (v.wire ptr) := by
  cases v with
  | byte v | boolean v | char32 v | int16 v | int32 v => exact appends_writeInt32 henv _
  | int64 v => exact appends_writeAligned henv (by simp)
  | float v => exact appends_writeAligned henv (by simp)
  | string v => exact appends_writeString henv v
  | emuid v => exact appends_writeEMuid henv v
  | eguid v => exact appends_writeEGuid henv v ptr
  | struct v =>
    cases v with
    | none => exact appends_writeInt32 henv _
    | some bs => exact appends_writeStruct henv bs

end

/-! ### Reading the wire format -/

theorem reads_readInt32 (v old : UInt32) : Reads (readInt32 old) (wire32 v) (NOERROR, v) := by
  refine (reads_readAligned (n := 4) (by rw [sizeOf32, length_wire32]; rfl) (by simp)).map ?_
  simp only [wire32, wordOf_wordBytes, ntohl_htonl]

/-- The converting readers undo a conversion that they invert. -/
theorem reads_readVia {α : Type} {conv : UInt32 → α} {zero v : α} (junk : UInt32) {i : UInt32}
    (h : conv i = v) : Reads (readVia conv zero junk) (wire32 i) (NOERROR, v) :=
  (reads_readInt32 i junk).map (by simp [h])

theorem reads_readInt64 (v old : UInt64) : Reads (readInt64 old) (dwordBytes v) (NOERROR, v) := by
  refine (reads_readAligned (n := 8) (by rw [sizeOf32, length_dwordBytes]; rfl) (by simp)).map ?_
  simp

theorem reads_readFloat (v old : UInt32) : Reads (readFloat old) (wordBytes v) (NOERROR, v) := by
  refine (reads_readAligned (n := 4) (by rw [sizeOf32, length_wordBytes]; rfl) (by simp)).map ?_
  simp

theorem reads_readString (s : CarString) (junk : UInt32) :
    Reads (readString junk) (wireString s) (NOERROR, s) := by
  cases s with
  | none => exact (reads_readInt32 MSH_NULL junk).map (by simp)
  | some s =>
    refine (reads_readInt32 MSH_NOT_NULL junk).bind ?_
    simp only [failed_NOERROR, MSH_NOT_NULL_ne, Bool.false_eq_true, or_self, if_false]
    rw [← List.nil_append (padded _)]
    exact (reads_assert (by simp)).bind ((reads_readCStringInner s).map rfl)

theorem reads_readEMuid (id old : EMuid) : Reads (readEMuid old) id.bytes (NOERROR, id) := by
  have h := reads_read (n := 16) id.bytes (by rw [sizeOf32, EMuid.length_bytes]; rfl)
  rw [padded_of_dvd (by simp)] at h
  exact h.map (by simp)

/-- An `EGuid` from its bytes and its name. -/
theorem mk_bytes (id : EGuid) (ptr : UInt32) :
    EGuid.mk (EMuid.ofBytes ((id.bytes ptr).take 16)) id.mUunm
      (wordOf (((id.bytes ptr).drop 20).take 4)) = id := by
  have hclsid : (id.bytes ptr).take 16 = id.mClsid.bytes := by
    rw [EGuid.bytes, List.append_assoc, List.take_left' (by simp)]
  have hcarcode : ((id.bytes ptr).drop 20).take 4 = wordBytes id.mCarcode := by
    rw [EGuid.bytes, List.drop_left' (by simp), List.take_of_length_le (by simp)]
  rw [hclsid, hcarcode, EMuid.ofBytes_bytes, wordOf_wordBytes]

theorem reads_readEGuid (id : EGuid) (ptr : UInt32) :
    Reads readEGuid (id.bytes ptr ++ padded id.mUunm.terminated) (NOERROR, some id) := by
  have h := reads_read (n := 24) (id.bytes ptr) (by rw [sizeOf32, EGuid.length_bytes]; rfl)
  rw [padded_of_dvd (by simp)] at h
  refine h.bind ((reads_readCStringInner id.mUunm).map ?_)
  simp only [mk_bytes]

theorem reads_readStruct (bs : List UInt8) (tag₀ len₀ : UInt32) :
    Reads (readStruct tag₀ len₀) (wire32 MSH_NOT_NULL ++ wire32 (sizeOf32 bs) ++ padded bs)
      (NOERROR, .block bs) := by
  rw [List.append_assoc]
  refine (reads_readInt32 MSH_NOT_NULL tag₀).bind ?_
  simp only [failed_NOERROR, MSH_NOT_NULL_ne, Bool.false_eq_true, or_self, if_false]
  rw [← List.nil_append (wire32 _ ++ _)]
  refine (reads_assert (by simp)).bind ((reads_readInt32 (sizeOf32 bs) len₀).bind ?_)
  exact (reads_read bs rfl).map rfl

theorem toInt16_toInt32 (v : Int16) : v.toInt32.toUInt32.toUInt16.toInt16 = v := by
  apply Int16.toBitVec_inj.mp
  have h : BitVec.setWidth 16 (BitVec.signExtend 32 v.toBitVec) = v.toBitVec := by
    refine BitVec.eq_of_getLsbD_eq fun i hi => ?_
    have hi' : i < 32 := by omega
    simp only [BitVec.getLsbD_setWidth, BitVec.getLsbD_signExtend, hi, hi', decide_true,
      Bool.true_and, if_true]
  simpa using h

/-- **The reader of a value's kind** consumes its wire format. -/
theorem reads_readValue (junk : Junk) (ptr : UInt32) (v : Value) :
    Reads (readValue junk v.kind) (v.wire ptr) (NOERROR, some v) := by
  cases v with
  | byte v => exact (reads_readVia _ (by simp)).map rfl
  | boolean v => exact (reads_readVia _ (by cases v <;> rfl)).map rfl
  | char32 v => exact (reads_readVia _ rfl).map rfl
  | int16 v => exact (reads_readVia _ (toInt16_toInt32 v)).map rfl
  | int32 v => exact (reads_readInt32 v _).map rfl
  | int64 v => exact (reads_readInt64 v _).map rfl
  | float v => exact (reads_readFloat v _).map rfl
  | string v => exact (reads_readString v _).map rfl
  | emuid v => exact (reads_readEMuid v _).map rfl
  | eguid v => exact (reads_readEGuid v ptr).map rfl
  | struct v =>
    cases v with
    | none =>
      have h : Reads (readStruct junk.word junk.len) (wire32 MSH_NULL) (NOERROR, .null) :=
        (reads_readInt32 MSH_NULL junk.word).map (by simp)
      exact h.map rfl
    | some bs => exact (reads_readStruct bs _ _).map rfl

/-! ### Sequences of values -/

/-- The state of a parcel that sequences of writes go through: ready, and with the data so
far. -/
theorem writeValues_spec {env : Allocator} (henv : env.Succeeds) (vs : List Value) :
    ∀ (ptrs : ℕ → UInt32) (p : CRemoteParcel), p.Ready →
      p.mDataSize.toNat + (wireValues ptrs vs).length < 2 ^ 30 →
      ∃ q, p.writeValues env ptrs vs = (vs.map fun _ => NOERROR, q) ∧ q.Ready ∧
        q.contents = p.contents ++ wireValues ptrs vs := by
  induction vs with
  | nil => exact fun ptrs p hp _ => ⟨p, rfl, hp, by simp [wireValues]⟩
  | cons v vs ih =>
    intro ptrs p hp hlt
    rw [wireValues, List.length_append] at hlt
    obtain ⟨q, hq, hready, hcontents, -⟩ :=
      appends_writeValue henv (ptrs 0) v p hp (by omega)
    have hsize : q.mDataSize.toNat = p.mDataSize.toNat + (v.wire (ptrs 0)).length := by
      rw [← length_contents, hcontents, List.length_append, length_contents]
    obtain ⟨r, hr, hready', hcontents'⟩ := ih (fun k => ptrs (k + 1)) q hready (by omega)
    refine ⟨r, by simp [writeValues, hq, hr], hready', ?_⟩
    rw [hcontents', hcontents, wireValues, List.append_assoc]

/-- Matching reads consume the wire format of a sequence. -/
theorem reads_readValues (vs : List Value) (junk : ℕ → Junk) (ptrs : ℕ → UInt32) :
    Reads (readValues junk (vs.map Value.kind)) (wireValues ptrs vs)
      (vs.map fun v => (NOERROR, some v)) := by
  induction vs generalizing junk ptrs with
  | nil => exact Reads.pure []
  | cons v vs ih =>
    exact (reads_readValue (junk 0) (ptrs 0) v).bind ((ih _ _).map rfl)

/-- At position zero a parcel holds its data. -/
theorem holds_contents {p : CRemoteParcel} (hlt : p.mDataSize.toNat < 2 ^ 30) :
    Holds (p.setDataPosition 0) p.contents where
  size := by simp [setDataPosition]
  lt := hlt
  bytes := by
    rw [length_contents]
    rfl

/-- Reading up to the end leaves the position at the data size. -/
theorem Holds.advance_pos {p : CRemoteParcel} {bs : List UInt8} (h : Holds p bs) :
    (p.advance (sizeOf32 bs)).mDataPos = (p.advance (sizeOf32 bs)).dataSize := by
  rw [← List.append_nil bs] at h
  have hpos : p.mDataPos + sizeOf32 bs = p.mDataSize := by
    apply UInt32.toNat_inj.mp
    rw [h.toNat_add, ← h.size, List.append_nil]
  simp [dataSize, CRemoteParcel.advance, hpos]

/-- Fewer values occupy a prefix. -/
theorem wireValues_take (vs : List Value) (ptrs : ℕ → UInt32) (k : ℕ) :
    wireValues ptrs (vs.take k) <+: wireValues ptrs vs := by
  induction vs generalizing ptrs k with
  | nil => simp
  | cons v vs ih =>
    cases k with
    | zero => exact List.nil_prefix
    | succ k => exact (List.prefix_append_right_inj _).mpr (ih _ k)

/-- **The typed round trip.** Values written in order to an empty parcel are read back by the
matching operations in the same order, every operation succeeds, and the reads end exactly at
the end of the data. The data after any number of the writes is a prefix of the final data. -/
theorem readValues_writeValues (env : Allocator) (henv : env.Succeeds) (ptrs : ℕ → UInt32)
    (junk : ℕ → Junk) (vs : List Value) (hlt : (wireValues ptrs vs).length < 2 ^ 30) :
    ∃ p q : CRemoteParcel,
      writeValues env ptrs vs {} = (vs.map fun _ => NOERROR, p) ∧
      readValues junk (vs.map Value.kind) (p.setDataPosition 0)
        = .ok (vs.map fun v => (NOERROR, some v), q) ∧
      q.mDataPos = q.dataSize ∧
      ∀ k, (writeValues env ptrs (vs.take k) {}).2.contents <+: p.contents := by
  have hspec (k : ℕ) : ∃ q, writeValues env ptrs (vs.take k) {} = ((vs.take k).map fun _ => NOERROR, q)
      ∧ q.contents = wireValues ptrs (vs.take k) := by
    have hle := (wireValues_take vs ptrs k).length_le
    obtain ⟨q, hq, -, hcontents⟩ := writeValues_spec henv (vs.take k) ptrs {} ready_new
      (by simp only [UInt32.toNat_zero]; omega)
    exact ⟨q, hq, hcontents⟩
  obtain ⟨p, hp, hcontents⟩ := hspec vs.length
  rw [List.take_length] at hp hcontents
  have hsize : p.mDataSize.toNat < 2 ^ 30 := by
    rw [← length_contents, hcontents]
    exact hlt
  have hholds := hcontents ▸ holds_contents (p := p) (by omega)
  refine ⟨p, _, hp, reads_readValues vs junk ptrs _ [] (by simpa using hholds),
    hholds.advance_pos, fun k => ?_⟩
  obtain ⟨q, hq, hqc⟩ := hspec k
  rw [hq, hcontents, hqc]
  exact wireValues_take vs ptrs k

/-- A byte, a null string, an id with a name, and an empty struct. -/
def mixedValues : List Value :=
  [.byte 1, .string none, .eguid ⟨⟨1, 2, 3, 4⟩, ⟨[0x61], zero_notMem_a⟩, 5⟩, .struct (some [])]

theorem readValues_writeValues_mixed : ∃ p q : CRemoteParcel,
    writeValues .zeros (fun _ => 7) mixedValues {} = (mixedValues.map fun _ => NOERROR, p) ∧
    readValues (fun _ => ⟨0, 0, 0, ⟨0, 0, 0, 0⟩⟩) (mixedValues.map Value.kind) (p.setDataPosition 0)
      = .ok (mixedValues.map fun v => (NOERROR, some v), q) ∧
    q.mDataPos = q.dataSize ∧
    ∀ k, (writeValues .zeros (fun _ => 7) (mixedValues.take k) {}).2.contents <+: p.contents :=
  readValues_writeValues .zeros Allocator.zeros_succeeds _ _ mixedValues (by decide)

end CRemoteParcel

end ElastosCar
