import ElastosCar.Ipc.Parcel
import ElastosCar.Proxy.Calls

/-!
# The parcel of android_linux as an IParcel

`CRemoteParcel` of `android_linux/CRemoteParcel.cpp` behind the interface of the marshalling
functions, and its wire format: a list of items, where that of linux_rpc is a list of bytes.

* The parcel of a request is only written to by the proxy and only read by the stub. `Data` has
  both ends, so that a call runs on the one state of `IParcel`.
* Binder objects are not in `AndroidParcel`: how interfaces are written and read is in the
  environment.
-/

namespace ElastosCar

open Marshal

namespace Ipc

/-- What a parcel is written to as, and what is left to read of it. -/
abbrev Data (P : AndroidParcel) := P.Out × P.In

/-- What the operations depend on besides the parcel: the branches for interfaces, and the loop
over the elements of an array of them. -/
structure IpcEnv (P : AndroidParcel) extends Surroundings P where
  writeInterfaces : CarQuintet → P.Out → ECode × P.Out
  writeInterfacePtr : Option Itf → P.Out → ECode × P.Out
  readInterfacePtr : Run P.In Fault (ECode × ItfSlot)

section

variable (P : AndroidParcel)

/-- A `Write*` function; `WriteValue` returns `NOERROR`. -/
def writeSource (v : Source) (d : Data P) : ECode × Data P := (NOERROR, (v.write P d.1).1, d.2)

/-- A write that may fail. -/
def onOut (w : P.Out → ECode × P.Out) (d : Data P) : ECode × Data P := ((w d.1).1, (w d.1).2, d.2)

/-- A read. -/
def onIn {α : Type} (r : Run P.In Fault α) : Run (Data P) Fault α := fun d =>
  (r d.2).map fun x => (x.1, d.1, x.2)

/-- `WriteArrayOf`. -/
def writeArrayOf (env : IpcEnv P) : Option CarQuintet → Data P → ECode × Data P
  | none => writeSource P (.arrayOf none)
  | some q =>
    if hq : q.type ≠ Type_IObject then writeSource P (.arrayOf (some ⟨q, hq⟩))
    else onOut P fun p => env.writeInterfaces q (P.write q.bytes (P.writeInt32 MSH_NOT_NULL p))

/-- The parcel as the marshalling functions see it. -/
def ipcParcel (env : IpcEnv P) : IParcel (Data P) where
  writeInt32 v := writeSource P (.int32 v)
  writeInt64 v := writeSource P (.int64 v)
  writeStruct value size := writeSource P (.struct (value.map fun bs i => bs.getD i 0) size)
  writeEMuid id := writeSource P (.emuid id)
  writeEGuid id ptr := writeSource P (.eguid id ptr)
  writeString s := writeSource P (.string s)
  writeArrayOf := writeArrayOf P env
  writeInterfacePtr x := onOut P (env.writeInterfacePtr x)
  readByte := onIn P do let v ← P.readInt32; pure (NOERROR, v.toUInt8)
  readInt16 := onIn P do let v ← P.readInt32; pure (NOERROR, v.toUInt16.toInt16)
  readInt32 := onIn P do let v ← P.readInt32; pure (NOERROR, v)
  readInt64 := onIn P do let v ← P.readInt64; pure (NOERROR, v)
  readStruct := onIn P do
    match ← readStruct P with
    | some bs => pure (NOERROR, .block bs)
    -- the address is a parameter, and `value = NULL` stores nothing
    | none => pure (NOERROR, .untouched)
  readEMuid := onIn P do let bs ← P.read 16; pure (NOERROR, EMuid.ofBytes bs)
  readEGuid := onIn P do let id ← readEGuid P; pure (NOERROR, some id)
  readString := onIn P do let s ← readString P; pure (NOERROR, s)
  readArrayOf := onIn P (readArrayOf P env.toSurroundings)
  readInterfacePtr := onIn P env.readInterfacePtr

/-! ### The wire format -/

/-- There is room for everything. -/
def ipcStream : Stream (Data P) Item where
  Room _ := True
  Wrote items d := P.written d.1 = items
  Left items d := P.unread d.2 = items
  room_of_append _ := trivial

end

section

variable {P : AndroidParcel}

/-- What is in the parcel for an argument. Interfaces are not carried. -/
def itemsArg : ArgVal → List Item
  | .word v => [.int32 v]
  | .dword v => [.int64 v]
  | .emuid id => [.block id.bytes]
  | .eguid id ptr => (Source.eguid id ptr).items
  | .string s => stringItems s
  | .array none => [.int32 MSH_NULL]
  | .array (some q) => [.int32 MSH_NOT_NULL, .block q.bytes] ++ elementItems q.payload
  | .struct value size => (Source.struct (value.map fun bs i => bs.getD i 0) size).items
  | .interface _ => []

/-- The values that arrive: no structs, and no arrays that the reader does not allocate. -/
def IpcCarries : ArgVal → Prop
  | .struct _ _ | .interface _ => False
  | .array (some q) => q.Plain ∧ refusesSize q.mSize = false
  | _ => True

theorem appends_writeSource (v : Source) :
    (ipcStream P).Appends NOERROR (writeSource P v) v.items := by
  rintro d ss rfl -
  exact ⟨_, rfl, written_writeValue v d.1⟩

theorem reads_of_takes {α : Type} {r : Run P.In Fault α} {items : List Item} {v : α}
    (h : Takes P.unread r items v) : (ipcStream P).Reads (onIn P r) items (· = v) := by
  intro d rest hd
  obtain ⟨s', hrun, hs'⟩ := h d.2 rest hd
  exact ⟨v, (d.1, s'), by rw [onIn, hrun]; rfl, rfl, hs'⟩

theorem takes_readEMuid (id : EMuid) :
    Takes P.unread (do let bs ← P.read 16; pure (NOERROR, EMuid.ofBytes bs)) [.block id.bytes]
      (NOERROR, id) := by
  have hread := P.takes_read id.bytes
  rw [id.length_bytes] at hread
  refine hread.map ?_
  rw [EMuid.ofBytes_bytes]

theorem takes_readEGuid (id : EGuid) (ptr : UInt32) :
    Takes P.unread (readEGuid P) (Source.eguid id ptr).items id := by
  have hread := P.takes_read (id.bytes ptr)
  rw [id.length_bytes] at hread
  refine hread.bind ((P.takes_readCString id.mUunm).map ?_)
  exact congrArg pure (CRemoteParcel.mk_bytes id ptr)

/-- **The wire format of android_linux.** -/
def ipcCodec (P : AndroidParcel) (env : IpcEnv P) : Codec (ipcStream P) (ipcParcel P env) where
  word v := [.int32 v]
  appends_word v := appends_writeSource (.int32 v)
  reads_word v := reads_of_takes ((P.takes_readInt32 v).map rfl)
  arg := itemsArg
  Carries := IpcCarries
  writes_arg v hv := by
    cases v with
    | word v => exact appends_writeSource (.int32 v)
    | dword v => exact appends_writeSource (.int64 v)
    | emuid id => exact appends_writeSource (.emuid id)
    | eguid id ptr => exact appends_writeSource (.eguid id ptr)
    | string s => exact appends_writeSource (.string s)
    | array q =>
      cases q with
      | none => exact appends_writeSource (.arrayOf none)
      | some q =>
        have hwrite : (ipcParcel P env).writeArrayOf (some q)
            = writeSource P (.arrayOf (some ⟨q, hv.1⟩)) := dif_pos hv.1
        rw [WritesArg, hwrite]
        exact appends_writeSource (.arrayOf (some ⟨q, hv.1⟩))
    | struct value size | interface x => exact hv.elim
  reads_arg v hv := by
    cases v with
    | word v => exact reads_of_takes ((P.takes_readInt32 v).map rfl)
    | dword v => exact reads_of_takes ((P.takes_readInt64 v).map rfl)
    | emuid id => exact reads_of_takes (takes_readEMuid id)
    | eguid id ptr => exact reads_of_takes ((takes_readEGuid id ptr).map rfl)
    | string s => exact reads_of_takes ((takes_readString s).map rfl)
    | array q =>
      cases q with
      | none =>
        have hread : Takes P.unread (readArrayOf P env.toSurroundings) [.int32 MSH_NULL]
            (NOERROR, .null) := (P.takes_readInt32 MSH_NULL).bind (Takes.pure _)
        exact (reads_of_takes hread).mono fun r hr => .inr (by rw [hr])
      | some q =>
        have hread : Takes P.unread (readArrayOf P env.toSurroundings)
            ([.int32 MSH_NOT_NULL, .block q.bytes] ++ elementItems q.payload)
            (NOERROR, .array (q.copy env.buf)) :=
          takes_readArrayOf (takes_readAllocated hv.1 hv.2)
        exact (reads_of_takes hread).mono fun r hr =>
          ⟨q.copy env.buf, by rw [hr], fun _ => q.sameContents_copy env.buf⟩
    | struct value size | interface x => exact hv.elim

/-- The wire format, for results. -/
def ipcOutCodec (P : AndroidParcel) (env : IpcEnv P) :
    OutCodec (ipcStream P) (ipcParcel P env) where
  toCodec := ipcCodec P env
  CarriesOut := IpcCarries
  writes_out v hv := by
    have hwrites := (ipcCodec P env).writes_arg v hv
    cases v with
    | string s =>
      cases s with
      -- the stub writes the tag of a null string itself
      | none => exact appends_writeSource (.int32 MSH_NULL)
      | some s => exact hwrites
    | word v | dword v | emuid id | eguid id ptr | array q => exact hwrites
    | struct value size | interface x => exact hv.elim
  reads_out v hv := by
    have hreads := (ipcCodec P env).reads_arg v hv
    cases v with
    | word v =>
      have hbyte : Takes P.unread (do let w ← P.readInt32; pure (NOERROR, w.toUInt8)) [.int32 v]
          (NOERROR, v.toUInt8) := (P.takes_readInt32 v).map rfl
      have hshort : Takes P.unread (do let w ← P.readInt32; pure (NOERROR, w.toUInt16.toInt16))
          [.int32 v] (NOERROR, v.toUInt16.toInt16) := (P.takes_readInt32 v).map rfl
      exact ⟨(reads_of_takes hbyte).mono fun r hr => by rw [hr],
        (reads_of_takes hshort).mono fun r hr => by rw [hr], hreads⟩
    | dword v | emuid id | eguid id ptr | string s | array q => exact hreads
    | struct value size | interface x => exact hv.elim

/-- It carries what the marshaller delivers. -/
theorem complete_ipcOutCodec (P : AndroidParcel) (env : IpcEnv P) :
    (ipcOutCodec P env).Complete .ipc where
  carries v hv := by
    obtain ⟨hexact, hsize⟩ := hv
    cases v with
    | array q =>
      cases q with
      | none => exact hexact.elim
      | some q => exact ⟨hexact, hsize rfl q rfl⟩
    | struct value size | interface x => exact hexact.elim
    | word v | dword v | emuid id | eguid id ptr | string s => trivial
  carriesOut {s t o v} hv h := by
    obtain ⟨hreturns, harray⟩ := h
    cases v with
    | array q =>
      cases q with
      | none => exact hreturns.elim
      | some q => exact ⟨(harray q rfl).1, (harray q rfl).2 rfl⟩
    | struct value size => exact hreturns.elim
    | interface x =>
      -- there are no interfaces among the results
      rw [Proc.readOut] at hv
      cases ht : t.type <;> rw [ht] at hv <;> dsimp only at hv
      case pstring | arrayOf =>
        split at hv
        · cases hv
        · obtain ⟨_, -, hx⟩ := Option.map_eq_some_iff.mp hv
          cases hx
      all_goals cases hv
    | word v | dword v | emuid id | eguid id ptr | string s => trivial

end

end Ipc

end ElastosCar
