import ElastosCar.Marshal.Respects
import ElastosCar.Parcel.Safety
import ElastosCar.Proxy.Reply

/-!
# Invoking a method

`TransactRunnable::Run`, `OnTransact` and `CObjectStub::Invoke` of `linux_rpc/stub.cpp`: the
command is read from the request as a string, and for an `INVOKE` a `MarshalHeader` behind it
selects the interface and the method. The arguments are unmarshalled to a new stack, the method is
called, and its code and results are written to the reply.

* `selectMethod` is `Invoke` up to the arguments, as the release build has it: the interface index
  is used as it comes, and one outside the array is a fault.
* What a method does to its arguments and to the out buffer is a parameter of the stub.
* `OnTransact` ignores what `Invoke` returns, so only what is in the reply tells the caller of a
  failure.
-/

namespace ElastosCar

open CRemoteParcel

/-! ### The header -/

/-- The object representation of an `Int16`. -/
def shortBytes (v : Int16) : List UInt8 := toLE 2 v.toUInt16.toNat

/-- The `Int16` with the given object representation. -/
def shortOf (bs : List UInt8) : Int16 := (UInt16.ofNat (ofLE bs)).toInt16

@[simp]
theorem length_shortBytes (v : Int16) : (shortBytes v).length = 2 := by simp [shortBytes]

@[simp]
theorem shortOf_shortBytes (v : Int16) : shortOf (shortBytes v) = v := by
  rw [shortOf, shortBytes, ofLE_toLE_of_lt (by simpa using v.toUInt16.toNat_lt),
    UInt16.ofNat_toNat, Int16.toInt16_toUInt16]

theorem shortBytes_shortOf {bs : List UInt8} (h : bs.length = 2) : shortBytes (shortOf bs) = bs := by
  have hlt : ofLE bs < 65536 := by simpa [h] using ofLE_lt bs
  rw [shortBytes, shortOf, UInt16.toUInt16_toInt16, UInt16.toNat_ofNat_of_lt' hlt, ← h, toLE_ofLE]

/-- `MARSHAL_MAGIC`. -/
def MARSHAL_MAGIC : UInt32 := 0x7a79636f

structure MarshalHeader where
  mMagic : UInt32
  mInterfaceIndex : Int16
  mMethodIndex : Int16
  mInSize : UInt32
  mOutSize : UInt32
deriving DecidableEq, Repr

namespace MarshalHeader

/-- The sixteen bytes of a header. -/
def bytes (h : MarshalHeader) : List UInt8 :=
  wordBytes h.mMagic ++ shortBytes h.mInterfaceIndex ++ shortBytes h.mMethodIndex
    ++ wordBytes h.mInSize ++ wordBytes h.mOutSize

/-- The header with the given sixteen bytes. -/
def ofBytes (bs : List UInt8) : MarshalHeader :=
  ⟨wordOf (bs.take 4), shortOf ((bs.drop 4).take 2), shortOf ((bs.drop 6).take 2),
    wordOf ((bs.drop 8).take 4), wordOf ((bs.drop 12).take 4)⟩

@[simp]
theorem length_bytes (h : MarshalHeader) : h.bytes.length = 16 := by simp [bytes]

@[simp]
theorem ofBytes_bytes (h : MarshalHeader) : ofBytes h.bytes = h := by
  simp [ofBytes, bytes, List.drop_append, List.drop_eq_nil_of_le, List.take_of_length_le]

/-- Any sixteen bytes are a header. -/
theorem bytes_ofBytes {bs : List UInt8} (h : bs.length = 16) : (ofBytes bs).bytes = bs := by
  rw [bytes, ofBytes, wordBytes_wordOf (by simp [h]), shortBytes_shortOf (by simp [h]),
    shortBytes_shortOf (by simp [h]), wordBytes_wordOf (by simp [h]), wordBytes_wordOf (by simp [h])]
  rw [← List.take_add, ← List.take_add, ← List.take_add, ← List.take_add,
    List.take_of_length_le (by rw [h])]

end MarshalHeader

/-! ### Class information -/

structure CIMethodInfo where
  mParams : List Param
  /-- `BT_IS_ONEWAY` of `mAttribs`. -/
  oneway : Bool := false
  mReserved1 : UInt8 := 0
deriving DecidableEq, Repr

/-- `GET_IN_INTERFACE_MARK`. -/
def CIMethodInfo.inInterfaceMark (info : CIMethodInfo) : Bool := info.mReserved1 &&& 0x80 ≠ 0

/-- The methods behind those of `IInterface`; their number is a `UInt16`. -/
structure CIInterfaceInfo where
  mMethods : List CIMethodInfo
  mMethodNumMinus4_lt : mMethods.length < 65536

/-- The number of the interfaces is a `UInt16`. -/
structure CIClassInfo where
  mInterfaces : List CIInterfaceInfo
  mInterfaceNum_lt : mInterfaces.length < 65536

/-- `mInterfaces[index]`. -/
def CIClassInfo.interfaceAt (cls : CIClassInfo) (index : Int16) : Option CIInterfaceInfo :=
  if 0 ≤ index.toInt then cls.mInterfaces[index.toInt.toNat]? else none

/-! ### Invoke -/

structure CObjectStub where
  mInfo : CIClassInfo
  /-- What a method of an interface does when it is called. -/
  method : (interface method : ℕ) → Marshal Unit ECode
  /-- What `FlatModuleInfo` makes of the module, if `LookupModuleInfo` finds it. -/
  moduleInfo : Option (List UInt8)

/-- The method that a header selects. -/
structure Selected where
  inHeader : MarshalHeader
  interfaceIndex : ℕ
  methodIndex : ℕ
  methodInfo : CIMethodInfo
deriving DecidableEq

/-- What `Invoke` makes of a header; `none` where it goes to `ErrorExit`. -/
def CIClassInfo.select (cls : CIClassInfo) (inHeader : MarshalHeader) :
    Except Fault (Option Selected) :=
  if inHeader.mMagic ≠ MARSHAL_MAGIC then .ok none
  else if 4 ≤ inHeader.mMethodIndex.toInt then
    match cls.interfaceAt inHeader.mInterfaceIndex with
    | none => .error .outOfBounds
    | some info =>
      let uMethodIndex := inHeader.mMethodIndex.toInt.toNat - 4
      -- none where it is not below `mMethodNumMinus4`
      .ok (info.mMethods[uMethodIndex]?.map fun methodInfo =>
        ⟨inHeader, inHeader.mInterfaceIndex.toInt.toNat, uMethodIndex, methodInfo⟩)
  else .ok none

/-- `Invoke` up to the arguments. -/
def selectMethod (cls : CIClassInfo) : ReadM (Option Selected) := do
  match ← readInplace 16 with
  | none => pure none
  | some off =>
    let inHeader := MarshalHeader.ofBytes (← peek off 16)
    StateT.lift (cls.select inHeader)

/-- The memory with which a function is called: `args` is at the first argument. -/
def Proc.call {π ρ : Type} (s : Proc π) (parcel : ρ) (out : Option ℕ) : Proc ρ :=
  ⟨parcel, 0, s.stack, out, s.outBuffer, s.heap, s.addr, s.phase⟩

/-- `outHeader`. -/
def MarshalHeader.outHeader (h : MarshalHeader) : Option ℕ := if h.mOutSize = 0 then none else some 0

/-- How `Invoke` ends. -/
inductive Invoked
  /-- Before the method is called. -/
  | rejected
  /-- The method returned `ec` and `MarshalOut`, if it was called, `orgec`. -/
  | returned (ec orgec : ECode)
deriving DecidableEq, Repr

/-- `Invoke` from the method's return on. Where the source passes no reply to `MarshalOut`,
nothing is written: either the `[out]` parameters are skipped, or the missing out buffer is a
fault. -/
def invokeOut (E : RpcEnv) (b : Build) (sel : Selected) (ec : ECode) (s : Proc Unit)
    (reply : CRemoteParcel) : Except Fault (Invoked × CRemoteParcel) := do
  let mark := sel.methodInfo.inInterfaceMark
  let reply := (reply.writeInt32 E.alloc ec).2
  if sel.inHeader.outHeader.isSome ∧ failed ec = false ∨ mark then
    let (orgec, s) ← stubProcessMshOut .rpc b (rpcParcel E) sel.methodInfo.mParams
      (failed ec && mark) (s.call reply sel.inHeader.outHeader)
    pure (.returned ec orgec, s.parcel)
  else pure (.returned ec NOERROR, reply)

/-- `CObjectStub::Invoke`, in a process with the given memory. -/
def CObjectStub.invoke (E : RpcEnv) (b : Build) (stub : CObjectStub) (mem : Proc Unit)
    (data reply : CRemoteParcel) : Except Fault (Invoked × CRemoteParcel) := do
  let (selected, data) ← selectMethod stub.mInfo data
  match selected with
  | none => pure (.rejected, reply)
  | some sel =>
    let out := sel.inHeader.outHeader
    let (ec, s) ← stubProcessUnmshIn .rpc b (rpcParcel E) sel.methodInfo.mParams (mem.call data out)
    if failed ec then pure (.rejected, reply)
    else
      let (ec, s) ← stub.method sel.interfaceIndex sel.methodIndex (s.call () out)
      invokeOut E b sel ec s reply

/-- `CObjectStub::OnTransact`. -/
def CObjectStub.onTransact (E : RpcEnv) (b : Build) (stub : CObjectStub) (mem : Proc Unit)
    (cmd : CarString) (data reply : CRemoteParcel) : Except Fault (ECode × CRemoteParcel) := do
  if cmd = some INVOKE then
    let (_, reply) ← stub.invoke E b mem data reply
    pure (NOERROR, reply)
  else if cmd = some GET_CLASS_INFO then
    match stub.moduleInfo with
    | none => pure (NOERROR, (reply.writeInt32 E.alloc E_FAIL).2)
    | some destModInfo =>
      let reply := (reply.writeInt32 E.alloc NOERROR).2
      let reply := (reply.writeInt32 E.alloc (sizeOf32 destModInfo)).2
      pure (NOERROR, (reply.write E.alloc destModInfo (sizeOf32 destModInfo)).2)
  else if cmd = some PING then pure (NOERROR, (reply.writeInt32 E.alloc NOERROR).2)
  else if cmd = some RELEASE then pure (E_FAIL, (reply.writeInt32 E.alloc NOERROR).2)
  else pure (NOERROR, (reply.writeInt32 E.alloc E_FAIL).2)

/-- `TransactRunnable::Run` up to the reply, if one is sent. -/
def CObjectStub.transact (E : RpcEnv) (b : Build) (stub : CObjectStub) (mem : Proc Unit)
    (mData : CRemoteParcel) : Except Fault (Option CRemoteParcel) := do
  let ((_, cmd), mData) ← (rpcParcel E).readString mData
  let (ec, reply) ← stub.onTransact E b mem cmd mData {}
  pure (if failed ec then none else some reply)

/-! ### Reading the header -/

/-- The header is taken off the request. -/
theorem selectMethod_of_rest {p : CRemoteParcel} {h : MarshalHeader} {bs : List UInt8}
    (hrest : p.rest = h.bytes ++ bs) (cls : CIClassInfo) :
    selectMethod cls p = (cls.select h).map (·, p.advance 16) ∧ (p.advance 16).rest = bs := by
  obtain ⟨hread, hpeek, hrest'⟩ := readInplace_of_rest
    (show (16 : UInt32).toNat = h.bytes.length by simp) (by simp) (by simp) hrest
  refine ⟨?_, hrest'⟩
  simp only [UInt32.reduceToNat] at hpeek
  rw [selectMethod, Run.bind_ok hread]
  dsimp only
  rw [Run.bind_ok hpeek, MarshalHeader.ofBytes_bytes]
  cases cls.select h <;> rfl

end ElastosCar
