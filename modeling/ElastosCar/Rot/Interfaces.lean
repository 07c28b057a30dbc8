import ElastosCar.Stub.CreateObject

/-!
# Interface pointers as packs

`StdMarshalInterface` of `linux_rpc/imarshal.cpp` makes an `InterfacePack` of an interface pointer,
and `StdUnmarshalInterface` an interface pointer of a pack, each with the object tables of its
process. An object that has no stub gets one, and an address that is not known gets a proxy.

Here are the two functions and what they call of `CObjectStub` and `CObjectProxy`. A process has
its tables, and its stubs and proxies at their addresses; the memory that `new` returns, and what
comes from outside the marshaller, are arguments.
-/

namespace ElastosCar.Rot

open ClsInfo

def E_CONFLICT_WITH_LOCAL_KEYWORD : ECode := 0x80170000

def EIID_IProxy : EMuid := ⟨0x00010005, 0, 0x000000C0, 0x66000000⟩

/-- An interface pointer. -/
inductive Pointer
  /-- An interface of an object of this process. -/
  | object (address : ℕ)
  /-- `&mInterfaces[n].mVTPtr` of a proxy. -/
  | interface (proxy n : ℕ)
  /-- The `IProxy` of a proxy. -/
  | proxy (proxy : ℕ)
deriving DecidableEq, Repr

structure InterfacePack where
  mClsid : EMuid := ⟨0, 0, 0, 0⟩
  mIndex : ℕ := 0
  mNetAddress : CarString := none
deriving DecidableEq, Repr

/-- The process: what its objects answer to `Probe`, and its platform. -/
structure Host where
  /-- How a `char` becomes an integer. -/
  extend : UInt8 → UInt32
  Probe : ℕ → EMuid → Option ℕ
  /-- An object has one `IInterface`, whichever of its interfaces is asked. -/
  probe_identity : ∀ {q iid r}, Probe q iid = some r →
    Probe r EIID_IInterface = Probe q EIID_IInterface
  /-- The compiler of the interface definitions chooses it. -/
  EIID_ICustomMarshal : EMuid

/-- `Probe(EIID_IInterface)`: of a proxy it is `(IInterface*)(IProxy*)this`. -/
def Host.identity (h : Host) : Pointer → Option ℕ
  | .object q => h.Probe q EIID_IInterface
  | .interface p _ | .proxy p => some p

/-- `CObjectStub`; of `mInterfaces` the `mObject`. -/
structure StubObject where
  mInfo : CIClassInfo
  mInterfaces : List ℕ
  mNetAddress : CarString
deriving DecidableEq, Repr

/-- `CObjectProxy`; its interfaces are those of the class. -/
structure ProxyObject where
  mInfo : CIClassInfo
  mNetAddress : CarString
deriving DecidableEq, Repr

/-- A process, as the marshaller sees it. -/
structure Process where
  rot : RotState := {}
  stubs : ℕ → Option StubObject := fun _ => none
  proxies : ℕ → Option ProxyObject := fun _ => none

/-- `*object`, as the tables have it or as `StdUnmarshalCustomInterface` makes it. -/
inductive Unmarshalled
  | standard (object : Option Pointer)
  | custom (object : Option Pointer)
deriving DecidableEq, Repr

/-- What `StdUnmarshalCustomInterface` returns. -/
structure CustomResult where
  ec : ECode
  object : Option Pointer
deriving DecidableEq, Repr

/-! ### Stubs -/

/-- `CObjectStub::GetInterfaceIndex`. -/
def StubObject.GetInterfaceIndex (stub : StubObject) (object : Pointer) : Except ECode ℕ :=
  match (stub.mInterfaces.map Pointer.object).idxOf? object with
  | some n => .ok n
  | none => .error E_NO_INTERFACE

/-- What `S_CreateObject` puts into a stub. -/
def StubCreation.stubObject (c : StubCreation) (info : CIClassInfo) : StubObject where
  mInfo := info
  mInterfaces := info.mInterfaces.filterMap fun i => c.Probe i.mIID
  mNetAddress := some c.netAddress

/-- The creation of a stub for an object of the process. -/
def StubCreation.of (c : StubCreation) (h : Host) (q : ℕ) : StubCreation :=
  { c with object := some q, stub := true, Probe := h.Probe q }

namespace Process

/-- `CObjectStub::AddRef`. -/
def addRefStub (k : ℕ) (s : Process) : Process :=
  { s with rot := { s.rot with stubRef := count s.rot.stubRef k 1 } }

/-- `CObjectStub::Release`. -/
def releaseStub (k : ℕ) (s : Process) : Process where
  rot := { s.rot with stubRef := count s.rot.stubRef k (-1) }
  stubs := if s.rot.stubRef k = 1 then Function.update s.stubs k none else s.stubs
  proxies := s.proxies

/-- `CObjectStub::S_CreateObject`: a new stub has no references. -/
def S_CreateStub (h : Host) (q : ℕ) (c : StubCreation) (s : Process) :
    ECode × Option ℕ × Process :=
  match (c.of h q).S_CreateObject h.extend s.rot, (c.of h q).classInfo with
  | (ec, some k, rot), .ok info => (ec, some k, { s with
      rot := { rot with stubRef := Function.update rot.stubRef k 0 }
      stubs := Function.update s.stubs k (some ((c.of h q).stubObject info)) })
  | (ec, stub, rot), _ => (ec, stub, { s with rot })

end Process

/-! ### Proxies -/

/-- `CObjectProxy::GetInterfaceIndex`. -/
def ProxyObject.GetInterfaceIndex (proxy : ProxyObject) (this : ℕ) (object : Pointer) :
    Except ECode ℕ :=
  match (List.range proxy.mInfo.mInterfaces.length).find? fun i => object = .interface this i with
  | some n => .ok n
  | none => .error E_NO_INTERFACE

/-- `CObjectProxy::GetInterface`, without its `AddRef`. -/
def ProxyObject.GetInterface (proxy : ProxyObject) (this index : ℕ) : Except ECode Pointer :=
  if index < proxy.mInfo.mInterfaces.length then .ok (.interface this index)
  else .error E_NO_INTERFACE

/-- What the steps of `CObjectProxy::S_CreateObject` come to. -/
structure ProxyCreation where
  /-- What `new CObjectProxy()` returns. -/
  proxyObj : Option ℕ
  modules : ModuleRegistry
  GetRemoteClassInfo : EMuid → Except {ec : ECode // failed ec = true} CIClassInfo
  /-- Whether there is memory for the interface proxies. -/
  interfaces : Bool
  /-- The memory for the entry of the import table. -/
  impObj : Option ℕ

/-- The class info, here or from the process of the stub. -/
def ProxyCreation.classInfo (c : ProxyCreation) (rclsid : EMuid) : Except ECode CIClassInfo :=
  match c.modules.LookupClassInfo rclsid with
  | (_, some info) => .ok info
  | (_, none) => (c.GetRemoteClassInfo rclsid).mapError Subtype.val

namespace Process

/-- `CObjectProxy::AddRef`. -/
def addRefProxy (p : ℕ) (s : Process) : Process :=
  { s with rot := { s.rot with proxyRef := count s.rot.proxyRef p 1 } }

/-- `CObjectProxy::Release`, as one step. The `RELEASE` request to the stub is not waited for. -/
def Release (h : Host) (p : ℕ) (s : Process) : Reply × Process :=
  match s.proxies p with
  | none => (.crashed, s)
  | some proxy =>
    let rot := { s.rot with proxyRef := count s.rot.proxyRef p (-1) }
    if rot.proxyRef p = 0 then
      match rot.UnregisterImportObject h.extend proxy.mNetAddress with
      | (.code ec, rot) =>
        if ec = S_FALSE then (.code NOERROR, { s with rot })
        else (.code NOERROR, { s with rot, proxies := Function.update s.proxies p none })
      | (r, rot) => (r, { s with rot })
    else (.code NOERROR, { s with rot })

/-- `CObjectProxy::S_CreateObject`: a new proxy has one reference. -/
def S_CreateProxy (h : Host) (c : ProxyCreation) (rclsid : EMuid) (address : CarString)
    (s : Process) : Reply × Option ℕ × Process :=
  match c.proxyObj with
  | none => (.code E_OUT_OF_MEMORY, none, s)
  | some p =>
    match c.classInfo rclsid with
    | .error ec => (.code ec, none, s)
    | .ok info =>
      if c.interfaces then
        match s.rot.RegisterImportObject h.extend address p c.impObj with
        | (.code ec, rot) =>
          if failed ec then (.code ec, none, { s with rot })
          else (.code NOERROR, some p, { s with
            rot := { rot with proxyRef := Function.update rot.proxyRef p 1 }
            proxies := Function.update s.proxies p (some ⟨info, address⟩) })
        | (r, rot) => (r, none, { s with rot })
      else (.code E_OUT_OF_MEMORY, none, s)

/-! ### Marshalling -/

/-- The address, the class and the index that a stub gives a pointer, and a reference. -/
def packStub (object : Pointer) (netAddress : CarString) (mIStub : Option ℕ)
    (interfacePack : InterfacePack) (s : Process) : Reply × InterfacePack × Process :=
  match mIStub with
  | none => (.crashed, interfacePack, s)
  | some k =>
    match s.stubs k with
    | none => (.crashed, interfacePack, s)
    | some stub =>
      match stub.GetInterfaceIndex object with
      | .ok n => (.code NOERROR, ⟨stub.mInfo.mCLSID, n, netAddress⟩, s.addRefStub k)
      | .error _ => (.code E_CONFLICT_WITH_LOCAL_KEYWORD,
          { interfacePack with mClsid := stub.mInfo.mCLSID, mNetAddress := netAddress }, s)

/-- The address, the class and the index that a proxy gives a pointer. -/
def packProxy (object : Pointer) (p : ℕ) (interfacePack : InterfacePack) (s : Process) :
    Reply × InterfacePack × Process :=
  match s.proxies p with
  | none => (.crashed, interfacePack, s)
  | some proxy =>
    -- `ASSERT_PROXY`
    if proxy.mInfo.mInterfaces = [] then
      (.asserted, { interfacePack with mNetAddress := proxy.mNetAddress }, s)
    else
      match proxy.GetInterfaceIndex p object with
      | .ok n => (.code NOERROR, ⟨proxy.mInfo.mCLSID, n, proxy.mNetAddress⟩, s)
      | .error ec => (.code ec,
          { interfacePack with mClsid := proxy.mInfo.mCLSID, mNetAddress := proxy.mNetAddress }, s)

/-- A new stub for an object of the process. An object that claims to be an `IProxy` is taken for a
`CObjectProxy`, and `S_CreateObject` may succeed without a stub. -/
def packNew (h : Host) (q : ℕ) (c : StubCreation) (interfacePack : InterfacePack) (s : Process) :
    Reply × InterfacePack × Process :=
  if (h.Probe q EIID_IProxy).isSome then (.crashed, interfacePack, s)
  else
    match s.S_CreateStub h q c with
    | (ec, stub, s) =>
      if failed ec then (.code ec, interfacePack, s)
      else packStub (.object q) ((stub.bind s.stubs).bind (·.mNetAddress)) stub interfacePack s

/-- `StdMarshalInterface`. -/
def StdMarshalInterface (h : Host) (object : Pointer) (c : StubCreation)
    (interfacePack : InterfacePack) (s : Process) : Reply × InterfacePack × Process :=
  match s.rot.FindExportObject (h.identity object) with
  | (.exported ex, rot) => packStub object ex.mNetAddress ex.mIStub interfacePack { s with rot }
  | (.code _, rot) =>
    match object with
    | .interface p _ | .proxy p => packProxy object p interfacePack { s with rot }
    | .object q => packNew h q c interfacePack { s with rot }
  | (r, rot) => (r, interfacePack, { s with rot })

/-! ### Unmarshalling -/

/-- The pack is of an object of this process. -/
def unmarshalLocal (h : Host) (ex : ExportObject) (interfacePack : InterfacePack)
    (custom : CustomResult) (s : Process) : Reply × Unmarshalled × Process :=
  match ex.mObject, ex.mIStub with
  | some o, some k =>
    if (h.Probe o h.EIID_ICustomMarshal).isSome then (.code custom.ec, .custom custom.object, s)
    else
      match s.stubs k with
      | none => (.crashed, .standard none, s)
      | some stub =>
        match stub.mInterfaces[interfacePack.mIndex]? with
        | none => (.crashed, .standard none, s)
        | some q => (.code NOERROR, .standard (some (.object q)),
            { s with rot := s.rot.addRef q }.releaseStub k)
  | _, _ => (.crashed, .standard none, s)

/-- The interface of a proxy with this index, with a reference. -/
def interfaceOf (h : Host) (p : ℕ) (interfacePack : InterfacePack) (custom : CustomResult)
    (s : Process) : Reply × Unmarshalled × Process :=
  match s.proxies p with
  | none => (.crashed, .standard none, s)
  | some proxy =>
    if proxy.mInfo.mInterfaces.any fun i => i.mIID == h.EIID_ICustomMarshal then
      (.code custom.ec, .custom custom.object, s)
    else
      match proxy.GetInterface p interfacePack.mIndex with
      | .ok object => (.code NOERROR, .standard (some object), s.addRefProxy p)
      | .error ec => (.code ec, .standard none, s)

/-- The reference of the search, or of the `AutoPtr`, is given back. -/
def releaseAfter (h : Host) (p : ℕ) (r : Reply × Unmarshalled × Process) :
    Reply × Unmarshalled × Process :=
  match r.2.2.Release h p with
  | (.code _, s) => (r.1, r.2.1, s)
  | (failure, s) => (failure, .standard none, s)

/-- The pack is of a stub of another process, or it may coexist. -/
def unmarshalProxy (h : Host) (interfacePack : InterfacePack) (c : ProxyCreation)
    (custom : CustomResult) (s : Process) : Reply × Unmarshalled × Process :=
  match s.rot.FindImportObject h.extend interfacePack.mNetAddress with
  | (.imported im, rot) =>
    match im.mIProxy with
    | none => (.crashed, .standard none, { s with rot })
    | some p => releaseAfter h p (interfaceOf h p interfacePack custom { s with rot })
  | (.code _, rot) =>
    match S_CreateProxy h c interfacePack.mClsid interfacePack.mNetAddress { s with rot } with
    | (.code _, some p, s) => releaseAfter h p (interfaceOf h p interfacePack custom s)
    | (r, _, s) => (r, .standard none, s)
  | (r, rot) => (r, .standard none, { s with rot })

/-- `StdUnmarshalInterface`. -/
def StdUnmarshalInterface (h : Host) (coexisting : Bool) (interfacePack : InterfacePack)
    (c : ProxyCreation) (custom : CustomResult) (s : Process) : Reply × Unmarshalled × Process :=
  match s.rot.FindExportAddress h.extend interfacePack.mNetAddress with
  | (.exported ex, rot) =>
    if coexisting then unmarshalProxy h interfacePack c custom { s with rot }
    else unmarshalLocal h ex interfacePack custom { s with rot }
  | (.code _, rot) => unmarshalProxy h interfacePack c custom { s with rot }
  | (r, rot) => (r, .standard none, { s with rot })

end Process

end ElastosCar.Rot
