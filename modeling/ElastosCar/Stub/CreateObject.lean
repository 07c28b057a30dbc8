import ElastosCar.Meta.Registry
import ElastosCar.Rot.Tables

/-!
# Making a stub

`CObjectStub::S_CreateObject` of `linux_rpc/stub.cpp` makes the stub of a local object: it looks the
class info up, takes a reference to the object, probes the interfaces of the class, sets a socket up
and enters the stub in the export table. Every exit from the reference on gives it back.

The first exit after the allocation is the one that goes wrong: an object without `IObject` leaves
through `ErrorExit` before anything has set `ec`, which is `NOERROR`. `allOrNothing_iff` says that
there is no other.
-/

namespace ElastosCar.Rot

open ClsInfo

def EIID_IInterface : EMuid := ⟨0, 0, 0x000000C0, 0x66000000⟩

def EIID_IObject : EMuid := ⟨0, 0, 0x000000C0, 0x68000000⟩

/-- The arguments of `S_CreateObject`, and what its steps come to. -/
structure StubCreation where
  object : Option ℕ
  /-- Whether the argument `stub` is not `NULL`, and what it points to. -/
  stub : Bool
  before : Option ℕ
  /-- What `new CObjectStub()` returns. -/
  stubObj : Option ℕ
  Probe : EMuid → Option ℕ
  GetClassID : ECode × EMuid
  GetInterfaceID : ECode
  modules : ModuleRegistry
  AcquireClassInfo : EMuid → Except {ec : ECode // failed ec = true} CIClassInfo
  /-- Whether there is memory for the interface stubs. -/
  interfaces : Bool
  socket : Bool
  bind : Bool
  listen : Bool
  ioctl : Bool
  getsockname : Bool
  netAddress : CString
  /-- The memory for the entry of the export table. -/
  expObj : Option ℕ

/-- What an operation that gets an address returns. -/
def Reply.ec : Reply → ECode
  | .code ec => ec
  | _ => NOERROR

namespace RotState

/-- `AddRef` and `Release` of an object. -/
def addRef (object : ℕ) (s : RotState) : RotState :=
  { s with objectRef := count s.objectRef object 1 }

def release (object : ℕ) (s : RotState) : RotState :=
  { s with objectRef := count s.objectRef object (-1) }

end RotState

namespace StubCreation

variable (c : StubCreation)

/-- The class info of the object, or the code that `ErrorExit` returns. -/
def classInfo : Except ECode CIClassInfo :=
  match c.Probe EIID_IObject with
  -- nothing has set `ec`
  | none => .error NOERROR
  | some _ =>
    let (ec, clsid) := c.GetClassID
    if failed ec then .error ec
    else if failed c.GetInterfaceID then .error c.GetInterfaceID
    else
      match c.modules.LookupClassInfo clsid with
      | (_, some info) => .ok info
      | (_, none) => (c.AcquireClassInfo clsid).mapError Subtype.val

/-- The loop over the interfaces of the class. -/
def probeAll : List CIInterfaceInfo → ECode
  | [] => NOERROR
  | info :: infos =>
    match c.Probe info.mIID with
    | none => E_NO_INTERFACE
    | some _ => probeAll infos

/-- The socket and its address. -/
def setUpSocket : ECode :=
  if !c.socket then E_FAIL
  else if !c.bind then E_FAIL
  else if !c.listen then E_FAIL
  else if !c.ioctl then E_FAIL
  else if !c.getsockname then E_FAIL
  else NOERROR

/-- From `AddRef` on: the code, `*stub`, and the state. -/
def enter (extend : UInt8 → UInt32) (object stubObj : ℕ) (info : CIClassInfo) (s : RotState) :
    ECode × Option ℕ × RotState :=
  let s := s.addRef object
  if failed (c.probeAll info.mInterfaces) then
    (c.probeAll info.mInterfaces, none, s.release object)
  else if failed c.setUpSocket then (c.setUpSocket, none, s.release object)
  else
    match s.RegisterExportObject extend c.netAddress (c.Probe EIID_IInterface) stubObj c.expObj with
    | (r, s) => if failed r.ec then (r.ec, none, s.release object) else (NOERROR, some stubObj, s)

/-- `S_CreateObject`. -/
def S_CreateObject (extend : UInt8 → UInt32) (s : RotState) : ECode × Option ℕ × RotState :=
  match c.object, c.stub with
  | some object, true =>
    match c.stubObj with
    | none => (E_OUT_OF_MEMORY, none, s)
    | some stubObj =>
      match c.classInfo with
      | .error ec => (ec, none, s)
      | .ok info =>
        if c.interfaces then c.enter extend object stubObj info s
        else (E_OUT_OF_MEMORY, none, s)
  | _, _ => (E_INVALID_ARGUMENT, c.before, s)

/-! ### What it should do -/

/-- `*stub` is a stub that the export table has for the object. -/
def Stubbed (extend : UInt8 → UInt32) (stub : Option ℕ) (s : RotState) : Prop :=
  c.object.isSome = true ∧ c.stub = true ∧ ∃ m, Represents extend s m ∧
    ∃ e ∈ m.exports, c.Probe EIID_IInterface = some e.mObject ∧ stub = some e.mIStub

/-- All, or nothing at all. -/
structure AllOrNothing (extend : UInt8 → UInt32) (s : RotState)
    (r : ECode × Option ℕ × RotState) : Prop where
  success : failed r.1 = false ↔ c.Stubbed extend r.2.1 r.2.2
  failure : failed r.1 = true → r.2.2.exports = s.exports ∧ r.2.2.objectRef = s.objectRef

/-! ### What it does -/

variable {c} {extend : UInt8 → UInt32} {s : RotState} {m : Registry} {object stubObj : ℕ}

theorem count_count (ref : ℕ → ℤ) (k : ℕ) : count (count ref k 1) k (-1) = ref := by
  rw [count, count, Function.update_self, Function.update_idem, Int.add_neg_cancel_right,
    Function.update_eq_self]

/-- The reference is given back. -/
theorem release_addRef (object : ℕ) (s : RotState) : (s.addRef object).release object = s := by
  rw [RotState.release, RotState.addRef]
  simp only [count_count]

/-- Only an object without `IObject` has an exit whose code is not a failure. -/
theorem failed_of_classInfo {ec : ECode} (h : c.classInfo = .error ec)
    (hobject : c.Probe EIID_IObject ≠ none) : failed ec = true := by
  rw [classInfo] at h
  obtain ⟨iObj, hiObj⟩ := Option.ne_none_iff_exists'.mp hobject
  simp only [hiObj] at h
  split at h
  · next hfailed => exact Except.error.inj h ▸ hfailed
  split at h
  · next hfailed => exact Except.error.inj h ▸ hfailed
  split at h
  · cases h
  · rcases hacquire : c.AcquireClassInfo c.GetClassID.2 with ⟨ec', hec'⟩ | info
    · rw [hacquire] at h
      exact Except.error.inj h ▸ hec'
    · rw [hacquire] at h
      cases h

/-- From `AddRef` on, it fails and gives the reference back, or it enters the stub. -/
theorem enter_cases (c : StubCreation) (extend : UInt8 → UInt32) (s : RotState)
    (info : CIClassInfo) :
    (∃ ec, failed ec = true ∧ c.enter extend object stubObj info s = (ec, none, s)) ∨
      ∃ o new, c.Probe EIID_IInterface = some o ∧ c.expObj = some new ∧
        c.enter extend object stubObj info s =
          (NOERROR, some stubObj, ((s.addRef object).RegisterExportObject extend c.netAddress
            (some o) stubObj (some new)).2) := by
  rw [enter]
  split
  · next hfailed =>
    rw [release_addRef]
    exact .inl ⟨_, hfailed, rfl⟩
  split
  · next hfailed =>
    rw [release_addRef]
    exact .inl ⟨_, hfailed, rfl⟩
  -- the entry of the table is the last thing that can fail
  rcases hinterface : c.Probe EIID_IInterface with _ | o
  · refine .inl ⟨E_NO_INTERFACE, by decide, ?_⟩
    change (E_NO_INTERFACE, none, (s.addRef object).release object) = _
    rw [release_addRef]
  rcases hnew : c.expObj with _ | new
  · refine .inl ⟨E_OUT_OF_MEMORY, by decide, ?_⟩
    change (E_OUT_OF_MEMORY, none, (s.addRef object).release object) = _
    rw [release_addRef]
  · exact .inr ⟨o, new, rfl, rfl, rfl⟩

/-- **A stub is made completely or not at all**, unless the object has no `IObject`: then
`S_CreateObject` returns `NOERROR` and no stub. -/
theorem allOrNothing_iff (extend : UInt8 → UInt32) (c : StubCreation) (hrep : Represents extend s m)
    (hnew : ∀ n ∈ c.expObj, s.exports.Free n) :
    c.AllOrNothing extend s (c.S_CreateObject extend s) ↔
      (c.object.isSome = true → c.stub = true → c.stubObj.isSome = true →
        c.Probe EIID_IObject ≠ none) := by
  -- what an exit with a failure leaves
  have hfails (ec : ECode) (hec : failed ec = true) : c.AllOrNothing extend s (ec, none, s) := by
    refine ⟨⟨fun hok => absurd (hok.symm.trans hec) Bool.false_ne_true, ?_⟩, fun _ => ⟨rfl, rfl⟩⟩
    rintro ⟨-, -, _, -, _, -, -, heq⟩
    cases heq
  have hargument : failed E_INVALID_ARGUMENT ≠ false := by decide
  rcases hobject : c.object with _ | object
  · have hresult : c.S_CreateObject extend s = (E_INVALID_ARGUMENT, c.before, s) := by
      rw [S_CreateObject.eq_def, hobject]
    rw [hresult]
    refine iff_of_true ⟨⟨fun hok => absurd hok hargument, ?_⟩, fun _ => ⟨rfl, rfl⟩⟩ nofun
    rintro ⟨hsome, -⟩
    rw [hobject] at hsome
    cases hsome
  rcases hstub : c.stub with _ | _
  · have hresult : c.S_CreateObject extend s = (E_INVALID_ARGUMENT, c.before, s) := by
      rw [S_CreateObject.eq_def, hobject, hstub]
    rw [hresult]
    refine iff_of_true ⟨⟨fun hok => absurd hok hargument, ?_⟩, fun _ => ⟨rfl, rfl⟩⟩ nofun
    rintro ⟨-, htrue, -⟩
    rw [hstub] at htrue
    cases htrue
  rcases hstubObj : c.stubObj with _ | stubObj
  · have hresult : c.S_CreateObject extend s = (E_OUT_OF_MEMORY, none, s) := by
      rw [S_CreateObject.eq_def, hobject, hstub, hstubObj]
    rw [hresult]
    exact iff_of_true (hfails _ (by decide)) nofun
  have hresult : c.S_CreateObject extend s = match c.classInfo with
      | .error ec => (ec, none, s)
      | .ok info =>
        if c.interfaces then c.enter extend object stubObj info s
        else (E_OUT_OF_MEMORY, none, s) := by
    rw [S_CreateObject.eq_def, hobject, hstub, hstubObj]
  rw [hresult]
  by_cases hprobe : c.Probe EIID_IObject = none
  · -- the exit that nothing has set `ec` for
    have hinfo : c.classInfo = .error NOERROR := by
      rw [classInfo, hprobe]
    rw [hinfo]
    refine iff_of_false (fun h => ?_) fun h => h rfl rfl rfl hprobe
    obtain ⟨-, -, _, -, _, -, -, heq⟩ := h.success.mp failed_NOERROR
    cases heq
  refine iff_of_true ?_ fun _ _ _ => hprobe
  rcases hinfo : c.classInfo with ec | info
  · exact hfails ec (failed_of_classInfo hinfo hprobe)
  dsimp only
  split
  swap
  · exact hfails _ (by decide)
  rcases enter_cases c extend s info with
    ⟨ec, hec, hentered⟩ | ⟨o, new, ho, hexpObj, hentered⟩
  · rw [hentered]
    exact hfails ec hec
  · -- the stub is the newest registration of its address
    rw [hentered]
    have hrep' : Represents extend (s.addRef object)
        { m with objectRef := (s.addRef object).objectRef } :=
      ⟨hrep.exports, hrep.imports, hrep.stubRef, hrep.proxyRef, rfl⟩
    have hsimulates : Simulates extend _ ((s.addRef object).RegisterExportObject extend c.netAddress
        (some o) stubObj (some new)) := hrep'.registerExport fun n hn => hnew n (hexpObj ▸ hn)
    obtain ⟨m', hanswers, hm'⟩ := hsimulates
    refine ⟨iff_of_true failed_NOERROR
      ⟨?_, hstub, m', hm', ⟨c.netAddress, o, stubObj⟩, ?_, ho, rfl⟩,
      fun h => absurd (failed_NOERROR.symm.trans h) Bool.false_ne_true⟩
    · rw [hobject]
      rfl
    · rw [hanswers.2]
      exact List.mem_cons_self

/-- An object of a class without interfaces; every step that can succeed does. -/
private def simple (iObject : Option ℕ) : StubCreation where
  object := some 1
  stub := true
  before := none
  stubObj := some 2
  Probe := fun iid => if iid = EIID_IObject then iObject else some 1
  GetClassID := (NOERROR, ⟨1, 0, 0, 0⟩)
  GetInterfaceID := NOERROR
  modules := {}
  AcquireClassInfo := fun clsid => .ok ⟨⟨[], zero_notMem_nil⟩, clsid, []⟩
  interfaces := true
  socket := true
  bind := true
  listen := true
  ioctl := true
  getsockname := true
  netAddress := ⟨[49], zero_notMem_one⟩
  expObj := some 30

theorem allOrNothing_iff_simple :
    (simple (some 1)).AllOrNothing UInt8.toUInt32 {}
        ((simple (some 1)).S_CreateObject UInt8.toUInt32 {}) ↔
      ((simple (some 1)).object.isSome = true → (simple (some 1)).stub = true →
        (simple (some 1)).stubObj.isSome = true → (simple (some 1)).Probe EIID_IObject ≠ none) :=
  allOrNothing_iff UInt8.toUInt32 (simple (some 1)) (represents_init UInt8.toUInt32) (by decide)

/-- **An object without `IObject`**: the call succeeds, and there is no stub. -/
theorem not_allOrNothing_noIObject :
    (simple none).S_CreateObject UInt8.toUInt32 {} = (NOERROR, none, {}) ∧
      ¬ (simple none).AllOrNothing UInt8.toUInt32 {}
        ((simple none).S_CreateObject UInt8.toUInt32 {}) := by
  have hresult : (simple none).S_CreateObject UInt8.toUInt32 {} = (NOERROR, none, {}) := rfl
  refine ⟨hresult, fun h => ?_⟩
  rw [hresult] at h
  obtain ⟨-, -, _, -, _, -, -, heq⟩ := h.success.mp failed_NOERROR
  cases heq

end StubCreation

end ElastosCar.Rot
