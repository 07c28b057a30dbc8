import ElastosCar.Stub.Accept
import ElastosCar.Wire.DataBuffer

/-!
# The requests of a proxy

A `CObjectProxy` of `linux_rpc/proxy.cpp` sends three kinds of requests on its connection:
`INVOKE` for a call, `PING` from its ping task, and `RELEASE` when it is released. Each is put
together in a `DataBuffer` by hand, as the total length, the command as a string with its tag,
and for an `INVOKE` the data of the parcel that holds the arguments.

`send_eq` says what is sent. All pieces but the last fit into the initial capacity, so the bound
of `DataBuffer.lt_of_append` is a bound on the length of every request.
-/

namespace ElastosCar

/-- `"INVOKE"`. -/
def INVOKE : CString := ⟨[0x49, 0x4E, 0x56, 0x4F, 0x4B, 0x45], by decide⟩

/-- `"ONEWAY"`. -/
def ONEWAY : CString := ⟨[0x4F, 0x4E, 0x45, 0x57, 0x41, 0x59], by decide⟩

/-- `"PING"`. -/
def PING : CString := ⟨[0x50, 0x49, 0x4E, 0x47], by decide⟩

/-- `"RELEASE"`. -/
def RELEASE : CString := ⟨[0x52, 0x45, 0x4C, 0x45, 0x41, 0x53, 0x45], by decide⟩

/-- `GetElementPayload` and `GetElementSize`. -/
def CRemoteParcel.element (p : CRemoteParcel) : List UInt8 := load p.block 0 p.dataSize.toNat

@[simp]
theorem CRemoteParcel.length_element (p : CRemoteParcel) :
    p.element.length = p.dataSize.toNat := by
  simp [element]

/-- Where everything written is behind the position, the payload is the data. -/
theorem CRemoteParcel.Ready.element_eq {p : CRemoteParcel} (hp : p.Ready) :
    p.element = p.contents := by
  have hsize : p.dataSize = p.mDataSize := by simp [dataSize, hp.pos_eq]
  rw [element, hsize, contents]

/-- A request. -/
inductive Request
  | invoke (oneway : Bool) (inParcel : CRemoteParcel)
  | ping
  | release

namespace Request

/-- A command, with the tag of a string that is not `NULL`. -/
def tagged (command : CString) : List (List UInt8) := [wire32 MSH_NOT_NULL, command.terminated]

/-- The pieces after the length and before the last one. -/
def head : Request → List (List UInt8)
  | .invoke oneway _ =>
    tagged INVOKE ++ [[0]] ++ (if oneway then tagged ONEWAY ++ [[0]] else [])
  | .ping | .release => [wire32 MSH_NOT_NULL]

/-- The last piece. -/
def last : Request → List UInt8
  | .invoke _ inParcel => inParcel.element
  | .ping => PING.terminated
  | .release => RELEASE.terminated

/-- What is sent behind the length. -/
def body (r : Request) : List UInt8 := r.head.flatten ++ r.last

/-- The length field. -/
def totalSize : Request → UInt32
  | .invoke oneway inParcel =>
    4 + 4 + (6 + 1) + 1 + (if oneway then 4 + (6 + 1) + 1 else 0) + inParcel.dataSize
  | .ping => 4 + 4 + (4 + 1)
  | .release => 4 + 4 + (7 + 1)

end Request

/-- One `Append` after the other. -/
def DataBuffer.appendAll (env : Allocator) : List (List UInt8) → Run DataBuffer Fault Unit
  | [] => pure ()
  | piece :: pieces => do
    append env piece (size32 piece)
    appendAll env pieces

namespace Request

/-- Put the request together. The ping task does not check the length. -/
def assemble (env : Allocator) (r : Request) : Run DataBuffer Fault Unit := do
  DataBuffer.appendAll env (wire32 r.totalSize :: r.head)
  DataBuffer.append env r.last (size32 r.last)
  match r with
  | .ping => pure ()
  | .invoke _ _ | .release => do
    let d ← get
    carAssert (r.totalSize.toInt32 = d.mSize)

/-- The bytes that are passed to `send`. -/
def send (env : Allocator) (r : Request) : Except Fault (List UInt8) := do
  let dataBuf ← DataBuffer.new env
  let (_, dataBuf) ← r.assemble env dataBuf
  pure dataBuf.contents

end Request

/-! ### What is sent -/

/-- While everything fits into the initial capacity, it stays what it is. -/
theorem DataBuffer.appendAll_small {env : Allocator} {pieces : List (List UInt8)}
    {d d' : DataBuffer} (hd : d.Valid) (hcap : d.mCapacity = 128)
    (hle : d.size + pieces.flatten.length ≤ 128) (h : appendAll env pieces d = .ok ((), d')) :
    d'.Valid ∧ d'.mCapacity = 128 ∧ d'.contents = d.contents ++ pieces.flatten := by
  induction pieces generalizing d with
  | nil =>
    cases h
    exact ⟨hd, hcap, (List.append_nil _).symm⟩
  | cons piece pieces ih =>
    rw [List.flatten_cons, List.length_append] at hle
    obtain ⟨⟨⟩, e, he, h⟩ := Run.bind_eq_ok h
    have hfits : ¬ d.mSize + size32 piece > d.mCapacity := by
      rw [hcap, mSize_eq, toInt32_ofNat_add, gt_iff_lt, Int32.lt_iff_toInt_lt,
        toInt_toInt32_ofNat (by omega), if_pos (by omega), show (128 : Int32).toInt = 128 from rfl]
      omega
    obtain ⟨hesize, hele, hecontents⟩ := append_contents hd.size_le (by omega) he
    obtain ⟨hv, hc, hcontents⟩ := ih ⟨by omega, hele⟩ ((mCapacity_of_append hfits he).trans hcap)
      (by omega) h
    refine ⟨hv, hc, ?_⟩
    rw [hcontents, hecontents, List.append_assoc, List.flatten_cons]

namespace Request

theorem length_head_flatten : ∀ r : Request, r.head.flatten.length ≤ 24
  | .invoke oneway _ => by
    cases oneway <;> simp [head, tagged, INVOKE, ONEWAY, CString.terminated]
  | .ping | .release => by decide

theorem length_last_lt : ∀ r : Request, r.last.length < 4294967296
  | .invoke _ p => by
    rw [last, CRemoteParcel.length_element]
    exact UInt32.toNat_lt _
  | .ping | .release => by decide

theorem totalSize_eq : ∀ r : Request, r.totalSize = UInt32.ofNat (r.body.length + 4)
  | .invoke oneway p => by
    have hlen : (Request.invoke oneway p).body.length + 4
        = (if oneway then 28 else 16) + p.dataSize.toNat := by
      cases oneway <;> simp [body, head, last, tagged, INVOKE, ONEWAY, CString.terminated] <;> omega
    rw [hlen, UInt32.ofNat_add, UInt32.ofNat_toNat, totalSize]
    cases oneway <;> rfl
  | .ping | .release => by decide

/-- **What is sent** is the frame of the body, and its length is bounded. -/
theorem send_eq {env : Allocator} {r : Request} {bytes : List UInt8}
    (h : r.send env = .ok bytes) :
    bytes = frame r.body ∧ 3 * (r.body.length + 4) < 4294967295 := by
  have hhead := r.length_head_flatten
  have hw := length_wire32 r.totalSize
  rw [send] at h
  obtain ⟨d, hd, h⟩ := Except.bind_eq_ok h
  obtain ⟨⟨⟨⟩, f⟩, hf, h⟩ := Except.bind_eq_ok h
  cases h
  obtain ⟨hvalid, hempty, -, hcap⟩ := DataBuffer.new_eq hd
  have hdsize : d.size = 0 := by rw [← DataBuffer.length_contents, hempty, List.length_nil]
  obtain ⟨⟨⟩, e, he, hf⟩ := Run.bind_eq_ok hf
  obtain ⟨⟨⟩, f', hf', hf⟩ := Run.bind_eq_ok hf
  have hff' : f' = f := by
    cases r with
    | ping =>
      cases hf
      rfl
    | invoke | release =>
      dsimp only at hf
      rw [Run.get_bind, carAssert] at hf
      split at hf
      · cases hf
        rfl
      · cases hf
  subst hff'
  obtain ⟨hevalid, hecap, hecontents⟩ := DataBuffer.appendAll_small hvalid hcap
    (by rw [List.flatten_cons, List.length_append]; omega) he
  rw [hempty, List.nil_append, List.flatten_cons] at hecontents
  have hesize : e.size = 4 + r.head.flatten.length := by
    rw [← DataBuffer.length_contents, hecontents, List.length_append, hw]
  have hbody : r.body.length = r.head.flatten.length + r.last.length := List.length_append
  have hlt : 3 * (r.body.length + 4) < 4294967295 := by
    rcases DataBuffer.lt_of_append r.length_last_lt hecap hf' with h | h <;> omega
  obtain ⟨-, -, hcontents⟩ := DataBuffer.append_contents hevalid.size_le (by omega) hf'
  refine ⟨?_, hlt⟩
  rw [hcontents, hecontents, List.append_assoc, totalSize_eq, frame, body]

end Request

end ElastosCar
