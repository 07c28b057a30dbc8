import ElastosCar.Meta.Registry
import ElastosCar.Meta.Relocate
import ElastosCar.Parcel.Safety
import ElastosCar.Proxy.Reply

/-!
# The class info of a remote object

`GetRemoteClassInfo` of `linux_rpc/proxy.cpp` asks the process of a stub for its module info,
registers the answer and looks the class up among the registered modules. Two of its successes mean
nothing:

* A failed `LookupModuleInfo` leaves the code of `RegisterModuleInfo`, which is `NOERROR`; the out
  argument is not set. `AcquireClassInfo` of `metainfos.cpp` takes the code of its lookup.
* A reply that claims to be shorter than a status is read all the same, with what came after it.

`success_answers_iff` says that a success is right exactly when neither happens.
-/

namespace ElastosCar.ClsInfo

open CRemoteParcel

/-- How the code reads the module info at a pointer. A flat image is what it describes; what is made
of other bytes depends on the memory behind them. -/
structure ImageReader where
  read : List UInt8 → Except Fault CIModuleInfo
  read_wellFormed : ∀ bs n, n ≤ bs.length → CIModuleInfo.WellFormed (image bs) n →
    read bs = .ok (CIModuleInfo.describe 0 n (image bs))

/-- The reader that takes all bytes for a flat image, with zeros behind them. -/
def ImageReader.zeros : ImageReader where
  read := fun bs => .ok (CIModuleInfo.describe 0 ((image bs).word 0).toNat (image bs))
  read_wellFormed := by
    intro bs n _ h
    rw [h.total]

/-- What a call of `GetRemoteClassInfo` meets: which of the calls before the reply succeed, the
chunks that `recv` returns, what is in its locals before they are set, and whether there is memory.
-/
structure RemoteCall where
  env : Allocator
  created : Bool
  connected : Bool
  sent : Bool
  chunks : List (List UInt8)
  recv_le : ∀ c ∈ chunks, c.length ≤ 4096
  buf : List UInt8
  ec : ECode
  ciSize : UInt32
  reader : ImageReader
  allocated : Bool

namespace RemoteCall

variable (r : RemoteCall)

/-- Send the request, and put what comes back into a parcel; `none` when the connection breaks. -/
def receive : Except Fault (Option CRemoteParcel) := do
  let data := (writeString r.env (some GET_CLASS_INFO) {}).2
  let dataBuf ← DataBuffer.new r.env
  let (_, dataBuf) ← framed r.env data.element dataBuf
  if r.sent then
    match ← recvReply r.env r.buf r.chunks dataBuf.reset with
    | (.broken, _) => pure none
    | (.whole _, dataBuf) =>
      let (_, reply) := CRemoteParcel.write r.env dataBuf.contents dataBuf.mSize.toUInt32 {}
      pure (some (reply.setDataPosition 0))
  else pure none

/-- The module info at a pointer into the reply. `RegisterModuleInfo` asserts that the pointer is
not `NULL`. -/
def moduleAt (reply : CRemoteParcel) (modInfo : Option ℕ) : Except Fault CIModuleInfo :=
  match modInfo, reply.mData with
  | some off, some d => r.reader.read (load d off (reply.mDataSize.toNat - off))
  | _, _ => .error .assertion

/-- Read the status, and the module info behind a success. The results of the reads are not looked
at. -/
def readModule : ReadM (ECode × Option CIModuleInfo) := do
  let (_, ec) ← readInt32 r.ec
  if failed ec then pure (ec, none)
  else
    let (_, ciSize) ← readInt32 r.ciSize
    let modInfo ← readInplace ciSize
    let reply ← get
    match r.moduleAt reply modInfo with
    | .ok srcModuleInfo => pure (ec, some srcModuleInfo)
    | .error e => throw e

/-- The lookup, and the search through the classes of the module. -/
def findClass (s : ModuleRegistry) (clsId : EMuid) (ec : ECode) : ECode × Option CIClassInfo :=
  match s.LookupModuleInfo clsId with
  -- `ec` stays the code of the registration
  | (_, none) => (ec, none)
  | (_, some modInfo) =>
    match modInfo.mModInfo.mClasses.find? fun c => c.mCLSID == clsId with
    | some c => (NOERROR, some c)
    | none => (E_DOES_NOT_EXIST, none)

/-- Register a module info and look the class up. -/
def registerAndFind (s : ModuleRegistry) (srcModuleInfo : CIModuleInfo) (clsId : EMuid) :
    ECode × Option CIClassInfo × ModuleRegistry :=
  match s.RegisterModuleInfo srcModuleInfo r.allocated with
  | (ec, s) =>
    if failed ec then (ec, none, s)
    else
      let (ec, classInfo) := findClass s clsId ec
      (ec, classInfo, s)

/-- `GetRemoteClassInfo`: the code, what `*classInfo` is set to, and the registry. `classInfo` says
whether the argument is not `NULL`. -/
def GetRemoteClassInfo (s : ModuleRegistry) (clsId : EMuid) (classInfo : Bool) :
    Except Fault (ECode × Option CIClassInfo × ModuleRegistry) :=
  if !classInfo then .ok (E_INVALID_ARGUMENT, none, s)
  else if !r.created || !r.connected then .ok (E_FAIL, none, s)
  else do
    match ← r.receive with
    | none => pure (E_FAIL, none, s)
    | some reply =>
      match ← r.readModule reply with
      | ((ec, none), _) => pure (ec, none, s)
      | ((_, some srcModuleInfo), _) => pure (r.registerAndFind s srcModuleInfo clsId)

/-! ### What a success should mean -/

/-- The stream of the connection begins with a complete frame, and the status in it is a success. -/
def Answered : Prop :=
  ∃ body rest, r.chunks.flatten = frame body ++ rest ∧ 4 ≤ body.length ∧
    body.length + 4 < 2147483648 ∧ failed (ntohl (wordOf (body.take 4))) = false

/-- The out argument is a class of a registered module with the class id. -/
def Sets (clsId : EMuid) (res : ECode × Option CIClassInfo × ModuleRegistry) : Prop :=
  ∃ c, res.2.1 = some c ∧ c.mCLSID = clsId ∧
    ∃ node ∈ res.2.2.sModuleInfoList, c ∈ node.mModInfo.mClasses

/-- A success that is right. -/
structure Answers (clsId : EMuid) (res : ECode × Option CIClassInfo × ModuleRegistry) : Prop where
  set : Sets clsId res
  answered : r.Answered

/-- The length field of the reply. -/
def totalSize : Int32 := (ntohl (wordOf (r.chunks.flatten.take 4))).toInt32

/-- The reply has this module info behind a success. -/
def Offers (srcModuleInfo : CIModuleInfo) : Prop :=
  ∃ reply ec reply', r.receive = .ok (some reply) ∧
    r.readModule reply = .ok ((ec, some srcModuleInfo), reply')

/-- A class id that a list of classes has. -/
def Lists (classes : List CIClassInfo) (clsId : EMuid) : Prop := ∃ c ∈ classes, c.mCLSID = clsId

/-- The class is known when the module info is registered: a module of the list has it, or the
module info has it and is not taken for another. -/
def Known (s : ModuleRegistry) (srcModuleInfo : CIModuleInfo) (clsId : EMuid) : Prop :=
  (∃ node ∈ s.sModuleInfoList, Lists node.mModInfo.mClasses clsId) ∨
    s.curNode srcModuleInfo = none ∧ Lists srcModuleInfo.mClasses clsId

/-- A module info to be copied, and no memory for it. -/
def Refused (s : ModuleRegistry) (srcModuleInfo : CIModuleInfo) : Prop :=
  ¬(srcModuleInfo.mClasses = [] ∧ srcModuleInfo.mInterfaces = []) ∧
    s.curNode srcModuleInfo = none ∧ r.allocated = false

end RemoteCall

/-! ### Receiving -/

section Receive

variable {env : Allocator} {more : List (List UInt8)} {d d' : DataBuffer}

/-- The chunks that the loop takes reach the length that it was given. -/
theorem recvLoop_whole {totalSize : Int32} {chunks : List (List UInt8)}
    (hd : d.size ≤ d.room) (hle : ∀ c ∈ chunks, c.length ≤ 4096)
    (h : recvLoop env totalSize chunks d = .ok (.whole more, d')) :
    ∃ taken, chunks = taken ++ more ∧ d'.contents = d.contents ++ taken.flatten ∧
      totalSize.toInt ≤ taken.flatten.length := by
  induction chunks generalizing totalSize d with
  | nil =>
    rw [recvLoop] at h
    split at h
    · cases h
    · next hpos =>
      cases h
      rw [gt_iff_lt, Int32.lt_iff_toInt_lt] at hpos
      exact ⟨[], rfl, (List.append_nil _).symm, not_lt.mp hpos⟩
  | cons c cs ih =>
    rw [recvLoop] at h
    split at h
    · next hpos =>
      have hc := hle c List.mem_cons_self
      obtain ⟨⟨⟩, e, he, h⟩ := Run.bind_eq_ok h
      obtain ⟨-, hele, hecontents⟩ := DataBuffer.append_contents hd (by omega) he
      obtain ⟨taken, rfl, hcontents, hsize⟩ :=
        ih hele (fun x hx => hle x (List.mem_cons_of_mem _ hx)) h
      refine ⟨c :: taken, rfl, ?_, ?_⟩
      · rw [hcontents, hecontents, List.append_assoc, List.flatten_cons]
      · -- the length that is left does not wrap: it was positive
        rw [gt_iff_lt, Int32.lt_iff_toInt_lt] at hpos
        have hlt := totalSize.toInt_lt
        have hcsize : (size32 c).toInt = c.length := by
          rw [size32, toInt_toInt32_ofNat (by omega), if_pos (by omega)]
        rw [Int32.toInt_sub, hcsize, Int.bmod_def] at hsize
        rw [List.flatten_cons, List.length_append]
        have h0 : (0 : Int32).toInt = 0 := rfl
        norm_num only at hlt hsize
        push_cast
        split_ifs at hsize <;> omega
    · next hpos =>
      cases h
      rw [gt_iff_lt, Int32.lt_iff_toInt_lt] at hpos
      exact ⟨[], rfl, (List.append_nil _).symm, not_lt.mp hpos⟩

/-- What was received behind the length field is what the buffer holds, and the length field is at
most what was received. -/
theorem recvReply_whole {buf : List UInt8} {chunks : List (List UInt8)}
    (hempty : d.size = 0) (hle : ∀ c ∈ chunks, c.length ≤ 4096)
    (h : recvReply env buf chunks d = .ok (.whole more, d')) :
    ∃ taken, chunks = taken ++ more ∧ 4 ≤ taken.flatten.length ∧
      d'.contents = taken.flatten.drop 4 ∧
      (ntohl (wordOf (taken.flatten.take 4))).toInt32.toInt ≤ taken.flatten.length := by
  cases chunks with
  | nil => cases h
  | cons c cs =>
    have hc := hle c List.mem_cons_self
    rw [recvReply] at h
    obtain ⟨⟨⟩, e, he, h⟩ := Run.bind_eq_ok h
    have hc4 : 4 ≤ c.length := by
      by_contra hshort
      exact not_append_short (by omega) he
    have hsize : size32 c - 4 = size32 (c.drop 4) := by
      rw [size32, size32, List.length_drop]
      exact toInt32_ofNat_sub hc4
    rw [hsize] at he
    obtain ⟨-, hele, hecontents⟩ := DataBuffer.append_contents (by omega)
      (by rw [List.length_drop]; omega) he
    have hnil : d.contents = [] := List.eq_nil_of_length_eq_zero (by rwa [d.length_contents])
    obtain ⟨taken, rfl, hcontents, hlen⟩ :=
      recvLoop_whole hele (fun x hx => hle x (List.mem_cons_of_mem _ hx)) h
    rw [List.take_append_of_le_length hc4] at hlen
    refine ⟨c :: taken, rfl, ?_, ?_, ?_⟩
    · rw [List.flatten_cons, List.length_append]
      omega
    · rw [hcontents, hecontents, hnil, List.nil_append, List.flatten_cons,
        List.drop_append_of_le_length hc4]
    · rw [List.flatten_cons, List.take_append_of_le_length hc4, List.length_append]
      have hcsize : (size32 c).toInt = c.length := by
        rw [size32, toInt_toInt32_ofNat (by omega), if_pos (by omega)]
      rw [Int32.toInt_sub, hcsize, Int.bmod_def] at hlen
      have hlt := (ntohl (wordOf (c.take 4))).toInt32.toInt_lt
      have hge := (ntohl (wordOf (c.take 4))).toInt32.le_toInt
      norm_num only at hlt hge hlen
      push_cast
      split_ifs at hlen <;> omega

end Receive

theorem wire32_ntohl {bs : List UInt8} (h : bs.length = 4) : wire32 (ntohl (wordOf bs)) = bs := by
  rw [wire32, ntohl, wordBytes_htonl, wordBytes_htonl, List.reverse_reverse, wordBytes_wordOf h]

/-! ### The reply parcel -/

/-- `WriteInplace` after `restart_write`, in an empty parcel. -/
theorem writeInplaceAt_empty (len padded : UInt32) {q : CRemoteParcel} (hpos : q.mDataPos = 0)
    (hsize : q.mDataSize = 0) :
    ∃ p, q.writeInplaceAt len padded = (q.mData.map fun _ => 0, p) ∧
      p.mData.isSome = q.mData.isSome ∧ p.mDataSize = padded := by
  have hend (t : CRemoteParcel) (hp : t.mDataPos = 0) (hs : t.mDataSize = 0) :
      (t.finishWrite padded).mDataSize = padded := by
    simp only [finishWrite, hp, hs, UInt32.zero_add]
    split
    · rfl
    · next h => exact (UInt32.le_antisymm (UInt32.not_lt.mp h) UInt32.zero_le).symm
  rw [writeInplaceAt, hpos]
  refine ⟨_, rfl, ?_, ?_⟩
  · split
    · exact Option.isSome_map
    · rfl
  · split
    · exact hend _ hpos hsize
    · exact hend _ hpos hsize

/-- `WriteInplace` in a new parcel finds no room, or the beginning of the block. -/
theorem writeInplace_new (env : Allocator) (n : UInt32) :
    ∃ off p, writeInplace env n {} = (off, p) ∧ ((off = none ∧ p.mData = none ∧ p.mDataSize = 0) ∨
      (off = some 0 ∧ p.mData.isSome = true ∧ 4 ≤ p.mDataSize.toNat)) := by
  by_cases hzero : padSize n = 0
  · -- the padding of a length close to `2 ^ 32` wraps to nothing
    have hat : writeInplace env n {} = writeInplaceAt n 0 {} := by
      simp only [writeInplace, hzero]
      rfl
    obtain ⟨p, hp, hdata, hsize⟩ := writeInplaceAt_empty n 0 (q := {}) rfl rfl
    have hnull : p.mData = none :=
      Option.isNone_iff_eq_none.mp (Option.isSome_eq_false_iff.mp hdata)
    exact ⟨_, p, hat.trans hp, .inl ⟨rfl, hnull, hsize⟩⟩
  · have hpad : 4 ≤ (padSize n).toNat := by
      have h := toNat_padSize n
      have hne : (padSize n).toNat ≠ 0 := fun h0 => hzero (UInt32.toNat_inj.mp h0)
      omega
    have hnone : writeInplace env n {} = match growData env (padSize n) {} with
        | (ec, p) => if ec = NOERROR then p.writeInplaceAt n (padSize n) else (none, p) := by
      have hwrap : ¬ ({} : CRemoteParcel).mDataPos + padSize n < ({} : CRemoteParcel).mDataPos :=
        UInt32.not_lt.mpr UInt32.zero_le
      have hfull : ¬ ({} : CRemoteParcel).mDataPos + padSize n
          ≤ ({} : CRemoteParcel).mDataCapacity := by
        intro hle
        rw [UInt32.le_iff_toNat_le, UInt32.toNat_add] at hle
        change (0 + (padSize n).toNat) % _ ≤ 0 at hle
        have hlt := (padSize n).toNat_lt
        omega
      simp only [writeInplace, if_neg hwrap, if_neg hfull]
    have hroom (q : CRemoteParcel) (hpos : q.mDataPos = 0) (hsize : q.mDataSize = 0)
        (hq : q.mData.isSome = true) : ∃ off p, q.writeInplaceAt n (padSize n) = (off, p) ∧
          ((off = none ∧ p.mData = none ∧ p.mDataSize = 0) ∨
            (off = some 0 ∧ p.mData.isSome = true ∧ 4 ≤ p.mDataSize.toNat)) := by
      obtain ⟨p, hp, hdata, hsize⟩ := writeInplaceAt_empty n (padSize n) hpos hsize
      obtain ⟨d, hd⟩ := Option.isSome_iff_exists.mp hq
      exact ⟨_, p, hp, .inr ⟨congrArg (Option.map _) hd, hdata.trans hq, hsize ▸ hpad⟩⟩
    rw [hnone, growData]
    split
    next hgrow =>
    split at hgrow
    · cases hgrow
      exact ⟨_, _, rfl, .inl ⟨rfl, rfl, rfl⟩⟩
    · rw [continueWrite] at hgrow
      dsimp only at hgrow
      split at hgrow
      · cases hgrow
        rw [if_pos rfl]
        exact hroom _ rfl rfl rfl
      · cases hgrow
        rw [if_neg E_OUT_OF_MEMORY_ne]
        exact ⟨_, _, rfl, .inl ⟨rfl, rfl, rfl⟩⟩

/-- A write to a new parcel comes to nothing, or leaves the bytes at its beginning. -/
theorem write_new (env : Allocator) {bs : List UInt8} {n : UInt32} (hn : n.toNat = bs.length)
    (h4 : 4 ≤ bs.length) : ∃ p, (CRemoteParcel.write env bs n {}).2 = p ∧
      (p.mData = none ∧ p.mDataSize = 0 ∨
        ∃ d, p.mData = some d ∧ 4 ≤ p.mDataSize.toNat ∧ load d 0 4 = bs.take 4) := by
  obtain ⟨off, p, hp, ⟨rfl, hdata, hsize⟩ | ⟨rfl, hdata, hsize⟩⟩ := writeInplace_new env n
  · exact ⟨p, by rw [CRemoteParcel.write, hp], .inl ⟨hdata, hsize⟩⟩
  · obtain ⟨d, hd⟩ := Option.isSome_iff_exists.mp hdata
    refine ⟨p.memcpy 0 bs, ?_, .inr ⟨store d 0 bs, congrArg (Option.map _) hd, hsize, ?_⟩⟩
    · rw [CRemoteParcel.write, hp, hn, List.take_length]
    · have h := load_store_sub d 0 bs (k := 0) (m := 4) (by omega)
      rwa [List.drop_zero] at h

namespace RemoteCall

variable {r : RemoteCall} {s : ModuleRegistry} {clsId : EMuid} {m : CIModuleInfo}

/-- The parcel of a reply: what follows the length field, as far as there is memory for it. -/
theorem receive_eq_some {reply : CRemoteParcel} (h : r.receive = .ok (some reply)) :
    ∃ taken more, r.chunks = taken ++ more ∧ 4 ≤ taken.flatten.length ∧
      r.totalSize.toInt ≤ taken.flatten.length ∧ reply.mDataPos = 0 ∧
      (8 ≤ taken.flatten.length → reply.mData = none ∧ reply.mDataSize = 0 ∨
        ∃ d, reply.mData = some d ∧ 4 ≤ reply.mDataSize.toNat ∧
          load d 0 4 = (taken.flatten.drop 4).take 4) := by
  rw [receive] at h
  obtain ⟨d, hd, h⟩ := Except.bind_eq_ok h
  obtain ⟨⟨⟨⟩, d₁⟩, hd₁, h⟩ := Except.bind_eq_ok h
  dsimp only at h
  split at h
  swap
  · cases h
  obtain ⟨⟨received, d₂⟩, hd₂, h⟩ := Except.bind_eq_ok h
  cases received with
  | broken => cases h
  | whole more =>
    cases h
    obtain ⟨taken, htaken, h4, hcontents, hle⟩ := recvReply_whole (by rfl) r.recv_le hd₂
    have hflat : r.chunks.flatten.take 4 = taken.flatten.take 4 := by
      rw [htaken, List.flatten_append, List.take_append_of_le_length h4]
    refine ⟨taken, more, htaken, h4, ?_, rfl, fun h8 => ?_⟩
    · rwa [totalSize, hflat]
    · have hn : d₂.mSize.toUInt32.toNat = d₂.contents.length := (d₂.length_contents).symm
      obtain ⟨p, rfl, hp⟩ := write_new r.env hn
        (by rw [hcontents, List.length_drop]; omega)
      rw [← hcontents]
      exact hp

/-- A status is read from the beginning of the reply. -/
theorem readModule_eq_some {reply reply' : CRemoteParcel} {ec : ECode}
    (h : r.readModule reply = .ok ((ec, some m), reply')) (hpos : reply.mDataPos = 0) :
    reply.mData.isSome = true ∧ failed ec = false ∧
      (4 ≤ reply.mDataSize.toNat → ec = ntohl (wordOf (load reply.block 0 4))) := by
  have h0 : reply.mDataPos.toNat = 0 := congrArg UInt32.toNat hpos
  rw [readModule] at h
  obtain ⟨⟨ec₁, v⟩, p, hp, h⟩ := Run.bind_eq_ok h
  -- the status
  have hfirst : p.mData = reply.mData ∧ p.mDataPos.toNat ≤ 4 ∧
      (4 ≤ reply.mDataSize.toNat → v = ntohl (wordOf (load reply.block 0 4))) := by
    rcases readInt32_cases r.ec (p := reply) (by omega) with ⟨hle, heq⟩ | ⟨hlt, heq⟩
    · obtain ⟨hval, rfl⟩ := Prod.mk.inj (Except.ok.inj (heq.symm.trans hp))
      obtain ⟨-, rfl⟩ := Prod.mk.inj hval
      refine ⟨rfl, ?_, fun _ => ?_⟩
      · change (reply.mDataPos + 4).toNat ≤ 4
        rw [hpos]
        decide
      · rw [wordAt, h0]
    · obtain ⟨-, rfl⟩ := Prod.mk.inj (Except.ok.inj (heq.symm.trans hp))
      exact ⟨rfl, by omega, fun h4 => by omega⟩
  obtain ⟨hdata, hle, hv⟩ := hfirst
  dsimp only at h
  split at h
  · cases h
  · next hec =>
    obtain ⟨⟨ec₂, ciSize⟩, p₂, hp₂, h⟩ := Run.bind_eq_ok h
    -- the size, and the pointer
    have hsecond : p₂.mData = p.mData := by
      rcases readInt32_cases r.ciSize (p := p) (by omega) with ⟨-, heq⟩ | ⟨-, heq⟩
      · obtain ⟨-, rfl⟩ := Prod.mk.inj (Except.ok.inj (heq.symm.trans hp₂))
        rfl
      · obtain ⟨-, rfl⟩ := Prod.mk.inj (Except.ok.inj (heq.symm.trans hp₂))
        rfl
    obtain ⟨off, p₃, hp₃, h⟩ := Run.bind_eq_ok h
    have hthird : p₃.mData = p₂.mData := by
      rw [readInplace, Run.get_bind] at hp₃
      split at hp₃
      · cases hp₃
        rfl
      · cases hp₃
        rfl
    rw [Run.get_bind] at h
    rcases hm : r.moduleAt p₃ off with e | m'
    · simp only [hm] at h
      cases h
    · simp only [hm] at h
      cases h
      refine ⟨?_, Bool.eq_false_iff.mpr hec, hv⟩
      rw [moduleAt.eq_def] at hm
      split at hm
      · next hd =>
        rw [← hdata, ← hsecond, ← hthird, hd]
        rfl
      · cases hm

/-- Without a module info, the code is that of a failure. -/
theorem failed_of_readModule {reply reply' : CRemoteParcel} {ec : ECode}
    (h : r.readModule reply = .ok ((ec, none), reply')) : failed ec = true := by
  rw [readModule] at h
  obtain ⟨⟨ec₁, v⟩, p, -, h⟩ := Run.bind_eq_ok h
  dsimp only at h
  split at h
  · next hec =>
    cases h
    exact hec
  · obtain ⟨⟨ec₂, ciSize⟩, p₂, -, h⟩ := Run.bind_eq_ok h
    obtain ⟨off, p₃, -, h⟩ := Run.bind_eq_ok h
    rw [Run.get_bind] at h
    rcases hm : r.moduleAt p₃ off with e | m
    · simp only [hm] at h
      cases h
    · simp only [hm] at h
      cases h

/-- What is offered comes from a frame: if the length field leaves room for a status, the frame was
read whole and its status is a success. -/
theorem Offers.answered_iff (h : r.Offers m) : r.Answered ↔ 8 ≤ r.totalSize := by
  have h8 : (8 : Int32).toInt = 8 := rfl
  rw [Int32.le_iff_toInt_le, h8]
  constructor
  · -- the length field is that of the frame
    rintro ⟨body, rest, hflat, h4, hlt, -⟩
    rw [totalSize, hflat, frame, List.append_assoc, List.take_left' (length_wire32 _), wire32,
      wordOf_wordBytes, ntohl_htonl, toInt_toInt32_ofNat (by omega), if_pos hlt]
    omega
  · intro htotal
    obtain ⟨reply, ec, reply', hreceive, hread⟩ := h
    obtain ⟨taken, more, htaken, h4, hle, hpos, hreply⟩ := receive_eq_some hreceive
    obtain ⟨hdata, hec, hstatus⟩ := readModule_eq_some hread hpos
    obtain ⟨hnull, -⟩ | ⟨d, hd, hsize, hload⟩ := hreply (by omega)
    · rw [hnull] at hdata
      cases hdata
    -- the frame is the length field and what it leaves room for
    obtain ⟨n, hn⟩ : ∃ n : ℕ, r.totalSize.toInt = n + 4 := ⟨(r.totalSize.toInt - 4).toNat, by omega⟩
    have hlt := r.totalSize.toInt_lt
    norm_num only at hlt
    have hflat : r.chunks.flatten = taken.flatten ++ more.flatten := by
      rw [htaken, List.flatten_append]
    have hfield : r.chunks.flatten.take 4 = taken.flatten.take 4 := by
      rw [hflat, List.take_append_of_le_length h4]
    refine ⟨(taken.flatten.drop 4).take n, (taken.flatten.drop 4).drop n ++ more.flatten,
      ?_, ?_, ?_, ?_⟩
    · have hlen : ((taken.flatten.drop 4).take n).length = n := by
        rw [List.length_take, List.length_drop]
        omega
      have hword : ntohl (wordOf (taken.flatten.take 4)) = UInt32.ofNat (n + 4) := by
        rw [totalSize, hfield] at hn
        generalize ntohl (wordOf (taken.flatten.take 4)) = w at hn
        have hwlt := w.toNat_lt
        have hw := toInt_toInt32_ofNat hwlt
        rw [UInt32.ofNat_toNat, hn] at hw
        have hnat : w.toNat = n + 4 := by
          split_ifs at hw
          · omega
          · omega
        rw [← hnat, UInt32.ofNat_toNat]
      rw [frame, hlen, ← hword, wire32_ntohl (by rw [List.length_take]; omega), List.append_assoc,
        ← List.append_assoc (List.take n _), List.take_append_drop, ← List.append_assoc,
        List.take_append_drop, hflat]
    · rw [List.length_take, List.length_drop]
      omega
    · rw [List.length_take, List.length_drop]
      omega
    · rw [List.take_take, min_eq_left (by omega), ← hload]
      have hblock : reply.block = d := by rw [block, hd]; rfl
      rw [← hblock, ← hstatus hsize]
      exact hec

/-! ### Registering -/

/-- The search does not fail, and it sets the out argument if a listed module has the class. -/
theorem findClass_spec {ec : ECode} (hec : failed ec = false) :
    failed (findClass s clsId ec).1 = false ∧
      (Sets clsId ((findClass s clsId ec).1, (findClass s clsId ec).2, s) ↔
        ∃ node ∈ s.sModuleInfoList, Lists node.mModInfo.mClasses clsId) := by
  rcases hlookup : s.LookupModuleInfo clsId with ⟨lookup, _ | node⟩
  · have hnone := (ModuleRegistry.LookupModuleInfo_eq_none (congrArg Prod.snd hlookup)).2
    rw [findClass, hlookup]
    refine ⟨hec, iff_of_false ?_ fun ⟨node, hnode, c, hc, hid⟩ => hnone node hnode c hc hid⟩
    rintro ⟨c, hc, -⟩
    cases hc
  · obtain ⟨-, hnode, c, hc, hid⟩ :=
      ModuleRegistry.LookupModuleInfo_eq_some (congrArg Prod.snd hlookup)
    -- the lookup found the class, so the search does
    obtain ⟨c', hfind⟩ := Option.isSome_iff_exists.mp
      ((List.find?_isSome (p := fun c => c.mCLSID == clsId)).mpr ⟨c, hc, beq_iff_eq.mpr hid⟩)
    have hid' := List.find?_some hfind
    rw [findClass, hlookup]
    simp only [hfind]
    refine ⟨failed_NOERROR, iff_of_true ?_ ⟨node, hnode, c, hc, hid⟩⟩
    exact ⟨c', rfl, beq_iff_eq.mp hid', node, hnode, List.mem_of_find?_eq_some hfind⟩

/-- A registration fails when there is no memory for a copy. Otherwise the call succeeds, and it
sets the out argument if the class is known. -/
theorem registerAndFind_spec (r : RemoteCall) (s : ModuleRegistry) (m : CIModuleInfo)
    (clsId : EMuid) :
    r.Refused s m ∧ failed (r.registerAndFind s m clsId).1 = true ∨
      ¬ r.Refused s m ∧ failed (r.registerAndFind s m clsId).1 = false ∧
        (Sets clsId (r.registerAndFind s m clsId) ↔ Known s m clsId) := by
  rw [registerAndFind, ModuleRegistry.RegisterModuleInfo]
  by_cases hempty : m.mClasses = [] ∧ m.mInterfaces = []
  · -- nothing to register
    obtain ⟨hok, hsets⟩ := findClass_spec failed_NOERROR (s := s)
    rw [if_pos hempty]
    refine .inr ⟨fun h => h.1 hempty, hok, hsets.trans ⟨.inl, ?_⟩⟩
    rintro (h | ⟨-, c, hc, -⟩)
    · exact h
    · rw [hempty.1] at hc
      exact absurd hc List.not_mem_nil
  · rw [if_neg hempty]
    cases hcur : s.curNode m with
    | some node =>
      -- the module is taken for one that is listed
      obtain ⟨hok, hsets⟩ := findClass_spec failed_NOERROR (s := s)
      refine .inr ⟨fun h => absurd (hcur.symm.trans h.2.1) nofun, hok, hsets.trans ⟨.inl, ?_⟩⟩
      rintro (h | ⟨h, -⟩)
      · exact h
      · exact absurd (hcur.symm.trans h) nofun
    | none =>
      cases hmem : r.allocated with
      | false =>
        refine .inl ⟨⟨hempty, hcur, hmem⟩, ?_⟩
        change failed E_OUT_OF_MEMORY = true
        decide
      | true =>
        -- a copy goes to the list
        obtain ⟨hok, hsets⟩ := findClass_spec failed_NOERROR
          (s := ⟨ModuleRegistry.insertNode ⟨s.fresh, m⟩ s.sModuleInfoList, s.fresh + 1⟩)
        refine .inr ⟨fun h => absurd (hmem.symm.trans h.2.2) nofun, hok, hsets.trans ⟨?_, ?_⟩⟩
        · rintro ⟨node, hnode, h⟩
          rcases ModuleRegistry.mem_insertNode.mp hnode with rfl | hnode
          · exact .inr ⟨hcur, h⟩
          · exact .inl ⟨node, hnode, h⟩
        · rintro (⟨node, hnode, h⟩ | ⟨-, h⟩)
          · exact ⟨node, ModuleRegistry.mem_insertNode.mpr (.inr hnode), h⟩
          · exact ⟨_, ModuleRegistry.mem_insertNode.mpr (.inl rfl), h⟩

/-- A success is the end of a registration. -/
theorem GetRemoteClassInfo_eq_ok {classInfo : Bool}
    {res : ECode × Option CIClassInfo × ModuleRegistry} (hok : failed res.1 = false) :
    r.GetRemoteClassInfo s clsId classInfo = .ok res ↔
      classInfo = true ∧ r.created = true ∧ r.connected = true ∧
        ∃ m, r.Offers m ∧ r.registerAndFind s m clsId = res := by
  constructor
  · intro h
    rw [GetRemoteClassInfo] at h
    have hfail : failed E_FAIL ≠ false := by decide
    split at h
    · cases h
      exact absurd hok (show failed E_INVALID_ARGUMENT ≠ false by decide)
    next harg =>
    split at h
    · cases h
      exact absurd hok hfail
    next hconn =>
    rw [Bool.not_eq_true', Bool.not_eq_false] at harg
    simp only [Bool.or_eq_true, Bool.not_eq_true', not_or, Bool.not_eq_false] at hconn
    refine ⟨harg, hconn.1, hconn.2, ?_⟩
    obtain ⟨received, hreceived, h⟩ := Except.bind_eq_ok h
    cases received with
    | none =>
      cases h
      exact absurd hok hfail
    | some reply =>
      obtain ⟨⟨⟨ec, m⟩, reply'⟩, hread, h⟩ := Except.bind_eq_ok h
      cases m with
      | none =>
        -- a failed status is returned
        cases h
        exact absurd hok (Bool.eq_false_iff.not.mpr (not_not.mpr (failed_of_readModule hread)))
      | some m => exact ⟨m, ⟨reply, ec, reply', hreceived, hread⟩, Except.ok.inj h⟩
  · rintro ⟨rfl, hcreated, hconnected, m, ⟨reply, ec, reply', hreceived, hread⟩, rfl⟩
    rw [GetRemoteClassInfo, hcreated, hconnected, hreceived]
    change (r.readModule reply >>= fun x => _ : Except Fault _) = _
    rw [hread]
    rfl

/-- **A success is right** exactly if, whenever a module info is offered and there is memory for it,
the length field of the reply leaves room for the status and the class is known. -/
theorem success_answers_iff (r : RemoteCall) (s : ModuleRegistry) (clsId : EMuid)
    (classInfo : Bool) :
    (∀ res, r.GetRemoteClassInfo s clsId classInfo = .ok res → failed res.1 = false →
        r.Answers clsId res) ↔
      (classInfo = true → r.created = true → r.connected = true → ∀ m, r.Offers m →
        ¬ r.Refused s m → 8 ≤ r.totalSize ∧ Known s m clsId) := by
  constructor
  · intro h harg hcreated hconnected m hoffer hmem
    obtain ⟨hrefused, -⟩ | ⟨-, hok, hsets⟩ := registerAndFind_spec r s m clsId
    · exact absurd hrefused hmem
    · have hres := (GetRemoteClassInfo_eq_ok hok).mpr
        ⟨harg, hcreated, hconnected, m, hoffer, rfl⟩
      have hanswers := h _ hres hok
      exact ⟨hoffer.answered_iff.mp hanswers.answered, hsets.mp hanswers.set⟩
  · intro h res hres hok
    obtain ⟨harg, hcreated, hconnected, m, hoffer, rfl⟩ := (GetRemoteClassInfo_eq_ok hok).mp hres
    obtain ⟨-, hfailed⟩ | ⟨hmem, -, hsets⟩ := registerAndFind_spec r s m clsId
    · exact absurd (hok.symm.trans hfailed) Bool.false_ne_true
    · obtain ⟨htotal, hknown⟩ := h harg hcreated hconnected m hoffer hmem
      exact ⟨hsets.mpr hknown, hoffer.answered_iff.mpr htotal⟩

/-- The flat image of a module with one class. -/
private def oneClass : List UInt8 :=
  [48, 0, 0, 0, 1, 0, 0, 0, 20, 0, 0, 0, 48, 0, 0, 0, 0, 0, 0, 0] ++
    [17, 0, 0, 0, 1, 0, 0, 0, 0, 0, 0, 0, 0, 0, 0, 0, 0, 0, 0, 0, 0, 0, 0, 0, 48, 0, 0, 0]

private theorem wellFormed_oneClass : CIModuleInfo.WellFormed (image oneClass) 48 := by
  constructor <;> decide +kernel

/-- A reply with the image behind a success, in one chunk. -/
private def oneClassCall : RemoteCall where
  env := .zeros
  created := true
  connected := true
  sent := true
  chunks := [frame ([0, 0, 0, 0, 0, 0, 0, 48] ++ oneClass)]
  recv_le := by decide +kernel
  buf := []
  ec := 0
  ciSize := 0
  reader := .zeros
  allocated := true

/-- **A class that the remote module does not have**: the answer is `NOERROR`, and `*classInfo` is
not set. -/
theorem not_answers_otherClass :
    CIModuleInfo.WellFormed (image oneClass) 48 ∧
      oneClassCall.chunks = [frame (wire32 NOERROR ++ wire32 48 ++ oneClass)] ∧
      ¬ ∀ res, oneClassCall.GetRemoteClassInfo {} ⟨2, 0, 0, 0⟩ true = .ok res →
        failed res.1 = false → oneClassCall.Answers ⟨2, 0, 0, 0⟩ res := by
  refine ⟨wellFormed_oneClass, by decide +kernel, fun h => ?_⟩
  have hrun : (oneClassCall.GetRemoteClassInfo {} ⟨2, 0, 0, 0⟩ true).map
      (fun res => (res.1, res.2.1)) = .ok (NOERROR, none) := by decide +kernel
  rcases hres : oneClassCall.GetRemoteClassInfo {} ⟨2, 0, 0, 0⟩ true with e | ⟨ec, c, s⟩
  · rw [hres] at hrun
    cases hrun
  · rw [hres] at hrun
    obtain ⟨rfl, rfl⟩ := Prod.mk.inj (Except.ok.inj hrun)
    obtain ⟨c, hc, -⟩ := (h _ hres failed_NOERROR).set
    cases hc

end RemoteCall

end ElastosCar.ClsInfo
