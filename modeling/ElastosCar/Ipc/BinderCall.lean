import ElastosCar.Ipc.Marshal
import ElastosCar.Proxy.RemoteCall

/-!
# A call through the binder

`ProxyEntry` of `android_linux/proxy.cpp` with `CObjectStub::Invoke` of `android_linux/stub.cpp` at
the other end. There are no frames: the binder driver takes the request parcel to the other process
and the reply back.

* `binderCall` is the composition, as `remoteCall` is that of linux_rpc. What the driver does with a
  parcel is a parameter; where it fails, the caller gets `E_REMOTE_FAIL`.
* `binderCall_spec` says that it is a call of the method.
-/

namespace ElastosCar

def E_REMOTE_FAIL : ECode := 0x801C0000

namespace Ipc

open Marshal

/-- `E_INVALID_PARCEL_DATA`. -/
def E_INVALID_PARCEL_DATA : ECode := 0x81ff0000

/-- An `android::Parcel`, with what is done to it beside the marshalling functions: a header is
reserved, stored to through `data()`, and read in place. -/
structure BinderParcel extends AndroidParcel where
  writeInplace : ℕ → Out → Out
  dataSize : Out → UInt32
  /-- `data()` is not `NULL`. -/
  hasData : Out → Bool
  /-- The bytes from an offset behind `data()` on are overwritten. -/
  store : ℕ → List UInt8 → Out → Out
  /-- `readInplace`; none where so many bytes are not left. -/
  readInplace : ℕ → Run In Fault (Option (List UInt8))
  written_writeInplace : ∀ n p, ∃ bs, bs.length = n ∧
    written (writeInplace n p) = written p ++ [.block bs]
  hasData_of_written : ∀ p, written p ≠ [] → hasData p = true
  written_store : ∀ off bs p hd items, written p = .block hd :: items →
    off + bs.length ≤ hd.length →
    written (store off bs p) = .block (hd.take off ++ bs ++ hd.drop (off + bs.length)) :: items
  takes_readInplace : ∀ bs, Takes unread (readInplace bs.length) [.block bs] (some bs)

section

variable (P : BinderParcel) (env : IpcEnv P.toAndroidParcel) (b : Build)

/-! ### The stub -/

/-- `Invoke` up to the arguments. -/
def selectMethod (cls : CIClassInfo) : Run P.In Fault (Option Selected) := do
  match ← P.readInplace 16 with
  | none => pure none
  | some bs => StateT.lift (cls.select (MarshalHeader.ofBytes bs))

/-- `Invoke` from the method's return on. Where `replyParcel` is `NULL` nothing is written: either
the `[out]` parameters are skipped, or the missing out buffer is a fault. -/
def invokeOut (sel : Selected) (ec : ECode) (s : Proc Unit) (reply : Data P.toAndroidParcel) :
    Except Fault (Invoked × P.Out) := do
  let mark := sel.methodInfo.inInterfaceMark
  let reply := (P.writeInt32 ec reply.1, reply.2)
  if sel.inHeader.outHeader.isSome ∧ failed ec = false ∨ mark then
    let (orgec, s) ← stubProcessMshOut .ipc b (ipcParcel _ env) sel.methodInfo.mParams
      (failed ec && mark) (s.call reply sel.inHeader.outHeader)
    pure (.returned ec orgec, s.parcel.1)
  else pure (.returned ec NOERROR, reply.1)

/-- `CObjectStub::Invoke`, in a process with the given memory. -/
def invoke (stub : CObjectStub) (mem : Proc Unit) (data : P.In) (reply : P.Out) :
    Except Fault (Invoked × P.Out) := do
  let (selected, data) ← selectMethod P stub.mInfo data
  match selected with
  | none => pure (.rejected, reply)
  | some sel =>
    let out := sel.inHeader.outHeader
    let (ec, s) ← stubProcessUnmshIn .ipc b (ipcParcel _ env) sel.methodInfo.mParams
      (mem.call (P.new, data) out)
    if failed ec then
      if ec = E_INVALID_PARCEL_DATA then throw .assertion else pure (.rejected, reply)
    else
      let (ec, s) ← stub.method sel.interfaceIndex sel.methodIndex (s.call () out)
      invokeOut P env b sel ec s (reply, data)

/-- `onTransact` for an `INVOKE`. What `Invoke` returns is ignored. -/
def onTransact (stub : CObjectStub) (mem : Proc Unit) (data : P.In) : Except Fault P.Out := do
  let (_, reply) ← invoke P env b stub mem data P.new
  pure reply

/-! ### The proxy -/

/-- `BufferSize`. -/
def bufferSize (rawLen : Word → UInt32) (methodInfo : CIMethodInfo) (s : Proc Unit) :
    Except Fault (ECode × Sizes) := do
  let (ec, t) ← proxyProcessMshBufferSize .ipc b rawLen methodInfo.mParams (s.call {} none)
  let sizes := t.parcel
  let outSize := if sizes.outSize ≠ 0 then sizes.outSize + 16 else sizes.outSize
  let inSize := if failed ec then sizes.inSize else sizes.inSize + 16
  pure (ec, ⟨inSize, outSize⟩)

/-- `MarshalIn`. -/
def marshalIn (proxy : CInterfaceProxy) (methodIndex : UInt32) (methodInfo : CIMethodInfo) :
    Marshal (Data P.toAndroidParcel) ECode := do
  let ec ← proxyProcessMshIn .ipc b (ipcParcel _ env) methodInfo.mParams
  if failed ec then pure ec
  else
    let s ← get
    carAssert (P.hasData s.parcel.1)
    set { s with parcel := (P.store 0 (proxy.headerStart methodIndex) s.parcel.1, s.parcel.2) }
    pure ec

/-- What is there when the request is put together. -/
structure Prepared where
  ec : ECode
  inParcel : P.Out
  outSize : UInt32

/-- The two ends of no parcel: nothing is read from a parcel that is written to. -/
def fresh (p : P.Out) : Data P.toAndroidParcel := (p, P.rewind P.new)

/-- `ProxyEntry` up to `transact`; a code where it returns before. -/
def prepare (rawLen : Word → UInt32) (proxy : CInterfaceProxy) (methodIndex : UInt32)
    (methodInfo : CIMethodInfo) (s : Proc Unit) : Except Fault (Except ECode (Prepared P)) := do
  let (ec, sizes) ← bufferSize b rawLen methodInfo s
  if failed ec then pure (.error ec)
  else if sizes.inSize < 16 then .error .assertion
  else
    let (ec, t) ← marshalIn P env b proxy methodIndex methodInfo
      (s.call (fresh P (P.writeInplace 16 P.new)) none)
    -- a debug build ends here
    if failed ec then pure (.error ec)
    else
      let inParcel := t.parcel.1
      let size := P.dataSize inParcel
      let inParcel := P.store 8 (wordBytes size ++ wordBytes sizes.outSize) inParcel
      pure (.ok ⟨ec, inParcel, sizes.outSize⟩)

/-- `ProxyEntry` behind `transact`: the code is read from the reply, and the results behind it. -/
def unmarshalReply (methodInfo : CIMethodInfo) (outSize : UInt32) (c : Proc Unit) (reply : P.In) :
    Except Fault (ECode × Proc (Data P.toAndroidParcel)) := do
  let (ec, reply) ← P.readInt32 reply
  let c := c.call (P.new, reply) none
  if failed ec then pure (ec, c)
  else if CInterfaceProxy.methodHasOutArgs methodInfo ∧ outSize ≠ 0 then
    let (orgec, c) ← proxyProcessUnmshOut b (ipcParcel _ env) methodInfo.mParams c
    pure (if failed orgec then orgec else ec, c)
  else pure (ec, c)

/-! ### The call -/

/-- What the driver makes of a parcel on the way to the other process; none where it fails. -/
structure Driver where
  request : P.Out → Option P.In
  reply : P.Out → Option P.In

/-- Every parcel arrives as it was written. -/
structure Driver.Reliable {P : BinderParcel} (driver : Driver P) : Prop where
  request : ∀ p, ∃ q, driver.request p = some q ∧ P.unread q = P.written p
  reply : ∀ p, ∃ q, driver.reply p = some q ∧ P.unread q = P.written p

/-- `ProxyEntry`, with a stub in the environment `env'`. A oneway call does not wait for the
stub. -/
def binderCall (env' : IpcEnv P.toAndroidParcel) (rawLen : Word → UInt32) (driver : Driver P)
    (stub : CObjectStub) (mem : Proc Unit) (proxy : CInterfaceProxy) (methodIndex : UInt32)
    (c : Proc Unit) : Except Fault (ECode × Proc (Data P.toAndroidParcel)) :=
  let unchanged := c.call (fresh P P.new) none
  match proxy.mInfo.mMethods[methodIndex.toNat]? with
  | none => .error .outOfBounds
  | some methodInfo => do
    match ← prepare P env b rawLen proxy methodIndex methodInfo c with
    | .error ec => pure (ec, unchanged)
    | .ok pr =>
      match driver.request pr.inParcel with
      | none => pure (E_REMOTE_FAIL, unchanged)
      | some data =>
        if methodInfo.oneway then pure (pr.ec, unchanged)
        else
          match driver.reply (← onTransact P env' b stub mem data) with
          | none => pure (E_REMOTE_FAIL, unchanged)
          | some reply => unmarshalReply P env b methodInfo pr.outSize c reply

end

/-! ### The request -/

section

variable {P : BinderParcel} {env : IpcEnv P.toAndroidParcel} {b : Build} {c : Proc Unit}

theorem written_store_store {p : P.Out} {hd as bs : List UInt8} {items : List Item}
    (hp : P.written p = .block hd :: items) (hhd : hd.length = 16) (has : as.length = 8)
    (hbs : bs.length = 8) :
    P.written (P.store 8 bs (P.store 0 as p)) = .block (as ++ bs) :: items := by
  have hstart := P.written_store 0 as p hd items hp (by omega)
  rw [List.take_zero, List.nil_append, has] at hstart
  have hlen : (as ++ hd.drop (0 + 8)).length = 16 := by simp [has, hhd]
  rw [P.written_store 8 bs _ _ items hstart (by omega), List.take_left' has,
    List.drop_eq_nil_of_le (by omega), List.append_nil]

/-- The estimate is made, and it is not zero where there are results. -/
theorem bufferSize_ok (rawLen : Word → UInt32) {methodInfo : CIMethodInfo}
    (hparams : ∀ t ∈ methodInfo.mParams, t.Carried) (hlen : methodInfo.mParams.length < 256)
    (h : c.OffersAll b .ipc 0 methodInfo.mParams 0) :
    ∃ sizes, bufferSize b rawLen methodInfo c = .ok (NOERROR, sizes) ∧
      (CInterfaceProxy.methodHasOutArgs methodInfo = true → sizes.outSize ≠ 0) := by
  obtain ⟨s, hrun, hs⟩ := bufferSize_of_calls .ipc b rawLen hparams hlen h
  refine ⟨_, by rw [bufferSize, Except.bind_ok hrun]; rfl, ?_⟩
  exact hs

variable (env) in
/-- **What is prepared**: the header, and behind it the arguments. -/
theorem prepare_spec (rawLen : Word → UInt32) (proxy : CInterfaceProxy) (methodIndex : UInt32)
    {methodInfo : CIMethodInfo} (hparams : ∀ t ∈ methodInfo.mParams, t.Carried)
    (hlen : methodInfo.mParams.length < 256) (h : c.OffersAll b .ipc 0 methodInfo.mParams 0)
    (hestimate : ∀ r, bufferSize b rawLen methodInfo c = .ok r → 16 ≤ r.2.inSize) :
    ∃ pr size, prepare P env b rawLen proxy methodIndex methodInfo c = .ok (.ok pr) ∧
      pr.ec = NOERROR ∧
      P.written pr.inParcel = .block (proxy.header methodIndex size pr.outSize).bytes ::
        (ipcCodec _ env).request b (c.call (fresh P P.new) none) 0 methodInfo.mParams 0 ∧
      (CInterfaceProxy.methodHasOutArgs methodInfo = true → pr.outSize ≠ 0) := by
  obtain ⟨sizes, hsizes, hout⟩ := bufferSize_ok rawLen hparams hlen h
  obtain ⟨hd, hhd, hwritten⟩ := P.written_writeInplace 16 P.new
  rw [P.written_new, List.nil_append] at hwritten
  have hwrote : (ipcStream _).Wrote [.block hd] (fresh P (P.writeInplace 16 P.new)) := hwritten
  obtain ⟨s, hrun, hs⟩ := mshIn_of_offers (C := ipcCodec _ env) hparams
    (complete_ipcOutCodec _ env).carries h hwrote trivial
  have hne : P.written s.parcel.1 ≠ [] := by
    rw [show P.written s.parcel.1 = _ from hs]
    exact List.cons_ne_nil _ _
  have hdata := P.hasData_of_written _ hne
  let headed : P.Out := P.store 0 (proxy.headerStart methodIndex) s.parcel.1
  have hmarshal : marshalIn P env b proxy methodIndex methodInfo
      (c.call (fresh P (P.writeInplace 16 P.new)) none)
        = .ok (NOERROR, { s with parcel := (headed, s.parcel.2) }) := by
    rw [marshalIn, Run.bind_ok hrun, if_neg (by simp), Run.get_bind, carAssert, if_pos hdata]
    rfl
  refine ⟨⟨NOERROR, P.store 8 (wordBytes (P.dataSize headed) ++ wordBytes sizes.outSize) headed,
    sizes.outSize⟩, P.dataSize headed, ?_, rfl, ?_, hout⟩
  · rw [prepare, Except.bind_ok hsizes]
    dsimp only
    rw [if_neg (by simp), if_neg (UInt32.not_lt.mpr (hestimate _ hsizes)),
      Except.bind_ok hmarshal]
    dsimp only
    rw [if_neg (by simp)]
    rfl
  · rw [CInterfaceProxy.bytes_header]
    exact written_store_store hs hhd (by simp [CInterfaceProxy.headerStart]) (by simp)

end

/-! ### The method is called -/

/-- What the reply to a call consists of. -/
def answer (P : AndroidParcel) (env : IpcEnv P) (params : List Param) (t : Proc Unit) (ec : ECode) :
    List Item :=
  [.int32 ec] ++
    if failed ec then []
    else (ipcOutCodec P env).reply .ipc (t.call (P.new, P.rewind P.new) none) params 4

section

variable {P : BinderParcel} {env : IpcEnv P.toAndroidParcel} {b : Build} {c s t : Proc Unit}
  {sel : Selected} {ec : ECode}

theorem selectMethod_of_unread {cls : CIClassInfo} (hsel : cls.select sel.inHeader = .ok (some sel))
    {items : List Item} {data : P.In} (hdata : P.unread data = .block sel.inHeader.bytes :: items) :
    ∃ data', selectMethod P cls data = .ok (some sel, data') ∧ P.unread data' = items := by
  have hread := P.takes_readInplace sel.inHeader.bytes
  rw [MarshalHeader.length_bytes] at hread
  obtain ⟨data', hrun, hleft⟩ := hread data items hdata
  refine ⟨data', ?_, hleft⟩
  rw [selectMethod, Run.bind_ok hrun]
  dsimp only
  rw [MarshalHeader.ofBytes_bytes, hsel]
  rfl

/-- **The stub calls the method** with what the caller passed. -/
theorem invoke_spec {stub : CObjectStub} {mem : Proc Unit} {data : P.In} (reply : P.Out)
    (hsel : stub.mInfo.select sel.inHeader = .ok (some sel))
    (hparams : ∀ u ∈ sel.methodInfo.mParams, u.Carried)
    (hcalls : c.OffersAll b .ipc 0 sel.methodInfo.mParams 0) (hphase : mem.phase = c.phase)
    (hout : ∀ u ∈ sel.methodInfo.mParams, u.isOut → sel.inHeader.mOutSize ≠ 0)
    (hdata : P.unread data = .block sel.inHeader.bytes ::
      (ipcCodec _ env).request b (c.call (fresh P P.new) none) 0 sel.methodInfo.mParams 0) :
    ∃ s data', c.CalledFor b sel.methodInfo.mParams s ∧
      invoke P env b stub mem data reply = (do
        let (ec, t) ← stub.method sel.interfaceIndex sel.methodIndex s
        invokeOut P env b sel ec t (reply, data')) := by
  obtain ⟨data', hselect, hleft⟩ := selectMethod_of_unread hsel hdata
  rw [← List.append_nil (Codec.request _ _ _ _ _ _)] at hleft
  obtain ⟨s, hunmsh, hs⟩ := calledFor_of_unmshIn (C := ipcCodec _ env) hparams
    (complete_ipcOutCodec _ env).carries hcalls hphase (p := (P.new, data'))
    (o := sel.inHeader.outHeader) (fun u hu ho => if_neg (hout u hu ho)) hleft
  refine ⟨s.call () sel.inHeader.outHeader, data', hs, ?_⟩
  rw [invoke, Except.bind_ok hselect]
  dsimp only
  rw [Except.bind_ok hunmsh]
  dsimp only
  rw [if_neg (by simp)]

variable (env) in
/-- **What the stub writes** once the method has returned: the code, and the results behind it. -/
theorem invokeOut_spec (hparams : ∀ u ∈ sel.methodInfo.mParams, u.Carried)
    (hcalls : c.OffersAll b .ipc 0 sel.methodInfo.mParams 0)
    (hs : c.CalledFor b sel.methodInfo.mParams s)
    (ht : c.Answers b .ipc sel.methodInfo.mParams s t ec)
    (hout : ∀ u ∈ sel.methodInfo.mParams, u.isOut → sel.inHeader.mOutSize ≠ 0) (data : P.In) :
    ∃ reply, invokeOut P env b sel ec t (P.new, data) = .ok (.returned ec NOERROR, reply) ∧
      P.written reply = answer _ env sel.methodInfo.mParams t ec := by
  let params := sel.methodInfo.mParams
  let r : Data P.toAndroidParcel := (P.writeInt32 ec P.new, data)
  have hcode : (ipcStream _).Wrote [.int32 ec] r := by
    change P.written (P.writeInt32 ec P.new) = _
    rw [P.written_writeInt32, P.written_new, List.nil_append]
  have houter : ∀ u ∈ params, u.isOut → sel.inHeader.outHeader = some 0 := fun u hu ho =>
    if_neg (hout u hu ho)
  rw [invokeOut]
  dsimp only
  by_cases hec : failed ec = true
  · -- the code alone; an interface mark asks for a release of the arguments
    have hanswer : answer _ env params t ec = [.int32 ec] := by
      rw [answer, if_pos hec, List.append_nil]
    have honly : (failed ec && sel.methodInfo.inInterfaceMark)
        = sel.methodInfo.inInterfaceMark := by
      rw [hec, Bool.true_and]
    refine ⟨r.1, ?_, hcode.trans hanswer.symm⟩
    split
    · next hif =>
      have hmark : sel.methodInfo.inInterfaceMark = true := by
        refine hif.resolve_left fun h => ?_
        rw [hec] at h
        cases h.2
      obtain ⟨s', hrun, hparcel⟩ :=
        mshOut_onlyRelease hparams hcalls hs ht (ipcParcel _ env) r sel.inHeader.outHeader
      rw [honly, hmark, Except.bind_ok hrun, hparcel]
      rfl
    · rfl
  · have hec' : failed ec = false := by simpa using hec
    split
    · obtain ⟨s', hrun, hwritten⟩ := mshOut_of_answers hparams hcalls hs ht
        (complete_ipcOutCodec _ env) hec' houter hcode trivial
      refine ⟨s'.parcel.1, ?_, ?_⟩
      · rw [hec']
        exact Except.bind_ok hrun
      · rw [answer, if_neg hec]
        exact hwritten
    · -- without an out buffer there are no results
      next hif =>
      have hnone : ∀ u ∈ params, u.isOut = false := by
        intro u hu
        by_contra ho
        exact hif (.inl ⟨by rw [houter u hu (by simpa using ho)]; rfl, hec'⟩)
      refine ⟨r.1, rfl, ?_⟩
      rw [answer, if_neg hec, reply_of_no_out _ hnone, List.append_nil]
      exact hcode

end

/-! ### The reply -/

section

variable {P : BinderParcel}

/-! What is in the parcel does not depend on the process. -/

theorem request_env (env env' : IpcEnv P.toAndroidParcel) {b : Build}
    {c : Proc (Data P.toAndroidParcel)} {params : List Param} {n i : ℕ} :
    (ipcCodec _ env).request b c n params i = (ipcCodec _ env').request b c n params i := by
  induction params generalizing n i with
  | nil => rfl
  | cons u us ih =>
    rw [Codec.request, Codec.request, ih]
    refine congrArg (· ++ _) ?_
    cases c.sent b n u i with
    | none => rfl
    | some x => cases x <;> rfl

theorem reply_env (env env' : IpcEnv P.toAndroidParcel) {m : Marshaller}
    {t : Proc (Data P.toAndroidParcel)} {params : List Param} {o : ℕ} :
    (ipcOutCodec _ env).reply m t params o = (ipcOutCodec _ env').reply m t params o := by
  induction params generalizing o with
  | nil => rfl
  | cons u us ih =>
    rw [OutCodec.reply, OutCodec.reply, ih, ih]
    cases t.slot u o with
    | none => rfl
    | some x => cases x <;> rfl

variable (env : IpcEnv P.toAndroidParcel) {env' : IpcEnv P.toAndroidParcel} {b : Build}
  {c s t : Proc Unit} {ec : ECode}

/-- **The reply is decoded**: to the code of the method, and to its results if it has succeeded. -/
theorem unmarshalReply_spec {methodInfo : CIMethodInfo}
    {outSize : UInt32} {reply : P.In} (hparams : ∀ u ∈ methodInfo.mParams, u.Carried)
    (hcalls : c.Calls b .ipc methodInfo.mParams) (hs : c.CalledFor b methodInfo.mParams s)
    (ht : c.Answers b .ipc methodInfo.mParams s t ec)
    (hout : CInterfaceProxy.methodHasOutArgs methodInfo = true → outSize ≠ 0)
    (hreply : P.unread reply = answer _ env' methodInfo.mParams t ec) :
    ∃ c', unmarshalReply P env b methodInfo outSize c reply = .ok (ec, c') ∧
      if failed ec then c'.heap = c.heap
      else c.Receives (resultArgs b methodInfo.mParams t c) c' ∧ P.unread c'.parcel.2 = [] := by
  obtain ⟨q, hq, hleft⟩ := P.takes_readInt32 ec reply _ hreply
  rw [unmarshalReply, Except.bind_ok hq]
  dsimp only
  by_cases hec : failed ec = true
  · rw [if_pos hec]
    exact ⟨_, rfl, by rw [if_pos hec]; rfl⟩
  have hec' : failed ec = false := by simpa using hec
  simp only [hec', Bool.false_eq_true, if_false] at hleft ⊢
  by_cases hhas : CInterfaceProxy.methodHasOutArgs methodInfo = true
  · have hq' : (ipcStream _).Left ((ipcOutCodec _ env).reply .ipc
        (t.call (P.new, P.rewind P.new) none) methodInfo.mParams 4 ++ []) (P.new, q) := by
      rw [List.append_nil, reply_env env env']
      exact hleft
    obtain ⟨c', hrun, hend, hreceives⟩ := unmshOut_of_answers (complete_ipcOutCodec _ env) hparams
      hcalls hs ht hec' hq'
    refine ⟨c', ?_, hreceives, hend⟩
    rw [if_pos ⟨hhas, hout hhas⟩, Except.bind_ok hrun]
    rfl
  · have hnone := not_methodHasOutArgs hhas
    rw [reply_of_no_out _ hnone] at hleft
    refine ⟨_, by rw [if_neg fun h => hhas h.1]; rfl, ?_, hleft⟩
    rw [resultArgs, outArgs_of_no_out hnone]
    exact ⟨List.forall_mem_nil _, List.forall_mem_nil _, rfl, rfl, le_rfl, fun _ _ _ => rfl⟩

end

/-! ### The call -/

section

variable (P : BinderParcel) (env env' : IpcEnv P.toAndroidParcel) (b : Build)
  (rawLen : Word → UInt32) (driver : Driver P) (hdriver : driver.Reliable) (stub : CObjectStub)
  (mem c : Proc Unit) (i m : ℕ) (info : CIInterfaceInfo) (methodInfo : CIMethodInfo)
  (hprovides : stub.Provides i m info methodInfo) (hcalls : c.Calls b .ipc methodInfo.mParams)
  (hphase : mem.phase = c.phase)
  (hestimate : ∀ r, bufferSize b rawLen methodInfo c = .ok r → 16 ≤ r.2.inSize)

include hdriver hprovides hcalls hphase hestimate

/-- The method is called, and what it answers gets to the caller. -/
theorem binderCall_of_answers :
    ∃ s, c.CalledFor b methodInfo.mParams s ∧
      ∀ ec t, stub.method i m s = .ok (ec, t) → c.Answers b .ipc methodInfo.mParams s t ec →
        ∃ c', binderCall P env b env' rawLen driver stub mem ⟨info, UInt32.ofNat i⟩
            (UInt32.ofNat m) c = .ok (ec, c') ∧
          if failed ec then c'.heap = c.heap
          else c.Receives (resultArgs b methodInfo.mParams t c) c' ∧
            P.unread c'.parcel.2 = [] := by
  let proxy : CInterfaceProxy := ⟨info, UInt32.ofNat i⟩
  have hparams := hprovides.carried
  -- the request
  obtain ⟨pr, size, hprepare, -, hwritten, hout⟩ := prepare_spec env rawLen proxy (UInt32.ofNat m)
    hparams hprovides.few hcalls.offers hestimate
  obtain ⟨data, hrequest, hdata⟩ := hdriver.request pr.inParcel
  -- the stub
  let sel : Selected := ⟨proxy.header (UInt32.ofNat m) size pr.outSize, i, m, methodInfo⟩
  have hsel : stub.mInfo.select sel.inHeader = .ok (some sel) :=
    (select_header_iff hprovides.interface hprovides.method _ _).mpr
      ⟨hprovides.interface_lt, hprovides.method_lt⟩
  have hout' : ∀ u ∈ methodInfo.mParams, u.isOut → pr.outSize ≠ 0 := fun u hu ho =>
    hout (List.any_eq_true.mpr ⟨u, hu, ho⟩)
  rw [hwritten, request_env env env'] at hdata
  obtain ⟨s, data', hs, hinvoke⟩ := invoke_spec P.new hsel hparams hcalls.offers hphase hout' hdata
  refine ⟨s, hs, fun ec t hrun ht => ?_⟩
  obtain ⟨reply, hreply, hwritten'⟩ := invokeOut_spec env' hparams hcalls.offers hs ht hout' data'
  rw [Except.bind_ok hrun] at hinvoke
  dsimp only at hinvoke
  rw [hreply] at hinvoke
  have hserve : onTransact P env' b stub mem data = .ok reply := by
    rw [onTransact, Except.bind_ok hinvoke]
    rfl
  -- the reply
  obtain ⟨back, hback, hunread⟩ := hdriver.reply reply
  obtain ⟨c', hdecode, hresults⟩ := unmarshalReply_spec env hparams hcalls hs ht hout
    (hunread.trans hwritten')
  refine ⟨c', ?_, hresults⟩
  rw [binderCall, hprovides.method_ofNat]
  dsimp only
  rw [Except.bind_ok hprepare]
  dsimp only
  rw [hrequest]
  dsimp only
  rw [hprovides.waits, if_neg (by simp), Except.bind_ok hserve, hback]
  exact hdecode

end

/-! ### A parcel of items -/

/-- The bytes that an item takes. -/
def Item.size : Item → ℕ
  | .int32 _ | .float _ => 4
  | .int64 _ => 8
  | .cstring s => s.chars.length + 1 + pad4 (s.chars.length + 1)
  | .block bs => bs.length + pad4 bs.length

/-- The first item is a header. -/
def storeItem (off : ℕ) (bs : List UInt8) : List Item → List Item
  | .block hd :: items => .block (hd.take off ++ bs ++ hd.drop (off + bs.length)) :: items
  | items => items

/-- `itemParcel` with a header. -/
def itemBinder : BinderParcel where
  toAndroidParcel := itemParcel
  writeInplace n := fun p : List Item => p ++ [.block (List.replicate n 0)]
  dataSize := fun p : List Item => UInt32.ofNat (p.map Item.size).sum
  hasData := fun p : List Item => !p.isEmpty
  store := storeItem
  readInplace n := takeItem fun
    | .block bs => if bs.length = n then some (some bs) else none
    | _ => none
  written_writeInplace n _ := ⟨_, List.length_replicate, rfl⟩
  hasData_of_written p hp := by
    have hempty : ∀ items : List Item, items ≠ [] → (!items.isEmpty) = true := by simp
    exact hempty p hp
  written_store off bs p hd items hp _ := congrArg (storeItem off bs) hp
  takes_readInplace _ := takes_takeItem (if_pos rfl)

/-- Its parcels arrive. -/
def itemDriver : Driver itemBinder where
  request p := some (itemParcel.rewind p)
  reply p := some (itemParcel.rewind p)

theorem reliable_itemDriver : itemDriver.Reliable where
  request p := ⟨_, rfl, itemParcel.unread_rewind p⟩
  reply p := ⟨_, rfl, itemParcel.unread_rewind p⟩

/-- An environment in which interfaces are not written and not read. -/
def itemEnv : IpcEnv itemBinder.toAndroidParcel where
  readInterfaces n := pure (NOERROR, ⟨List.replicate n none, List.length_replicate⟩)
  buf := 0
  writeInterfaces _ p := (NOERROR, p)
  writeInterfacePtr _ p := (NOERROR, p)
  readInterfacePtr := pure (NOERROR, ⟨some none, none⟩)

end Ipc

end ElastosCar
