import ElastosCar.Proxy.Calls
import ElastosCar.Proxy.Dispatch
import ElastosCar.Stub.Robust

/-!
# A remote call

`ProxyEntry_RPC` of `linux_rpc/proxy.cpp` with a stub at the other end of its connection. The
request is sent as a frame, `AcceptCallback` puts it together again and `TransactRunnable::Run`
serves it; the reply comes back as a frame, and `UnmarshalOut` reads it to the variables of the
caller.

* `remoteCall` is the composition of the parts. The two processes have their own environments, and
  what the connection does to the bytes is a parameter.
* `remoteCall_spec` says that it is a call of the method: whatever the method does with its
  arguments, the caller gets its code, and its results in the variables it has passed.
-/

namespace ElastosCar

open CRemoteParcel Marshal

/-- In which chunks the frames on a connection arrive. -/
structure Connection where
  request : List UInt8 → List (List UInt8)
  reply : List UInt8 → List (List UInt8)

/-- Nothing is lost. A `recv` of the stub that does not end a request returns whole words, and the
first `recv` of the proxy returns the whole length field. -/
structure Connection.Steady (conn : Connection) : Prop where
  request : ∀ bytes, bytes ≠ [] → ∃ init last, conn.request bytes = init ++ [last] ∧
    (init ++ [last]).flatten = bytes ∧ (∀ c ∈ init, 0 < c.length ∧ 4 ∣ c.length) ∧ 0 < last.length
  reply : ∀ bytes, 4 ≤ bytes.length → (conn.reply bytes).flatten = bytes ∧
    (∀ c ∈ conn.reply bytes, 0 < c.length) ∧ ∀ c ∈ (conn.reply bytes).head?, 4 ≤ c.length

/-- What the stub sends for a request that arrives in these chunks. -/
def CObjectStub.serve (E : RpcEnv) (b : Build) (stub : CObjectStub) (mem : Proc Unit)
    (socket : List (List UInt8)) : Except Fault (Option (List UInt8)) :=
  match acceptCallback E.alloc ⟨false, true⟩ socket with
  | .removed | .spurious => .ok none
  | .accepted dataParcel _ => do
    match ← stub.transact E b mem dataParcel with
    | none => pure none
    | some reply =>
      let bytes ← sendReply E.alloc reply
      pure (some bytes)

namespace CInterfaceProxy

/-- `decodeReply` with what it leaves in the memory of the caller. -/
def unmarshalReply (E : RpcEnv) (b : Build) (methodInfo : CIMethodInfo) (ec : ECode)
    (outSize : UInt32) (c : Proc Unit) (replyBuf : List UInt8) :
    Except Fault ((ECode × ECode) × Proc CRemoteParcel) := do
  let outParcel := (setData E.alloc replyBuf {}).2
  let ((_, ec), outParcel) ← readInt32 ec outParcel
  if failed ec then pure ((ec, NOERROR), c.call outParcel none)
  else if methodHasOutArgs methodInfo ∧ outSize ≠ 0 then
    let (orgec, c') ←
      proxyProcessUnmshOut b (rpcParcel E) methodInfo.mParams (c.call outParcel none)
    pure ((if failed orgec then orgec else ec, orgec), c')
  else pure ((ec, NOERROR), c.call outParcel none)

theorem decodeReply_eq (E : RpcEnv) (b : Build) (methodInfo : CIMethodInfo) (ec : ECode)
    (outSize : UInt32) (c : Proc Unit) (replyBuf : List UInt8) :
    decodeReply E b methodInfo ec outSize c replyBuf
      = (unmarshalReply E b methodInfo ec outSize c replyBuf).map Prod.fst := by
  rw [decodeReply, unmarshalReply]
  dsimp only
  cases readInt32 ec (setData E.alloc replyBuf {}).2 with
  | error f => rfl
  | ok r =>
    change (if _ then _ else _) = Except.map Prod.fst (if _ then _ else _)
    split
    · rfl
    split
    · cases proxyProcessUnmshOut b (rpcParcel E) methodInfo.mParams (c.call r.2 none) <;> rfl
    · rfl

/-- `ProxyEntry_RPC`, connected to a stub in the environment `E'`. The connection is there, and
`buf` is what is in the local buffer before. -/
def remoteCall (E E' : RpcEnv) (b : Build) (rawLen : Word → UInt32) (conn : Connection)
    (buf : List UInt8) (stub : CObjectStub) (mem : Proc Unit) (proxy : CInterfaceProxy)
    (methodIndex : UInt32) (c : Proc Unit) : Except Fault (ECode × Proc CRemoteParcel) :=
  match proxy.mInfo.mMethods[methodIndex.toNat]? with
  | none => .error .outOfBounds
  | some methodInfo => do
    match ← proxy.prepare E b rawLen methodIndex c with
    | .error ec => pure (ec, c.call {} none)
    | .ok pr =>
      let request ← (Request.invoke methodInfo.oneway pr.inParcel).send E.alloc
      let reply ← stub.serve E' b mem (conn.request request)
      -- without a reply the first `recv` fails
      match ← proxyReceive E.alloc buf (reply.elim [] conn.reply) with
      | (.broken, _) => pure (E_FAIL, c.call {} none)
      | (.whole _, replyBuf) =>
        if methodInfo.oneway then pure (pr.ec, c.call {} none)
        else
          let ((ec, _), c') ← unmarshalReply E b methodInfo pr.ec pr.outSize c replyBuf.contents
          pure (ec, c')

end CInterfaceProxy

/-- What the reply to a call consists of. -/
def answer (E : RpcEnv) (henv : E.alloc.Succeeds) (params : List Param) (t : Proc Unit)
    (ec : ECode) : List UInt8 :=
  wire32 ec ++ if failed ec then [] else (rpcOutCodec E henv).reply .rpc (t.call {} none) params 4

theorem complete_rpcOutCodec (E : RpcEnv) (henv : E.alloc.Succeeds) :
    (rpcOutCodec E henv).Complete .rpc where
  carries _ h := h.1.carries
  carriesOut hv h := rpcReturns_of_readOut hv fun q hq => (h.2 q hq).1

/-! ### Sending -/

section

variable {env : Allocator} (henv : env.Succeeds)
include henv

theorem DataBuffer.appendAll_spec (pieces : List (List UInt8)) {d : DataBuffer} (hd : d.Valid)
    (hlt : 3 * (d.size + pieces.flatten.length) < 4294967295) :
    ∃ d', appendAll env pieces d = .ok ((), d') ∧ d'.Valid ∧
      d'.contents = d.contents ++ pieces.flatten := by
  induction pieces generalizing d with
  | nil => exact ⟨d, rfl, hd, (List.append_nil _).symm⟩
  | cons piece pieces ih =>
    rw [List.flatten_cons, List.length_append] at hlt
    obtain ⟨e, he, hev, hecontents⟩ := append_spec henv hd piece (by omega)
    have hesize : e.size = d.size + piece.length := by
      rw [← length_contents, hecontents, List.length_append, length_contents]
    obtain ⟨d', hd', hv, hcontents⟩ := ih hev (by omega)
    refine ⟨d', ?_, hv, ?_⟩
    · rw [appendAll, Run.bind_ok he]
      exact hd'
    · rw [hcontents, hecontents, List.append_assoc, List.flatten_cons]

/-- A request that is small enough is sent. -/
theorem Request.send_spec (r : Request) (hlt : 3 * (r.body.length + 4) < 4294967295) :
    r.send env = .ok (frame r.body) := by
  obtain ⟨d, hnew, hd, hempty⟩ := DataBuffer.new_ok henv
  have hdsize : d.size = 0 := by rw [← DataBuffer.length_contents, hempty, List.length_nil]
  have hbody : r.body.length = r.head.flatten.length + r.last.length := List.length_append
  have hw := length_wire32 r.totalSize
  obtain ⟨e, he, hev, hecontents⟩ := DataBuffer.appendAll_spec henv
    (wire32 r.totalSize :: r.head) hd (by rw [List.flatten_cons, List.length_append]; omega)
  have hesize : e.size = 4 + r.head.flatten.length := by
    rw [← DataBuffer.length_contents, hecontents, hempty, List.nil_append, List.flatten_cons,
      List.length_append, hw]
  obtain ⟨f, hf, -, hfcontents⟩ := DataBuffer.append_spec henv hev r.last (by omega)
  have hfsize : f.size = r.body.length + 4 := by
    rw [← DataBuffer.length_contents, hfcontents, List.length_append, DataBuffer.length_contents,
      hesize]
    omega
  have hassert : decide (r.totalSize.toInt32 = f.mSize) = true := by
    rw [decide_eq_true_eq, DataBuffer.mSize_eq, hfsize, totalSize_eq]
  have hassemble : r.assemble env d = .ok ((), f) := by
    rw [assemble.eq_def, Run.bind_ok he, Run.bind_ok hf]
    cases r with
    | ping => rfl
    | invoke | release =>
      dsimp only
      rw [Run.get_bind, hassert]
      rfl
  obtain ⟨bytes, hbytes⟩ : ∃ bytes, r.send env = .ok bytes := by
    rw [send, Except.bind_ok hnew, Except.bind_ok hassemble]
    exact ⟨_, rfl⟩
  rw [hbytes, (send_eq hbytes).1]

/-- A reply that is small enough is sent. -/
theorem sendReply_spec {reply : CRemoteParcel} (hready : reply.Ready) {bs : List UInt8}
    (hcontents : reply.contents = bs) (hlt : bs.length < 2 ^ 30) :
    sendReply env reply = .ok (frame bs) := by
  have helement : reply.element = bs := by rw [hready.element_eq, hcontents]
  obtain ⟨d, hnew, hd, hempty⟩ := DataBuffer.new_ok henv
  obtain ⟨d', hd'⟩ := framed_spec henv reply.element
    (show 3 * (reply.element.length + 4) < 4294967295 by rw [helement]; omega) hd hempty
  have hsend : sendReply env reply = .ok d'.contents := by
    rw [sendReply, Except.bind_ok hnew, Except.bind_ok hd']
    rfl
  rw [hsend, (sendReply_eq hsend).1, helement, frame, Nat.add_comm, UInt32.ofNat_add]
  rfl

end

/-! ### The request -/

theorem isSome_of_contents {p : CRemoteParcel} (hp : p.Ready) {start cs : List UInt8}
    (hstart : 0 < start.length) (hcontents : p.contents = start ++ cs) : p.mData.isSome := by
  have hsize : p.mDataSize.toNat = start.length + cs.length := by
    rw [← length_contents, hcontents, List.length_append]
  rw [Option.isSome_iff_ne_none]
  intro hnone
  have hle : p.mDataSize.toNat ≤ p.mDataCapacity.toNat := hp.size_le
  rw [hp.null hnone, UInt32.toNat_zero] at hle
  omega

/-- What is stored in the header leaves the arguments alone. -/
theorem element_memcpy_memcpy {p : CRemoteParcel} (hp : p.Ready) {as bs start cs : List UInt8}
    (has : as.length = 8) (hbs : bs.length = 8) (hstart : start.length = 16)
    (hcontents : p.contents = start ++ cs) :
    ((p.memcpy 0 as).memcpy 8 bs).element = as ++ bs ++ cs := by
  have hsize : p.mDataSize.toNat = 16 + cs.length := by
    rw [← length_contents, hcontents, List.length_append, hstart]
  have hdata := isSome_of_contents hp (by omega) hcontents
  have hdata' : (p.memcpy 0 as).mData.isSome := by simpa [memcpy] using hdata
  have hdataSize : ((p.memcpy 0 as).memcpy 8 bs).dataSize = p.mDataSize := by
    change p.dataSize = p.mDataSize
    simp [dataSize, hp.pos_eq]
  have hload : load p.block 16 cs.length = cs := by
    rw [contents, hsize, ← hstart, ← List.length_append] at hcontents
    have h := (load_eq_append hcontents).2
    rwa [Nat.zero_add, hstart] at h
  rw [element, hdataSize, hsize, load_append _ 0, CInterfaceProxy.load_memcpy_memcpy hdata has hbs,
    Nat.zero_add, block_memcpy hdata', block_memcpy hdata,
    load_store_of_disjoint _ (.inr (by omega)), load_store_of_disjoint _ (.inr (by omega)), hload]

/-- `new CRemoteParcel()` is a parcel to write to. -/
theorem CInterfaceProxy.wrote_newParcel {env : Allocator} (henv : env.Succeeds) :
    ∃ start, start.length = 16 ∧ rpcStream.Wrote start (newParcel env) := by
  obtain ⟨fresh, hnew⟩ := exists_newParcel_eq henv
  have hready : (newParcel env).Ready := by
    rw [hnew]
    refine ⟨⟨fun h => ?_, ?_, le_rfl⟩, rfl, rfl⟩
    · cases h
    · change (16 : ℕ) ≤ 24
      decide
  exact ⟨_, by rw [length_contents, (newParcel_eq henv).2]; rfl, hready, rfl⟩

section

variable {E E' : RpcEnv} {henv : E.alloc.Succeeds} {body : Itf → List UInt8} {b : Build}
  {rawLen : Word → UInt32} {c : Proc Unit} {params : List Param}

variable (rawLen) in
/-- The estimate is made, and it is not zero where there are results. -/
theorem CInterfaceProxy.bufferSize_ok {methodInfo : CIMethodInfo}
    (hparams : ∀ t ∈ methodInfo.mParams, t.Carried) (hlen : methodInfo.mParams.length < 256)
    (h : c.OffersAll b .rpc 0 methodInfo.mParams 0) :
    ∃ sizes, bufferSize b rawLen methodInfo c = .ok (NOERROR, sizes) ∧
      (methodHasOutArgs methodInfo = true → sizes.outSize ≠ 0) := by
  obtain ⟨s, hrun, hs⟩ := bufferSize_of_calls .rpc b rawLen hparams hlen h
  refine ⟨_, by rw [bufferSize, Except.bind_ok hrun]; rfl, ?_⟩
  exact hs

variable (henv body rawLen) in
/-- **What is prepared**: the header, and behind it the arguments. -/
theorem CInterfaceProxy.prepare_spec {proxy : CInterfaceProxy} {methodIndex : UInt32}
    {methodInfo : CIMethodInfo}
    (hmethod : proxy.mInfo.mMethods[methodIndex.toNat]? = some methodInfo)
    (hparams : ∀ t ∈ methodInfo.mParams, t.Carried) (hlen : methodInfo.mParams.length < 256)
    (h : c.OffersAll b .rpc 0 methodInfo.mParams 0)
    (hroom : ((rpcCodec E henv body).request b (c.call {} none) 0 methodInfo.mParams 0).length + 64
      < 2 ^ 30)
    (hestimate : ∀ r, bufferSize b rawLen methodInfo c = .ok r → 16 ≤ r.2.inSize) :
    ∃ pr, proxy.prepare E b rawLen methodIndex c = .ok (.ok pr) ∧ pr.ec = NOERROR ∧
      pr.inParcel.element = (proxy.header methodIndex pr.inParcel.dataSize pr.outSize).bytes
        ++ (rpcCodec E henv body).request b (c.call {} none) 0 methodInfo.mParams 0 ∧
      (methodHasOutArgs methodInfo = true → pr.outSize ≠ 0) := by
  obtain ⟨sizes, hsizes, hout⟩ := bufferSize_ok rawLen hparams hlen h
  obtain ⟨start, hstart, hwrote⟩ := wrote_newParcel henv
  let C := rpcCodec E henv body
  let c' : Proc CRemoteParcel := c.call {} none
  obtain ⟨s, hrun, hready, hcontents⟩ := mshIn_of_offers hparams (C := C)
    (fun _ hv => hv.1.carries) h hwrote (by
      change (start ++ C.request b c' 0 methodInfo.mParams 0).length < 2 ^ 30
      change (C.request b c' 0 methodInfo.mParams 0).length + 64 < 2 ^ 30 at hroom
      rw [List.length_append]
      omega)
  let p := s.parcel
  have hdata : p.mData.isSome := isSome_of_contents hready (by omega) hcontents
  have hmarshal : proxy.marshalIn E b methodIndex methodInfo (c.call (newParcel E.alloc) none)
      = .ok (NOERROR, { s with parcel := p.memcpy 0 (proxy.headerStart methodIndex) }) := by
    rw [marshalIn]
    refine (Run.bind_ok hrun).trans ?_
    rw [if_neg (by simp), Run.get_bind, carAssert, if_pos hdata]
    rfl
  let marshalled := p.memcpy 0 (proxy.headerStart methodIndex)
  refine ⟨⟨NOERROR, marshalled.memcpy 8 (wordBytes marshalled.dataSize ++ wordBytes sizes.outSize),
    sizes.outSize⟩, ?_, rfl, ?_, hout⟩
  · rw [prepare, hmethod]
    dsimp only
    rw [Except.bind_ok hsizes]
    dsimp only
    rw [if_neg (by simp), if_neg (UInt32.not_lt.mpr (hestimate _ hsizes)),
      Except.bind_ok hmarshal]
    dsimp only
    rw [if_neg (by simp)]
    rfl
  · -- the size of the data does not change when the header is stored
    have hsize (bs : List UInt8) : (marshalled.memcpy 8 bs).dataSize = marshalled.dataSize := rfl
    rw [bytes_header]
    have hlength : (proxy.headerStart methodIndex).length = 8 := by simp [headerStart]
    have hlength' : (wordBytes marshalled.dataSize ++ wordBytes sizes.outSize).length = 8 := by simp
    have helement := element_memcpy_memcpy hready hlength hlength' hstart hcontents
    dsimp only
    rw [hsize]
    exact helement

end

/-! ### The method is called -/

theorem CRemoteParcel.Holds.rest_eq {p : CRemoteParcel} {bs : List UInt8} (h : p.Holds bs) :
    p.rest = bs := by
  have hlen : p.mDataSize.toNat - p.mDataPos.toNat = bs.length := by
    have := h.size
    omega
  rw [CRemoteParcel.rest, hlen, h.bytes]

theorem holds_of_carries {p : CRemoteParcel} {body : List UInt8}
    (h : FramingState.Carries p body) (hlt : body.length + 4 < 2 ^ 30) : p.Holds (padded body) := by
  have hpad := pad4_lt body.length
  have hsize : p.mDataSize.toNat = (padded body).length := by rw [← h.2, length_contents]
  have hlen := length_padded body
  refine ⟨by rw [h.1, hsize]; exact Nat.zero_add _, by omega, ?_⟩
  rw [h.1, ← hsize]
  exact h.2

section

variable {E : RpcEnv} {henv : E.alloc.Succeeds} {body : Itf → List UInt8} {b : Build}
  {stub : CObjectStub} {mem : Proc Unit}

variable (E b stub mem) in
/-- The command is read, and `Invoke` reads on behind it. -/
theorem CObjectStub.transact_invoke {p : CRemoteParcel} {bs : List UInt8}
    (hp : p.Holds (wireString (some INVOKE) ++ bs)) :
    ∃ q, q.Holds bs ∧ stub.transact E b mem p
      = (stub.invoke E b mem q {}).map fun r => some r.2 := by
  have hread : (rpcParcel E).readString p
      = .ok ((NOERROR, some INVOKE), p.advance (sizeOf32 (wireString (some INVOKE)))) :=
    reads_readString (some INVOKE) (E.junk p).word p bs hp
  refine ⟨_, hp.advance, ?_⟩
  rw [transact, Except.bind_ok hread]
  dsimp only
  rw [onTransact, if_pos rfl]
  cases stub.invoke E b mem (p.advance (sizeOf32 (wireString (some INVOKE)))) {} <;> rfl

/-- **The stub calls the method** with what the caller passed. -/
theorem CObjectStub.invoke_spec {c : Proc Unit} {sel : Selected} {data : CRemoteParcel}
    (reply : CRemoteParcel) {more : List UInt8}
    (hsel : stub.mInfo.select sel.inHeader = .ok (some sel))
    (hparams : ∀ t ∈ sel.methodInfo.mParams, t.Carried)
    (hcalls : c.OffersAll b .rpc 0 sel.methodInfo.mParams 0) (hphase : mem.phase = c.phase)
    (hout : ∀ t ∈ sel.methodInfo.mParams, t.isOut → sel.inHeader.mOutSize ≠ 0)
    (hdata : data.Holds (sel.inHeader.bytes ++ ((rpcCodec E henv body).request b (c.call {} none) 0
      sel.methodInfo.mParams 0 ++ more))) :
    ∃ s : Proc Unit, c.CalledFor b sel.methodInfo.mParams s ∧
      stub.invoke E b mem data reply = (do
        let (ec, t) ← stub.method sel.interfaceIndex sel.methodIndex s
        invokeOut E b sel ec t reply) := by
  let params := sel.methodInfo.mParams
  have hsixteen : sizeOf32 sel.inHeader.bytes = 16 := by
    rw [sizeOf32, MarshalHeader.length_bytes]
    rfl
  have hleft := hdata.advance
  rw [hsixteen] at hleft
  obtain ⟨hselect, -⟩ := selectMethod_of_rest hdata.rest_eq stub.mInfo
  rw [hsel] at hselect
  obtain ⟨s, hunmsh, hs⟩ := calledFor_of_unmshIn (C := rpcCodec E henv body) hparams
    (fun _ hv => hv.1.carries) hcalls hphase (o := sel.inHeader.outHeader)
    (fun t ht ho => if_neg (hout t ht ho)) hleft
  refine ⟨s.call () sel.inHeader.outHeader, hs, ?_⟩
  rw [invoke, Except.bind_ok hselect]
  dsimp only
  rw [Except.bind_ok hunmsh]
  dsimp only
  rw [if_neg (by simp)]

/-- **What the stub writes** once the method has returned: the code, and the results behind it. -/
theorem invokeOut_spec {c s t : Proc Unit} {sel : Selected} {ec : ECode}
    (ht : c.Answers b .rpc sel.methodInfo.mParams s t ec)
    (hs : c.CalledFor b sel.methodInfo.mParams s)
    (hparams : ∀ p ∈ sel.methodInfo.mParams, p.Carried)
    (hcalls : c.OffersAll b .rpc 0 sel.methodInfo.mParams 0)
    (hout : ∀ p ∈ sel.methodInfo.mParams, p.isOut → sel.inHeader.mOutSize ≠ 0)
    (hroom : (answer E henv sel.methodInfo.mParams t ec).length < 2 ^ 30) :
    ∃ reply, invokeOut E b sel ec t {} = .ok (.returned ec NOERROR, reply) ∧ reply.Ready ∧
      reply.contents = answer E henv sel.methodInfo.mParams t ec := by
  let params := sel.methodInfo.mParams
  obtain ⟨r, hr, hready, hcontents, -⟩ := appends_writeInt32 henv ec {} ready_new (by simp)
  have hr₁ : (writeInt32 E.alloc ec {}).2 = r := by rw [hr]
  have hcode : r.contents = wire32 ec := hcontents
  have houter : ∀ p ∈ params, p.isOut → sel.inHeader.outHeader = some 0 := fun p hp ho =>
    if_neg (hout p hp ho)
  rw [invokeOut]
  dsimp only
  rw [hr₁]
  by_cases hec : failed ec = true
  · -- the code alone; an interface mark asks for a release of the arguments
    have hanswer : answer E henv params t ec = wire32 ec := by
      rw [answer, if_pos hec, List.append_nil]
    have honly : (failed ec && sel.methodInfo.inInterfaceMark)
        = sel.methodInfo.inInterfaceMark := by
      rw [hec, Bool.true_and]
    refine ⟨r, ?_, hready, by rw [hcode, hanswer]⟩
    split
    · next hif =>
      have hmark : sel.methodInfo.inInterfaceMark = true := by
        refine hif.resolve_left fun h => ?_
        rw [hec] at h
        cases h.2
      obtain ⟨s', hrun, hparcel⟩ :=
        mshOut_onlyRelease hparams hcalls hs ht (rpcParcel E) r sel.inHeader.outHeader
      rw [honly, hmark, Except.bind_ok hrun, ← hparcel]
      rfl
    · rfl
  · have hec' : failed ec = false := by simpa using hec
    split
    · have hwrote : rpcStream.Wrote (wire32 ec) r := ⟨hready, hcode⟩
      obtain ⟨s', hrun, hready', hcontents'⟩ := mshOut_of_answers hparams hcalls hs ht
        (complete_rpcOutCodec E henv) hec' houter hwrote (by rwa [answer, if_neg hec] at hroom)
      refine ⟨s'.parcel, ?_, hready', ?_⟩
      · rw [hec']
        exact Except.bind_ok hrun
      · rw [hcontents', answer, if_neg hec]
    · -- without an out buffer there are no results
      next hif =>
      have hnone : ∀ p ∈ params, p.isOut = false := by
        intro p hp
        by_contra ho
        exact hif (.inl ⟨by rw [houter p hp (by simpa using ho)]; rfl, hec'⟩)
      refine ⟨r, rfl, hready, ?_⟩
      rw [hcode, answer, if_neg hec, reply_of_no_out _ hnone, List.append_nil]

variable (stub mem) in
/-- **What is sent back** to a request that calls the method. -/
theorem CObjectStub.serve_spec {c : Proc Unit} (sel : Selected) {inParcel : CRemoteParcel}
    {chunks : List (List UInt8)}
    (hsel : stub.mInfo.select sel.inHeader = .ok (some sel))
    (hparams : ∀ t ∈ sel.methodInfo.mParams, t.Carried)
    (hcalls : c.OffersAll b .rpc 0 sel.methodInfo.mParams 0) (hphase : mem.phase = c.phase)
    (hout : ∀ t ∈ sel.methodInfo.mParams, t.isOut → sel.inHeader.mOutSize ≠ 0)
    (helement : inParcel.element = sel.inHeader.bytes ++ (rpcCodec E henv body).request b
      (c.call {} none) 0 sel.methodInfo.mParams 0)
    (hlt : (Request.invoke false inParcel).body.length + 4 < 2 ^ 30)
    (hchunks : ∃ init last, chunks = init ++ [last] ∧
      (init ++ [last]).flatten = frame (Request.invoke false inParcel).body ∧
      (∀ d ∈ init, 0 < d.length ∧ 4 ∣ d.length) ∧ 0 < last.length) :
    ∃ s, c.CalledFor b sel.methodInfo.mParams s ∧
      ∀ ec t, stub.method sel.interfaceIndex sel.methodIndex s = .ok (ec, t) →
        c.Answers b .rpc sel.methodInfo.mParams s t ec →
        (answer E henv sel.methodInfo.mParams t ec).length < 2 ^ 30 →
        stub.serve E b mem chunks
          = .ok (some (frame (answer E henv sel.methodInfo.mParams t ec))) := by
  obtain ⟨init, last, rfl, hflat, hinit, hlast⟩ := hchunks
  obtain ⟨p, haccept, hcarries⟩ := acceptCallback_paced hinit hlast
    (show 3 * ((Request.invoke false inParcel).body.length + 4) < 4294967295 by omega) henv hflat
  have hholds := holds_of_carries hcarries hlt
  rw [padded_invoke, ← List.append_assoc, helement] at hholds
  simp only [Bool.false_eq_true, if_false, List.nil_append] at hholds
  rw [padded_append (by simp), padded] at hholds
  obtain ⟨q, hq, htransact⟩ := transact_invoke E b stub mem hholds
  obtain ⟨s, hs, hinvoke⟩ := invoke_spec {} hsel hparams hcalls hphase hout hq
  refine ⟨s, hs, fun ec t hrun ht hroom => ?_⟩
  obtain ⟨reply, hreply, hready, hcontents⟩ := invokeOut_spec ht hs hparams hcalls hout hroom
  rw [Except.bind_ok hrun] at hinvoke
  dsimp only at hinvoke
  rw [hreply] at hinvoke
  rw [hinvoke] at htransact
  have hsome : stub.transact E b mem p = .ok (some reply) := htransact
  rw [serve, haccept]
  dsimp only
  rw [Except.bind_ok hsome]
  dsimp only
  rw [Except.bind_ok (sendReply_spec henv hready hcontents hroom)]
  rfl

end

/-! ### The reply -/

section

variable {E E' : RpcEnv} (henv : E.alloc.Succeeds) {henv' : E'.alloc.Succeeds} {b : Build}
  {c s t : Proc Unit} {ec : ECode} {methodInfo : CIMethodInfo}

theorem not_methodHasOutArgs (h : ¬ CInterfaceProxy.methodHasOutArgs methodInfo = true) :
    ∀ p ∈ methodInfo.mParams, p.isOut = false := by
  intro p hp
  by_contra hout
  exact h (List.any_eq_true.mpr ⟨p, hp, by simpa using hout⟩)

include henv

/-- **The results are read** from the reply. -/
theorem unmshOut_answer {q : CRemoteParcel} (hparams : ∀ p ∈ methodInfo.mParams, p.Carried)
    (hcalls : c.Calls b .rpc methodInfo.mParams) (hs : c.CalledFor b methodInfo.mParams s)
    (ht : c.Answers b .rpc methodInfo.mParams s t ec) (hec : failed ec = false)
    (hq : q.Holds ((rpcOutCodec E' henv').reply .rpc (t.call {} none) methodInfo.mParams 4)) :
    ∃ c', proxyProcessUnmshOut b (rpcParcel E) methodInfo.mParams (c.call q none)
        = .ok (NOERROR, c') ∧
      c.Receives (resultArgs b methodInfo.mParams t c) c' ∧
      c'.parcel.mDataPos = c'.parcel.dataSize := by
  rw [reply_env E henv hparams ((ht.stores hec).of_same (t.sameMemory_call _ _)),
    ← List.append_nil (OutCodec.reply _ _ _ _ _)] at hq
  obtain ⟨c', hrun, hleft, hreceives⟩ := unmshOut_of_answers (complete_rpcOutCodec E henv) hparams
    hcalls hs ht hec hq
  exact ⟨c', hrun, hreceives, hleft.pos_eq_dataSize⟩

/-- **The reply is decoded**: to the code of the method, and to its results if it has succeeded. -/
theorem CInterfaceProxy.unmarshalReply_spec {outSize : UInt32} (marshalled : ECode)
    (hparams : ∀ p ∈ methodInfo.mParams, p.Carried) (hcalls : c.Calls b .rpc methodInfo.mParams)
    (hs : c.CalledFor b methodInfo.mParams s) (ht : c.Answers b .rpc methodInfo.mParams s t ec)
    (hroom : (answer E' henv' methodInfo.mParams t ec).length < 2 ^ 30)
    (hout : methodHasOutArgs methodInfo = true → outSize ≠ 0) :
    ∃ c', unmarshalReply E b methodInfo marshalled outSize c
        (answer E' henv' methodInfo.mParams t ec) = .ok ((ec, NOERROR), c') ∧
      if failed ec then c'.heap = c.heap
      else c.Receives (resultArgs b methodInfo.mParams t c) c' ∧
        c'.parcel.mDataPos = c'.parcel.dataSize := by
  have hholds := holds_setData henv hroom
  set outParcel := (setData E.alloc (answer E' henv' methodInfo.mParams t ec) {}).2 with hparcel
  rw [answer] at hholds
  have hread := reads_readInt32 ec marshalled outParcel _ hholds
  have hrest := hholds.advance
  rw [unmarshalReply, ← hparcel]
  dsimp only
  rw [Except.bind_ok hread]
  dsimp only
  by_cases hec : failed ec = true
  · rw [if_pos hec]
    exact ⟨_, rfl, by rw [if_pos hec]; rfl⟩
  rw [if_neg hec] at hrest ⊢
  by_cases hhas : methodHasOutArgs methodInfo = true
  · obtain ⟨c', hrun, harrived⟩ := unmshOut_answer henv hparams hcalls hs ht
      (by simpa using hec) hrest
    refine ⟨c', ?_, by rwa [if_neg hec]⟩
    rw [if_pos ⟨hhas, hout hhas⟩, Except.bind_ok hrun]
    rfl
  · have hnone := not_methodHasOutArgs hhas
    rw [reply_of_no_out _ hnone] at hrest
    refine ⟨_, by rw [if_neg fun h => hhas h.1]; rfl, ?_⟩
    rw [if_neg hec, resultArgs, outArgs_of_no_out hnone]
    exact ⟨⟨List.forall_mem_nil _, List.forall_mem_nil _, rfl, rfl, le_rfl, fun _ _ _ => rfl⟩,
      hrest.pos_eq_dataSize⟩

end

/-! ### The call -/

/-- The request is shorter than a parcel may be. -/
theorem length_invoke_body {inParcel : CRemoteParcel} {header : MarshalHeader} {bs : List UInt8}
    (helement : inParcel.element = header.bytes ++ bs) (hlt : bs.length + 64 < 2 ^ 30) :
    (Request.invoke false inParcel).body.length + 4 < 2 ^ 30 := by
  have hhead := (Request.invoke false inParcel).length_head_flatten
  have hlast : (Request.invoke false inParcel).last.length = 16 + bs.length := by
    rw [Request.last, helement, List.length_append, MarshalHeader.length_bytes]
  rw [Request.body, List.length_append]
  omega

section

variable (E E' : RpcEnv) (henv : E.alloc.Succeeds) (henv' : E'.alloc.Succeeds) (b : Build)
  (rawLen : Word → UInt32) (conn : Connection) (hconn : conn.Steady) (buf : List UInt8)
  (stub : CObjectStub) (mem c : Proc Unit) (i m : ℕ) (info : CIInterfaceInfo)
  (methodInfo : CIMethodInfo) (hprovides : stub.Provides i m info methodInfo)
  (hcalls : c.Calls b .rpc methodInfo.mParams) (hphase : mem.phase = c.phase)
  (hroom : ((rpcCodec E henv fun _ => []).request b (c.call {} none) 0
    methodInfo.mParams 0).length + 64 < 2 ^ 30)
  (hestimate : ∀ r, CInterfaceProxy.bufferSize b rawLen methodInfo c = .ok r → 16 ≤ r.2.inSize)

include hconn hprovides hcalls hphase hroom hestimate

/-- The method is called, and what it answers gets to the caller. -/
theorem remoteCall_of_answers :
    ∃ s, c.CalledFor b methodInfo.mParams s ∧
      ∀ ec t, stub.method i m s = .ok (ec, t) → c.Answers b .rpc methodInfo.mParams s t ec →
        (answer E' henv' methodInfo.mParams t ec).length < 2 ^ 30 →
        ∃ c', CInterfaceProxy.remoteCall E E' b rawLen conn buf stub mem ⟨info, UInt32.ofNat i⟩
            (UInt32.ofNat m) c = .ok (ec, c') ∧
          if failed ec then c'.heap = c.heap
          else c.Receives (resultArgs b methodInfo.mParams t c) c' ∧
            c'.parcel.mDataPos = c'.parcel.dataSize := by
  let params := methodInfo.mParams
  let proxy : CInterfaceProxy := ⟨info, UInt32.ofNat i⟩
  have hindex : proxy.mInfo.mMethods[(UInt32.ofNat m).toNat]? = some methodInfo :=
    hprovides.method_ofNat
  have hparams := hprovides.carried
  -- the request
  obtain ⟨pr, hprepare, hec, helement, hout⟩ := CInterfaceProxy.prepare_spec
    henv (fun _ => []) rawLen hindex hparams hprovides.few hcalls.offers hroom hestimate
  have hbody := length_invoke_body helement hroom
  have hsend := Request.send_spec henv (Request.invoke false pr.inParcel) (by omega)
  have hne : frame (Request.invoke false pr.inParcel).body ≠ [] := by
    intro h
    have := congrArg List.length h
    rw [frame, List.length_append, length_wire32, List.length_nil] at this
    omega
  -- the stub
  let sel : Selected := ⟨proxy.header (UInt32.ofNat m) pr.inParcel.dataSize pr.outSize, i, m,
    methodInfo⟩
  have hsel : stub.mInfo.select sel.inHeader = .ok (some sel) :=
    (select_header_iff hprovides.interface hprovides.method _ _).mpr
      ⟨hprovides.interface_lt, hprovides.method_lt⟩
  rw [request_env E' henv' (fun _ => []) hparams
    (hcalls.offers.of_same (c.sameMemory_call _ _))] at helement
  obtain ⟨s, hs, hserve⟩ := CObjectStub.serve_spec stub mem sel
    hsel hparams hcalls.offers hphase
    (fun p hp ho => hout (List.any_eq_true.mpr ⟨p, hp, ho⟩)) helement hbody
    (hconn.request _ hne)
  refine ⟨s, hs, fun ec t hrun ht hlt => ?_⟩
  have hserve' := hserve ec t hrun ht hlt
  -- the reply
  have hlt' : (answer E' henv' params t ec).length < 2 ^ 30 := hlt
  have hframe : 4 ≤ (frame (answer E' henv' params t ec)).length := by
    rw [frame, List.length_append, length_wire32]
    omega
  obtain ⟨hflat, hpos, hfirst⟩ := hconn.reply _ hframe
  have hreceive : ∃ d, proxyReceive E.alloc buf (conn.reply (frame (answer E' henv' params t ec)))
      = .ok (.whole [], d) ∧ d.contents = answer E' henv' params t ec := by
    obtain ⟨d, hnew, hd, hempty⟩ := DataBuffer.new_ok henv
    obtain ⟨d', hd', hcontents⟩ := recvReply_spec henv buf _ [] (answer E' henv' params t ec)
      (by rw [hflat, frame, Nat.add_comm, UInt32.ofNat_add]; rfl) hpos hfirst
      (show 3 * ((answer E' henv' params t ec).length + 4) < 4294967295 by omega) hd hempty
    rw [List.append_nil] at hd'
    exact ⟨d', by rw [proxyReceive, Except.bind_ok hnew, hd'], hcontents⟩
  obtain ⟨d, hd, hcontents⟩ := hreceive
  obtain ⟨c', hreply, hresults⟩ := CInterfaceProxy.unmarshalReply_spec (E := E) henv pr.ec hparams
    hcalls hs ht hlt hout
  refine ⟨c', ?_, hresults⟩
  rw [CInterfaceProxy.remoteCall, hindex]
  dsimp only
  rw [Except.bind_ok hprepare]
  dsimp only
  rw [hprovides.waits, Except.bind_ok hsend, Except.bind_ok hserve', Option.elim_some,
    Except.bind_ok hd]
  dsimp only
  rw [if_neg (by simp), hcontents, Except.bind_ok hreply]
  rfl

end

/-! ### A method that returns its argument -/

/-- The method: where there is a slot, the number is stored to it. -/
def echo : Marshal Unit ECode := fun s =>
  match s.stack 1 with
  | .slot o =>
    let v := (s.stack 0).bits s.addr
    .ok (NOERROR, { s with outBuffer := Function.update s.outBuffer o (.num v) })
  | _ => .ok (NOERROR, s)

/-- Its signature. -/
def echoMethod : CIMethodInfo :=
  { mParams := [{ type := .uint32, isIn := true }, { type := .puint32, isOut := true }] }

def echoInterface : CIInterfaceInfo := ⟨[echoMethod], by simp⟩

/-- Its stub. -/
def echoStub : CObjectStub where
  mInfo := ⟨[echoInterface], by simp⟩
  method _ _ := echo
  moduleInfo := none

theorem provides_echoStub : echoStub.Provides 0 0 echoInterface echoMethod where
  interface_lt := by decide
  method_lt := by decide
  interface := rfl
  method := rfl
  waits := rfl
  carried := by simp [echoMethod, Param.Carried, Param.Returned]
  few := by decide

/-- A caller that passes seven and a variable. -/
def echoCaller : Proc Unit where
  parcel := ()
  args := 0
  stack i := if i = 0 then .num 7 else .obj 0
  out := none
  outBuffer _ := .null
  heap := { objs := [.word .null] }
  addr _ := 0
  phase := 0

/-- Everything arrives in one piece. -/
def unsplitConnection : Connection := ⟨fun bytes => [bytes], fun bytes => [bytes]⟩

theorem steady_unsplitConnection : unsplitConnection.Steady where
  request bytes h := ⟨[], bytes, rfl, List.flatten_singleton, List.forall_mem_nil _,
    List.length_pos_iff.mpr h⟩
  reply bytes h := by
    refine ⟨List.flatten_singleton, List.forall_mem_singleton.mpr (by omega), fun c hc => ?_⟩
    cases hc
    exact h

theorem calls_echoCaller (m : Marshaller) : echoCaller.Calls .x86 m echoMethod.mParams where
  offers := ⟨⟨.word 7, rfl, trivial, fun _ _ h => by cases h⟩,
    .inr ⟨0, .word .null, rfl, rfl, .inl rfl⟩, trivial⟩
  distinct := List.nodup_singleton 0

/-- The stub when the method has returned. -/
def Proc.echoed (s : Proc Unit) : Proc Unit :=
  { s with outBuffer := Function.update s.outBuffer 5 (.num 7) }

section

variable {s : Proc Unit} (hs : echoCaller.CalledFor .x86 echoMethod.mParams s)
include hs

theorem echo_eq : echo s = .ok (NOERROR, s.echoed) := by
  have hslot : s.stack 1 = .slot 5 := hs.pointed.2.1 rfl (by decide)
  obtain ⟨v, hv, hsame⟩ := hs.arrived.1 (.word 7) rfl trivial
  have hseven : (s.stack 0).bits s.addr = 7 := by
    cases hv
    exact ArgVal.word.inj hsame
  rw [echo, hslot]
  dsimp only
  rw [hseven]
  rfl

/-- The number is in the slot that the caller asks for. -/
theorem slot_echoed :
    s.echoed.slot { type := .puint32, isOut := true } 4 = some (some (.word 7)) := by
  have htag : s.echoed.outBuffer 4 = .num MSH_NOT_NULL := hs.laid.2.1 (.wanted none) rfl rfl
  rw [Proc.slot, Proc.outAt, htag, Word.bits_num, if_neg MSH_NOT_NULL_ne, if_pos rfl]
  rfl

theorem answers_echoed (m : Marshaller) :
    echoCaller.Answers .x86 m echoMethod.mParams s s.echoed NOERROR where
  stack := rfl
  phase := rfl
  addr := rfl
  objs := List.prefix_rfl
  tags k p o hk hout ho := by
    rcases k with _ | _ | k
    · cases hk
      cases hout
    · cases ho
      rfl
    · cases hk
  stores _ := by
    have hslot := slot_echoed hs
    refine ⟨some (.word 7), hslot, fun w hw => ?_, trivial⟩
    cases hw
    exact ⟨by cases m <;> trivial, fun _ h => by cases h⟩

theorem length_answer_echoed :
    (answer plainEnv Allocator.zeros_succeeds echoMethod.mParams s.echoed NOERROR).length
      < 2 ^ 30 := by
  have hvalue := slot_echoed hs
  have hslot : (s.echoed.call ({} : CRemoteParcel) none).slot { type := .puint32, isOut := true } 4
      = some (some (.word 7)) := hvalue
  change (wire32 NOERROR ++ (rpcOutCodec plainEnv Allocator.zeros_succeeds).reply .rpc
    (s.echoed.call {} none) echoMethod.mParams 4).length < 2 ^ 30
  rw [echoMethod, OutCodec.reply, if_neg (by decide), OutCodec.reply, if_pos rfl, hslot]
  change (wire32 NOERROR ++ (wire32 MSH_NOT_NULL ++ wire32 7 ++ [])).length < 2 ^ 30
  simp

end

end ElastosCar
