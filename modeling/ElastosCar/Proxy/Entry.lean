import ElastosCar.Stub.Framing
import ElastosCar.Stub.Invoke

/-!
# Calling a method

`CInterfaceProxy::ProxyEntry_RPC` of `linux_rpc/proxy.cpp`, which every method of a proxy ends up
in: the sizes are estimated, the arguments are marshalled to a parcel behind a `MarshalHeader`,
the parcel is sent as an `INVOKE` request, and the reply is decoded.

* `prepare` is the function up to the request, and `decodeReply` from the receive loop on.
* The header is stored field by field once the arguments are written. It is at the beginning of
  the data because the writes behind it only extend the parcel.
-/

namespace ElastosCar

open CRemoteParcel

structure CInterfaceProxy where
  mInfo : CIInterfaceInfo
  mIndex : UInt32

/-- The conversion of a `UInt32` to an `Int16`. -/
def toInt16 (v : UInt32) : Int16 := v.toUInt16.toInt16

namespace CInterfaceProxy

/-- `BufferSize`. -/
def bufferSize (b : Build) (rawLen : Word → UInt32) (methodInfo : CIMethodInfo) (s : Proc Unit) :
    Except Fault (ECode × Marshal.Sizes) := do
  let (ec, t) ← proxyProcessMshBufferSize .rpc b rawLen methodInfo.mParams (s.call {} none)
  let sizes := t.parcel
  let outSize := if sizes.outSize ≠ 0 then sizes.outSize + 16 else sizes.outSize
  let inSize := if failed ec then sizes.inSize else sizes.inSize + 16
  pure (ec, ⟨inSize, outSize⟩)

/-- What `MarshalIn` stores of the header. -/
def headerStart (proxy : CInterfaceProxy) (methodIndex : UInt32) : List UInt8 :=
  wordBytes MARSHAL_MAGIC ++ shortBytes (toInt16 proxy.mIndex)
    ++ shortBytes (toInt16 (methodIndex + 4))

/-- `MarshalIn`. -/
def marshalIn (E : RpcEnv) (b : Build) (proxy : CInterfaceProxy) (methodIndex : UInt32)
    (methodInfo : CIMethodInfo) : Marshal CRemoteParcel ECode := do
  let ec ← proxyProcessMshIn .rpc b (rpcParcel E) methodInfo.mParams
  if failed ec then pure ec
  else
    let s ← get
    carAssert s.parcel.mData.isSome
    set { s with parcel := s.parcel.memcpy 0 (proxy.headerStart methodIndex) }
    pure ec

/-- What is there when the request is put together. -/
structure Prepared where
  ec : ECode
  inParcel : CRemoteParcel
  outSize : UInt32

/-- `new CRemoteParcel()`: the header is reserved. -/
def newParcel (env : Allocator) : CRemoteParcel := (writeInplace env 16 {}).2

/-- `ProxyEntry_RPC` up to the request; a code where it returns before. The connection is left
out. -/
def prepare (E : RpcEnv) (b : Build) (rawLen : Word → UInt32) (proxy : CInterfaceProxy)
    (methodIndex : UInt32) (s : Proc Unit) : Except Fault (Except ECode Prepared) := do
  match proxy.mInfo.mMethods[methodIndex.toNat]? with
  | none => .error .outOfBounds
  | some methodInfo =>
    let (ec, sizes) ← bufferSize b rawLen methodInfo s
    if failed ec then pure (.error ec)
    else if sizes.inSize < 16 then .error .assertion
    else
      let (ec, t) ← marshalIn E b proxy methodIndex methodInfo (s.call (newParcel E.alloc) none)
      if failed ec then pure (.error ec)
      else
        let inParcel := t.parcel
        let payloadSize := inParcel.dataSize
        let inParcel := inParcel.memcpy 8 (wordBytes payloadSize ++ wordBytes sizes.outSize)
        pure (.ok ⟨ec, inParcel, sizes.outSize⟩)

/-- `MethodHasOutArgs`. -/
def methodHasOutArgs (methodInfo : CIMethodInfo) : Bool := methodInfo.mParams.any (·.isOut)

/-- `ProxyEntry_RPC` behind the receive loop, for a method that is not oneway: the code that the
caller gets, and the one that `UnmarshalOut`, if it is called, returns. Before, `ec` is what
`MarshalIn` returned. -/
def decodeReply (E : RpcEnv) (b : Build) (methodInfo : CIMethodInfo) (ec : ECode)
    (outSize : UInt32) (s : Proc Unit) (replyBuf : List UInt8) : Except Fault (ECode × ECode) := do
  let outParcel := (setData E.alloc replyBuf {}).2
  let ((_, ec), outParcel) ← readInt32 ec outParcel
  if failed ec then pure (ec, NOERROR)
  else if methodHasOutArgs methodInfo ∧ outSize ≠ 0 then
    let (orgec, _) ← proxyProcessUnmshOut b (rpcParcel E) methodInfo.mParams (s.call outParcel none)
    pure (if failed orgec then orgec else ec, orgec)
  else pure (ec, NOERROR)

/-- The header of the request. -/
def header (proxy : CInterfaceProxy) (methodIndex payloadSize outSize : UInt32) : MarshalHeader :=
  ⟨MARSHAL_MAGIC, toInt16 proxy.mIndex, toInt16 (methodIndex + 4), payloadSize, outSize⟩

theorem bytes_header (proxy : CInterfaceProxy) (methodIndex payloadSize outSize : UInt32) :
    (proxy.header methodIndex payloadSize outSize).bytes
      = proxy.headerStart methodIndex ++ (wordBytes payloadSize ++ wordBytes outSize) := by
  simp only [header, MarshalHeader.bytes, headerStart, List.append_assoc]

/-! ### The parcel of a request -/

/-- `new CRemoteParcel()`: the block is allocated, and the header is not stored yet. -/
theorem exists_newParcel_eq {env : Allocator} (henv : env.Succeeds) :
    ∃ fresh, newParcel env = (writeInplaceAt 16 16
      { mData := some fresh, mDataCapacity := 24, requests := 1 }).2 := by
  obtain ⟨fresh, hfresh⟩ := Option.isSome_iff_exists.mp (henv 0 24)
  have hgrow : growData env 16 {}
      = (NOERROR, { mData := some fresh, mDataCapacity := 24, requests := 1 }) := by
    rw [growData, if_neg (by decide)]
    change continueWrite env 24 {} = _
    simp only [continueWrite, UInt32.reduceToNat, hfresh, Nat.zero_add]
  have hpad : padSize 16 = 16 := by decide
  refine ⟨fresh, ?_⟩
  rw [newParcel, writeInplace]
  simp only [hpad]
  rw [if_neg (by decide), if_neg (by decide), hgrow]
  rfl

/-- `new CRemoteParcel()` has room for the header. -/
theorem newParcel_eq {env : Allocator} (henv : env.Succeeds) :
    (newParcel env).mData.isSome ∧ (newParcel env).mDataSize = 16 := by
  obtain ⟨fresh, hnew⟩ := exists_newParcel_eq henv
  rw [hnew]
  exact ⟨rfl, rfl⟩

/-- Two stores that fill the first sixteen bytes. -/
theorem load_memcpy_memcpy {p : CRemoteParcel} (hp : p.mData.isSome) {as bs : List UInt8}
    (has : as.length = 8) (hbs : bs.length = 8) :
    load ((p.memcpy 0 as).memcpy 8 bs).block 0 16 = as ++ bs := by
  have hp' : (p.memcpy 0 as).mData.isSome := by simpa [memcpy] using hp
  rw [block_memcpy hp', block_memcpy hp, load_append _ 0 8 8,
    load_store_of_disjoint _ (.inl (by omega))]
  congr 1
  · rw [← has]
    exact load_store_self _ _ _
  · rw [← hbs, Nat.zero_add]
    exact load_store_self _ _ _

section

variable {E : RpcEnv} (halloc : E.alloc.Succeeds) (hitfs : Appending E.itfs)
include halloc hitfs

/-- The header is stored in the data. -/
theorem marshalIn_eq {b : Build} {proxy : CInterfaceProxy} {methodIndex : UInt32}
    {methodInfo : CIMethodInfo} {s t : Proc CRemoteParcel} {ec : ECode}
    (hs : s.parcel = newParcel E.alloc) (hec : failed ec = false)
    (h : proxy.marshalIn E b methodIndex methodInfo s = .ok (ec, t)) :
    ∃ p : CRemoteParcel, p.mData.isSome ∧ 16 ≤ p.mDataSize.toNat ∧
      t.parcel = p.memcpy 0 (proxy.headerStart methodIndex) := by
  obtain ⟨hdata, hsize⟩ := newParcel_eq halloc
  obtain ⟨ec', u, hu, h⟩ := Run.bind_eq_ok h
  have hext : Extends 8 s.parcel u.parcel :=
    respects_proxyProcessMshIn (writeClosed_extends E.alloc hitfs).respects .rpc b
      methodInfo.mParams s ec' u hu
  rw [hs] at hext
  split at h
  · next hfailed =>
    cases h
    rw [hec] at hfailed
    cases hfailed
  · rw [Run.get_bind, carAssert, if_pos (hext.data hdata)] at h
    cases h
    have hle := hext.size hdata
    rw [hsize] at hle
    exact ⟨u.parcel, hext.data hdata, hle, rfl⟩

/-- **What is sent begins with the header.** -/
theorem element_prepare {b : Build} {rawLen : Word → UInt32} {proxy : CInterfaceProxy}
    {methodIndex : UInt32} {s : Proc Unit} {pr : Prepared}
    (h : proxy.prepare E b rawLen methodIndex s = .ok (.ok pr)) :
    ∃ args, pr.inParcel.element
      = (proxy.header methodIndex pr.inParcel.dataSize pr.outSize).bytes ++ args := by
  rw [prepare] at h
  split at h
  · cases h
  next methodInfo hinfo =>
  obtain ⟨⟨ec, sizes⟩, -, h⟩ := Except.bind_eq_ok h
  dsimp only at h
  split at h
  · cases h
  split at h
  · cases h
  obtain ⟨⟨ec', t⟩, hmarshal, h⟩ := Except.bind_eq_ok h
  dsimp only at h
  split at h
  · cases h
  next hec =>
  obtain ⟨p, hp, hsize, ht⟩ := marshalIn_eq halloc hitfs rfl (Bool.eq_false_iff.mpr hec) hmarshal
  cases h
  dsimp only
  set tail := wordBytes t.parcel.dataSize ++ wordBytes sizes.outSize
  have hlen : 16 ≤ (t.parcel.memcpy 8 tail).dataSize.toNat := by
    have hle : p.mDataSize.toNat ≤ t.parcel.dataSize.toNat := by
      rw [ht, dataSize]
      split
      · exact le_rfl
      · next hgt => exact UInt32.le_iff_toNat_le.mp (UInt32.not_lt.mp hgt)
    exact hsize.trans hle
  refine ⟨(t.parcel.memcpy 8 tail).element.drop 16, ?_⟩
  have htake : (t.parcel.memcpy 8 tail).element.take 16 = proxy.headerStart methodIndex ++ tail := by
    have hload := load_drop_take (t.parcel.memcpy 8 tail).block 0
      (t.parcel.memcpy 8 tail).dataSize.toNat 0 16 (by rwa [Nat.zero_add])
    rw [List.drop_zero, Nat.zero_add] at hload
    rw [element, hload, ht]
    exact load_memcpy_memcpy hp (by simp [headerStart]) (by simp [tail])
  rw [bytes_header]
  change _ = proxy.headerStart methodIndex ++ tail ++ _
  rw [← htake, List.take_append_drop]

end

end CInterfaceProxy

end ElastosCar
