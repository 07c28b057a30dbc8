import ElastosCar.Marshal.RoundTrip
import ElastosCar.Proxy.Entry

/-!
# From the proxy to the method

The frame that `ProxyEntry_RPC` builds is read by `AcceptCallback`, and what is in it by
`TransactRunnable::Run`, `OnTransact` and `Invoke`. The command is followed by the header, so
that the method is found, unless

* the method is oneway: the proxy then sends `ONEWAY` between the two, which nothing on the stub
  reads, and `Invoke` finds no magic number;
* an index does not fit into the `Int16` of the header.

`dispatched_iff` says that there is no other reason.
-/

namespace ElastosCar

open CRemoteParcel

/-- The bytes arrive as they were sent: a `recv` of `AcceptCallback` fills its buffer while there
are enough of them. -/
def Unsplit (bytes : List UInt8) (chunks : List (List UInt8)) : Prop :=
  ∃ init last, chunks = init ++ [last] ∧ chunks.flatten = bytes ∧
    (∀ c ∈ init, c.length = 1024) ∧ 0 < last.length ∧ last.length ≤ 1024

/-- A request that arrives in these chunks is an `INVOKE` of the given method, and its arguments
are read from the beginning of `args` on. -/
def Dispatched (E : RpcEnv) (cls : CIClassInfo) (chunks : List (List UInt8)) (sel : Selected)
    (args : List UInt8) : Prop :=
  ∃ p q q', acceptCallback E.alloc ⟨false, true⟩ chunks = .accepted p [] ∧
    (rpcParcel E).readString p = .ok ((NOERROR, some INVOKE), q) ∧
    selectMethod cls q = .ok (some sel, q') ∧ q'.rest = padded args

/-! ### Indices in a header -/

theorem toInt_toInt16_ofNat {n : ℕ} (h : n < 4294967296) :
    (toInt16 (UInt32.ofNat n)).toInt
      = if n % 65536 < 32768 then ((n % 65536 : ℕ) : ℤ) else (n % 65536 : ℕ) - 65536 := by
  have hn : (UInt32.ofNat n).toUInt16.toBitVec.toNat = n % 65536 := by
    rw [UInt16.toNat_toBitVec, UInt32.toNat_toUInt16, UInt32.toNat_ofNat_of_lt' h]
  have hint : (toInt16 (UInt32.ofNat n)).toInt = (UInt32.ofNat n).toUInt16.toBitVec.toInt := rfl
  rw [hint, BitVec.toInt_eq_toNat_cond, hn]
  split <;> split <;> omega

section

variable {cls : CIClassInfo} {i m : ℕ} {info : CIInterfaceInfo} {methodInfo : CIMethodInfo}
  (hi : cls.mInterfaces[i]? = some info) (hm : info.mMethods[m]? = some methodInfo)
include hi hm

/-- **The header selects the method** if and only if the indices fit into it. -/
theorem select_header_iff (payloadSize outSize : UInt32) :
    cls.select (CInterfaceProxy.header ⟨info, UInt32.ofNat i⟩ (UInt32.ofNat m) payloadSize outSize)
        = .ok (some ⟨CInterfaceProxy.header ⟨info, UInt32.ofNat i⟩ (UInt32.ofNat m) payloadSize
            outSize, i, m, methodInfo⟩) ↔
      i < 32768 ∧ m < 32764 := by
  have hi' := (List.getElem?_eq_some_iff.mp hi).1.trans cls.mInterfaceNum_lt
  have hm' := (List.getElem?_eq_some_iff.mp hm).1.trans info.mMethodNumMinus4_lt
  set h := CInterfaceProxy.header ⟨info, UInt32.ofNat i⟩ (UInt32.ofNat m) payloadSize outSize
  have hmi : h.mInterfaceIndex.toInt = if i < 32768 then (i : ℤ) else i - 65536 := by
    change (toInt16 (UInt32.ofNat i)).toInt = _
    rw [toInt_toInt16_ofNat (by omega), Nat.mod_eq_of_lt hi']
  have hmm : h.mMethodIndex.toInt = if m < 32764 then (m + 4 : ℤ) else m + 4 - 65536 := by
    have hsum : UInt32.ofNat m + 4 = UInt32.ofNat (m + 4) := by
      rw [UInt32.ofNat_add]
      rfl
    change (toInt16 (UInt32.ofNat m + 4)).toInt = _
    rw [hsum, toInt_toInt16_ofNat (by omega)]
    split_ifs <;> omega
  have hmagic : ¬ h.mMagic ≠ MARSHAL_MAGIC := not_not.mpr rfl
  rw [CIClassInfo.select, if_neg hmagic]
  by_cases hfit : m < 32764
  · rw [if_pos hfit] at hmm
    rw [if_pos (by omega), CIClassInfo.interfaceAt]
    by_cases hfit' : i < 32768
    · -- both indices are what they were
      rw [if_pos hfit'] at hmi
      have hindex : h.mInterfaceIndex.toInt.toNat = i := by omega
      have hmethod : h.mMethodIndex.toInt.toNat - 4 = m := by omega
      rw [if_pos (by omega), hindex, hi]
      simp only [hmethod, hm, Option.map_some, hfit, hfit', and_self]
    · -- the interface index is negative
      rw [if_neg hfit'] at hmi
      rw [if_neg (by omega)]
      simp [hfit']
  · -- the method index is negative, or one of `IInterface`
    rw [if_neg hfit] at hmm
    rw [if_neg (by omega)]
    simp [hfit]

end

/-! ### The request -/

/-- What a request is read from. -/
theorem rest_of_carries {p : CRemoteParcel} {body : List UInt8} (h : FramingState.Carries p body) :
    p.rest = padded body := by
  rw [← h.2, rest, h.1]
  rfl

/-- An unsplit frame is received. -/
theorem Unsplit.accepted {env : Allocator} (henv : env.Succeeds) {body : List UInt8}
    {chunks : List (List UInt8)} (h : Unsplit (frame body) chunks)
    (hlt : 3 * (body.length + 4) < 4294967295) :
    ∃ p, acceptCallback env ⟨false, true⟩ chunks = .accepted p [] ∧ p.rest = padded body := by
  obtain ⟨init, last, rfl, hflat, hinit, hpos, -⟩ := h
  obtain ⟨p, hp, hcarries⟩ := acceptCallback_paced
    (fun c hc => by rw [hinit c hc]; exact ⟨by decide, by decide⟩) hpos hlt henv hflat
  exact ⟨p, hp, rest_of_carries hcarries⟩

theorem padded_invoke (oneway : Bool) (inParcel : CRemoteParcel) :
    padded (Request.invoke oneway inParcel).body
      = wire32 MSH_NOT_NULL ++ (padded INVOKE.terminated ++
          padded ((if oneway then wire32 MSH_NOT_NULL ++ padded ONEWAY.terminated else [])
            ++ inParcel.element)) := by
  have hhead : (Request.invoke oneway inParcel).body
      = (wire32 MSH_NOT_NULL ++ padded INVOKE.terminated)
        ++ ((if oneway then wire32 MSH_NOT_NULL ++ padded ONEWAY.terminated else [])
          ++ inParcel.element) := by
    have hinvoke : padded INVOKE.terminated = INVOKE.terminated ++ [0] := by decide
    have honeway : padded ONEWAY.terminated = ONEWAY.terminated ++ [0] := by decide
    cases oneway <;>
      simp [Request.body, Request.head, Request.last, Request.tagged, hinvoke, honeway]
  rw [hhead, padded_append (by decide), List.append_assoc]

/-- A oneway request has no header where one is looked for. -/
theorem select_oneway (cls : CIClassInfo) {element : List UInt8} (hlen : 16 ≤ element.length) :
    ∃ (h : MarshalHeader) (bs : List UInt8),
      padded (wire32 MSH_NOT_NULL ++ padded ONEWAY.terminated ++ element) = h.bytes ++ bs ∧
        cls.select h = .ok none := by
  have honeway : (wire32 MSH_NOT_NULL ++ padded ONEWAY.terminated).length = 12 := by decide
  set start := (wire32 MSH_NOT_NULL ++ padded ONEWAY.terminated) ++ element.take 4
  have hstart : start.length = 16 := by
    rw [List.length_append, honeway, List.length_take]
    omega
  refine ⟨.ofBytes start, padded (element.drop 4), ?_, ?_⟩
  · have hsplit : wire32 MSH_NOT_NULL ++ padded ONEWAY.terminated ++ element
        = start ++ element.drop 4 := by
      rw [List.append_assoc _ (element.take 4), List.take_append_drop]
    rw [hsplit, padded_append (by rw [hstart]; decide), MarshalHeader.bytes_ofBytes hstart]
  · have hmagic : (MarshalHeader.ofBytes start).mMagic ≠ MARSHAL_MAGIC := by
      change wordOf (start.take 4) ≠ MARSHAL_MAGIC
      rw [List.take_append_of_le_length (by rw [honeway]; decide)]
      decide
    rw [CIClassInfo.select, if_pos hmagic]

/-- **Dispatch.** A request is dispatched as the proxy meant it if and only if the method is not
oneway and the indices fit into the header. -/
theorem dispatched_iff (E E' : RpcEnv) (halloc : E.alloc.Succeeds) (hitfs : Appending E.itfs)
    (halloc' : E'.alloc.Succeeds) (b : Build) (rawLen : Word → UInt32) (cls : CIClassInfo)
    (i m : ℕ) (info : CIInterfaceInfo) (methodInfo : CIMethodInfo)
    (hi : cls.mInterfaces[i]? = some info) (hm : info.mMethods[m]? = some methodInfo)
    (s : Proc Unit) (pr : CInterfaceProxy.Prepared)
    (hprepare : CInterfaceProxy.prepare E b rawLen ⟨info, UInt32.ofNat i⟩ (UInt32.ofNat m) s
      = .ok (.ok pr))
    (env : Allocator) (bytes : List UInt8)
    (hsend : (Request.invoke methodInfo.oneway pr.inParcel).send env = .ok bytes)
    (chunks : List (List UInt8)) (hchunks : Unsplit bytes chunks) :
    Dispatched E' cls chunks
        ⟨CInterfaceProxy.header ⟨info, UInt32.ofNat i⟩ (UInt32.ofNat m) pr.inParcel.dataSize pr.outSize,
          i, m, methodInfo⟩ (pr.inParcel.element.drop 16) ↔
      methodInfo.oneway = false ∧ i < 32768 ∧ m < 32764 := by
  obtain ⟨rfl, hlt⟩ := Request.send_eq hsend
  obtain ⟨args, helement⟩ := CInterfaceProxy.element_prepare halloc hitfs hprepare
  obtain ⟨p, haccept, hrest⟩ := hchunks.accepted halloc' hlt
  rw [padded_invoke] at hrest
  obtain ⟨q, hread, hq, -⟩ := readString_of_rest hrest (E'.junk p).word
  have hargs : pr.inParcel.element.drop 16 = args := by
    rw [helement, List.drop_left' (MarshalHeader.length_bytes _)]
  -- what is decided is what `Invoke` finds behind the command
  have hiff (sel : Selected) (bs : List UInt8) : Dispatched E' cls chunks sel bs ↔
      ∃ q', selectMethod cls q = .ok (some sel, q') ∧ q'.rest = padded bs := by
    constructor
    · rintro ⟨p', q₁, q', hp', hq₁, hsel, hbs⟩
      rw [haccept] at hp'
      cases hp'
      rw [show (rpcParcel E').readString p = .ok ((NOERROR, some INVOKE), q) from hread] at hq₁
      cases hq₁
      exact ⟨q', hsel, hbs⟩
    · rintro ⟨q', hsel, hbs⟩
      exact ⟨p, q, q', haccept, hread, hsel, hbs⟩
  rw [hiff, hargs]
  cases honeway : methodInfo.oneway with
  | true =>
    rw [honeway, if_pos rfl] at hq
    have hlen : 16 ≤ pr.inParcel.element.length := by
      rw [helement, List.length_append, MarshalHeader.length_bytes]
      omega
    obtain ⟨h, bs, hbs, hselect⟩ := select_oneway cls hlen
    rw [hbs] at hq
    rw [(selectMethod_of_rest hq cls).1, hselect]
    simp [Except.map]
  | false =>
    rw [honeway] at hq
    simp only [Bool.false_eq_true, if_false, List.nil_append] at hq
    rw [helement, padded_append (by simp)] at hq
    obtain ⟨hsel, hrest'⟩ := selectMethod_of_rest hq cls
    rw [hsel, ← select_header_iff hi hm pr.inParcel.dataSize pr.outSize]
    constructor
    · rintro ⟨q', hmap, -⟩
      refine ⟨rfl, ?_⟩
      cases hs : cls.select _ with
      | error f =>
        rw [hs] at hmap
        cases hmap
      | ok r =>
        rw [hs] at hmap
        cases hmap
        rfl
    · rintro ⟨-, hs⟩
      rw [hs]
      exact ⟨q.advance 16, rfl, hrest'⟩

/-! ### A method that takes a number -/

/-- The method. -/
def numberMethod (oneway : Bool) : CIMethodInfo :=
  { mParams := [{ type := .uint32, isIn := true }], oneway := oneway }

/-- Its interface. -/
def numberInterface (oneway : Bool) : CIInterfaceInfo := ⟨[numberMethod oneway], by simp⟩

/-- The class with this interface only. -/
def numberClass (oneway : Bool) : CIClassInfo := ⟨[numberInterface oneway], by simp⟩

/-- A caller that passes seven. -/
def numberCaller : Proc Unit where
  parcel := ()
  args := 0
  stack _ := .num 7
  out := none
  outBuffer _ := .null
  heap := {}
  addr _ := 0
  phase := 0

/-- What the proxy prepares. -/
def numberPrepared (oneway : Bool) : CInterfaceProxy.Prepared :=
  match CInterfaceProxy.prepare plainEnv .x86 (fun _ => 0) ⟨numberInterface oneway, UInt32.ofNat 0⟩
    (UInt32.ofNat 0) numberCaller with
  | .ok (.ok pr) => pr
  | _ => ⟨NOERROR, {}, 0⟩

theorem prepare_number (oneway : Bool) :
    CInterfaceProxy.prepare plainEnv .x86 (fun _ => 0) ⟨numberInterface oneway, UInt32.ofNat 0⟩
      (UInt32.ofNat 0) numberCaller = .ok (.ok (numberPrepared oneway)) := rfl

/-- The bytes that are sent. -/
def numberBytes (oneway : Bool) : List UInt8 :=
  match (Request.invoke oneway (numberPrepared oneway).inParcel).send .zeros with
  | .ok bytes => bytes
  | .error _ => []

theorem send_number (oneway : Bool) :
    (Request.invoke oneway (numberPrepared oneway).inParcel).send .zeros
      = .ok (numberBytes oneway) := by
  cases oneway <;> rfl

theorem length_numberBytes (oneway : Bool) :
    (numberBytes oneway).length = if oneway then 48 else 36 := by
  cases oneway <;> rfl

theorem unsplit_numberBytes (oneway : Bool) : Unsplit (numberBytes oneway) [numberBytes oneway] := by
  have hlen := length_numberBytes oneway
  refine ⟨[], numberBytes oneway, rfl, List.flatten_singleton, by simp, ?_, ?_⟩
  · cases oneway <;> simp [hlen]
  · cases oneway <;> simp [hlen]

/-- The method that the proxy means. -/
def numberSelected (oneway : Bool) : Selected :=
  ⟨CInterfaceProxy.header ⟨numberInterface oneway, UInt32.ofNat 0⟩ (UInt32.ofNat 0)
    (numberPrepared oneway).inParcel.dataSize (numberPrepared oneway).outSize, 0, 0,
    numberMethod oneway⟩

/-- What the stub takes the request for. -/
def selectedOf (E : RpcEnv) (cls : CIClassInfo) (chunks : List (List UInt8)) : Option Selected :=
  match acceptCallback E.alloc ⟨false, true⟩ chunks with
  | .accepted p _ =>
    match (rpcParcel E).readString p with
    | .ok (_, q) =>
      match selectMethod cls q with
      | .ok (sel, _) => sel
      | .error _ => none
    | .error _ => none
  | .removed | .spurious => none

theorem Dispatched.selectedOf_eq {E : RpcEnv} {cls : CIClassInfo} {chunks : List (List UInt8)}
    {sel : Selected} {args : List UInt8} (h : Dispatched E cls chunks sel args) :
    selectedOf E cls chunks = some sel := by
  obtain ⟨p, q, q', hp, hq, hsel, -⟩ := h
  simp only [selectedOf, hp, hq, hsel]

/-- A oneway request is not dispatched. -/
theorem not_dispatched_oneway :
    CInterfaceProxy.prepare plainEnv .x86 (fun _ => 0) ⟨numberInterface true, UInt32.ofNat 0⟩
        (UInt32.ofNat 0) numberCaller = .ok (.ok (numberPrepared true)) ∧
      (Request.invoke (numberMethod true).oneway (numberPrepared true).inParcel).send .zeros
        = .ok (numberBytes true) ∧
      Unsplit (numberBytes true) [numberBytes true] ∧
      ¬ Dispatched plainEnv (numberClass true) [numberBytes true] (numberSelected true)
        ((numberPrepared true).inParcel.element.drop 16) := by
  refine ⟨prepare_number true, send_number true, unsplit_numberBytes true, fun h => ?_⟩
  have hnone : selectedOf plainEnv (numberClass true) [numberBytes true] = none := rfl
  rw [h.selectedOf_eq] at hnone
  cases hnone

theorem dispatched_iff_number :
    Dispatched plainEnv (numberClass false) [numberBytes false] (numberSelected false)
      ((numberPrepared false).inParcel.element.drop 16) :=
  (dispatched_iff plainEnv plainEnv Allocator.zeros_succeeds (fun _ p => .refl p)
    Allocator.zeros_succeeds .x86 (fun _ => 0) (numberClass false) 0 0 (numberInterface false)
    (numberMethod false) rfl rfl numberCaller (numberPrepared false) (prepare_number false) .zeros
    (numberBytes false) (send_number false) [numberBytes false] (unsplit_numberBytes false)).mpr
    ⟨rfl, by decide, by decide⟩

end ElastosCar
