import ElastosCar.Wire.Request

/-!
# Receiving a reply

`TransactRunnable::Run` of `linux_rpc/stub.cpp` sends a reply as a frame, and two functions of
`linux_rpc/proxy.cpp`, `ProxyEntry_RPC` and `GetRemoteClassInfo`, read it back with the same
loop: into a new `DataBuffer`, and into the one that held the request.

A chunk is appended as it is, so a reply survives every split of its frame. The frame is itself
built in a `DataBuffer`, which bounds its length, and below that bound no growth on the way back
can fail.
-/

namespace ElastosCar

/-! ### Sending -/

@[simp]
theorem size32_wire32 (v : UInt32) : size32 (wire32 v) = 4 := by
  rw [size32, length_wire32]
  rfl

/-- A payload behind its total length, as `TransactRunnable::Run` and `GetRemoteClassInfo`
build it. -/
def framed (env : Allocator) (payload : List UInt8) : Run DataBuffer Fault Unit := do
  let totalSize := 4 + UInt32.ofNat payload.length
  DataBuffer.append env (wire32 totalSize) 4
  DataBuffer.append env payload (size32 payload)
  let d ← get
  carAssert (totalSize.toInt32 = d.mSize)

/-- The part of `TransactRunnable::Run` that sends the reply. -/
def sendReply (env : Allocator) (reply : CRemoteParcel) : Except Fault (List UInt8) := do
  let d ← DataBuffer.new env
  let (_, d) ← framed env reply.element d
  pure d.contents

/-! ### Receiving -/

/-- What a receive loop ends with. -/
inductive Received
  /-- A `recv` returned no data. -/
  | broken
  /-- The chunks that are left have not been read. -/
  | whole (rest : List (List UInt8))
deriving DecidableEq, Repr

/-- The loop of `ProxyEntry_RPC` and `GetRemoteClassInfo`. The argument is `totalSize` after the
subtraction in the loop condition. -/
def recvLoop (env : Allocator) :
    (totalSize : Int32) → (socket : List (List UInt8)) → Run DataBuffer Fault Received
  | totalSize, socket =>
    if totalSize > 0 then
      match socket with
      | [] => pure .broken
      | chunk :: socket => do
        DataBuffer.append env chunk (size32 chunk)
        recvLoop env (totalSize - size32 chunk) socket
    else pure (.whole socket)
termination_by structural _ socket => socket

/-- The first `recv` and the loop. The local buffer of the function is not cleared: `buf` is
what is in it before. -/
def recvReply (env : Allocator) (buf : List UInt8) (socket : List (List UInt8)) :
    Run DataBuffer Fault Received :=
  match socket with
  | [] => pure .broken
  | chunk :: socket => do
    let totalSize := (ntohl (wordOf ((chunk ++ buf.drop chunk.length).take 4))).toInt32
    DataBuffer.append env (chunk.drop 4) (size32 chunk - 4)
    recvLoop env (totalSize - size32 chunk) socket

/-- The receive loop of `ProxyEntry_RPC`. -/
def proxyReceive (env : Allocator) (buf : List UInt8) (socket : List (List UInt8)) :
    Except Fault (Received × DataBuffer) := do
  let replyBuf ← DataBuffer.new env
  recvReply env buf socket replyBuf

/-- `"GET_CLASS_INFO"`. -/
def GET_CLASS_INFO : CString :=
  ⟨[0x47, 0x45, 0x54, 0x5F, 0x43, 0x4C, 0x41, 0x53, 0x53, 0x5F, 0x49, 0x4E, 0x46, 0x4F],
    by decide⟩

/-- `GetRemoteClassInfo` from the request to the end of its receive loop. -/
def classInfoReceive (env : Allocator) (buf : List UInt8) (socket : List (List UInt8)) :
    Except Fault (Received × DataBuffer) := do
  let data := (CRemoteParcel.writeString env (some GET_CLASS_INFO) {}).2
  let dataBuf ← DataBuffer.new env
  let (_, dataBuf) ← framed env data.element dataBuf
  recvReply env buf socket dataBuf.reset

/-! ### The loop -/

/-- A first chunk without the whole length field makes the copy of what is behind it overrun. -/
theorem not_append_short {env : Allocator} {c : List UInt8} {d d' : DataBuffer}
    (hshort : c.length < 4) :
    DataBuffer.append env (c.drop 4) (size32 c - 4) d ≠ .ok ((), d') := by
  intro h
  have hn : 0 < (size32 c - 4).toUInt32.toNat := by
    rw [size32]
    generalize c.length = n at hshort
    interval_cases n <;> decide
  obtain ⟨⟨⟩, g, -, hm⟩ := Run.bind_eq_ok h
  rw [DataBuffer.memcpy] at hm
  split at hm
  · next hfits =>
    rw [List.drop_eq_nil_of_le hshort.le, List.length_nil] at hfits
    omega
  · cases hm

section

variable {env : Allocator} (henv : env.Succeeds)
include henv

/-- With the right length the loop reads these chunks and no others, and appends them. -/
theorem recvLoop_spec (chunks more : List (List UInt8)) (hne : ∀ c ∈ chunks, 0 < c.length)
    {d : DataBuffer} (hd : d.Valid)
    (hlt : 3 * (d.size + chunks.flatten.length) < 4294967295) :
    ∃ d', recvLoop env (size32 chunks.flatten) (chunks ++ more) d = .ok (.whole more, d') ∧
      d'.contents = d.contents ++ chunks.flatten := by
  induction chunks generalizing d with
  | nil =>
    have h : ¬ size32 [] > 0 := by decide
    refine ⟨d, ?_, (List.append_nil _).symm⟩
    cases more <;> simp only [recvLoop, List.flatten_nil, List.nil_append, if_neg h] <;> rfl
  | cons c cs ih =>
    have hc := hne c List.mem_cons_self
    rw [List.flatten_cons, List.length_append] at hlt
    obtain ⟨e, he, hev, hecontents⟩ := DataBuffer.append_spec henv hd c (by omega)
    have hesize : e.size = d.size + c.length := by
      rw [← DataBuffer.length_contents, hecontents, List.length_append, DataBuffer.length_contents]
    obtain ⟨d', hd', hcontents⟩ := ih (fun x hx => hne x (List.mem_cons_of_mem _ hx)) hev
      (by omega)
    have hpos : size32 (c :: cs).flatten > 0 := by
      rw [size32, List.flatten_cons, List.length_append, toInt32_pos_iff (by omega)]
      omega
    have hrest : size32 (c :: cs).flatten - size32 c = size32 cs.flatten := by
      rw [size32, size32, List.flatten_cons, List.length_append,
        toInt32_ofNat_sub (Nat.le_add_right _ _), Nat.add_sub_cancel_left]
    refine ⟨d', ?_, ?_⟩
    · rw [List.cons_append, recvLoop, if_pos hpos]
      simp only [hrest]
      rw [Run.bind_ok he]
      exact hd'
    · rw [hcontents, hecontents, List.append_assoc, List.flatten_cons]

/-- **A frame is received exactly**: from an empty buffer, the chunks of a frame leave its
payload. -/
theorem recvReply_spec (buf : List UInt8) (chunks more : List (List UInt8)) (payload : List UInt8)
    (hsplit : chunks.flatten = wire32 (4 + UInt32.ofNat payload.length) ++ payload)
    (hne : ∀ c ∈ chunks, 0 < c.length) (hfirst : ∀ c ∈ chunks.head?, 4 ≤ c.length)
    (hlt : 3 * (payload.length + 4) < 4294967295)
    {d : DataBuffer} (hd : d.Valid) (hempty : d.contents = []) :
    ∃ d', recvReply env buf (chunks ++ more) d = .ok (.whole more, d') ∧
      d'.contents = payload := by
  cases chunks with
  | nil =>
    have h := congrArg List.length hsplit
    simp only [List.flatten_nil, List.length_nil, List.length_append, length_wire32] at h
    omega
  | cons c cs =>
    have hc4 : 4 ≤ c.length := hfirst c rfl
    rw [List.flatten_cons] at hsplit
    -- the length field is in the first chunk
    have htake : c.take 4 = wire32 (4 + UInt32.ofNat payload.length) := by
      have h := congrArg (List.take 4) hsplit
      rwa [List.take_append_of_le_length hc4,
        List.take_left' (length_wire32 _)] at h
    have hdrop : c.drop 4 ++ cs.flatten = payload := by
      have h := congrArg (List.drop 4) hsplit
      rwa [List.drop_append_of_le_length hc4, List.drop_left' (length_wire32 _)] at h
    have hlen : (c.drop 4).length + cs.flatten.length = payload.length := by
      rw [← List.length_append, hdrop]
    have hdsize : d.size = 0 := by rw [← DataBuffer.length_contents, hempty, List.length_nil]
    rw [List.length_drop] at hlen
    obtain ⟨e, he, hev, hecontents⟩ := DataBuffer.append_spec henv hd (c.drop 4)
      (by rw [List.length_drop]; omega)
    have hesize : e.size = c.length - 4 := by
      rw [← DataBuffer.length_contents, hecontents, hempty, List.nil_append, List.length_drop]
    obtain ⟨d', hd', hcontents⟩ := recvLoop_spec henv cs more
      (fun x hx => hne x (List.mem_cons_of_mem _ hx)) hev (by omega)
    have htotal : ntohl (wordOf ((c ++ buf.drop c.length).take 4))
        = 4 + UInt32.ofNat payload.length := by
      rw [List.take_append_of_le_length hc4, htake, wire32, wordOf_wordBytes, ntohl_htonl]
    have hsize : size32 c - 4 = size32 (c.drop 4) := by
      rw [size32, size32, List.length_drop]
      exact toInt32_ofNat_sub hc4
    have hrest : (4 + UInt32.ofNat payload.length).toInt32 - size32 c = size32 cs.flatten := by
      have h4 : (4 : UInt32) + UInt32.ofNat payload.length = UInt32.ofNat (4 + payload.length) :=
        (UInt32.ofNat_add 4 _).symm
      rw [h4, size32, size32, toInt32_ofNat_sub (by omega)]
      congr 2
      omega
    refine ⟨d', ?_, ?_⟩
    · rw [List.cons_append, recvReply]
      simp only [htotal, hsize, hrest]
      rw [Run.bind_ok he]
      exact hd'
    · rw [hcontents, hecontents, hempty, List.nil_append, hdrop]

/-- A small enough payload is framed. -/
theorem framed_spec (payload : List UInt8) (hlt : 3 * (payload.length + 4) < 4294967295)
    {d : DataBuffer} (hd : d.Valid) (hempty : d.contents = []) :
    ∃ d', framed env payload d = .ok ((), d') := by
  have hdsize : d.size = 0 := by rw [← DataBuffer.length_contents, hempty, List.length_nil]
  have hw := length_wire32 (4 + UInt32.ofNat payload.length)
  obtain ⟨e, he, hev, hecontents⟩ := DataBuffer.append_spec henv hd
    (wire32 (4 + UInt32.ofNat payload.length)) (by omega)
  have hesize : e.size = 4 := by
    rw [← DataBuffer.length_contents, hecontents, hempty, List.nil_append, hw]
  obtain ⟨f, hf, -, hfcontents⟩ := DataBuffer.append_spec henv hev payload (by omega)
  have hfsize : f.size = 4 + payload.length := by
    rw [← DataBuffer.length_contents, hfcontents, List.length_append, DataBuffer.length_contents,
      hesize]
  have hassert : decide ((4 + UInt32.ofNat payload.length).toInt32 = f.mSize) = true := by
    rw [decide_eq_true_eq, DataBuffer.mSize_eq, hfsize, UInt32.ofNat_add]
    rfl
  rw [size32_wire32] at he
  refine ⟨f, ?_⟩
  rw [framed, Run.bind_ok he, Run.bind_ok hf, Run.get_bind, hassert]
  rfl

end

/-! ### The round trip -/

/-- A frame that was sent is the payload behind its length, and its length is bounded. -/
theorem sendReply_eq {env : Allocator} {reply : CRemoteParcel} {frame : List UInt8}
    (h : sendReply env reply = .ok frame) :
    frame = wire32 (4 + UInt32.ofNat reply.element.length) ++ reply.element ∧
      3 * (reply.element.length + 4) < 4294967295 := by
  have hlen : reply.element.length < 4294967296 := by
    rw [CRemoteParcel.length_element]
    exact UInt32.toNat_lt _
  rw [sendReply] at h
  obtain ⟨d, hd, h⟩ := Except.bind_eq_ok h
  obtain ⟨⟨⟨⟩, f⟩, hf, h⟩ := Except.bind_eq_ok h
  cases h
  obtain ⟨hvalid, hempty, hzero, hcap⟩ := DataBuffer.new_eq hd
  obtain ⟨⟨⟩, e, he, hf⟩ := Run.bind_eq_ok hf
  obtain ⟨⟨⟩, f', hf', hf⟩ := Run.bind_eq_ok hf
  rw [Run.get_bind, carAssert] at hf
  split at hf
  swap
  · cases hf
  cases hf
  have hdsize : d.size = 0 := by rw [← DataBuffer.length_contents, hempty, List.length_nil]
  -- the length fits into the initial capacity
  have hecap : e.mCapacity = 128 :=
    (DataBuffer.mCapacity_of_append (by rw [hzero, hcap]; decide) he).trans hcap
  rw [← size32_wire32 (4 + UInt32.ofNat reply.element.length)] at he
  obtain ⟨hesize, hele, hecontents⟩ := DataBuffer.append_contents hvalid.size_le
    (by rw [length_wire32]; omega) he
  rw [length_wire32, hdsize] at hesize
  have hlt : 3 * (reply.element.length + 4) < 4294967295 := by
    rcases DataBuffer.lt_of_append hlen hecap hf' with h | h <;> omega
  obtain ⟨-, -, hcontents⟩ := DataBuffer.append_contents hele (by omega) hf'
  rw [hecontents, hempty, List.nil_append] at hcontents
  exact ⟨hcontents, hlt⟩

/-- **The reply is received as it was sent**: for every reply frame and every split of it whose
first chunk has the length field, both receive loops stop at the end of the frame with the
payload in their buffer. -/
theorem recv_sendReply (env env' : Allocator) (henv' : env'.Succeeds) (reply : CRemoteParcel)
    (frame : List UInt8) (hframe : sendReply env reply = .ok frame)
    (chunks more : List (List UInt8)) (hsplit : chunks.flatten = frame)
    (hchunk : ∀ c ∈ chunks, 0 < c.length ∧ c.length ≤ 4096)
    (hfirst : ∀ c ∈ chunks.head?, 4 ≤ c.length) (buf : List UInt8) :
    (∃ d, proxyReceive env' buf (chunks ++ more) = .ok (.whole more, d) ∧
      d.contents = reply.element) ∧
    (∃ d, classInfoReceive env' buf (chunks ++ more) = .ok (.whole more, d) ∧
      d.contents = reply.element) := by
  obtain ⟨rfl, hlt⟩ := sendReply_eq hframe
  have hne : ∀ c ∈ chunks, 0 < c.length := fun c hc => (hchunk c hc).1
  obtain ⟨d, hnew, hd, hempty⟩ := DataBuffer.new_ok henv'
  constructor
  · obtain ⟨d', hd', hcontents⟩ := recvReply_spec henv' buf chunks more reply.element hsplit hne
      hfirst hlt hd hempty
    exact ⟨d', by rw [proxyReceive, Except.bind_ok hnew]; exact hd', hcontents⟩
  · -- the buffer has held the request
    have hreq : 3 * ((CRemoteParcel.writeString env' (some GET_CLASS_INFO) {}).2.element.length + 4)
        < 4294967295 := by
      obtain ⟨q, hq, hready, hcontents, -⟩ :=
        CRemoteParcel.appends_writeString henv' (some GET_CLASS_INFO) {} CRemoteParcel.ready_new
          (by decide)
      rw [hq, hready.element_eq, hcontents]
      decide
    obtain ⟨e, he⟩ := framed_spec henv' _ hreq hd hempty
    obtain ⟨d', hd', hcontents⟩ := recvReply_spec henv' buf chunks more reply.element hsplit hne
      hfirst hlt e.valid_reset rfl
    refine ⟨d', ?_, hcontents⟩
    rw [classInfoReceive, Except.bind_ok hnew, Except.bind_ok he]
    exact hd'

/-- The reply to a `PING`. -/
def pingReply : CRemoteParcel := (CRemoteParcel.writeInt32 .zeros NOERROR {}).2

theorem recv_sendReply_ping :
    (∃ d, proxyReceive .zeros [] ([[0, 0, 0, 8, 0], [0, 0, 0]] ++ [[1]]) = .ok (.whole [[1]], d) ∧
      d.contents = pingReply.element) ∧
    (∃ d, classInfoReceive .zeros [] ([[0, 0, 0, 8, 0], [0, 0, 0]] ++ [[1]])
        = .ok (.whole [[1]], d) ∧
      d.contents = pingReply.element) :=
  recv_sendReply .zeros .zeros Allocator.zeros_succeeds pingReply [0, 0, 0, 8, 0, 0, 0, 0] rfl
    [[0, 0, 0, 8, 0], [0, 0, 0]] [[1]] rfl (by decide) (by decide) []

end ElastosCar
