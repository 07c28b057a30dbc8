import ElastosCar.Lib.Trace
import ElastosCar.Proxy.Reply

/-!
# Which request a reply answers

The calls of a `CObjectProxy` share one connection. Under `mLock`, `ProxyEntry_RPC` and
`PingRunnable::Run` of `linux_rpc/proxy.cpp` each send a request and receive; the stub answers the
requests in order. Nothing in a frame says which request it answers, so a call takes what arrives
for its own reply.

A `recv` that times out or fails ends the call and leaves the connection in use, with the reply
still to come, and the one `recv` of a `PING` may leave a part of its reply behind. The call after
that decodes an earlier reply. `matched_of_meets` shows that this is the only way: while every
call finds the connection drained, each decodes its own reply.
-/

namespace ElastosCar

/-- The two calls. -/
inductive Command
  | invoke
  | ping
deriving DecidableEq, Repr

/-- The size of the local buffer. -/
def Command.bufSize : Command → ℕ
  | .invoke => 4096
  | .ping => 32

/-- What the stub replies: to a `PING` always the same. -/
def Command.reply (env : Allocator) : Command → CRemoteParcel → CRemoteParcel
  | .invoke, reply => reply
  | .ping, _ => (CRemoteParcel.writeInt32 env NOERROR {}).2

/-- The call that holds `mLock`. -/
structure Call where
  command : Command
  /-- The number of its request on the connection. A `PING` receives also when its `send` has
  failed. -/
  request : Option ℕ
  /-- What the local buffer holds when the call begins. -/
  buf : List UInt8
  /-- What was received so far. -/
  chunks : List (List UInt8)

/-- What a call took for its reply. -/
structure Decoded where
  command : Command
  request : Option ℕ
  bytes : List UInt8

/-- A proxy and its connection. -/
structure MatchState where
  /-- The holder of `mLock`. -/
  call : Option Call := none
  /-- Whether the ping task runs. -/
  pinging : Bool := true
  /-- The requests sent. -/
  requests : List Command := []
  /-- The payloads of the replies sent: each answers the request with its number. -/
  replies : List (List UInt8) := []
  /-- The bytes of replies that were not received yet. -/
  stream : List UInt8 := []
  decoded : List Decoded := []

/-- The steps. -/
inductive MatchAction
  /-- `ProxyEntry_RPC` takes the lock and sends. -/
  | invoke (buf : List UInt8) (sent : Bool)
  /-- `PingRunnable::Run` takes the lock and sends. -/
  | ping (sent : Bool)
  /-- The stub answers its oldest request. -/
  | answer (reply : CRemoteParcel)
  /-- `recv` delivers that many bytes. -/
  | recv (n : ℕ)
  /-- `recv` times out or fails. -/
  | fail

namespace MatchState

/-- A call goes on with these bytes: a `PING` is satisfied with any, an `INVOKE` runs its loop. A
fault of the loop ends the process. -/
def receive (env : Allocator) (c : Call) (n : ℕ) (s : MatchState) : Option MatchState :=
  let chunks := c.chunks ++ [s.stream.take n]
  let s := { s with stream := s.stream.drop n }
  match c.command with
  | .ping =>
    some { s with call := none, decoded := s.decoded ++ [⟨.ping, c.request, chunks.flatten⟩] }
  | .invoke =>
    match proxyReceive env c.buf chunks with
    | .ok (.whole _, d) =>
      some { s with call := none, decoded := s.decoded ++ [⟨.invoke, c.request, d.contents⟩] }
    | .ok (.broken, _) => some { s with call := some { c with chunks := chunks } }
    | .error _ => none

/-- One step; the allocators are those of the stub and of the proxy. -/
def step (env env' : Allocator) (s : MatchState) : MatchAction → Option MatchState
  | .invoke buf sent =>
    if s.call = none then
      some (if sent then
        { s with
          call := some ⟨.invoke, some s.requests.length, buf, []⟩
          requests := s.requests ++ [.invoke] }
      else s)
    else none
  | .ping sent =>
    if s.call = none ∧ s.pinging then
      some (if sent then
        { s with
          call := some ⟨.ping, some s.requests.length, [], []⟩
          requests := s.requests ++ [.ping] }
      else { s with call := some ⟨.ping, none, [], []⟩ })
    else none
  | .answer reply =>
    match s.requests[s.replies.length]? with
    | some command =>
      match sendReply env (command.reply env reply) with
      | .ok bytes =>
        some { s with
          replies := s.replies ++ [(command.reply env reply).element]
          stream := s.stream ++ bytes }
      | .error _ => none
    | none => none
  | .recv n =>
    match s.call with
    | some c =>
      if 0 < n ∧ n ≤ c.command.bufSize ∧ n ≤ s.stream.length then receive env' c n s else none
    | none => none
  | .fail =>
    match s.call with
    | some c =>
      some { s with call := none, pinging := s.pinging && decide (c.command = .invoke) }
    | none => none

/-- These bytes are of the reply to the call's own request: an `INVOKE` has its payload, and a
`PING` the beginning of its frame. -/
def Own (replies : List (List UInt8)) (d : Decoded) : Prop :=
  ∃ k payload, d.request = some k ∧ replies[k]? = some payload ∧
    match d.command with
    | .invoke => d.bytes = payload
    | .ping => d.bytes <+: frame payload

/-- Every call decoded its own reply. -/
def Matched (s : MatchState) : Prop := ∀ d ∈ s.decoded, Own s.replies d

/-- Every request was answered, and every answer received. -/
def Drained (s : MatchState) : Prop := s.replies.length = s.requests.length ∧ s.stream = []

/-- A call that goes on to receive begins on a drained connection. -/
def BeginsDrained (s : MatchState) : MatchAction → Prop
  | .invoke _ sent => sent = true → s.Drained
  | .ping _ => s.Drained
  | _ => True

/-- What a call can find on the connection. -/
inductive Awaiting (s : MatchState) (c : Call) : Prop
  | unsent (hrequest : c.request = none) (hreplies : s.replies.length = s.requests.length)
      (hstream : s.stream = [])
  | unanswered (hrequest : c.request = some s.replies.length)
      (hreplies : s.requests.length = s.replies.length + 1) (hchunks : c.chunks = [])
      (hstream : s.stream = [])
  | answered (k : ℕ) (payload : List UInt8) (hrequest : c.request = some k)
      (hreplies : s.requests.length = s.replies.length) (hreply : s.replies[k]? = some payload)
      (hlt : 3 * (payload.length + 4) < 4294967295) (hne : ∀ chunk ∈ c.chunks, 0 < chunk.length)
      (hsplit : c.chunks.flatten ++ s.stream = frame payload)

/-- The invariant of the runs with drained connections. -/
structure Sound (s : MatchState) : Prop where
  matched : s.Matched
  replies : s.replies.length ≤ s.requests.length
  call : ∀ c, s.call = some c → s.Awaiting c

end MatchState

/-! ### Receiving a part of a frame -/

/-- The loop ends only when the chunks are the whole frame. -/
theorem recvLoop_prefix {env : Allocator} {chunks : List (List UInt8)} {rest : List UInt8}
    {d d' : DataBuffer} {r : Received} (hd : d.Valid)
    (hlt : d.size + (chunks.flatten ++ rest).length < 2147483648)
    (h : recvLoop env (size32 (chunks.flatten ++ rest)) chunks d = .ok (r, d')) :
    r = .broken ∨ rest = [] ∧ (∃ more, r = .whole more) ∧
      d'.contents = d.contents ++ chunks.flatten := by
  induction chunks generalizing d with
  | nil =>
    rw [List.flatten_nil, List.nil_append] at h hlt
    rw [recvLoop] at h
    split at h
    · cases h
      exact .inl rfl
    · next hzero =>
      cases h
      rw [toInt32_pos_iff (by omega)] at hzero
      have hrest : rest = [] := List.eq_nil_of_length_eq_zero (by omega)
      exact .inr ⟨hrest, ⟨_, rfl⟩, (List.append_nil _).symm⟩
  | cons c cs ih =>
    rw [List.flatten_cons, List.append_assoc] at h hlt
    rw [List.length_append] at hlt
    rw [recvLoop] at h
    split at h
    · obtain ⟨⟨⟩, e, he, h⟩ := Run.bind_eq_ok h
      obtain ⟨hesize, hele, hecontents⟩ := DataBuffer.append_contents hd.size_le (by omega) he
      have hrest : size32 (c ++ (cs.flatten ++ rest)) - size32 c = size32 (cs.flatten ++ rest) := by
        rw [size32, size32, List.length_append, toInt32_ofNat_sub (Nat.le_add_right _ _),
          Nat.add_sub_cancel_left]
      rw [hrest] at h
      rw [List.flatten_cons, ← List.append_assoc, ← hecontents]
      exact ih ⟨by omega, hele⟩ (by omega) h
    · -- nothing is left
      next hzero =>
      cases h
      rw [toInt32_pos_iff (by rw [List.length_append]; omega)] at hzero
      have hnil : c ++ (cs.flatten ++ rest) = [] := by
        refine List.eq_nil_of_length_eq_zero ?_
        rw [List.length_append] at hzero ⊢
        omega
      simp only [List.append_eq_nil_iff] at hnil
      refine .inr ⟨hnil.2.2, ⟨_, rfl⟩, ?_⟩
      rw [List.flatten_cons, hnil.1, hnil.2.1, List.append_nil, List.append_nil]

/-- **A call ends with its frame**: on the first bytes of a frame it goes on, and on all of them it
has the payload. -/
theorem proxyReceive_prefix {env : Allocator} {buf : List UInt8} {chunks : List (List UInt8)}
    {rest payload : List UInt8} {d : DataBuffer} {r : Received}
    (hsplit : chunks.flatten ++ rest = frame payload) (hne : ∀ c ∈ chunks, 0 < c.length)
    (hlt : 3 * (payload.length + 4) < 4294967295)
    (h : proxyReceive env buf chunks = .ok (r, d)) :
    r = .broken ∨ (∃ more, r = .whole more) ∧ d.contents = payload := by
  rw [proxyReceive] at h
  obtain ⟨d₀, hd₀, h⟩ := Except.bind_eq_ok h
  obtain ⟨hvalid, hempty, -⟩ := DataBuffer.new_eq hd₀
  have hsize₀ : d₀.size = 0 := by rw [← DataBuffer.length_contents, hempty, List.length_nil]
  cases chunks with
  | nil =>
    cases h
    exact .inl rfl
  | cons c cs =>
    rw [recvReply] at h
    obtain ⟨⟨⟩, e, he, h⟩ := Run.bind_eq_ok h
    have hc4 : 4 ≤ c.length := by
      by_contra hshort
      exact not_append_short (by omega) he
    rw [List.flatten_cons, List.append_assoc, frame] at hsplit
    have htotal : ntohl (wordOf ((c ++ buf.drop c.length).take 4))
        = UInt32.ofNat (payload.length + 4) := by
      have htake := congrArg (List.take 4) hsplit
      rw [List.take_append_of_le_length hc4, List.take_left' (length_wire32 _)] at htake
      rw [List.take_append_of_le_length hc4, htake, wire32, wordOf_wordBytes, ntohl_htonl]
    have hpayload : c.drop 4 ++ (cs.flatten ++ rest) = payload := by
      have hdrop := congrArg (List.drop 4) hsplit
      rwa [List.drop_append_of_le_length hc4, List.drop_left' (length_wire32 _)] at hdrop
    have hlen : c.length - 4 + (cs.flatten ++ rest).length = payload.length := by
      have h := congrArg List.length hpayload
      rwa [List.length_append, List.length_drop] at h
    have hsize : size32 c - 4 = size32 (c.drop 4) := by
      rw [size32, size32, List.length_drop]
      exact toInt32_ofNat_sub hc4
    rw [hsize] at he
    obtain ⟨hesize, hele, hecontents⟩ := DataBuffer.append_contents hvalid.size_le
      (by rw [List.length_drop]; omega) he
    rw [List.length_drop, hsize₀] at hesize
    have hrest : (UInt32.ofNat (payload.length + 4)).toInt32 - size32 c
        = size32 (cs.flatten ++ rest) := by
      rw [size32, size32, toInt32_ofNat_sub (by omega)]
      congr 2
      omega
    rw [htotal, hrest] at h
    rcases recvLoop_prefix ⟨by omega, hele⟩ (by omega) h with hr | ⟨hnil, hr, hcontents⟩
    · exact .inl hr
    · refine .inr ⟨hr, ?_⟩
      rw [hcontents, hecontents, hempty, ← hpayload, hnil, List.nil_append, List.append_nil]

namespace MatchState

/-! ### The steps -/

section

variable {s : MatchState}

theorem Own.append {replies : List (List UInt8)} {d : Decoded} (h : Own replies d)
    (reply : List UInt8) : Own (replies ++ [reply]) d := by
  obtain ⟨k, payload, hk, hreply, hbytes⟩ := h
  have hlt : k < replies.length := (List.getElem?_eq_some_iff.mp hreply).1
  exact ⟨k, payload, hk, by rw [List.getElem?_append_left hlt, hreply], hbytes⟩

theorem sound_init : Sound {} := ⟨nofun, le_rfl, nofun⟩

/-- A call begins on a drained connection. -/
theorem Sound.begin (hs : s.Sound) (command : Command) (buf : List UInt8)
    (hdrained : s.Drained) :
    Sound { s with
      call := some ⟨command, some s.requests.length, buf, []⟩
      requests := s.requests ++ [command] } where
  matched := hs.matched
  replies := by
    rw [List.length_append]
    exact hs.replies.trans (Nat.le_add_right _ _)
  call := by
    rintro c ⟨⟩
    exact .unanswered (congrArg some hdrained.1.symm)
      (by rw [List.length_append, ← hdrained.1]; rfl) rfl hdrained.2

/-- The stub answers. -/
theorem Sound.answer (hs : s.Sound) {env : Allocator} {reply : CRemoteParcel} {bytes : List UInt8}
    (hlt : s.replies.length < s.requests.length) (hsend : sendReply env reply = .ok bytes) :
    Sound { s with
      replies := s.replies ++ [reply.element], stream := s.stream ++ bytes } where
  matched d hd := (hs.matched d hd).append _
  replies := by
    rw [List.length_append]
    exact hlt
  call c hc := by
    obtain ⟨hbytes, hbound⟩ := sendReply_eq hsend
    cases hs.call c hc with
    | unsent _ hreplies _ => omega
    | answered _ _ _ hreplies _ _ _ _ => omega
    | unanswered hrequest hreplies hchunks hstream =>
      -- the answer is to the request of the call that is waiting
      refine .answered _ reply.element hrequest ?_ List.getElem?_concat_length hbound ?_ ?_
      · rw [List.length_append]
        exact hreplies
      · simp [hchunks]
      · rw [hchunks, hstream, hbytes, frame, Nat.add_comm, UInt32.ofNat_add]
        rfl

/-- A call receives. -/
theorem Sound.receive (hs : s.Sound) {env : Allocator} {c : Call} {n : ℕ} {s' : MatchState}
    (hc : s.call = some c) (hpos : 0 < n) (hn : n ≤ s.stream.length)
    (h : receive env c n s = some s') : s'.Sound := by
  obtain ⟨k, payload, hrequest, hreplies, hreply, hlt, hne, hsplit⟩ :
      ∃ k payload, c.request = some k ∧ s.requests.length = s.replies.length ∧
        s.replies[k]? = some payload ∧ 3 * (payload.length + 4) < 4294967295 ∧
        (∀ chunk ∈ c.chunks, 0 < chunk.length) ∧ c.chunks.flatten ++ s.stream = frame payload := by
    cases hs.call c hc with
    | unsent _ _ hstream =>
      rw [hstream, List.length_nil] at hn
      omega
    | unanswered _ _ _ hstream =>
      rw [hstream, List.length_nil] at hn
      omega
    | answered k payload hrequest hreplies hreply hlt hne hsplit =>
      exact ⟨k, payload, hrequest, hreplies, hreply, hlt, hne, hsplit⟩
  have hsplit' : (c.chunks ++ [s.stream.take n]).flatten ++ s.stream.drop n = frame payload := by
    rw [List.flatten_append, List.flatten_singleton, List.append_assoc, List.take_append_drop,
      hsplit]
  have hne' : ∀ chunk ∈ c.chunks ++ [s.stream.take n], 0 < chunk.length := by
    intro chunk hchunk
    rcases List.mem_append.mp hchunk with hchunk | hchunk
    · exact hne chunk hchunk
    · rw [List.mem_singleton.mp hchunk, List.length_take]
      omega
  have hdecoded : ∀ d : Decoded, Own s.replies d →
      ∀ d' ∈ s.decoded ++ [d], Own s.replies d' := by
    intro d hown d' hd'
    rcases List.mem_append.mp hd' with hd' | hd'
    · exact hs.matched d' hd'
    · exact List.mem_singleton.mp hd' ▸ hown
  rw [MatchState.receive] at h
  split at h
  · cases h
    exact ⟨hdecoded _ ⟨k, payload, hrequest, hreply, _, hsplit'⟩, hs.replies, nofun⟩
  · dsimp only at h
    split at h
    · next hrecv =>
      cases h
      rcases proxyReceive_prefix hsplit' hne' hlt hrecv with hr | ⟨-, hcontents⟩
      · cases hr
      · exact ⟨hdecoded _ ⟨k, payload, hrequest, hreply, hcontents⟩, hs.replies, nofun⟩
    · cases h
      refine ⟨hs.matched, hs.replies, ?_⟩
      rintro c' ⟨⟩
      exact .answered k payload hrequest hreplies hreply hlt hne' hsplit'
    · cases h

/-- **One step** in which a call that begins finds the connection drained. -/
theorem Sound.step {env env' : Allocator} (hs : s.Sound) {a : MatchAction} {s' : MatchState}
    (hok : s.BeginsDrained a) (h : s.step env env' a = some s') : s'.Sound := by
  cases a with
  | invoke buf sent =>
    rw [MatchState.step, Option.ite_none_right_eq_some] at h
    obtain ⟨-, h⟩ := h
    cases h
    cases sent with
    | false => exact hs
    | true => exact hs.begin .invoke buf (hok rfl)
  | ping sent =>
    rw [MatchState.step, Option.ite_none_right_eq_some] at h
    obtain ⟨-, h⟩ := h
    cases h
    cases sent with
    | false =>
      refine ⟨hs.matched, hs.replies, ?_⟩
      rintro c ⟨⟩
      exact .unsent rfl hok.1 hok.2
    | true => exact hs.begin .ping [] hok
  | answer reply =>
    rw [MatchState.step] at h
    split at h
    swap
    · cases h
    next command hcommand =>
    split at h
    swap
    · cases h
    next bytes hsend =>
    cases h
    exact hs.answer (List.getElem?_eq_some_iff.mp hcommand).1 hsend
  | recv n =>
    rw [MatchState.step] at h
    split at h
    swap
    · cases h
    next c hc =>
    rw [Option.ite_none_right_eq_some] at h
    obtain ⟨⟨hpos, -, hn⟩, h⟩ := h
    exact hs.receive hc hpos hn h
  | fail =>
    rw [MatchState.step] at h
    split at h
    swap
    · cases h
    cases h
    exact ⟨hs.matched, hs.replies, nofun⟩

end

/-- **Every call decodes its own reply** in every run in which a call begins only when the
connection is drained. -/
theorem matched_of_meets (env env' : Allocator) (as : List MatchAction) (s : MatchState)
    (hok : Trace.Meets (step env env') BeginsDrained {} as)
    (hrun : Trace.run (step env env') {} as = some s) : s.Matched :=
  (Trace.run_invariant (fun _ _ _ hs hok h => hs.step hok h) sound_init hok hrun).matched

/-- A reply with an error code. -/
def errorReply (ec : UInt32) : CRemoteParcel := (CRemoteParcel.writeInt32 .zeros ec {}).2

/-- The first call times out, its reply comes late, and the next call receives it. -/
def timedOut : List MatchAction :=
  [.invoke [] true, .fail, .answer (errorReply 1), .invoke [] true, .recv 8]

theorem not_matched_timedOut :
    ¬ ∀ (env env' : Allocator) (as : List MatchAction) (s : MatchState),
      Trace.run (step env env') {} as = some s → s.Matched := by
  intro h
  have hrun : ∃ s, Trace.run (step .zeros .zeros) {} timedOut = some s ∧
      s.replies = [[0, 0, 0, 1]] ∧ s.decoded = [⟨.invoke, some 1, [0, 0, 0, 1]⟩] :=
    ⟨_, rfl, rfl, rfl⟩
  obtain ⟨s, hs, hreplies, hdecoded⟩ := hrun
  obtain ⟨k, payload, hk, hreply, -⟩ :=
    h .zeros .zeros timedOut s hs ⟨.invoke, some 1, [0, 0, 0, 1]⟩ (by rw [hdecoded]; exact .head _)
  cases hk
  rw [hreplies] at hreply
  cases hreply

/-- An `INVOKE` whose reply comes in two parts, and a `PING`. -/
def answered : List MatchAction :=
  [.invoke [] true, .answer (errorReply 1), .recv 5, .recv 3, .ping true, .answer (errorReply 2),
    .recv 8]

theorem matched_of_meets_answered :
    ∃ s, Trace.run (step .zeros .zeros) {} answered = some s ∧
      s.decoded = [⟨.invoke, some 0, [0, 0, 0, 1]⟩, ⟨.ping, some 1, [0, 0, 0, 8, 0, 0, 0, 0]⟩] ∧
      s.Matched := by
  refine ⟨_, rfl, rfl, matched_of_meets .zeros .zeros answered _ ?_ rfl⟩
  exact .cons (fun _ => ⟨rfl, rfl⟩) rfl (.cons trivial rfl (.cons trivial rfl (.cons trivial rfl
    (.cons ⟨rfl, rfl⟩ rfl (.cons trivial rfl (.cons trivial rfl trivial))))))

end MatchState

end ElastosCar
