import ElastosCar.Lib.Trace
import ElastosCar.Wire.Request

/-!
# The stream of requests

A client writes one request after the other, and `AcceptCallback` of `linux_rpc/stub.cpp` reads
one of them each time `Looper::PollInner` calls it. The looper registers its descriptors with
`EPOLLET`, so it calls once for a transition to readable, whatever has arrived by then; and
`ListenCallback` accepts one connection for a call.

The bytes of the connection are counted: the stream is what was written, `arrived` of its bytes
are with the stub and `consumed` of those were received. The looper is one thread, so while a
callback receives, no other one runs.

* A `recv` does not stop at the end of a frame: what arrived behind it is taken for a part of the
  same request.
* `Write` pads each chunk, so a chunk that ends inside a frame at an odd place breaks it.
* Of two connections that arrive before the first is accepted, the second is left waiting.

`served_of_meets` shows that these are the only ways to lose a request or a connection.
-/

namespace ElastosCar

/-- A client, its connection and the looper. -/
structure FramingState where
  /-- The bodies of the frames written. -/
  bodies : List (List UInt8) := []
  /-- The bytes that reached the stub. -/
  arrived : ℕ := 0
  /-- The bytes that were received. -/
  consumed : ℕ := 0
  /-- Whether a call of `AcceptCallback` is due. -/
  notified : Bool := false
  /-- What the `AcceptCallback` that runs has received. -/
  reading : Option (List (List UInt8)) := none
  /-- The parcels handed to the thread pool. -/
  dispatched : List CRemoteParcel := []
  /-- The connections that wait to be accepted. -/
  backlog : ℕ := 0
  /-- Whether a call of `ListenCallback` is due. -/
  listenNotified : Bool := false

/-- The steps. -/
inductive FramingAction
  /-- The client writes a request. -/
  | write (request : Request)
  /-- The next bytes of the stream arrive. -/
  | arrive (n : ℕ)
  /-- `PollInner` calls `AcceptCallback`. -/
  | callback
  /-- A `recv` of `AcceptCallback` returns that many bytes. -/
  | recv (n : ℕ)
  /-- A client connects. -/
  | connect
  /-- `PollInner` calls `ListenCallback`. -/
  | accept

namespace FramingState

/-- All bytes written. -/
def stream (s : FramingState) : List UInt8 := (s.bodies.map frame).flatten

/-- Where the `k`-th frame of the stream begins. -/
def start (s : FramingState) (k : ℕ) : ℕ := ((s.bodies.take k).map frame).flatten.length

/-- `AcceptCallback` goes on with the next bytes. The allocator is that of the stub. -/
def receive (env : Allocator) (s : FramingState) (chunks : List (List UInt8)) (n : ℕ) :
    Option FramingState :=
  let chunks := chunks ++ [(s.stream.drop s.consumed).take n]
  let s := { s with consumed := s.consumed + n }
  match acceptCallback env ⟨false, true⟩ chunks with
  | .accepted dataParcel _ =>
    some { s with reading := none, dispatched := s.dispatched ++ [dataParcel] }
  | .removed => some { s with reading := some chunks }
  | .spurious => none

/-- One step; the allocators are those of the client and of the stub. -/
def step (env env' : Allocator) (s : FramingState) : FramingAction → Option FramingState
  | .write request =>
    match request.send env with
    | .ok _ => some { s with bodies := s.bodies ++ [request.body] }
    | .error _ => none
  | .arrive n =>
    if 0 < n ∧ s.arrived + n ≤ s.stream.length then
      some { s with
        arrived := s.arrived + n
        notified := s.notified || decide (s.consumed = s.arrived) }
    else none
  | .callback =>
    if s.notified ∧ s.reading = none then
      some { s with notified := false, reading := some [] }
    else none
  | .recv n =>
    match s.reading with
    | some chunks =>
      if 0 < n ∧ n ≤ 1024 ∧ s.consumed + n ≤ s.arrived then receive env' s chunks n else none
    | none => none
  | .connect =>
    some { s with
      backlog := s.backlog + 1, listenNotified := s.listenNotified || decide (s.backlog = 0) }
  | .accept =>
    if s.listenNotified ∧ s.reading = none ∧ 0 < s.backlog then
      some { s with backlog := s.backlog - 1, listenNotified := false }
    else none

/-- The parcel has this body and nothing else, up to the padding of `Write`, and is read from its
beginning. -/
def Carries (p : CRemoteParcel) (body : List UInt8) : Prop :=
  p.mDataPos = 0 ∧ p.contents = padded body

/-- The looper waits, for a notification or for bytes to receive, and no notification is pending.
One that came while the bytes it tells of were being received does not count. -/
structure Blocked (s : FramingState) : Prop where
  notified : s.notified = true → s.consumed = s.arrived
  listenNotified : s.listenNotified = true → s.backlog = 0
  reading : s.reading = none ∨ s.consumed = s.arrived

/-- The frames are dispatched in order, each once and with its own bytes, and while the looper is
blocked no complete frame is unread and no connection waits. -/
structure Served (s : FramingState) : Prop where
  dispatched : List.Forall₂ Carries s.dispatched (s.bodies.take s.dispatched.length)
  read : s.Blocked → ∀ k ≤ s.bodies.length, s.start k ≤ s.arrived → k ≤ s.dispatched.length
  accepted : s.Blocked → s.backlog = 0

/-- No byte of a frame arrives before the frames in front of it are read, a `recv` that does not
end with a frame returns a multiple of four bytes, and a connection arrives when none waits. -/
def Paced (s : FramingState) : FramingAction → Prop
  | .arrive n => ∀ k ≤ s.bodies.length, s.start k < s.arrived + n → s.start k ≤ s.consumed
  | .recv n => (∃ k ≤ s.bodies.length, s.consumed + n = s.start k) ∨ 4 ∣ n
  | .connect => s.backlog = 0
  | _ => True

/-- The chunks of the frame that is being received. -/
def chunks (s : FramingState) : List (List UInt8) := s.reading.getD []

/-- The invariant of the paced runs. The frame that is being received, or is the next to be, is
the one that has as many before it as were dispatched. -/
structure Sound (s : FramingState) : Prop where
  bounded : ∀ body ∈ s.bodies, 3 * (body.length + 4) < 4294967295
  dispatched : List.Forall₂ Carries s.dispatched (s.bodies.take s.dispatched.length)
  consumed : s.consumed = s.start s.dispatched.length + s.chunks.flatten.length
  consumed_le : s.consumed ≤ s.arrived
  arrived_le : s.arrived ≤ s.start (s.dispatched.length + 1)
  chunks_eq : s.chunks.flatten
    = (s.stream.drop (s.start s.dispatched.length)).take s.chunks.flatten.length
  middle : s.chunks ≠ [] → s.consumed < s.start (s.dispatched.length + 1)
  aligned : ∀ c ∈ s.chunks, 0 < c.length ∧ 4 ∣ c.length
  pending : s.consumed < s.arrived → s.reading = none → s.notified = true
  backlog : s.backlog = 0 ∨ s.backlog = 1 ∧ s.listenNotified = true

end FramingState

/-! ### Receiving a part of a frame -/

/-- Chunks that are multiples of four, up to the last one, find room while the frame has the length
of a request. -/
theorem accepts_of_lt {size capacity : ℕ} {ns : List ℕ} (hdvd : ∀ n ∈ ns.dropLast, 4 ∣ n)
    (hlt : 3 * (size + ns.sum + 3) < 4294967296) : Accepts size capacity ns := by
  induction ns generalizing size capacity with
  | nil => trivial
  | cons n ns ih =>
    have hpad := pad4_lt n
    rw [List.sum_cons] at hlt
    refine ⟨.inr (by omega), ?_⟩
    rcases eq_or_ne ns [] with rfl | hne
    · trivial
    · rw [List.dropLast_cons_of_ne_nil hne] at hdvd
      have hn : pad4 n = n := by
        obtain ⟨k, rfl⟩ := hdvd n List.mem_cons_self
        rw [pad4]
        omega
      rw [hn]
      exact ih (fun m hm => hdvd m (List.mem_cons_of_mem _ hm)) (by omega)

section

variable {init : List (List UInt8)} {last : List UInt8}
  (hinit : ∀ c ∈ init, 0 < c.length ∧ 4 ∣ c.length) (hlast : 0 < last.length)
include hinit hlast

/-- The first of paced chunks, and what is written of them. -/
theorem exists_cons_of_paced : ∃ c cs, init ++ [last] = c :: cs ∧ (∀ d ∈ cs, 0 < d.length) ∧
    (∀ n ∈ ((c.drop 4 :: cs).map List.length).dropLast, 4 ∣ n) ∧
    (4 ≤ c.length ∨ c = last ∧ cs = []) := by
  cases init with
  | nil => exact ⟨last, [], rfl, by simp, by simp, .inr ⟨rfl, rfl⟩⟩
  | cons c cs =>
    obtain ⟨hpos, hdvd⟩ := hinit c List.mem_cons_self
    refine ⟨c, cs ++ [last], rfl, fun d hd => ?_, fun n hn => ?_, .inl (Nat.le_of_dvd hpos hdvd)⟩
    · rcases List.mem_append.mp hd with hd | hd
      · exact (hinit d (List.mem_cons_of_mem _ hd)).1
      · exact List.mem_singleton.mp hd ▸ hlast
    · rw [List.map_cons, List.map_append, List.map_singleton, List.length_drop,
        ← List.cons_append, List.dropLast_concat] at hn
      rcases List.mem_cons.mp hn with rfl | hn
      · exact Nat.dvd_sub hdvd (dvd_refl 4)
      · obtain ⟨d, hd, rfl⟩ := List.mem_map.mp hn
        exact (hinit d (List.mem_cons_of_mem _ hd)).2

variable {body : List UInt8} (hbound : 3 * (body.length + 4) < 4294967295)
include hbound

/-- A frame in paced chunks is dispatched. -/
theorem acceptCallback_paced {env : Allocator} (henv : env.Succeeds)
    (hflat : (init ++ [last]).flatten = frame body) :
    ∃ p, acceptCallback env ⟨false, true⟩ (init ++ [last]) = .accepted p [] ∧
      FramingState.Carries p body := by
  obtain ⟨c, cs, hcons, hpos, hdvd, hfirst⟩ := exists_cons_of_paced hinit hlast
  rw [hcons] at hflat ⊢
  have hlen : c.length + (cs.map List.length).sum = body.length + 4 := by
    have h := congrArg List.length hflat
    rw [List.flatten_cons, List.length_append, List.length_flatten, frame, List.length_append,
      length_wire32] at h
    omega
  have hc : 4 ≤ c.length := by
    rcases hfirst with hc | ⟨-, rfl⟩
    · exact hc
    · rw [List.map_nil, List.sum_nil] at hlen
      omega
  have hbody : (c.drop 4 :: cs).flatten = body := by
    have h := congrArg (List.drop 4) hflat
    rwa [List.flatten_cons, List.drop_append_of_le_length hc, frame,
      List.drop_left' (length_wire32 _), ← List.flatten_cons] at h
  have hwhole := acceptCallback_whole env [] hc hflat
  rw [List.append_nil, acceptLoop_eq env cs [] hpos _ (by omega)] at hwhole
  refine ⟨_, hwhole, rfl, ?_⟩
  have hsum : ((c.drop 4 :: cs).map List.length).sum = body.length := by
    rw [List.map_cons, List.sum_cons, List.length_drop]
    omega
  have hcontents := contents_receive henv (c.drop 4 :: cs) receiving_new hdvd
    (accepts_of_lt hdvd (by rw [hsum]; change 3 * (0 + body.length + 3) < _; omega))
  rw [hbody] at hcontents
  exact hcontents

/-- A part of it in paced chunks is not. -/
theorem acceptCallback_part (env : Allocator) {rest : List UInt8} (hdvd : 4 ∣ last.length) (hrest : rest ≠ [])
    (hflat : (init ++ [last]).flatten ++ rest = frame body) :
    acceptCallback env ⟨false, true⟩ (init ++ [last]) = .removed := by
  obtain ⟨c, cs, hcons, -, -, hfirst⟩ := exists_cons_of_paced hinit hlast
  rw [hcons] at hflat ⊢
  have hc : 4 ≤ c.length := by
    rcases hfirst with hc | ⟨rfl, -⟩
    · exact hc
    · exact Nat.le_of_dvd hlast hdvd
  have hlen : c.length + (cs.map List.length).sum + rest.length = body.length + 4 := by
    have h := congrArg List.length hflat
    rw [List.length_append, List.flatten_cons, List.length_append, List.length_flatten, frame,
      List.length_append, length_wire32] at h
    omega
  have hpart := acceptCallback_eq env [] rest hc hflat
  rw [List.append_nil, List.append_nil,
    acceptLoop_part env cs (List.length_pos_iff.mpr hrest) _ (by omega)] at hpart
  exact hpart

end

namespace FramingState

/-! ### The places of the frames -/

section

variable (s : FramingState)

theorem start_succ {k : ℕ} {body : List UInt8} (h : s.bodies[k]? = some body) :
    s.start (k + 1) = s.start k + (body.length + 4) := by
  rw [start, start, List.take_add_one, h, Option.toList_some, List.map_append, List.flatten_append,
    List.length_append, List.map_singleton, List.flatten_singleton, frame, List.length_append,
    length_wire32, Nat.add_comm 4]

theorem start_of_length_le {k : ℕ} (h : s.bodies.length ≤ k) : s.start k = s.stream.length := by
  rw [start, List.take_of_length_le h, stream]

theorem start_mono : Monotone s.start := by
  refine monotone_nat_of_le_succ fun k => ?_
  rcases Nat.lt_or_ge k s.bodies.length with hk | hk
  · rw [s.start_succ (List.getElem?_eq_getElem hk)]
    exact Nat.le_add_right _ _
  · rw [s.start_of_length_le hk, s.start_of_length_le (hk.trans k.le_succ)]

/-- From the place of a frame on, the stream has this frame and the next ones. -/
theorem drop_stream {k : ℕ} {body : List UInt8} (h : s.bodies[k]? = some body) :
    ∃ more, s.stream.drop (s.start k) = frame body ++ more := by
  obtain ⟨hk, rfl⟩ := List.getElem?_eq_some_iff.mp h
  refine ⟨((s.bodies.drop (k + 1)).map frame).flatten, ?_⟩
  have hsplit : s.stream
      = ((s.bodies.take k).map frame).flatten ++ ((s.bodies.drop k).map frame).flatten := by
    rw [← List.flatten_append, ← List.map_append, List.take_append_drop, stream]
  rw [hsplit, start, List.drop_left, List.drop_eq_getElem_cons hk, List.map_cons, List.flatten_cons]

end

/-! ### The steps -/

theorem sound_init : Sound {} where
  bounded := by simp
  dispatched := .nil
  consumed := rfl
  consumed_le := le_rfl
  arrived_le := le_rfl
  chunks_eq := rfl
  middle h := absurd rfl h
  aligned := by simp [chunks]
  pending h := absurd h (lt_irrefl 0)
  backlog := .inl rfl

section

variable {s : FramingState}

theorem Sound.length_dispatched_le (hs : s.Sound) : s.dispatched.length ≤ s.bodies.length := by
  have h := hs.dispatched.length_eq
  rw [List.length_take] at h
  omega

/-- While a frame is to be read, its end has not been received. -/
theorem Sound.consumed_lt (hs : s.Sound) (hlt : s.dispatched.length < s.bodies.length) :
    s.consumed < s.start (s.dispatched.length + 1) := by
  rcases eq_or_ne s.chunks [] with hnil | hne
  · rw [hs.consumed, hnil, s.start_succ (List.getElem?_eq_getElem hlt), List.flatten_nil,
      List.length_nil]
    omega
  · exact hs.middle hne

theorem Sound.served (hs : s.Sound) : s.Served where
  dispatched := hs.dispatched
  read hb k hk hle := by
    have hall : s.consumed = s.arrived := by
      refine le_antisymm hs.consumed_le (not_lt.mp fun hlt => ?_)
      have hnone : s.reading = none := hb.reading.resolve_right hlt.ne
      exact hlt.ne (hb.notified (hs.pending hlt hnone))
    by_contra hgt
    have hlt := hs.consumed_lt (by omega)
    have hmono := s.start_mono (show s.dispatched.length + 1 ≤ k by omega)
    omega
  accepted hb := by
    rcases hs.backlog with h | ⟨-, h⟩
    · exact h
    · exact hb.listenNotified h

theorem Sound.write (hs : s.Sound) {env : Allocator} {request : Request} {bytes : List UInt8}
    (hsend : request.send env = .ok bytes) :
    Sound { s with bodies := s.bodies ++ [request.body] } := by
  have hlen := hs.length_dispatched_le
  have hstart : ∀ k ≤ s.bodies.length,
      start { s with bodies := s.bodies ++ [request.body] } k = s.start k := by
    intro k hk
    change ((List.take k (s.bodies ++ [request.body])).map frame).flatten.length = _
    rw [List.take_append_of_le_length hk, start]
  have hsucc : s.start (s.dispatched.length + 1)
      ≤ start { s with bodies := s.bodies ++ [request.body] } (s.dispatched.length + 1) := by
    rcases hlen.lt_or_eq with hlt | heq
    · exact (hstart _ hlt).ge
    · rw [heq, s.start_of_length_le (Nat.le_succ _), ← s.start_of_length_le le_rfl, ← hstart _ le_rfl]
      exact start_mono _ (Nat.le_succ _)
  have hstream : stream { s with bodies := s.bodies ++ [request.body] }
      = s.stream ++ frame request.body := by
    change ((s.bodies ++ [request.body]).map frame).flatten = _
    rw [List.map_append, List.flatten_append, List.map_singleton, List.flatten_singleton, stream]
  refine
    { hs with
      bounded := fun body hbody => ?_
      dispatched := ?_
      consumed := ?_
      arrived_le := hs.arrived_le.trans hsucc
      chunks_eq := ?_
      middle := fun h => (hs.middle h).trans_le hsucc }
  · rcases List.mem_append.mp hbody with h | h
    · exact hs.bounded body h
    · exact List.mem_singleton.mp h ▸ (Request.send_eq hsend).2
  · rw [List.take_append_of_le_length hlen]
    exact hs.dispatched
  · rw [hstart _ hlen]
    exact hs.consumed
  · -- what was received is of the frames that were there before
    have hle : s.start s.dispatched.length ≤ s.stream.length := by
      rw [← s.start_of_length_le le_rfl]
      exact s.start_mono hlen
    have hfits : s.chunks.flatten.length
        ≤ (s.stream.drop (s.start s.dispatched.length)).length := by
      have h := congrArg List.length hs.chunks_eq
      rw [List.length_take] at h
      omega
    rw [hstart _ hlen, hstream, List.drop_append_of_le_length hle]
    exact hs.chunks_eq.trans (List.take_append_of_le_length hfits).symm

theorem Sound.arrive (hs : s.Sound) {n : ℕ} (hle : s.arrived + n ≤ s.stream.length)
    (hok : ∀ k ≤ s.bodies.length, s.start k < s.arrived + n → s.start k ≤ s.consumed) :
    Sound { s with
      arrived := s.arrived + n
      notified := s.notified || decide (s.consumed = s.arrived) } := by
  refine
    { hs with
      consumed_le := hs.consumed_le.trans (Nat.le_add_right _ _)
      arrived_le := ?_
      pending := fun _ hnone => ?_ }
  · rcases hs.length_dispatched_le.lt_or_eq with hlt | heq
    · by_contra hgt
      exact absurd (hok _ hlt (not_le.mp hgt)) (not_le.mpr (hs.consumed_lt hlt))
    · exact hle.trans (s.start_of_length_le (heq.ge.trans (Nat.le_succ _))).ge
  · rw [Bool.or_eq_true, decide_eq_true_eq]
    rcases hs.consumed_le.lt_or_eq with hlt | heq
    · exact .inl (hs.pending hlt hnone)
    · exact .inr heq

theorem Sound.callback (hs : s.Sound) (hnone : s.reading = none) :
    Sound { s with notified := false, reading := some [] } := by
  have hchunks : s.chunks = [] := by rw [chunks, hnone]; rfl
  refine
    { hs with
      consumed := ?_
      chunks_eq := rfl
      middle := fun h => absurd rfl h
      aligned := by simp [chunks]
      pending := nofun }
  have h := hs.consumed
  rw [hchunks] at h
  exact h

/-- What a `recv` adds to the chunks of a frame. -/
theorem Sound.flatten_chunks (hs : s.Sound) {n : ℕ} {body : List UInt8}
    (hbody : s.bodies[s.dispatched.length]? = some body)
    (hle : s.consumed + n ≤ s.start (s.dispatched.length + 1)) :
    (s.chunks ++ [(s.stream.drop s.consumed).take n]).flatten
      = (frame body).take (s.chunks.flatten.length + n) := by
  obtain ⟨more, hmore⟩ := s.drop_stream hbody
  have hlen : (frame body).length = body.length + 4 := by
    rw [frame, List.length_append, length_wire32, Nat.add_comm]
  have hfits : s.chunks.flatten.length + n ≤ (frame body).length := by
    rw [s.start_succ hbody, hs.consumed] at hle
    omega
  have hflat : s.chunks.flatten = (frame body).take s.chunks.flatten.length := by
    rw [← List.take_append_of_le_length (by omega : s.chunks.flatten.length ≤ (frame body).length),
      ← hmore]
    exact hs.chunks_eq
  have hchunk : (s.stream.drop s.consumed).take n
      = ((frame body).drop s.chunks.flatten.length).take n := by
    rw [hs.consumed, ← List.drop_drop, hmore, List.drop_append_of_le_length (by omega),
      List.take_append_of_le_length (by rw [List.length_drop]; omega)]
  rw [List.flatten_append, List.flatten_singleton, hchunk, List.take_add, ← hflat]

theorem Sound.recv (hs : s.Sound) {env : Allocator} (henv : env.Succeeds) {n : ℕ}
    {chunks : List (List UInt8)} {s' : FramingState} (hreading : s.reading = some chunks)
    (hpos : 0 < n) (hle : s.consumed + n ≤ s.arrived)
    (hok : (∃ k ≤ s.bodies.length, s.consumed + n = s.start k) ∨ 4 ∣ n)
    (h : s.receive env chunks n = some s') : s'.Sound := by
  have hchunks : s.chunks = chunks := by rw [FramingState.chunks, hreading]; rfl
  have hend := hle.trans hs.arrived_le
  -- there is a frame that the bytes belong to
  have hlt : s.dispatched.length < s.bodies.length := by
    by_contra hge
    rw [s.start_of_length_le (by omega), ← s.start_of_length_le (not_lt.mp hge)] at hend
    have := hs.consumed
    omega
  obtain ⟨body, hbody⟩ : ∃ body, s.bodies[s.dispatched.length]? = some body :=
    ⟨_, List.getElem?_eq_getElem hlt⟩
  have hbound := hs.bounded body (List.mem_of_getElem? hbody)
  have hsucc := s.start_succ hbody
  have hconsumed := hs.consumed
  have hflat := hs.flatten_chunks hbody hend
  have haligned := hs.aligned
  rw [hchunks] at hflat hconsumed haligned
  have hframe : (frame body).length = body.length + 4 := by
    rw [frame, List.length_append, length_wire32, Nat.add_comm]
  have hflatlen : (chunks ++ [(s.stream.drop s.consumed).take n]).flatten.length
      = chunks.flatten.length + n := by
    rw [hflat, List.length_take, hframe]
    omega
  have hlast : ((s.stream.drop s.consumed).take n).length = n := by
    rw [List.flatten_append, List.length_append, List.flatten_singleton] at hflatlen
    omega
  have hlastpos : 0 < ((s.stream.drop s.consumed).take n).length := hlast.symm ▸ hpos
  rw [FramingState.receive] at h
  rcases hend.lt_or_eq with hmid | hfull
  · -- inside the frame: the chunk is a multiple of four
    have hdvd : 4 ∣ n := by
      refine hok.resolve_left ?_
      rintro ⟨k, -, hk⟩
      rcases Nat.lt_or_ge s.dispatched.length k with hgt | hge
      · have := s.start_mono (show s.dispatched.length + 1 ≤ k from hgt)
        omega
      · have := s.start_mono hge
        omega
    have hrest : (frame body).drop (chunks.flatten.length + n) ≠ [] := by
      rw [ne_eq, List.drop_eq_nil_iff]
      omega
    have hpart := acceptCallback_part haligned hlastpos hbound env (hlast.symm ▸ hdvd)
      hrest (by rw [hflat, List.take_append_drop])
    simp only [hpart] at h
    cases h
    refine
      { hs with
        consumed := ?_
        consumed_le := hle
        chunks_eq := ?_
        middle := fun _ => hmid
        aligned := fun c hc => ?_
        pending := fun _ h => by cases h }
    · change s.consumed + n = s.start _ + (chunks ++ [_]).flatten.length
      rw [hflatlen, hconsumed, Nat.add_assoc]
    · obtain ⟨more, hmore⟩ := s.drop_stream hbody
      change (chunks ++ [_]).flatten
        = (s.stream.drop (s.start _)).take (chunks ++ [_]).flatten.length
      rw [hflatlen, hflat, hmore, List.take_append_of_le_length (by omega)]
    · rcases List.mem_append.mp hc with hc | hc
      · exact haligned c hc
      · rw [List.mem_singleton.mp hc, hlast]
        exact ⟨hpos, hdvd⟩
  · -- the end of the frame
    have htake : (frame body).take (chunks.flatten.length + n) = frame body :=
      List.take_of_length_le (by omega)
    obtain ⟨p, hp, hcarries⟩ := acceptCallback_paced haligned hlastpos hbound henv
      (hflat.trans htake)
    simp only [hp] at h
    cases h
    have hcount : (s.dispatched ++ [p]).length = s.dispatched.length + 1 := List.length_append
    refine
      { hs with
        dispatched := ?_
        consumed := ?_
        consumed_le := hle
        arrived_le := ?_
        chunks_eq := rfl
        middle := fun h => absurd rfl h
        aligned := List.forall_mem_nil _
        pending := fun hlt => ?_ }
    · rw [hcount, List.take_add_one, hbody, Option.toList_some]
      exact List.rel_append hs.dispatched (.cons hcarries .nil)
    · rw [hcount]
      exact hfull
    · rw [hcount]
      exact hs.arrived_le.trans (s.start_mono (Nat.le_succ _))
    · exact absurd (hs.arrived_le.trans hfull.ge) (not_le.mpr hlt)

/-- **One step** of a paced run. -/
theorem Sound.step {env env' : Allocator} (henv' : env'.Succeeds) (hs : s.Sound)
    {a : FramingAction} {s' : FramingState} (hok : s.Paced a)
    (h : s.step env env' a = some s') : s'.Sound := by
  cases a with
  | write request =>
    rw [FramingState.step] at h
    split at h
    · next hsend =>
      cases h
      exact hs.write hsend
    · cases h
  | arrive n =>
    rw [FramingState.step, Option.ite_none_right_eq_some] at h
    obtain ⟨⟨-, hle⟩, h⟩ := h
    cases h
    exact hs.arrive hle hok
  | callback =>
    rw [FramingState.step, Option.ite_none_right_eq_some] at h
    obtain ⟨⟨-, hnone⟩, h⟩ := h
    cases h
    exact hs.callback hnone
  | recv n =>
    rw [FramingState.step] at h
    split at h
    swap
    · cases h
    next chunks hreading =>
    rw [Option.ite_none_right_eq_some] at h
    obtain ⟨⟨hpos, -, hle⟩, h⟩ := h
    exact hs.recv henv' hreading hpos hle hok h
  | connect =>
    cases h
    have hzero : s.backlog = 0 := hok
    exact { hs with backlog := .inr (by simp [hzero]) }
  | accept =>
    rw [FramingState.step, Option.ite_none_right_eq_some] at h
    obtain ⟨-, h⟩ := h
    cases h
    refine { hs with backlog := .inl ?_ }
    change s.backlog - 1 = 0
    rcases hs.backlog with h | ⟨h, -⟩ <;> omega

end

/-- **Every request is served** in every paced run. -/
theorem served_of_meets (env env' : Allocator) (henv' : env'.Succeeds) (as : List FramingAction)
    (s : FramingState) (hok : Trace.Meets (step env env') Paced {} as)
    (hrun : Trace.run (step env env') {} as = some s) : s.Served :=
  (Trace.run_invariant (fun _ _ _ hs hok h => hs.step henv' hok h) sound_init hok hrun).served

theorem send_ping : Request.ping.send .zeros = .ok (frame Request.ping.body) := by rfl

/-- A `PING` and a `RELEASE` that arrive together are received as one request. -/
def together : List FramingAction :=
  [.write .ping, .write .release, .arrive 29, .callback, .recv 29]

theorem run_together : ∃ p, Trace.run (step .zeros .zeros) {} together
    = some ⟨[Request.ping.body, Request.release.body], 29, 29, false, none, [p], 0, false⟩ := by
  obtain ⟨p, hp⟩ : ∃ p, acceptCallback .zeros ⟨false, true⟩
      [frame Request.ping.body ++ frame Request.release.body] = .accepted p [] := ⟨_, rfl⟩
  refine ⟨p, ?_⟩
  have hping : step .zeros .zeros {} (.write .ping) = some { bodies := [Request.ping.body] } := by
    rw [step, send_ping]
    rfl
  have hrelease : step .zeros .zeros { bodies := [Request.ping.body] } (.write .release)
      = some { bodies := [Request.ping.body, Request.release.body] } := by
    have hsend : Request.release.send .zeros = .ok (frame Request.release.body) := by rfl
    rw [step, hsend]
    rfl
  have hrecv : receive .zeros ⟨[Request.ping.body, Request.release.body], 29, 0, false, some [],
        [], 0, false⟩ [] 29
      = some ⟨[Request.ping.body, Request.release.body], 29, 29, false, none, [p], 0, false⟩ := by
    have hchunk : (stream ⟨[Request.ping.body, Request.release.body], 29, 0, false, some [], [], 0,
        false⟩).take 29 = frame Request.ping.body ++ frame Request.release.body := by decide
    rw [receive]
    simp only [List.nil_append, List.drop_zero, hchunk, hp]
  rw [together, Trace.run_cons hping, Trace.run_cons hrelease]
  exact hrecv

theorem not_served_together :
    ¬ ∀ (env env' : Allocator), env'.Succeeds → ∀ (as : List FramingAction) (s : FramingState),
      Trace.run (step env env') {} as = some s → s.Served := by
  intro h
  obtain ⟨p, hp⟩ := run_together
  -- both frames have arrived, and one parcel was handed on
  have hread := (h .zeros .zeros Allocator.zeros_succeeds together _ hp).read
    ⟨nofun, nofun, .inl rfl⟩ 2 le_rfl (Nat.le_refl 29)
  exact absurd (show 2 ≤ 1 from hread) (by decide)

/-- A `PING` that arrives in two parts. -/
def inTurn : List FramingAction :=
  [.connect, .accept, .write .ping, .arrive 8, .callback, .recv 8, .arrive 5, .recv 5]

theorem meets_run_inTurn : ∃ p, Trace.Meets (step .zeros .zeros) Paced {} inTurn ∧
    Trace.run (step .zeros .zeros) {} inTurn
      = some ⟨[Request.ping.body], 13, 13, true, none, [p], 0, false⟩ := by
  obtain ⟨p, hp⟩ : ∃ p, acceptCallback .zeros ⟨false, true⟩
      [(frame Request.ping.body).take 8, (frame Request.ping.body).drop 8] = .accepted p [] :=
    ⟨_, rfl⟩
  have hwrite : step .zeros .zeros {} (.write .ping) = some { bodies := [Request.ping.body] } := by
    rw [step, send_ping]
    rfl
  have hpart : receive .zeros ⟨[Request.ping.body], 8, 0, false, some [], [], 0, false⟩ [] 8
      = some ⟨[Request.ping.body], 8, 8, false, some [(frame Request.ping.body).take 8], [], 0,
          false⟩ := by rfl
  have hend : receive .zeros ⟨[Request.ping.body], 13, 8, true,
        some [(frame Request.ping.body).take 8], [], 0, false⟩ [(frame Request.ping.body).take 8] 5
      = some ⟨[Request.ping.body], 13, 13, true, none, [p], 0, false⟩ := by
    have hchunk : ((stream ⟨[Request.ping.body], 13, 8, true,
        some [(frame Request.ping.body).take 8], [], 0, false⟩).drop 8).take 5
          = (frame Request.ping.body).drop 8 := by decide
    rw [receive]
    simp only [List.singleton_append, hchunk, hp]
    rfl
  exact ⟨p, Trace.meets_run_cons rfl rfl (Trace.meets_run_cons trivial rfl
    (Trace.meets_run_cons trivial hwrite (Trace.meets_run_cons (by rw [Paced]; decide) rfl
    (Trace.meets_run_cons trivial rfl (Trace.meets_run_cons (.inr (by decide)) hpart
    (Trace.meets_run_cons (by rw [Paced]; decide) rfl
    (Trace.meets_run_cons (.inl ⟨1, by decide, rfl⟩) hend ⟨trivial, rfl⟩)))))))⟩

theorem served_of_meets_inTurn :
    ∃ s, Trace.run (step .zeros .zeros) {} inTurn = some s ∧ s.dispatched.length = 1 ∧
      s.Served := by
  obtain ⟨p, hmeets, hrun⟩ := meets_run_inTurn
  exact ⟨_, hrun, rfl,
    served_of_meets .zeros .zeros Allocator.zeros_succeeds inTurn _ hmeets hrun⟩

end FramingState

end ElastosCar
