import ElastosCar.Parcel.Typed

/-!
# Receiving a request

`CObjectStub::AcceptCallback` of `linux_rpc/stub.cpp` reads a request frame from a socket: a
total length in network order, which counts itself, and the body. The frame arrives in
chunks, and each chunk is passed to `CRemoteParcel::Write`.

`Write` pads, so the body arrives in the parcel as it was sent only when every chunk but the
last contributes a multiple of four bytes; the length is kept in an `Int32`, so the rest of
the frame must be shorter than `2 ^ 31`; and `Write` drops a chunk without an error when
`GrowData` cannot grow. `reassembles_iff` says that these are the only conditions. It speaks
about a split, that is about the sizes of the chunks: a body of zeros may well survive a
padding that others do not.
-/

namespace ElastosCar

open CRemoteParcel

/-- The poll events `AcceptCallback` looks at. -/
structure PollEvents where
  errorOrHangup : Bool
  input : Bool

/-- What `AcceptCallback` does. -/
inductive AcceptResult
  /-- Return 0, which removes the callback. -/
  | removed
  /-- Return 1 without reading. -/
  | spurious
  /-- Hand a parcel to the thread pool; the chunks that are left have not been read. -/
  | accepted (dataParcel : CRemoteParcel) (rest : List (List UInt8))

/-- The loop of `AcceptCallback`. The argument is `totalSize` after the subtraction in the
loop condition; a socket without further chunks is broken. -/
def acceptLoop (env : Allocator) :
    (totalSize : Int32) → (socket : List (List UInt8)) → CRemoteParcel → AcceptResult
  | totalSize, socket, dataParcel =>
    if totalSize > 0 then
      match socket with
      | [] => .removed
      | chunk :: socket =>
        let size := UInt32.ofNat chunk.length
        acceptLoop env (totalSize - size.toInt32) socket (dataParcel.write env chunk size).2
    else .accepted (dataParcel.setDataPosition 0) socket
termination_by structural _ socket => socket

/-- `CObjectStub::AcceptCallback`; each element of `socket` is what one `recv` returns. The
buffer is cleared before the first one. -/
def acceptCallback (env : Allocator) (events : PollEvents) (socket : List (List UInt8)) :
    AcceptResult :=
  if events.errorOrHangup then .removed
  else if !events.input then .spurious
  else
    match socket with
    | [] => .removed
    | chunk :: socket =>
      let totalSize := (ntohl (wordOf ((chunk ++ [0, 0, 0, 0]).take 4))).toInt32
      let size := UInt32.ofNat chunk.length
      let dataParcel := (write env (chunk.drop 4) (size - 4) {}).2
      acceptLoop env (totalSize - size.toInt32) socket dataParcel

/-! ### Frames and splits -/

/-- The frame of a body: its total length in network order, and the body. -/
def frame (body : List UInt8) : List UInt8 := wire32 (UInt32.ofNat (body.length + 4)) ++ body

/-- The frame that arrives in these chunks is read exactly, whatever comes after it, and its
body is at the beginning of the data of the parcel that is handed on. -/
def Reassembled (env : Allocator) (chunks : List (List UInt8)) (body : List UInt8) : Prop :=
  ∀ more, ∃ p, acceptCallback env ⟨false, true⟩ (chunks ++ more) = .accepted p more ∧
    p.mDataPos = 0 ∧ p.contents.take body.length = body

/-- The data handed on. -/
def AcceptResult.data : AcceptResult → List UInt8
  | .removed | .spurious => []
  | .accepted p _ => p.contents

/-- Four bytes that arrive as three and one: the padding of the first write comes between
them. -/
theorem not_reassembled_three_one :
    [[0, 0, 0, 8, 1, 2, 3], [4]].flatten = frame [1, 2, 3, 4] ∧
      ¬ Reassembled .zeros [[0, 0, 0, 8, 1, 2, 3], [4]] [1, 2, 3, 4] := by
  refine ⟨by decide, fun h => ?_⟩
  obtain ⟨p, hp, -, htake⟩ := h []
  have hdata : p.contents = [1, 2, 3, 0, 4, 0, 0, 0] := (congrArg AcceptResult.data hp).symm.trans (by decide)
  rw [hdata] at htake
  exact absurd htake (by decide)

/-- Writes of these sizes to a parcel of a given size and capacity all find or make room. -/
def Accepts : (size capacity : ℕ) → List ℕ → Prop
  | _, _, [] => True
  | size, capacity, n :: ns =>
    (size + pad4 n ≤ capacity ∨ 3 * (size + pad4 n) < 4294967296) ∧
      Accepts (size + pad4 n)
        (if size + pad4 n ≤ capacity then capacity else 3 * (size + pad4 n) / 2) ns

/-! ### The length that is left -/

/-- The loop goes on while the rest of the frame, as a 32-bit number, is positive. -/
theorem toInt32_pos_iff {r : ℕ} (h : r < 4294967296) :
    (UInt32.ofNat r).toInt32 > 0 ↔ 0 < r ∧ r < 2147483648 := by
  have hr : (UInt32.ofNat r).toBitVec.toNat = r := by
    rw [UInt32.toNat_toBitVec, UInt32.toNat_ofNat_of_lt' h]
  have hint : (UInt32.ofNat r).toInt32.toInt = (UInt32.ofNat r).toBitVec.toInt := rfl
  rw [gt_iff_lt, Int32.lt_iff_toInt_lt, hint, BitVec.toInt_eq_toNat_cond, hr]
  split <;> simp <;> omega

theorem toInt32_ofNat_sub {n r : ℕ} (h : n ≤ r) :
    (UInt32.ofNat r).toInt32 - (UInt32.ofNat n).toInt32 = (UInt32.ofNat (r - n)).toInt32 := by
  rw [← UInt32.toInt32_sub, ← UInt32.ofNat_sub h]

/-- The writes of the loop. -/
def receive (env : Allocator) (chunks : List (List UInt8)) (p : CRemoteParcel) : CRemoteParcel :=
  chunks.foldl (fun p chunk => (p.write env chunk (UInt32.ofNat chunk.length)).2) p

/-- With the right length, which is an `Int32`, the loop reads these chunks and no others. -/
theorem acceptLoop_eq (env : Allocator) (chunks more : List (List UInt8))
    (hne : ∀ c ∈ chunks, 0 < c.length) (p : CRemoteParcel)
    (hlt : (chunks.map List.length).sum < 2147483648) :
    acceptLoop env (UInt32.ofNat (chunks.map List.length).sum).toInt32 (chunks ++ more) p
      = .accepted ((receive env chunks p).setDataPosition 0) more := by
  induction chunks generalizing p with
  | nil =>
    have h : ¬ (UInt32.ofNat ([] : List ℕ).sum).toInt32 > 0 := by
      rw [toInt32_pos_iff (by simp)]
      simp
    cases more <;> simp only [acceptLoop, List.nil_append, List.map_nil, if_neg h] <;> rfl
  | cons c cs ih =>
    have hc := hne c List.mem_cons_self
    rw [List.map_cons, List.sum_cons] at hlt ⊢
    have h : (UInt32.ofNat (c.length + (cs.map List.length).sum)).toInt32 > 0 := by
      rw [toInt32_pos_iff (by omega)]
      omega
    rw [List.cons_append, acceptLoop, if_pos h]
    simp only [toInt32_ofNat_sub (Nat.le_add_right _ _), Nat.add_sub_cancel_left]
    exact ih (fun d hd => hne d (List.mem_cons_of_mem _ hd)) _ (by omega)

/-- While a part of the frame is missing, the loop goes on to receive. -/
theorem acceptLoop_part (env : Allocator) (chunks : List (List UInt8)) {r : ℕ} (hr : 0 < r)
    (p : CRemoteParcel) (hlt : (chunks.map List.length).sum + r < 2147483648) :
    acceptLoop env (UInt32.ofNat ((chunks.map List.length).sum + r)).toInt32 chunks p
      = .removed := by
  have h : (UInt32.ofNat ((chunks.map List.length).sum + r)).toInt32 > 0 := by
    rw [toInt32_pos_iff (by omega)]
    omega
  induction chunks generalizing p with
  | nil => rw [acceptLoop, if_pos h]
  | cons c cs ih =>
    rw [List.map_cons, List.sum_cons, Nat.add_assoc] at hlt h ⊢
    rw [acceptLoop, if_pos h]
    simp only [toInt32_ofNat_sub (Nat.le_add_right _ _), Nat.add_sub_cancel_left]
    refine ih _ (by omega) ?_
    rw [toInt32_pos_iff (by omega)]
    omega

/-! ### One chunk -/

/-- A parcel that chunks are written to: ready, with a capacity that has not wrapped. -/
structure Receiving (p : CRemoteParcel) : Prop extends p.Ready where
  cap_lt : p.mDataCapacity.toNat < 2147483648

theorem receiving_new : Receiving {} := ⟨ready_new, by decide⟩

section

variable {env : Allocator} (henv : env.Succeeds) {p : CRemoteParcel} (hp : Receiving p)
  {c : List UInt8} (hc : c.length ≤ 1024)
include henv hp

/-- A chunk that finds or makes room is appended with its padding. -/
theorem write_of_room (hroom : p.Room (pad4 c.length)) :
    Receiving (p.write env c (UInt32.ofNat c.length)).2 ∧
      Appended p (p.write env c (UInt32.ofNat c.length)).2 (padded c) := by
  obtain ⟨q, hq, happ⟩ := appended_write henv hp.toReady c (by rwa [length_padded])
  have hcap := happ.cap
  have hlt := hp.cap_lt
  rw [hq]
  refine ⟨⟨happ.ready, ?_⟩, happ⟩
  rw [hcap, roomyCapacity, length_padded]
  split
  · exact hlt
  · next hn => rcases hroom with h | h <;> omega

omit henv in
include hc in
/-- A chunk that does not is dropped: `GrowData` refuses the wrapped size. -/
theorem write_of_not_room (env : Allocator) (hroom : ¬ p.Room (pad4 c.length)) :
    (p.write env c (UInt32.ofNat c.length)).2 = p := by
  have hsize := hp.size_le
  have hlt := hp.cap_lt
  have hpad : (padSize (UInt32.ofNat c.length)).toNat = pad4 c.length := by
    have hn : (UInt32.ofNat c.length).toNat = c.length := UInt32.toNat_ofNat_of_lt' (by
      change _ < 4294967296
      omega)
    rw [toNat_padSize_of_le (by omega), hn]
  have hp4 := pad4_lt c.length
  rw [Room, not_or, not_le, not_lt] at hroom
  have hsum : (p.mDataPos + padSize (UInt32.ofNat c.length)).toNat
      = p.mDataSize.toNat + pad4 c.length := by
    rw [hp.pos_eq, UInt32.toNat_add, hpad]
    omega
  have h1 : ¬ p.mDataPos + padSize (UInt32.ofNat c.length) < p.mDataPos := by
    rw [UInt32.lt_iff_toNat_lt, hsum, hp.pos_eq]
    omega
  have h2 : ¬ p.mDataPos + padSize (UInt32.ofNat c.length) ≤ p.mDataCapacity := by
    rw [UInt32.le_iff_toNat_le, hsum]
    omega
  have h3 : (p.mDataSize + padSize (UInt32.ofNat c.length)) * 3 / 2 ≤ p.mDataSize := by
    rw [UInt32.le_iff_toNat_le]
    simp only [UInt32.toNat_div, UInt32.toNat_mul, UInt32.toNat_add, UInt32.reduceToNat, hpad]
    rw [Nat.mod_eq_of_lt (a := p.mDataSize.toNat + pad4 c.length) (by omega),
      Nat.mod_eq_sub_mod (by omega), Nat.mod_eq_of_lt (by omega)]
    omega
  rw [write, writeInplace]
  simp only [if_neg h1, if_neg h2, growData, if_pos h3, if_neg E_OUT_OF_MEMORY_ne]

end

/-! ### All chunks -/

/-- The size and the capacity after an accepted chunk. -/
theorem CRemoteParcel.Appended.size_and_cap {p q : CRemoteParcel} {c : List UInt8}
    (h : Appended p q (padded c)) :
    q.mDataSize.toNat = p.mDataSize.toNat + pad4 c.length ∧
      q.mDataCapacity.toNat
        = if p.mDataSize.toNat + pad4 c.length ≤ p.mDataCapacity.toNat then p.mDataCapacity.toNat
          else 3 * (p.mDataSize.toNat + pad4 c.length) / 2 := by
  constructor
  · rw [← length_contents, h.contents_eq, List.length_append, length_contents, length_padded]
  · rw [h.cap, roomyCapacity, length_padded]

/-- Accepted chunks whose sizes are multiples of four, up to the last one, arrive as they are,
and only the last one is padded. -/
theorem contents_receive {env : Allocator} (henv : env.Succeeds) (chunks : List (List UInt8))
    {p : CRemoteParcel} (hp : Receiving p)
    (hdvd : ∀ n ∈ (chunks.map List.length).dropLast, 4 ∣ n)
    (hacc : Accepts p.mDataSize.toNat p.mDataCapacity.toNat (chunks.map List.length)) :
    (receive env chunks p).contents = p.contents ++ padded chunks.flatten := by
  induction chunks generalizing p with
  | nil => exact (List.append_nil _).symm
  | cons c cs ih =>
    rw [List.map_cons, Accepts] at hacc
    obtain ⟨hq, happ⟩ := write_of_room henv hp (c := c) hacc.1
    obtain ⟨hsize, hcap⟩ := happ.size_and_cap
    cases cs with
    | nil =>
      change (p.write env c (UInt32.ofNat c.length)).2.contents = _
      rw [happ.contents_eq, List.flatten_singleton]
    | cons d ds =>
      have hc : 4 ∣ c.length := hdvd _ (by simp)
      have hrest := ih hq (fun n hn => hdvd n (by
        rw [List.map_cons, List.map_cons, List.dropLast_cons_cons]
        exact List.mem_cons_of_mem _ hn)) (by rw [hsize, hcap]; exact hacc.2)
      rw [happ.contents_eq, padded_of_dvd hc, List.append_assoc, ← padded_append hc] at hrest
      exact hrest

/-- The bytes that dropped and padded chunks of ones leave in the parcel. They begin with as
many ones as were sent only if no chunk was dropped and none but the last was padded: there
are no other ones, and a padding is followed by the next chunk. -/
theorem receive_ones {env : Allocator} (henv : env.Succeeds) (ns : List ℕ)
    (hns : ∀ n ∈ ns, n ≤ 1024) (hpos : ∀ n ∈ ns.drop 1, 0 < n) {p : CRemoteParcel}
    (hp : Receiving p) :
    ∃ bs, (receive env (ns.map fun n => List.replicate n 1) p).contents = p.contents ++ bs ∧
      bs.count 1 ≤ ns.sum ∧
      (bs.take ns.sum = List.replicate ns.sum 1 →
        (∀ n ∈ ns.dropLast, 4 ∣ n) ∧
          Accepts p.mDataSize.toNat p.mDataCapacity.toNat ns) := by
  induction ns generalizing p with
  | nil => exact ⟨[], by simp [receive], by simp, fun _ => ⟨by simp, trivial⟩⟩
  | cons n ns ih =>
    have hn := hns n List.mem_cons_self
    have hlen : (List.replicate n (1 : UInt8)).length = n := List.length_replicate
    have hns' : ∀ m ∈ ns, m ≤ 1024 := fun m hm => hns m (List.mem_cons_of_mem _ hm)
    have hpos' : ∀ m ∈ ns, 0 < m := hpos
    by_cases hroom : p.Room (pad4 n)
    · obtain ⟨hq, happ⟩ := write_of_room henv hp (c := List.replicate n 1) (by rwa [hlen])
      obtain ⟨hsize, hcap⟩ := happ.size_and_cap
      obtain ⟨bs, hbs, hcount, hones⟩ := ih hns' (fun m hm => hpos' m (List.mem_of_mem_drop hm)) hq
      rw [hsize, hcap, hlen] at hones
      refine ⟨padded (List.replicate n 1) ++ bs, ?_, ?_, fun hall => ?_⟩
      · rw [List.map_cons, receive, List.foldl_cons, ← List.append_assoc, ← happ.contents_eq, hlen]
        rw [hlen] at hbs
        exact hbs
      · simp only [padded, List.count_append, List.count_replicate, List.sum_cons]
        simp
        omega
      · have haligned : ns ≠ [] → 4 ∣ n := by
          intro hne
          by_contra hndvd
          have hzero : (padded (List.replicate n (1 : UInt8)) ++ bs)[n]? = some 0 := by
            have hk : pad4 n - n ≠ 0 := by
              rw [pad4]
              omega
            obtain ⟨k, hk⟩ := Nat.exists_eq_succ_of_ne_zero hk
            rw [padded, hlen, hk, List.append_assoc, List.getElem?_append_right (by simp)]
            simp
          have hsum : 0 < ns.sum := by
            obtain ⟨m, ms, rfl⟩ := List.exists_cons_of_ne_nil hne
            have := hpos' m List.mem_cons_self
            rw [List.sum_cons]
            omega
          have hone := congrArg (fun l => l[n]?) hall
          simp only [List.sum_cons] at hone
          rw [List.getElem?_take_of_lt (by omega), hzero] at hone
          simp [hsum] at hone
        rcases eq_or_ne ns [] with rfl | hne
        · exact ⟨by simp, hroom, trivial⟩
        · have hdvd := haligned hne
          rw [padded_of_dvd (by rwa [hlen]), List.sum_cons, List.take_append, hlen,
            List.take_of_length_le (by simp), Nat.add_sub_cancel_left, ← List.replicate_append_replicate]
            at hall
          obtain ⟨hd, ha⟩ := hones (List.append_cancel_left hall)
          refine ⟨fun m hm => ?_, hroom, ha⟩
          rw [List.dropLast_cons_of_ne_nil hne] at hm
          rcases List.mem_cons.mp hm with rfl | hm
          · exact hdvd
          · exact hd m hm
    · have hdrop := write_of_not_room hp (c := List.replicate n 1) (by omega) env
        (by rwa [hlen])
      obtain ⟨bs, hbs, hcount, -⟩ := ih hns' (fun m hm => hpos' m (List.mem_of_mem_drop hm)) hp
      have hn0 : n ≠ 0 := by
        rintro rfl
        exact hroom (Or.inl (by simpa [pad4] using hp.size_le))
      refine ⟨bs, ?_, ?_, fun hall => ?_⟩
      · rw [List.map_cons, receive, List.foldl_cons, hdrop]
        exact hbs
      · rw [List.sum_cons]
        omega
      · have h1 := congrArg (List.count 1) hall
        have h2 : (bs.take (n :: ns).sum).count 1 ≤ bs.count 1 :=
          (List.take_sublist _ _).count_le 1
        rw [List.count_replicate_self, List.sum_cons] at h1
        rw [List.sum_cons] at h2
        omega

/-! ### The callback -/

/-- Up to the loop: the length is taken from the first chunk, and the rest of that chunk is
the first write. -/
theorem acceptCallback_eq (env : Allocator) {c : List UInt8} {cs : List (List UInt8)}
    (more : List (List UInt8)) {body : List UInt8} (rest : List UInt8) (hc : 4 ≤ c.length)
    (hflat : (c :: cs).flatten ++ rest = frame body) :
    acceptCallback env ⟨false, true⟩ (c :: cs ++ more)
      = acceptLoop env (UInt32.ofNat ((cs.map List.length).sum + rest.length)).toInt32 (cs ++ more)
          (receive env [c.drop 4] {}) := by
  rw [List.flatten_cons, List.append_assoc] at hflat
  have htake : c.take 4 = wire32 (UInt32.ofNat (body.length + 4)) := by
    have h := congrArg (List.take 4) hflat
    rwa [List.take_append_of_le_length hc, frame, List.take_left' (by simp)] at h
  have hlen : c.length + ((cs.map List.length).sum + rest.length) = body.length + 4 := by
    have h := congrArg List.length hflat
    rw [List.length_append, List.length_append, List.length_flatten, frame, List.length_append,
      length_wire32] at h
    omega
  have hsize : UInt32.ofNat c.length - 4 = UInt32.ofNat (c.drop 4).length := by
    rw [List.length_drop, UInt32.ofNat_sub hc]
    rfl
  have htotal : ntohl (wordOf ((c ++ [0, 0, 0, 0]).take 4)) = UInt32.ofNat (body.length + 4) := by
    rw [List.take_append_of_le_length hc, htake, wire32, wordOf_wordBytes, ntohl_htonl]
  have hrest : (UInt32.ofNat (body.length + 4)).toInt32 - (UInt32.ofNat c.length).toInt32
      = (UInt32.ofNat ((cs.map List.length).sum + rest.length)).toInt32 := by
    rw [toInt32_ofNat_sub (by omega)]
    congr 3
    omega
  simp only [acceptCallback, List.cons_append, Bool.false_eq_true, if_false, Bool.not_true, htotal,
    hrest, hsize]
  rfl

/-- Up to the loop, when the whole frame has arrived. -/
theorem acceptCallback_whole (env : Allocator) {c : List UInt8} {cs : List (List UInt8)}
    (more : List (List UInt8)) {body : List UInt8} (hc : 4 ≤ c.length)
    (hflat : (c :: cs).flatten = frame body) :
    acceptCallback env ⟨false, true⟩ (c :: cs ++ more)
      = acceptLoop env (UInt32.ofNat (cs.map List.length).sum).toInt32 (cs ++ more)
          (receive env [c.drop 4] {}) :=
  acceptCallback_eq env more [] hc (by rw [List.append_nil, hflat])

/-- The chunks of a frame whose body is all ones. -/
def onesChunks (n₀ : ℕ) (ns : List ℕ) : List (List UInt8) :=
  (wire32 (UInt32.ofNat (n₀ - 4 + ns.sum + 4)) ++ List.replicate (n₀ - 4) 1) ::
    ns.map fun n => List.replicate n 1

theorem flatten_replicate (ns : List ℕ) :
    (ns.map fun n => List.replicate n (1 : UInt8)).flatten = List.replicate ns.sum 1 := by
  induction ns with
  | nil => rfl
  | cons n ns ih => rw [List.map_cons, List.flatten_cons, ih, List.sum_cons,
      List.replicate_append_replicate]

theorem flatten_onesChunks (n₀ : ℕ) (ns : List ℕ) :
    (onesChunks n₀ ns).flatten = frame (List.replicate (n₀ - 4 + ns.sum) 1) := by
  rw [onesChunks, List.flatten_cons, flatten_replicate, List.append_assoc,
    List.replicate_append_replicate, frame, List.length_replicate]

/-- **Reassembly.** A split of frames into chunks of `n₀` and `ns` bytes is reassembled, for
every body, exactly when the rest after the first chunk is shorter than `2 ^ 31`, every chunk
but the last contributes a multiple of four bytes, and the parcel always finds or makes
room. -/
theorem reassembles_iff (env : Allocator) (henv : env.Succeeds) (n₀ : ℕ) (ns : List ℕ)
    (h₀ : 4 ≤ n₀) (hle : ∀ n ∈ n₀ :: ns, 0 < n ∧ n ≤ 1024) (hsum : (n₀ :: ns).sum < 2 ^ 32) :
    (∀ chunks body, chunks.map List.length = n₀ :: ns → chunks.flatten = frame body →
      Reassembled env chunks body) ↔
    ns.sum < 2 ^ 31 ∧ (∀ n ∈ ((n₀ - 4) :: ns).dropLast, 4 ∣ n) ∧
      Accepts 0 0 ((n₀ - 4) :: ns) := by
  constructor
  · intro h
    have hns : ∀ n ∈ ns, 0 < n ∧ n ≤ 1024 := fun n hn => hle n (List.mem_cons_of_mem _ hn)
    have hmap : (ns.map fun n => List.replicate n (1 : UInt8)).map List.length = ns := by
      simp [Function.comp_def]
    have hflat : (onesChunks n₀ ns).flatten = frame (List.replicate (n₀ - 4 + ns.sum) 1) :=
      flatten_onesChunks n₀ ns
    obtain ⟨p, hp, -, htake⟩ := h (onesChunks n₀ ns) _ (by
      rw [onesChunks, List.map_cons, hmap, List.length_append, length_wire32,
        List.length_replicate]
      congr 1
      omega) hflat []
    rw [onesChunks] at hp hflat
    rw [acceptCallback_whole env [] (by simp) hflat, hmap] at hp
    have hlt : ns.sum < 2 ^ 31 := by
      by_contra hge
      have hstop : ¬ (UInt32.ofNat ns.sum).toInt32 > 0 := by
        rw [toInt32_pos_iff (by rw [List.sum_cons] at hsum; omega)]
        omega
      obtain ⟨n, ms, rfl⟩ : ∃ n ms, ns = n :: ms := by
        cases ns with
        | nil => simp at hge
        | cons n ms => exact ⟨n, ms, rfl⟩
      simp only [List.append_nil, List.map_cons, acceptLoop, if_neg hstop, AcceptResult.accepted.injEq]
        at hp
      exact absurd hp.2 (by simp)
    have hloop := acceptLoop_eq env (ns.map fun n => List.replicate n 1) [] (by
      intro c hc
      obtain ⟨n, hn, rfl⟩ := List.mem_map.mp hc
      rw [List.length_replicate]
      exact (hns n hn).1) (receive env [List.replicate (n₀ - 4) 1] {}) (by rw [hmap]; exact hlt)
    rw [hmap] at hloop
    rw [List.drop_left' (by simp), hloop, AcceptResult.accepted.injEq] at hp
    obtain ⟨bs, hbs, -, hones⟩ := receive_ones henv ((n₀ - 4) :: ns) (by
      intro n hn
      rcases List.mem_cons.mp hn with rfl | hn
      · have := hle n₀ List.mem_cons_self
        omega
      · exact (hns n hn).2) (fun n hn => (hns n hn).1) receiving_new
    refine ⟨hlt, hones ?_⟩
    have hcontents : p.contents = bs := by
      rw [← hp.1]
      exact hbs
    rw [hcontents, List.length_replicate] at htake
    exact htake
  · rintro ⟨hlt, hdvd, hacc⟩ chunks body hsizes hflat more
    obtain ⟨c, cs, rfl⟩ : ∃ c cs, chunks = c :: cs := by
      cases chunks with
      | nil => simp at hsizes
      | cons c cs => exact ⟨c, cs, rfl⟩
    rw [List.map_cons, List.cons.injEq] at hsizes
    obtain ⟨hc, hcs⟩ := hsizes
    have hbody : body = c.drop 4 ++ cs.flatten := by
      have h := congrArg (List.drop 4) hflat
      rw [List.flatten_cons, List.drop_append_of_le_length (by omega), frame,
        List.drop_left' (by simp)] at h
      exact h.symm
    refine ⟨(receive env cs (receive env [c.drop 4] {})).setDataPosition 0, ?_, rfl, ?_⟩
    · rw [acceptCallback_whole env more (by omega) hflat,
        acceptLoop_eq env cs more ?_ _ (by rw [hcs]; exact hlt)]
      intro d hd
      exact (hle d.length (List.mem_cons_of_mem _ (hcs ▸ List.mem_map_of_mem hd))).1
    · have hmap : (c.drop 4 :: cs).map List.length = (n₀ - 4) :: ns := by
        rw [List.map_cons, List.length_drop, hc, hcs]
      have hcontents := contents_receive henv (c.drop 4 :: cs) receiving_new
        (by rw [hmap]; exact hdvd) (by rw [hmap]; exact hacc)
      change (receive env (c.drop 4 :: cs) {}).contents.take _ = _
      rw [hcontents, hbody]
      exact List.take_left

/-- A frame of fifteen bytes in chunks of eight, four and three. -/
theorem reassembles_eight_four_three :
    Reassembled .zeros [[0, 0, 0, 15, 1, 2, 3, 4], [5, 6, 7, 8], [9, 10, 11]]
      [1, 2, 3, 4, 5, 6, 7, 8, 9, 10, 11] :=
  (reassembles_iff .zeros Allocator.zeros_succeeds 8 [4, 3] (by decide) (by decide)
    (by decide)).mpr ⟨by decide, by decide, by simp [Accepts, pad4]⟩ _ _ rfl rfl

end ElastosCar
