import ElastosCar.Lib.Trace

/-!
# The connection of a proxy

The first call on a `CObjectProxy` connects it: `ProxyEntry_RPC` of `linux_rpc/proxy.cpp` tests
`mSocketfd`, opens a socket, connects and configures it, stores it in `mSocketfd`, and starts the
ping task. None of this is under `mLock`, so the steps of several calls interleave.

* Two calls that both find `mSocketfd` at `-1` both connect, and the second assignment loses the
  first socket.
* A call that fails after `socket` returns without closing what it opened.
* The destructor stops the ping task and leaves the socket open.

`oneConnection_of_meets` shows that these are the only ways to go wrong.
-/

namespace ElastosCar

/-- Where a thread is in `ProxyEntry_RPC`. -/
inductive CallState
  | outside
  /-- `mSocketfd` was `-1`. -/
  | tested
  | opened (socketfd : ℕ)
  | connected (socketfd : ℕ)
  | configured (socketfd : ℕ)
  /-- `mSocketfd` has been assigned. -/
  | assigned
  /-- `mPingTask` was `NULL`. -/
  | unpinged
  /-- `RunTask` has been called. -/
  | started
  /-- The rest of the call. -/
  | exchanging
deriving DecidableEq, Repr

/-- The socket that only this call knows of. -/
def CallState.socketfd : CallState → Option ℕ
  | .opened fd | .connected fd | .configured fd => some fd
  | _ => none

/-- Between the test of `mSocketfd` and its assignment. -/
def CallState.connecting : CallState → Bool
  | .tested | .opened _ | .connected _ | .configured _ => true
  | _ => false

/-- Between the assignment of `mSocketfd` and that of `mPingTask`. -/
def CallState.pinging : CallState → Bool
  | .assigned | .unpinged | .started => true
  | _ => false

/-- A proxy and the calls on it. -/
structure ConnectState where
  /-- `none` is `-1`. -/
  mSocketfd : Option ℕ := none
  /-- Whether `mPingTask` is not `NULL`. -/
  mPingTask : Bool := false
  destroyed : Bool := false
  /-- The sockets opened so far are those below this number. -/
  opened : ℕ := 0
  /-- The sockets that were closed. No code of the proxy closes one. -/
  closed : List ℕ := []
  /-- What was assigned to `mSocketfd`, in order. -/
  installed : List ℕ := []
  /-- The ping tasks started. -/
  pings : ℕ := 0
  /-- The threads that are in a call. -/
  calls : List ℕ := []
  thread : ℕ → CallState := fun _ => .outside

/-- The steps. The number is the thread, and the flag whether the system call succeeds. -/
inductive ConnectAction
  | enter (t : ℕ)
  | socket (t : ℕ) (ok : Bool)
  | connect (t : ℕ) (ok : Bool)
  | setsockopt (t : ℕ) (ok : Bool)
  | install (t : ℕ)
  | testPingTask (t : ℕ)
  | runTask (t : ℕ)
  | setPingTask (t : ℕ)
  | leave (t : ℕ)
  /-- `~CObjectProxy`. -/
  | destroy
deriving DecidableEq, Repr

namespace ConnectState

def goto (t : ℕ) (c : CallState) (s : ConnectState) : ConnectState :=
  { s with thread := Function.update s.thread t c }

/-- The call returns. -/
def exit (t : ℕ) (s : ConnectState) : ConnectState :=
  { s.goto t .outside with calls := s.calls.erase t }

/-- One step. A call holds a reference, so the destructor runs when no call is under way. -/
def step (s : ConnectState) : ConnectAction → Option ConnectState
  | .enter t =>
    if s.destroyed = false ∧ s.thread t = .outside then
      some { s.goto t (if s.mSocketfd = none then .tested else .exchanging) with
        calls := t :: s.calls }
    else none
  | .socket t ok =>
    match s.thread t with
    | .tested =>
      some (if ok then { s.goto t (.opened s.opened) with opened := s.opened + 1 } else s.exit t)
    | _ => none
  | .connect t ok =>
    match s.thread t with
    | .opened fd => some (if ok then s.goto t (.connected fd) else s.exit t)
    | _ => none
  | .setsockopt t ok =>
    match s.thread t with
    | .connected fd => some (if ok then s.goto t (.configured fd) else s.exit t)
    | _ => none
  | .install t =>
    match s.thread t with
    | .configured fd =>
      some { s.goto t .assigned with mSocketfd := some fd, installed := s.installed ++ [fd] }
    | _ => none
  | .testPingTask t =>
    match s.thread t with
    | .assigned => some (s.goto t (if s.mPingTask then .exchanging else .unpinged))
    | _ => none
  | .runTask t =>
    match s.thread t with
    | .unpinged => some { s.goto t .started with pings := s.pings + 1 }
    | _ => none
  | .setPingTask t =>
    match s.thread t with
    | .started => some { s.goto t .exchanging with mPingTask := true }
    | _ => none
  | .leave t =>
    match s.thread t with
    | .exchanging => some (s.exit t)
    | _ => none
  | .destroy =>
    if s.destroyed = false ∧ s.calls = [] then some { s with destroyed := true } else none

/-- One socket is installed and one ping task started, what a call opened is installed or closed
when it has returned, and the installed socket is closed with the proxy. -/
structure OneConnection (s : ConnectState) : Prop where
  installed : s.installed.length ≤ 1
  pings : s.pings ≤ 1
  returned : ∀ fd < s.opened,
    (∃ t, (s.thread t).socketfd = some fd) ∨ s.mSocketfd = some fd ∨ fd ∈ s.closed
  destroyed : s.destroyed = true → ∀ fd, s.mSocketfd = some fd → fd ∈ s.closed

/-- No call finds `mSocketfd` at `-1` while another one is connecting, an open socket is connected
and configured without failure, and a connected proxy is not destroyed. -/
def Orderly (s : ConnectState) : ConnectAction → Prop
  | .enter _ => s.mSocketfd = none → ∀ t, (s.thread t).connecting = false
  | .connect _ ok | .setsockopt _ ok => ok = true
  | .destroy => s.mSocketfd = none
  | _ => True

/-- The invariant of the orderly runs. -/
structure Sound (s : ConnectState) : Prop where
  calls : ∀ t, s.thread t ≠ .outside → t ∈ s.calls
  connecting : ∀ t, (s.thread t).connecting = true → s.mSocketfd = none
  pinging : ∀ t, (s.thread t).pinging = true → s.mSocketfd ≠ none
  connectingOnce : ∀ t t', (s.thread t).connecting = true → (s.thread t').connecting = true → t = t'
  pingingOnce : ∀ t t', (s.thread t).pinging = true → (s.thread t').pinging = true → t = t'
  installed : s.installed = s.mSocketfd.toList
  unpinged : s.mSocketfd = none → s.pings = 0
  assigned : ∀ t, s.thread t = .assigned ∨ s.thread t = .unpinged → s.pings = 0
  pings : s.pings ≤ 1
  sockets : ∀ fd < s.opened, (∃ t, (s.thread t).socketfd = some fd) ∨ s.mSocketfd = some fd
  destroyed : s.destroyed = true → s.mSocketfd = none ∧ s.calls = []

theorem Sound.oneConnection {s : ConnectState} (h : s.Sound) : s.OneConnection where
  installed := by
    rw [h.installed]
    cases s.mSocketfd <;> simp
  pings := h.pings
  returned fd hfd := (h.sockets fd hfd).imp_right .inl
  destroyed hd fd hfd := by
    rw [(h.destroyed hd).1] at hfd
    cases hfd

theorem sound_init : Sound {} where
  calls _ h := absurd rfl h
  connecting _ h := nomatch h
  pinging _ h := nomatch h
  connectingOnce _ _ h := nomatch h
  pingingOnce _ _ h := nomatch h
  installed := rfl
  unpinged _ := rfl
  assigned _ h := by rcases h with h | h <;> cases h
  pings := Nat.zero_le _
  sockets _ h := absurd h (Nat.not_lt_zero _)
  destroyed h := nomatch h

/-! ### The steps -/

section

variable {s : ConnectState}

theorem thread_goto {t t' : ℕ} {c : CallState} :
    (s.goto t c).thread t' = if t' = t then c else s.thread t' := by
  change Function.update s.thread t c t' = _
  rw [Function.update_apply]

theorem connecting_of_socketfd {c : CallState} {fd : ℕ} (h : c.socketfd = some fd) :
    c.connecting = true := by
  cases c with
  | opened _ | connected _ | configured _ => rfl
  | outside | tested | assigned | unpinged | started | exchanging => cases h

/-- A call goes on without leaving the section it is in, and keeps its socket. -/
theorem Sound.goto (hs : s.Sound) {t : ℕ} {c : CallState} (hcall : t ∈ s.calls)
    (hconn : c.connecting = true → (s.thread t).connecting = true)
    (hping : c.pinging = true → (s.thread t).pinging = true)
    (hassigned : c = .assigned ∨ c = .unpinged → s.pings = 0)
    (hsocket : ∀ fd, (s.thread t).socketfd = some fd → c.socketfd = some fd) :
    (s.goto t c).Sound := by
  have hconn' : ∀ t', ((s.goto t c).thread t').connecting = true →
      (s.thread t').connecting = true := by
    intro t' h
    rw [thread_goto] at h
    split at h
    · next ht => exact ht ▸ hconn h
    · exact h
  have hping' : ∀ t', ((s.goto t c).thread t').pinging = true → (s.thread t').pinging = true := by
    intro t' h
    rw [thread_goto] at h
    split at h
    · next ht => exact ht ▸ hping h
    · exact h
  refine
    { hs with
      calls := fun t' h => ?_
      connecting := fun t' h => hs.connecting t' (hconn' t' h)
      pinging := fun t' h => hs.pinging t' (hping' t' h)
      connectingOnce := fun t' t'' h h' => hs.connectingOnce t' t'' (hconn' t' h) (hconn' t'' h')
      pingingOnce := fun t' t'' h h' => hs.pingingOnce t' t'' (hping' t' h) (hping' t'' h')
      assigned := fun t' h => ?_
      sockets := fun fd hfd => ?_ }
  · rw [thread_goto] at h
    split at h
    · next ht => exact ht ▸ hcall
    · exact hs.calls t' h
  · rw [thread_goto] at h
    split at h
    · exact hassigned h
    · exact hs.assigned t' h
  · refine (hs.sockets fd hfd).imp_left ?_
    rintro ⟨t', ht'⟩
    refine ⟨t', ?_⟩
    rw [thread_goto]
    split
    · next ht => exact hsocket fd (ht ▸ ht')
    · exact ht'

/-- A call returns that has no socket of its own. -/
theorem Sound.exit (hs : s.Sound) {t : ℕ} (hcall : t ∈ s.calls)
    (hsocket : (s.thread t).socketfd = none) : (s.exit t).Sound := by
  have hbase : (s.goto t .outside).Sound :=
    hs.goto hcall nofun nofun (by rintro (h | h) <;> cases h) (by simp [hsocket])
  refine { hbase with calls := fun t' h => ?_, destroyed := fun hd => ?_ }
  · have ht : t' ≠ t := by
      rintro rfl
      exact h (thread_goto.trans (if_pos rfl))
    exact (List.mem_erase_of_ne ht).mpr (hbase.calls t' h)
  · have hnil := (hs.destroyed hd).2
    rw [hnil] at hcall
    cases hcall

theorem Sound.enter (hs : s.Sound) {t : ℕ} (halive : s.destroyed = false)
    (houtside : s.thread t = .outside)
    (hok : s.mSocketfd = none → ∀ t, (s.thread t).connecting = false) :
    Sound { s.goto t (if s.mSocketfd = none then .tested else .exchanging) with
      calls := t :: s.calls } := by
  have hback : ∀ t', (s.goto t (if s.mSocketfd = none then .tested else .exchanging)).thread t'
      = if t' = t then (if s.mSocketfd = none then .tested else .exchanging) else s.thread t' :=
    fun t' => thread_goto
  have hconn : ∀ t', ((s.goto t (if s.mSocketfd = none then .tested else .exchanging)).thread
      t').connecting = true → t' = t ∧ s.mSocketfd = none ∨
        (s.thread t').connecting = true ∧ s.mSocketfd ≠ none := by
    intro t' h
    rw [hback] at h
    split at h
    · next ht =>
      split at h
      · next hnone => exact .inl ⟨ht, hnone⟩
      · cases h
    · exact .inr ⟨h, fun hnone => by rw [hok hnone t'] at h; cases h⟩
  have hping : ∀ t', ((s.goto t (if s.mSocketfd = none then .tested else .exchanging)).thread
      t').pinging = true → (s.thread t').pinging = true := by
    intro t' h
    rw [hback] at h
    split at h
    · split at h <;> cases h
    · exact h
  refine
    { hs with
      calls := fun t' h => ?_
      connecting := fun t' h => ?_
      pinging := fun t' h => hs.pinging t' (hping t' h)
      connectingOnce := fun t' t'' h h' => ?_
      pingingOnce := fun t' t'' h h' => hs.pingingOnce t' t'' (hping t' h) (hping t'' h')
      assigned := fun t' h => ?_
      sockets := fun fd hfd => ?_
      destroyed := fun hd => ?_ }
  · rw [hback] at h
    split at h
    · next ht => exact ht ▸ List.mem_cons_self
    · exact List.mem_cons_of_mem _ (hs.calls t' h)
  · rcases hconn t' h with ⟨-, hnone⟩ | ⟨h, -⟩
    · exact hnone
    · exact hs.connecting t' h
  · rcases hconn t' h with ⟨ht', hnone⟩ | ⟨hc, hne⟩
    · rcases hconn t'' h' with ⟨ht'', -⟩ | ⟨-, hne⟩
      · exact ht'.trans ht''.symm
      · exact absurd hnone hne
    · exact absurd (hs.connecting t' hc) hne
  · rw [hback] at h
    split at h
    · split at h <;> rcases h with h | h <;> cases h
    · exact hs.assigned t' h
  · refine (hs.sockets fd hfd).imp_left ?_
    rintro ⟨t', ht'⟩
    refine ⟨t', ?_⟩
    rw [hback, if_neg]
    · exact ht'
    · rintro rfl
      rw [houtside] at ht'
      cases ht'
  · exact absurd (halive.symm.trans hd) nofun

theorem Sound.install (hs : s.Sound) {t fd : ℕ} (ht : s.thread t = .configured fd) :
    Sound { s.goto t .assigned with
      mSocketfd := some fd, installed := s.installed ++ [fd] } := by
  have hconn : (s.thread t).connecting = true := by rw [ht]; rfl
  have hnone := hs.connecting t hconn
  -- this is the only call that is connecting, and none is starting a ping task
  have hother : ∀ t', t' ≠ t → (s.thread t').connecting = false := by
    intro t' hne
    by_contra hc
    exact hne (hs.connectingOnce t' t (Bool.not_eq_false _ ▸ hc) hconn)
  have hping : ∀ t', (s.thread t').pinging = false := by
    intro t'
    by_contra hc
    exact hs.pinging t' (Bool.not_eq_false _ ▸ hc) hnone
  have honly : ∀ t', ((s.goto t .assigned).thread t').pinging = true → t' = t := by
    intro t' h
    by_contra hne
    rw [thread_goto, if_neg hne, hping] at h
    cases h
  refine ⟨fun t' h => ?_, fun t' h => ?_, fun _ _ => nofun, fun t' _ h _ => ?_, fun t' t'' h h' => ?_,
    ?_, nofun, fun _ _ => hs.unpinged hnone, hs.pings, fun fd' hfd' => ?_, fun hd => ?_⟩
  · change (s.goto t .assigned).thread t' ≠ _ at h
    rw [thread_goto] at h
    split at h
    · next h' => exact hs.calls t' (by rw [h', ht]; nofun)
    · exact hs.calls t' h
  · change ((s.goto t .assigned).thread t').connecting = true at h
    rw [thread_goto] at h
    split at h
    · cases h
    · next hne =>
      rw [hother t' hne] at h
      cases h
  · change ((s.goto t .assigned).thread t').connecting = true at h
    rw [thread_goto] at h
    split at h
    · cases h
    · next hne =>
      rw [hother t' hne] at h
      cases h
  · exact (honly t' h).trans (honly t'' h').symm
  · change s.installed ++ [fd] = [fd]
    rw [hs.installed, hnone]
    rfl
  · right
    rcases hs.sockets fd' hfd' with ⟨t', ht'⟩ | h
    · have : t' = t := hs.connectingOnce t' t (connecting_of_socketfd ht') hconn
      rw [this, ht] at ht'
      exact ht'
    · rw [hnone] at h
      cases h
  · have hcall := hs.calls t (by rw [ht]; nofun)
    rw [(hs.destroyed hd).2] at hcall
    cases hcall

/-- The new socket is the one that its call knows of. -/
theorem Sound.socket (hs : s.Sound) {t : ℕ} (ht : s.thread t = .tested) (hcall : t ∈ s.calls) :
    Sound { s.goto t (.opened s.opened) with opened := s.opened + 1 } := by
  have hbase : (s.goto t (.opened s.opened)).Sound :=
    hs.goto hcall (fun _ => by rw [ht]; rfl) nofun (by rintro (h | h) <;> cases h)
      (fun fd h => by rw [ht] at h; cases h)
  refine { hbase with sockets := fun fd hfd => ?_ }
  rcases Nat.lt_succ_iff_lt_or_eq.mp hfd with hlt | rfl
  · exact hbase.sockets fd hlt
  · refine .inl ⟨t, ?_⟩
    change ((s.goto t (.opened s.opened)).thread t).socketfd = _
    rw [thread_goto, if_pos rfl]
    rfl

theorem Sound.runTask (hs : s.Sound) {t : ℕ} (ht : s.thread t = .unpinged) (hcall : t ∈ s.calls) :
    Sound { s.goto t .started with pings := s.pings + 1 } := by
  have hping : (s.thread t).pinging = true := by rw [ht]; rfl
  have hbase : (s.goto t .started).Sound :=
    hs.goto hcall nofun (fun _ => hping) (by rintro (h | h) <;> cases h)
      (fun fd h => by rw [ht] at h; cases h)
  have hzero := hs.assigned t (.inr ht)
  refine { hbase with
    unpinged := fun hnone => absurd hnone (hs.pinging t hping)
    assigned := fun t' h => ?_
    pings := by change s.pings + 1 ≤ 1; omega }
  -- no other call is between the two assignments
  change (s.goto t .started).thread t' = .assigned ∨ (s.goto t .started).thread t' = .unpinged at h
  rw [thread_goto] at h
  split at h
  · rcases h with h | h <;> cases h
  · next hne =>
    have hother : (s.thread t').pinging = true := by rcases h with h | h <;> rw [h] <;> rfl
    exact absurd (hs.pingingOnce t' t hother hping) hne

/-- **One step** within the condition. -/
theorem Sound.step (hs : s.Sound) {a : ConnectAction} {s' : ConnectState} (hok : s.Orderly a)
    (h : s.step a = some s') : s'.Sound := by
  have hcall : ∀ {t c}, s.thread t = c → c ≠ .outside → t ∈ s.calls :=
    fun ht hc => hs.calls _ (ht ▸ hc)
  cases a with
  | enter t =>
    rw [ConnectState.step, Option.ite_none_right_eq_some] at h
    obtain ⟨⟨halive, houtside⟩, h⟩ := h
    cases h
    exact hs.enter halive houtside hok
  | socket t ok =>
    rw [ConnectState.step] at h
    split at h
    swap
    · cases h
    next ht =>
    cases h
    cases ok with
    | false => exact hs.exit (hcall ht nofun) (by rw [ht]; rfl)
    | true => exact hs.socket ht (hcall ht nofun)
  | connect t ok =>
    obtain rfl : ok = true := hok
    rw [ConnectState.step] at h
    split at h
    swap
    · cases h
    next fd ht =>
    cases h
    exact hs.goto (hcall ht nofun) (fun _ => by rw [ht]; rfl) nofun
      (by rintro (h | h) <;> cases h) (fun _ h => by rw [ht] at h; exact h)
  | setsockopt t ok =>
    obtain rfl : ok = true := hok
    rw [ConnectState.step] at h
    split at h
    swap
    · cases h
    next fd ht =>
    cases h
    exact hs.goto (hcall ht nofun) (fun _ => by rw [ht]; rfl) nofun
      (by rintro (h | h) <;> cases h) (fun _ h => by rw [ht] at h; exact h)
  | install t =>
    rw [ConnectState.step] at h
    split at h
    swap
    · cases h
    next fd ht =>
    cases h
    exact hs.install ht
  | testPingTask t =>
    rw [ConnectState.step] at h
    split at h
    swap
    · cases h
    next ht =>
    cases h
    refine hs.goto (hcall ht nofun) ?_ (fun _ => by rw [ht]; rfl) (fun _ => hs.assigned t (.inl ht))
      (fun _ h => by rw [ht] at h; cases h)
    split <;> nofun
  | runTask t =>
    rw [ConnectState.step] at h
    split at h
    swap
    · cases h
    next ht =>
    cases h
    exact hs.runTask ht (hcall ht nofun)
  | setPingTask t =>
    rw [ConnectState.step] at h
    split at h
    swap
    · cases h
    next ht =>
    cases h
    have hbase : (s.goto t .exchanging).Sound :=
      hs.goto (hcall ht nofun) nofun nofun (by rintro (h | h) <;> cases h)
        (fun _ h => by rw [ht] at h; cases h)
    exact { hbase with }
  | leave t =>
    rw [ConnectState.step] at h
    split at h
    swap
    · cases h
    next ht =>
    cases h
    exact hs.exit (hcall ht nofun) (by rw [ht]; rfl)
  | destroy =>
    rw [ConnectState.step, Option.ite_none_right_eq_some] at h
    obtain ⟨⟨-, hnil⟩, h⟩ := h
    cases h
    exact { hs with destroyed := fun _ => ⟨hok, hnil⟩ }

end

/-- **One connection.** In every run in which the first calls do not overlap, no step after
`socket` fails and a connected proxy is not destroyed, one socket is installed, one ping task
started, and no socket is lost. -/
theorem oneConnection_of_meets (as : List ConnectAction) (s : ConnectState)
    (hok : Trace.Meets step Orderly {} as) (hrun : Trace.run step {} as = some s) :
    s.OneConnection :=
  (Trace.run_invariant (fun _ _ _ hs hok h => hs.step hok h) sound_init hok hrun).oneConnection

/-- Two threads make the first call. -/
def bothFirst : List ConnectAction :=
  [.enter 0, .enter 1, .socket 0 true, .socket 1 true, .connect 0 true, .connect 1 true,
    .setsockopt 0 true, .setsockopt 1 true, .install 0, .install 1]

theorem not_oneConnection_bothFirst :
    ¬ ∀ (as : List ConnectAction) (s : ConnectState),
      Trace.run step {} as = some s → s.OneConnection := by
  intro h
  have hrun : ∃ s, Trace.run step {} bothFirst = some s ∧ s.installed = [0, 1] := ⟨_, rfl, rfl⟩
  obtain ⟨s, hs, h2⟩ := hrun
  have h1 := (h bothFirst s hs).installed
  rw [h2] at h1
  exact absurd h1 (by decide)

/-- The first call fails to get a socket, the next one connects, and a third finds it connected. -/
def oneAfterTheOther : List ConnectAction :=
  [.enter 0, .socket 0 false, .enter 1, .socket 1 true, .connect 1 true, .setsockopt 1 true,
    .install 1, .enter 0, .testPingTask 1, .runTask 1, .setPingTask 1, .leave 1, .leave 0]

theorem oneConnection_of_meets_oneAfterTheOther :
    ∃ s, Trace.run step {} oneAfterTheOther = some s ∧ s.installed = [0] ∧ s.pings = 1 ∧
      s.OneConnection := by
  refine ⟨_, rfl, rfl, rfl, oneConnection_of_meets oneAfterTheOther _ ?_ rfl⟩
  refine .cons (fun _ _ => rfl) rfl (.cons trivial rfl (.cons ?_ rfl (.cons trivial rfl
    (.cons rfl rfl (.cons rfl rfl (.cons trivial rfl (.cons nofun rfl (.cons trivial rfl
      (.cons trivial rfl (.cons trivial rfl (.cons trivial rfl (.cons trivial rfl
        trivial))))))))))))
  -- the call that failed has returned
  rintro - (_ | t) <;> rfl

end ConnectState

end ElastosCar
