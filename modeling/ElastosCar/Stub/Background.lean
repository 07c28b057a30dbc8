import ElastosCar.Lib.Trace

/-!
# What runs in the background

The looper of `linux_rpc/looper.cpp` calls back with a pointer to a `CObjectStub`, a
`TransactRunnable` keeps one while it carries out a request, and the `PingRunnable` of a
`CObjectProxy` keeps one to its proxy. None of them holds a reference.

* A stub can be deleted by a `RELEASE`, and the runnable that carries it out is not finished then.
* The destructor of a stub removes the listening socket and `mConnfd`, which is the latest
  connection only. `PollInner` collects what is ready first and calls back without another look,
  so a callback may also be due for a descriptor that was removed.
* The destructor of a proxy stops the ping thread with a signal, whose handler ends the thread.
  Until it is delivered, the thread goes on with what it does.

`alive_of_meets` shows that these are the only ways in which a background step can meet an object
that is gone.
-/

namespace ElastosCar

/-! ### The stub -/

/-- A `TransactRunnable`: its command is to be carried out, or was and the runnable is still
there. -/
inductive Runnable
  | pending (release : Bool)
  | acted
deriving DecidableEq, Repr

/-- A `CObjectStub`, and what refers to it. -/
structure StubLife where
  mRef : ℤ := 0
  destroyed : Bool := false
  /-- The listening socket is number 0, and the next connection has this number. -/
  nextFd : ℕ := 1
  /-- The latest connection. -/
  mConnfd : Option ℕ := none
  /-- The descriptors in the looper whose data is the stub. -/
  registered : List ℕ := [0]
  /-- The descriptors for which `PollInner` is going to call back with the stub. -/
  responses : List ℕ := []
  runnables : List Runnable := []

/-- The steps around a stub. -/
inductive StubAction
  | addRef
  /-- `Release`, in the process of the stub. -/
  | release
  /-- `PollInner` collects a descriptor. -/
  | poll (fd : ℕ)
  /-- `ListenCallback` accepts a connection; the looper takes it or is full. -/
  | accept (added : Bool)
  /-- `AcceptCallback` hands a request on. -/
  | request (fd : ℕ) (release : Bool)
  /-- A callback fails, and its descriptor is removed. -/
  | fail (fd : ℕ)
  /-- A runnable carries out its command. -/
  | transact (release : Bool)
  /-- A runnable is finished. -/
  | finish
deriving DecidableEq, Repr

namespace StubLife

/-- `Release`; the last one runs `~CObjectStub`. -/
def decRef (s : StubLife) : StubLife :=
  if s.mRef = 1 then
    { s with
      mRef := 0
      destroyed := true
      registered := s.registered.filter fun fd => decide (fd ≠ 0 ∧ some fd ≠ s.mConnfd) }
  else { s with mRef := s.mRef - 1 }

/-- One step. -/
def step (s : StubLife) : StubAction → Option StubLife
  | .addRef => if s.destroyed = false then some { s with mRef := s.mRef + 1 } else none
  | .release => if s.destroyed = false then some s.decRef else none
  | .poll fd =>
    if fd ∈ s.registered then some { s with responses := fd :: s.responses } else none
  | .accept added =>
    if 0 ∈ s.responses then
      some { s with
        responses := s.responses.erase 0
        nextFd := s.nextFd + 1
        mConnfd := some s.nextFd
        registered := if added then s.nextFd :: s.registered else s.registered }
    else none
  | .request fd release =>
    if fd ∈ s.responses ∧ fd ≠ 0 then
      some { s with
        responses := s.responses.erase fd
        runnables := .pending release :: s.runnables }
    else none
  | .fail fd =>
    if fd ∈ s.responses then
      some { s with
        responses := s.responses.erase fd
        registered := s.registered.filter (· ≠ fd) }
    else none
  | .transact release =>
    if .pending release ∈ s.runnables then
      let s := { s with runnables := .acted :: s.runnables.erase (.pending release) }
      some (if release then s.decRef else s)
    else none
  | .finish =>
    if .acted ∈ s.runnables then some { s with runnables := s.runnables.erase .acted } else none

/-- Whatever refers to the stub finds it alive. -/
def Alive (s : StubLife) : Prop :=
  s.destroyed = true → s.registered = [] ∧ s.responses = [] ∧ s.runnables = []

/-- The count of a stub does not fall to zero by a `RELEASE`; and where it does, no runnable and no
callback is due, and `mConnfd` is the only connection. -/
def Unused (s : StubLife) : StubAction → Prop
  | .release => s.mRef = 1 → s.runnables = [] ∧ s.responses = [] ∧
      ∀ fd ∈ s.registered, fd = 0 ∨ some fd = s.mConnfd
  | .transact release => release = true → s.mRef ≠ 1
  | _ => True

end StubLife

/-! ### The proxy -/

/-- The ping thread. -/
inductive PingState
  | unstarted
  | asleep
  /-- Between two sleeps: it locks `mLock`, sends, receives. -/
  | awake
  | ended
deriving DecidableEq, Repr

/-- A `CObjectProxy` and its ping thread. -/
structure ProxyLife where
  mRef : ℕ := 1
  /-- Whether the destructor has started. -/
  destroying : Bool := false
  ping : PingState := .unstarted
  /-- Whether the thread has been sent `SIGUSR2`. -/
  signalled : Bool := false
  /-- Whether the thread used `mHost` after the start of the destructor. -/
  usedLate : Bool := false
deriving DecidableEq, Repr

/-- The steps around a proxy. -/
inductive ProxyAction
  | addRef
  /-- A call that connects the proxy and starts the ping task. -/
  | call
  | release
  /-- The destructor calls `StopTask`. -/
  | stopTask
  /-- The handler of the signal ends the thread. -/
  | deliver
  /-- `sleep` returns. -/
  | wake
  /-- The thread uses `mHost`, and is then in this state. -/
  | use (next : PingState)
deriving DecidableEq, Repr

namespace ProxyLife

/-- One step. -/
def step (s : ProxyLife) : ProxyAction → Option ProxyLife
  | .addRef => if s.destroying = false then some { s with mRef := s.mRef + 1 } else none
  | .call =>
    if s.destroying = false then
      some { s with ping := if s.ping = .unstarted then .asleep else s.ping }
    else none
  | .release =>
    if s.destroying = false ∧ 0 < s.mRef then
      some { s with mRef := s.mRef - 1, destroying := decide (s.mRef = 1) }
    else none
  | .stopTask =>
    if s.destroying ∧ s.ping ≠ .unstarted then some { s with signalled := true } else none
  | .deliver =>
    if s.signalled ∧ (s.ping = .asleep ∨ s.ping = .awake) then some { s with ping := .ended }
    else none
  | .wake => if s.ping = .asleep then some { s with ping := .awake } else none
  | .use next =>
    if s.ping = .awake ∧ next ≠ .unstarted then
      some { s with ping := next, usedLate := s.usedLate || s.destroying }
    else none

/-- The destructor starts while the thread does not use the proxy, and the thread does not wake
after that. -/
def Rests (s : ProxyLife) : ProxyAction → Prop
  | .release => s.mRef = 1 → s.ping ≠ .awake
  | .wake => s.destroying = false
  | _ => True

end ProxyLife

/-! ### Both -/

/-- A stub, a proxy and the background. -/
structure BackgroundState where
  stub : StubLife := {}
  proxy : ProxyLife := {}

/-- A step around one of them. -/
inductive BackgroundAction
  | stub (a : StubAction)
  | proxy (a : ProxyAction)
deriving DecidableEq, Repr

namespace BackgroundState

/-- One step. -/
def step (s : BackgroundState) : BackgroundAction → Option BackgroundState
  | .stub a => (s.stub.step a).map fun t => { s with stub := t }
  | .proxy a => (s.proxy.step a).map fun t => { s with proxy := t }

/-- No background step meets an object that is gone. -/
structure Alive (s : BackgroundState) : Prop where
  stub : s.stub.Alive
  proxy : s.proxy.usedLate = false

/-- The condition of both. -/
def Careful (s : BackgroundState) : BackgroundAction → Prop
  | .stub a => s.stub.Unused a
  | .proxy a => s.proxy.Rests a

end BackgroundState

/-! ### The steps -/

section

variable {s s' : StubLife}

/-- A `Release` that is not the last one keeps the stub. -/
theorem StubLife.Alive.decRef_of_ne (hs : s.Alive) (h : s.mRef ≠ 1) : s.decRef.Alive := by
  rw [StubLife.decRef, if_neg h]
  exact hs

/-- The destructor of a stub that is not in use leaves nothing behind. -/
theorem StubLife.alive_decRef (hrun : s.runnables = []) (hresp : s.responses = [])
    (hreg : ∀ fd ∈ s.registered, fd = 0 ∨ some fd = s.mConnfd) (h : s.mRef = 1) :
    s.decRef.Alive := by
  rw [StubLife.decRef, if_pos h]
  refine fun _ => ⟨List.filter_eq_nil_iff.mpr fun fd hfd => ?_, hresp, hrun⟩
  rw [decide_eq_true_eq, not_and_or, not_ne_iff, not_ne_iff]
  exact hreg fd hfd

/-- Where something refers to the stub, it is not destroyed. -/
theorem StubLife.Alive.not_destroyed (hs : s.Alive)
    (h : s.registered ≠ [] ∨ s.responses ≠ [] ∨ s.runnables ≠ []) : s.destroyed = false := by
  by_contra hd
  obtain ⟨hreg, hresp, hrun⟩ := hs (Bool.not_eq_false _ ▸ hd)
  rcases h with h | h | h
  · exact h hreg
  · exact h hresp
  · exact h hrun

/-- **One step** around a stub that is not in use when it goes. -/
theorem StubLife.Alive.step (hs : s.Alive) {a : StubAction} (hok : s.Unused a)
    (h : s.step a = some s') : s'.Alive := by
  -- after a step that keeps `destroyed`, there is something to show only when it was not set
  have hkeep : ∀ {t : StubLife}, s.destroyed = false → t.destroyed = s.destroyed → t.Alive :=
    fun hd ht h => absurd (hd.symm.trans (ht.symm.trans h)) nofun
  cases a with
  | addRef =>
    rw [StubLife.step, Option.ite_none_right_eq_some] at h
    obtain ⟨hd, h⟩ := h
    cases h
    exact hkeep hd rfl
  | release =>
    rw [StubLife.step, Option.ite_none_right_eq_some] at h
    obtain ⟨-, h⟩ := h
    cases h
    by_cases h1 : s.mRef = 1
    · obtain ⟨hrun, hresp, hreg⟩ := hok h1
      exact StubLife.alive_decRef hrun hresp hreg h1
    · exact hs.decRef_of_ne h1
  | poll fd =>
    rw [StubLife.step, Option.ite_none_right_eq_some] at h
    obtain ⟨hfd, h⟩ := h
    cases h
    exact hkeep (hs.not_destroyed (.inl (List.ne_nil_of_mem hfd))) rfl
  | accept added =>
    rw [StubLife.step, Option.ite_none_right_eq_some] at h
    obtain ⟨hfd, h⟩ := h
    cases h
    exact hkeep (hs.not_destroyed (.inr (.inl (List.ne_nil_of_mem hfd)))) rfl
  | request fd release =>
    rw [StubLife.step, Option.ite_none_right_eq_some] at h
    obtain ⟨⟨hfd, -⟩, h⟩ := h
    cases h
    exact hkeep (hs.not_destroyed (.inr (.inl (List.ne_nil_of_mem hfd)))) rfl
  | fail fd =>
    rw [StubLife.step, Option.ite_none_right_eq_some] at h
    obtain ⟨hfd, h⟩ := h
    cases h
    exact hkeep (hs.not_destroyed (.inr (.inl (List.ne_nil_of_mem hfd)))) rfl
  | transact release =>
    rw [StubLife.step, Option.ite_none_right_eq_some] at h
    obtain ⟨hr, h⟩ := h
    have hd := hs.not_destroyed (.inr (.inr (List.ne_nil_of_mem hr)))
    cases h
    cases release with
    | false => exact hkeep hd rfl
    | true => exact StubLife.Alive.decRef_of_ne (hkeep hd rfl) (hok rfl)
  | finish =>
    rw [StubLife.step, Option.ite_none_right_eq_some] at h
    obtain ⟨hr, h⟩ := h
    cases h
    exact hkeep (hs.not_destroyed (.inr (.inr (List.ne_nil_of_mem hr)))) rfl

end

/-- The invariant of a proxy: its destructor does not run beside a ping thread that is awake. -/
structure ProxyLife.Sound (s : ProxyLife) : Prop where
  usedLate : s.usedLate = false
  awake : s.destroying = true → s.ping ≠ .awake

section

variable {s s' : ProxyLife}

/-- **One step** around a proxy whose ping thread rests when it goes. -/
theorem ProxyLife.Sound.step (hs : s.Sound) {a : ProxyAction} (hok : s.Rests a)
    (h : s.step a = some s') : s'.Sound := by
  cases a with
  | addRef =>
    rw [ProxyLife.step, Option.ite_none_right_eq_some] at h
    obtain ⟨-, h⟩ := h
    cases h
    exact ⟨hs.usedLate, hs.awake⟩
  | call =>
    rw [ProxyLife.step, Option.ite_none_right_eq_some] at h
    obtain ⟨hd, h⟩ := h
    cases h
    exact ⟨hs.usedLate, fun h => absurd (hd.symm.trans h) nofun⟩
  | release =>
    rw [ProxyLife.step, Option.ite_none_right_eq_some] at h
    obtain ⟨-, h⟩ := h
    cases h
    exact ⟨hs.usedLate, fun h => hok (of_decide_eq_true h)⟩
  | stopTask =>
    rw [ProxyLife.step, Option.ite_none_right_eq_some] at h
    obtain ⟨-, h⟩ := h
    cases h
    exact ⟨hs.usedLate, hs.awake⟩
  | deliver =>
    rw [ProxyLife.step, Option.ite_none_right_eq_some] at h
    obtain ⟨-, h⟩ := h
    cases h
    exact ⟨hs.usedLate, fun _ => nofun⟩
  | wake =>
    rw [ProxyLife.step, Option.ite_none_right_eq_some] at h
    obtain ⟨-, h⟩ := h
    cases h
    exact ⟨hs.usedLate, fun h => absurd (hok.symm.trans h) nofun⟩
  | use next =>
    rw [ProxyLife.step, Option.ite_none_right_eq_some] at h
    obtain ⟨⟨hawake, -⟩, h⟩ := h
    cases h
    -- the thread is awake, so the destructor has not started
    have hd : s.destroying = false := by
      by_contra hd
      exact hs.awake (Bool.not_eq_false _ ▸ hd) hawake
    refine ⟨?_, fun h => absurd (hd.symm.trans h) nofun⟩
    change (s.usedLate || s.destroying) = false
    rw [hs.usedLate, hd]
    rfl

end

namespace BackgroundState

/-- **No background step meets an object that is gone**, in every run in which a stub is not in use
and the ping thread of a proxy rests when they go. -/
theorem alive_of_meets (as : List BackgroundAction) (s : BackgroundState)
    (hok : Trace.Meets step Careful {} as) (hrun : Trace.run step {} as = some s) : s.Alive := by
  have hinv : s.stub.Alive ∧ s.proxy.Sound := by
    refine Trace.run_invariant (I := fun s => s.stub.Alive ∧ s.proxy.Sound) ?_ ?_ hok hrun
    · rintro s (a | a) s' ⟨hstub, hproxy⟩ hok h
      · obtain ⟨t, ht, rfl⟩ := Option.map_eq_some_iff.mp h
        exact ⟨hstub.step hok ht, hproxy⟩
      · obtain ⟨t, ht, rfl⟩ := Option.map_eq_some_iff.mp h
        exact ⟨hstub, hproxy.step hok ht⟩
    · exact ⟨nofun, rfl, nofun⟩
  exact ⟨hinv.1, hinv.2.usedLate⟩

/-- The proxy of the only client is released. -/
def released : List BackgroundAction :=
  [.stub .addRef, .stub (.poll 0), .stub (.accept true), .stub (.poll 1), .stub (.request 1 true),
    .stub (.transact true)]

theorem not_alive_released :
    ¬ ∀ (as : List BackgroundAction) (s : BackgroundState),
      Trace.run step {} as = some s → s.Alive := by
  intro h
  have hrun : ∃ s, Trace.run step {} released = some s ∧ s.stub.destroyed = true ∧
      s.stub.runnables = [.acted] := ⟨_, rfl, rfl, rfl⟩
  obtain ⟨s, hs, hd, hr⟩ := hrun
  obtain ⟨-, -, hnil⟩ := (h released s hs).stub hd
  rw [hr] at hnil
  cases hnil

/-- Of two references one is released by a client and the other one in the process, and a proxy is
released while its ping thread sleeps. -/
def atRest : List BackgroundAction :=
  [.stub .addRef, .stub .addRef, .stub (.poll 0), .stub (.accept true), .stub (.poll 1),
    .stub (.request 1 true), .stub (.transact true), .stub .finish, .stub .release, .proxy .call,
    .proxy .wake, .proxy (.use .awake), .proxy (.use .asleep), .proxy .release, .proxy .stopTask,
    .proxy .deliver]

theorem alive_of_meets_atRest :
    ∃ s, Trace.run step {} atRest = some s ∧ s.stub.destroyed = true ∧
      s.proxy.destroying = true ∧ s.Alive := by
  refine ⟨_, rfl, rfl, rfl, alive_of_meets atRest _ ?_ rfl⟩
  refine .cons trivial rfl (.cons trivial rfl (.cons trivial rfl (.cons trivial rfl
    (.cons trivial rfl (.cons trivial rfl (.cons (fun _ => by decide) rfl (.cons trivial rfl
    (.cons (fun _ => ⟨rfl, rfl, by decide⟩) rfl (.cons trivial rfl (.cons rfl rfl
    (.cons trivial rfl (.cons trivial rfl (.cons (fun _ => by decide) rfl (.cons trivial rfl
    (.cons trivial rfl trivial)))))))))))))))

end BackgroundState

end ElastosCar
