import ElastosCar.Lib.Mutex
import ElastosCar.Types

/-!
# Death notification

`LinkToDeath`, `UnlinkToDeath` and `StubDied` of a `CObjectProxy` in `linux_rpc/proxy.cpp`, its
`DeathRecipientList`, and the two places that call `StubDied`: a receive that fails in
`ProxyEntry_RPC`, and one that fails in the ping task.

A thread that notifies the recipients holds the mutex of the list while it does so, and the mutex of
the proxy too when it comes from `ProxyEntry_RPC`. What the recipients do on the proxy in their
`ProxyDied` runs under these mutexes. `DeathPath.run_iff` says exactly when that comes to an end.
-/

namespace ElastosCar

/-- The mutexes of a `CObjectProxy` and of its `DeathRecipientList`. -/
inductive DeathMutex
  | proxy
  | list
deriving DecidableEq, Repr

inductive DeathFault
  /-- `mOrgue` is null and is dereferenced. -/
  | noList
  /-- The model stops following calls of `StubDied` within calls of `StubDied`. -/
  | depth
deriving DecidableEq, Repr

/-- A `CarDeathRecipient`; it is the only one with its number. -/
structure CarDeathRecipient where
  number : ℕ
  /-- The `IProxyDeathRecipient`, by its number. -/
  mObject : Option ℕ
deriving DecidableEq, Repr

/-- How far the exchange of a remote method comes: it ends before the section under `mLock`, the request
is not sent, a receive fails, or there is a reply. -/
inductive Exchange
  | unsent
  | sendFailed
  | broken
  | received
deriving DecidableEq, Repr

/-- What a recipient does on the proxy. -/
inductive RecipientOp
  | linkToDeath (recipient : Option ℕ)
  | unlinkToDeath (recipient : Option ℕ)
  | call (x : Exchange)
deriving DecidableEq, Repr

/-- The proxy. -/
structure DeathState where
  /-- The list, from its front. -/
  mOrgue : Option (List CarDeathRecipient) := none
  mStubDied : Bool := false
  /-- The number of the next `CarDeathRecipient`. -/
  next : ℕ := 0
  /-- What the next calls of `ProxyDied` do. -/
  script : List (List RecipientOp) := []
  /-- The recipients whose `ProxyDied` was called, in order. -/
  notified : List ℕ := []
deriving DecidableEq, Repr

open Locked

/-- What a thread does on the proxy. -/
abbrev Death (α : Type) := Thread DeathMutex DeathState DeathFault α

namespace Death

/-! ### DeathRecipientList -/

/-- The list that `mOrgue` points to. -/
def orgue : Death (List CarDeathRecipient) := lift fun s =>
  match s.mOrgue with
  | some l => .ok (l, s)
  | none => .error .noList

def setOrgue (l : List CarDeathRecipient) : Death Unit := lift fun s =>
  .ok ((), { s with mOrgue := some l })

/-- `Add`. -/
def add (c : CarDeathRecipient) : Death Unit := withLock .list do
  setOrgue ((← orgue) ++ [c])

/-- `Remove` takes the object out, not one that matches it. -/
def remove (c : CarDeathRecipient) : Death Unit := withLock .list do
  setOrgue ((← orgue).eraseP fun d => d.number = c.number)

/-- `CarDeathRecipient::Matches`. -/
def isMatch (c : CarDeathRecipient) (recipient : ℕ) : Bool := c.mObject = some recipient

/-- `Find`. -/
def find (recipient : ℕ) : Death (Option CarDeathRecipient) := withLock .list do
  pure ((← orgue).find? fun c => isMatch c recipient)

/-- The object at the front of the list is notified and erased, until the list is empty; nobody else
changes it under the mutex. -/
def notifyEach (stubDied : CarDeathRecipient → Death Unit) : List CarDeathRecipient → Death Unit
  | [] => pure ()
  | c :: l => do
    stubDied c
    setOrgue ((← orgue).eraseP fun d => d.number = c.number)
    notifyEach stubDied l

/-- `NotifyAll`. -/
def notifyAll (stubDied : CarDeathRecipient → Death Unit) : Death Unit := withLock .list do
  notifyEach stubDied (← orgue)

/-! ### CObjectProxy -/

def get : Death DeathState := lift fun s => .ok (s, s)

/-- `new CarDeathRecipient`, behind the creation of the list where there is none. -/
def newRecipient (recipient : ℕ) : Death CarDeathRecipient := lift fun s =>
  .ok (⟨s.next, some recipient⟩, { s with mOrgue := some (s.mOrgue.getD []), next := s.next + 1 })

/-- `LinkToDeath`. -/
def linkToDeath (recipient : Option ℕ) : Death ECode :=
  match recipient with
  | none => pure E_INVALID_ARGUMENT
  | some r => do
    if (← get).mStubDied then pure E_FAIL
    else
      add (← newRecipient r)
      pure NOERROR

/-- `UnlinkToDeath`: the code, and `*result`. -/
def unlinkToDeath (recipient : Option ℕ) : Death (ECode × Bool) :=
  match recipient with
  | none => pure (E_INVALID_ARGUMENT, false)
  | some r => do
    if (← get).mStubDied then pure (E_FAIL, false)
    else
      match ← find r with
      | some c => do
        remove c
        pure (NOERROR, false)
      | none => pure (NOERROR, false)

/-- `StubDied`. -/
def stubDied (notify : CarDeathRecipient → Death Unit) : Death ECode := do
  notifyAll notify
  pure NOERROR

/-- The section of `ProxyEntry_RPC` under `mLock`. -/
def proxyEntry (die : Death ECode) : Exchange → Death ECode
  | .unsent => pure E_FAIL
  | .sendFailed => withLock .proxy (pure E_FAIL)
  | .broken => withLock .proxy do
    let _ ← die
    pure E_FAIL
  | .received => withLock .proxy (pure NOERROR)

/-- `PingRunnable::Run`: some rounds, and one in which the receive fails. -/
def pingRun (die : Death ECode) : (rounds : ℕ) → Death ECode
  | 0 => do
    withLock .proxy (pure ())
    die
  | rounds + 1 => do
    withLock .proxy (pure ())
    pingRun die rounds

/-! ### The recipients -/

/-- One operation of a recipient. -/
def perform (die : Death ECode) : RecipientOp → Death Unit
  | .linkToDeath r => do
    let _ ← linkToDeath r
  | .unlinkToDeath r => do
    let _ ← unlinkToDeath r
  | .call x => do
    let _ ← proxyEntry die x

def performAll (die : Death ECode) : List RecipientOp → Death Unit
  | [] => pure ()
  | op :: ops => do
    perform die op
    performAll die ops

/-- `ProxyDied` of the recipient is called: what it does is next in the script. -/
def proxyDied (r : ℕ) : Death (List RecipientOp) := lift fun s =>
  .ok (s.script.headD [], { s with script := s.script.tail, notified := s.notified ++ [r] })

/-- `CarDeathRecipient::StubDied`, with calls of `StubDied` that are nested up to the given depth. -/
def notify : (depth : ℕ) → CarDeathRecipient → Death Unit
  | 0, _ => throw (.fault .depth)
  | depth + 1, c =>
    match c.mObject with
    | none => pure ()
    | some r => do
      performAll (stubDied (notify depth)) (← proxyDied r)

end Death

/-- A way to `StubDied`. -/
inductive DeathPath
  | ping (rounds : ℕ)
  | call (x : Exchange)
deriving DecidableEq, Repr

/-- The thread goes the way. -/
def DeathPath.run (depth : ℕ) : DeathPath → Death ECode
  | .ping rounds => Death.pingRun (Death.stubDied (Death.notify depth)) rounds
  | .call x => Death.proxyEntry (Death.stubDied (Death.notify depth)) x

/-- The operation does not come to a mutex that is held: that of the list, and that of the proxy if
`inCall`. -/
def RecipientOp.Free (stubDied inCall : Bool) : RecipientOp → Prop
  | .linkToDeath r | .unlinkToDeath r => r = none ∨ stubDied = true
  | .call x => x = .unsent ∨ inCall = false ∧ x ≠ .broken

/-- There is a list, and what the recipients in it do is free. -/
def DeathState.Free (s : DeathState) (inCall : Bool) : Prop :=
  ∃ l, s.mOrgue = some l ∧
    ∀ ops ∈ s.script.take (l.countP (·.mObject.isSome)), ∀ op ∈ ops, op.Free s.mStubDied inCall

/-- The way leads to no mutex that the thread holds and to no list that is missing. -/
def DeathPath.Free (s : DeathState) : DeathPath → Prop
  | .ping _ => s.Free false
  | .call x => x = .broken → s.Free true

/-! ### What a recipient can do -/

section

variable {s : Locked DeathMutex DeathState} {l : List CarDeathRecipient}

namespace Death

@[simp]
theorem get_apply : get s = .ok (s.val, s) := rfl

theorem orgue_ok (h : s.val.mOrgue = some l) : orgue s = .ok (l, s) := by
  rw [orgue, lift_ok (a := l) (v := s.val) (by rw [h])]

theorem orgue_error (h : s.val.mOrgue = none) : orgue s = .error (.fault .noList) := by
  rw [orgue, lift_error (e := .noList) (by rw [h])]

theorem notifyAll_held (notify : CarDeathRecipient → Death Unit) (h : s.held .list = true) :
    notifyAll notify s = .error (.deadlock .list) := withLock_held h

theorem stubDied_held (notify : CarDeathRecipient → Death Unit) (h : s.held .list = true) :
    stubDied notify s = .error (.deadlock .list) := Run.bind_error (notifyAll_held notify h)

/-- A free operation changes nothing while the list is held. -/
theorem perform_free (die : Death ECode) {op : RecipientOp}
    (h : op.Free s.val.mStubDied (s.held .proxy)) : perform die op s = .ok ((), s) := by
  cases op with
  | linkToDeath r =>
    rcases h with rfl | h
    · rfl
    · cases r with
      | none => rfl
      | some r =>
        have hlink : linkToDeath (some r) s = .ok (E_FAIL, s) := by
          rw [linkToDeath, Run.bind_ok get_apply, if_pos h]
          rfl
        exact Run.bind_ok hlink
  | unlinkToDeath r =>
    rcases h with rfl | h
    · rfl
    · cases r with
      | none => rfl
      | some r =>
        have hunlink : unlinkToDeath (some r) s = .ok ((E_FAIL, false), s) := by
          rw [unlinkToDeath, Run.bind_ok get_apply, if_pos h]
          rfl
        exact Run.bind_ok hunlink
  | call x =>
    rcases h with rfl | ⟨hproxy, hx⟩
    · rfl
    · have hcall : ∃ ec, proxyEntry die x s = .ok (ec, s) := by
        cases x with
        | unsent => exact ⟨_, rfl⟩
        | sendFailed => exact ⟨_, withLock_pure hproxy _⟩
        | broken => exact absurd rfl hx
        | received => exact ⟨_, withLock_pure hproxy _⟩
      obtain ⟨ec, hcall⟩ := hcall
      exact Run.bind_ok hcall

/-- Any other operation comes to a mutex that is held. -/
theorem perform_stuck (notify : CarDeathRecipient → Death Unit) {op : RecipientOp}
    (hlist : s.held .list = true) (h : ¬ op.Free s.val.mStubDied (s.held .proxy)) :
    ∃ m, perform (stubDied notify) op s = .error (.deadlock m) := by
  cases op with
  | linkToDeath r =>
    rw [RecipientOp.Free, not_or] at h
    obtain ⟨hr, hdied⟩ := h
    obtain ⟨r, rfl⟩ := Option.ne_none_iff_exists'.mp hr
    refine ⟨.list, Run.bind_error ?_⟩
    rw [linkToDeath, Run.bind_ok get_apply, if_neg hdied]
    have hnew : newRecipient r s = .ok (⟨s.val.next, some r⟩,
        ⟨s.held, { s.val with mOrgue := some (s.val.mOrgue.getD []), next := s.val.next + 1 }⟩) := rfl
    rw [Run.bind_ok hnew]
    exact Run.bind_error (withLock_held hlist)
  | unlinkToDeath r =>
    rw [RecipientOp.Free, not_or] at h
    obtain ⟨hr, hdied⟩ := h
    obtain ⟨r, rfl⟩ := Option.ne_none_iff_exists'.mp hr
    refine ⟨.list, Run.bind_error ?_⟩
    rw [unlinkToDeath, Run.bind_ok get_apply, if_neg hdied]
    exact Run.bind_error (withLock_held hlist)
  | call x =>
    rw [RecipientOp.Free, not_or, not_and_or, not_ne_iff] at h
    obtain ⟨hx, h⟩ := h
    by_cases hproxy : s.held .proxy = true
    · refine ⟨.proxy, Run.bind_error ?_⟩
      cases x with
      | unsent => exact absurd rfl hx
      | sendFailed | broken | received => exact withLock_held hproxy
    · -- the receive fails, and the notification starts again
      rw [Bool.not_eq_true] at hproxy
      obtain rfl : x = .broken := h.resolve_left fun h => h hproxy
      refine ⟨.list, Run.bind_error (withLock_error hproxy (Run.bind_error (stubDied_held notify ?_)))⟩
      change Function.update s.held .proxy true .list = true
      rwa [Function.update_of_ne (by decide)]

theorem performAll_free (die : Death ECode) {ops : List RecipientOp}
    (h : ∀ op ∈ ops, op.Free s.val.mStubDied (s.held .proxy)) :
    performAll die ops s = .ok ((), s) := by
  induction ops with
  | nil => rfl
  | cons op ops ih =>
    rw [List.forall_mem_cons] at h
    rw [performAll, Run.bind_ok (perform_free die h.1)]
    exact ih h.2

theorem performAll_stuck (notify : CarDeathRecipient → Death Unit) {ops : List RecipientOp}
    (hlist : s.held .list = true) (h : ¬ ∀ op ∈ ops, op.Free s.val.mStubDied (s.held .proxy)) :
    ∃ m, performAll (stubDied notify) ops s = .error (.deadlock m) := by
  induction ops with
  | nil => exact absurd (List.forall_mem_nil _) h
  | cons op ops ih =>
    rw [List.forall_mem_cons, not_and_or] at h
    by_cases hop : op.Free s.val.mStubDied (s.held .proxy)
    · obtain ⟨m, hm⟩ := ih (h.resolve_left (not_not.mpr hop))
      exact ⟨m, by rw [performAll, Run.bind_ok (perform_free _ hop), hm]⟩
    · obtain ⟨m, hm⟩ := perform_stuck notify hlist hop
      exact ⟨m, Run.bind_error hm⟩

/-- What the first of `n + 1` does, and what the others do. -/
theorem forall_mem_take_succ {P : List RecipientOp → Prop} (hnil : P [])
    (script : List (List RecipientOp)) (n : ℕ) :
    (∀ ops ∈ script.take (n + 1), P ops) ↔ P (script.headD []) ∧ ∀ ops ∈ script.tail.take n, P ops := by
  cases script with
  | nil => simp [hnil]
  | cons ops script => simp

/-- The object at the front is erased when it has had its turn. -/
theorem notifyEach_cons (notify : CarDeathRecipient → Death Unit) {c : CarDeathRecipient}
    {v : DeathState} (hnotify : notify c s = .ok ((), ⟨s.held, v⟩)) (hv : v.mOrgue = some (c :: l)) :
    notifyEach notify (c :: l) s = notifyEach notify l ⟨s.held, { v with mOrgue := some l }⟩ := by
  rw [notifyEach, Run.bind_ok hnotify, Run.bind_ok (orgue_ok (s := ⟨s.held, v⟩) hv),
    List.eraseP_cons_of_pos (by simp)]
  rfl

/-- **The loop of `NotifyAll`** comes to its end exactly if what the recipients do is free. -/
theorem notifyEach_iff (depth : ℕ) (l : List CarDeathRecipient) :
    ∀ s : Locked DeathMutex DeathState, s.held .list = true → s.val.mOrgue = some l →
      ((notifyEach (notify (depth + 1)) l).Ends s ↔
        ∀ ops ∈ s.val.script.take (l.countP (·.mObject.isSome)), ∀ op ∈ ops,
          op.Free s.val.mStubDied (s.held .proxy)) := by
  induction l with
  | nil => exact fun s _ _ => ⟨fun _ => by simp, fun _ => ⟨(), s, rfl⟩⟩
  | cons c l ih =>
    intro s hlist hl
    obtain ⟨number, mObject⟩ := c
    cases mObject with
    | none =>
      rw [Run.Ends, notifyEach_cons _ rfl hl]
      exact ih ⟨s.held, { s.val with mOrgue := some l }⟩ hlist rfl
    | some r =>
      let v : DeathState :=
        { s.val with script := s.val.script.tail, notified := s.val.notified ++ [r] }
      have hdied : proxyDied r s = .ok (s.val.script.headD [], ⟨s.held, v⟩) := rfl
      rw [List.countP_cons_of_pos (by rfl), forall_mem_take_succ (List.forall_mem_nil _)]
      by_cases hops : ∀ op ∈ s.val.script.headD [], op.Free s.val.mStubDied (s.held .proxy)
      · have hnotify : notify (depth + 1) ⟨number, some r⟩ s = .ok ((), ⟨s.held, v⟩) := by
          rw [notify]
          exact (Run.bind_ok hdied).trans (performAll_free _ hops)
        rw [Run.Ends, notifyEach_cons _ hnotify hl, and_iff_right hops]
        exact ih ⟨s.held, { v with mOrgue := some l }⟩ hlist rfl
      · obtain ⟨m, hm⟩ := performAll_stuck (notify depth) (s := ⟨s.held, v⟩) hlist hops
        have hstuck : notify (depth + 1) ⟨number, some r⟩ s = .error (.deadlock m) := by
          rw [notify]
          exact (Run.bind_ok hdied).trans hm
        exact ⟨fun h => absurd h (Run.not_ends (Run.bind_error hstuck)), fun h => absurd h.1 hops⟩

/-- **`StubDied`**, by a thread that does not hold the mutex of the list. -/
theorem stubDied_iff (depth : ℕ) (hlist : s.held .list = false) :
    (stubDied (notify (depth + 1))).Ends s ↔ s.val.Free (s.held .proxy) := by
  have hheld : (Function.update s.held .list true) .list = true := Function.update_self ..
  have hproxy : (Function.update s.held .list true) .proxy = s.held .proxy :=
    Function.update_of_ne (by decide) ..
  rw [stubDied, Run.ends_bind_pure, notifyAll, ends_withLock_iff hlist, DeathState.Free]
  cases hl : s.val.mOrgue with
  | none =>
    exact ⟨fun h => absurd h (Run.not_ends (Run.bind_error (orgue_error hl))), nofun⟩
  | some l =>
    have hloop := notifyEach_iff depth l ⟨Function.update s.held .list true, s.val⟩ hheld hl
    dsimp only at hloop
    rw [hproxy] at hloop
    have horgue : orgue ⟨Function.update s.held .list true, s.val⟩
        = .ok (l, ⟨Function.update s.held .list true, s.val⟩) := orgue_ok hl
    refine (Run.ends_bind_ok horgue).trans (hloop.trans ?_)
    exact ⟨fun h => ⟨l, rfl, h⟩, fun ⟨_, h, hops⟩ => Option.some.inj h ▸ hops⟩

theorem pingRun_iff (depth rounds : ℕ) (hproxy : s.held .proxy = false)
    (hlist : s.held .list = false) :
    (pingRun (stubDied (notify (depth + 1))) rounds).Ends s ↔ s.val.Free false := by
  induction rounds with
  | zero =>
    rw [pingRun, Run.ends_bind_ok (withLock_pure hproxy ()), stubDied_iff depth hlist, hproxy]
  | succ rounds ih => rw [pingRun, Run.ends_bind_ok (withLock_pure hproxy ()), ih]

theorem proxyEntry_iff (depth : ℕ) (x : Exchange) (hproxy : s.held .proxy = false)
    (hlist : s.held .list = false) :
    (proxyEntry (stubDied (notify (depth + 1))) x).Ends s ↔ (x = .broken → s.val.Free true) := by
  cases x with
  | unsent => exact ⟨fun _ => nofun, fun _ => ⟨_, s, rfl⟩⟩
  | sendFailed | received => exact ⟨fun _ => nofun, fun _ => ⟨_, _, withLock_pure hproxy _⟩⟩
  | broken =>
    rw [proxyEntry, ends_withLock_iff hproxy, Run.ends_bind_pure, stubDied_iff depth]
    · dsimp only
      rw [Function.update_self]
      exact ⟨fun h _ => h, fun h => h rfl⟩
    · dsimp only
      rwa [Function.update_of_ne (by decide)]

end Death

end

/-! ### The mutexes are released -/

namespace Death

theorem keeps_orgue : Keeps orgue := .lift _

theorem keeps_setOrgue (l : List CarDeathRecipient) : Keeps (setOrgue l) := .lift _

theorem keeps_linkToDeath (recipient : Option ℕ) : Keeps (linkToDeath recipient) := by
  cases recipient with
  | none => exact .pure _
  | some r =>
    refine (Keeps.lift _).bind fun s => ?_
    split
    · exact .pure _
    · exact (Keeps.lift _).bind fun c =>
        (keeps_orgue.bind fun l => keeps_setOrgue _).withLock.bind fun _ => .pure _

theorem keeps_unlinkToDeath (recipient : Option ℕ) : Keeps (unlinkToDeath recipient) := by
  cases recipient with
  | none => exact .pure _
  | some r =>
    refine (Keeps.lift _).bind fun s => ?_
    split
    · exact .pure _
    · refine (keeps_orgue.bind fun l => .pure _).withLock.bind fun c => ?_
      split
      · exact (keeps_orgue.bind fun l => keeps_setOrgue _).withLock.bind fun _ => .pure _
      · exact .pure _

section

variable {notify : CarDeathRecipient → Death Unit}

theorem keeps_notifyEach (h : ∀ c, Keeps (notify c)) (l : List CarDeathRecipient) :
    Keeps (notifyEach notify l) := by
  induction l with
  | nil => exact .pure ()
  | cons c l ih =>
    exact (h c).bind fun _ => keeps_orgue.bind fun _ => (keeps_setOrgue _).bind fun _ => ih

theorem keeps_stubDied (h : ∀ c, Keeps (notify c)) : Keeps (stubDied notify) :=
  (keeps_orgue.bind fun l => keeps_notifyEach h l).withLock.bind fun _ => .pure _

end

section

variable {die : Death ECode}

theorem keeps_proxyEntry (h : Keeps die) (x : Exchange) : Keeps (proxyEntry die x) := by
  cases x with
  | unsent => exact .pure _
  | sendFailed | received => exact (Keeps.pure _).withLock
  | broken => exact (h.bind fun _ => .pure _).withLock

theorem keeps_pingRun (h : Keeps die) (rounds : ℕ) : Keeps (pingRun die rounds) := by
  induction rounds with
  | zero => exact (Keeps.pure ()).withLock.bind fun _ => h
  | succ rounds ih => exact (Keeps.pure ()).withLock.bind fun _ => ih

theorem keeps_performAll (h : Keeps die) (ops : List RecipientOp) : Keeps (performAll die ops) := by
  induction ops with
  | nil => exact .pure ()
  | cons op ops ih =>
    refine Keeps.bind ?_ fun _ => ih
    cases op with
    | linkToDeath r => exact (keeps_linkToDeath r).bind fun _ => .pure ()
    | unlinkToDeath r => exact (keeps_unlinkToDeath r).bind fun _ => .pure ()
    | call x => exact (keeps_proxyEntry h x).bind fun _ => .pure ()

end

theorem keeps_notify (depth : ℕ) (c : CarDeathRecipient) : Keeps (notify depth c) := by
  induction depth generalizing c with
  | zero => exact fun _ _ _ h => by cases h
  | succ depth ih =>
    obtain ⟨number, mObject⟩ := c
    cases mObject with
    | none => exact .pure ()
    | some r => exact (Keeps.lift _).bind fun ops => keeps_performAll (keeps_stubDied ih) ops

end Death

theorem DeathPath.keeps_run (depth : ℕ) (path : DeathPath) : Keeps (path.run depth) := by
  have hdie := Death.keeps_stubDied (Death.keeps_notify depth)
  cases path with
  | ping rounds => exact Death.keeps_pingRun hdie rounds
  | call x => exact Death.keeps_proxyEntry hdie x

/-- **Death notification comes to an end**, with no mutex locked twice, no list missing and every mutex
released, exactly if there is a list and what the recipients do on the proxy is free. -/
theorem DeathPath.run_iff (depth : ℕ) (path : DeathPath) (v : DeathState) :
    (∃ ec s', path.run (depth + 1) ⟨fun _ => false, v⟩ = .ok (ec, s') ∧ s'.held = fun _ => false) ↔
      path.Free v := by
  have hends : (path.run (depth + 1)).Ends ⟨fun _ => false, v⟩ ↔ path.Free v := by
    cases path with
    | ping rounds => exact Death.pingRun_iff depth rounds rfl rfl
    | call x => exact Death.proxyEntry_iff depth x rfl rfl
  rw [← hends]
  constructor
  · rintro ⟨ec, s', h, -⟩
    exact ⟨ec, s', h⟩
  · rintro ⟨ec, s', h⟩
    exact ⟨ec, s', h, path.keeps_run (depth + 1) _ _ _ h⟩

/-- A recipient that removes itself when it is notified. -/
theorem not_run_unlink :
    ¬ ∃ ec s', (DeathPath.ping 0).run 1 ⟨fun _ => false,
        { mOrgue := some [⟨0, some 7⟩], next := 1, script := [[.unlinkToDeath (some 7)]] }⟩
      = .ok (ec, s') ∧ s'.held = fun _ => false := by
  rintro ⟨ec, s', h, -⟩
  have hstuck : (DeathPath.ping 0).run 1 ⟨fun _ => false,
      { mOrgue := some [⟨0, some 7⟩], next := 1, script := [[.unlinkToDeath (some 7)]] }⟩
        = .error (.deadlock .list) := rfl
  rw [hstuck] at h
  cases h

end ElastosCar
