import ElastosCar.Callback.Context

/-!
# The handler of a callback context

The thread that runs `HandleCallbackEvents` of a context, among threads that post and cancel. A section
under `mQueueLock` is one step. `GetEvent` releases the lock when the event it has found is not due:
what it does then is a step of its own for the reading of `mWhen`, the argument of `usleep`, and one for
its next pass, which comes when the lock is had again.

A handler function may call `HandleCallbackEvents` in turn, so the calls are nested: `phase` and
`priority` are those of the innermost call, and each of the others is in the handler function of one of
`mCurrentEvents`.
-/

namespace ElastosCar

open CallbackEvent CallbackContext

/-- Where the innermost call is. -/
inductive HandlerPhase
  /-- There is no call. -/
  | outside
  /-- At the head of the loop. -/
  | looping
  /-- `GetEvent` has released the lock, and is to read `mWhen` of the node. -/
  | reading (serial : Option ℕ)
  | sleeping
  /-- In `sem_wait` for `mThreadEvent`, or in `sem_timedwait`. -/
  | waiting
  /-- The first of `mCurrentEvents` has been taken. -/
  | taken
  /-- In the handler function of the first of `mCurrentEvents`. -/
  | invoking
  /-- The sentinel has been put in `mCurrentEvents`, and there is no ring any more. -/
  | astray
deriving DecidableEq, Repr

/-- What `GetEvent` has returned. -/
inductive Returned
  | null
  /-- An event, and whether it was in the queue. -/
  | event (e : CallbackEvent) (queued : Bool)
  | sentinel
deriving DecidableEq, Repr

/-- The number of the event that is returned. -/
def Returned.serial : Returned → Option ℕ
  | .event e _ => some e.serial
  | .null | .sentinel => none

/-- A context with its handler. -/
structure HandlerState where
  ctx : CallbackContext := {}
  phase : HandlerPhase := .outside
  /-- The argument of the innermost call. -/
  priority : UInt32 := 0
  /-- The arguments of the calls around it. -/
  enclosing : List UInt32 := []
  /-- The posts that have released the lock, and are to post `mThreadEvent`. -/
  signals : ℕ := 0
  returned : List Returned := []
  /-- Whether `GetEvent` read an event that was not in the queue any more. -/
  touchedLate : Bool := false
deriving DecidableEq, Repr

/-- The steps of the handler and of the other threads. -/
inductive HandlerAction
  | post (new : CallbackEvent) (coalescer : CallbackEvent → ECode)
  /-- `mThreadEvent` is posted after a post that was to notify. -/
  | signal
  | cancel (call : CancelCall)
  /-- The sender of the event gives up, and sets `mStatus`. -/
  | giveUp (serial : ℕ)
  | requestToFinish (nice : Bool)
  /-- `_Impl_CallbackSink_TryToHandleEvents` sets `mStatus`. -/
  | finishing
  /-- `HandleCallbackEvents` is called. -/
  | enter (priority : UInt32)
  /-- The handler takes the lock at the head of the loop. -/
  | look (now : ℤ)
  | readWhen
  /-- `GetEvent` has the lock again. -/
  | wake (now : ℤ)
  | semWait
  /-- `sem_timedwait` gives up. -/
  | semTimeout
  /-- The handling begins; `dying` is whether the client object has no reference any more. -/
  | handle (dying : Bool)
  /-- The handler function returns. -/
  | invoked
  /-- The call returns from the end of the loop. -/
  | leave

namespace HandlerState

def setPhase (phase : HandlerPhase) (s : HandlerState) : HandlerState := { s with phase := phase }

/-- The innermost call returns. -/
def exit (s : HandlerState) : HandlerState :=
  match s.enclosing with
  | [] => s.setPhase .outside
  | p :: ps => { s with phase := .invoking, priority := p, enclosing := ps }

/-- There is nothing to take. -/
def idle (s : HandlerState) : HandlerState :=
  if s.ctx.mRequestToQuit then s.exit else { s with ctx := s.ctx.idle, phase := .waiting }

/-- A pass of `GetEvent`, and what the loop does with the result. -/
def pass (now : ℤ) (s : HandlerState) : HandlerState :=
  match getEvent s.priority now s.ctx.mEventQueue with
  | .null => HandlerState.idle { s with returned := s.returned ++ [.null] }
  | .early node => s.setPhase (.reading (node.map (·.serial)))
  | .detached (some e) =>
    { s with
      ctx := s.ctx.take (some e), phase := .taken
      returned := s.returned ++ [.event e (decide (e ∈ s.ctx.mEventQueue))] }
  | .detached none =>
    { s with ctx := s.ctx.take none, phase := .astray, returned := s.returned ++ [.sentinel] }

/-- The section at the head of the loop. -/
def look (now : ℤ) (s : HandlerState) : HandlerState :=
  if s.ctx.mExitRequested && !s.ctx.mRequestToQuit then s.exit
  else if s.ctx.mEventQueue.isEmpty then s.idle
  else s.pass now

def queued (s : HandlerState) : List ℕ := s.ctx.mEventQueue.map (·.serial)

/-- `mWhen` of the node is read. The sentinel is always there. -/
def readWhen (serial : Option ℕ) (s : HandlerState) : HandlerState :=
  { s with
    phase := .sleeping
    touchedLate := s.touchedLate || serial.any fun n => !decide (n ∈ s.queued) }

end HandlerState

namespace CallbackEvent

/-- The sender is told that the event has been dealt with. -/
def complete (status : CallingStatus) (e : CallbackEvent) : CallbackEvent :=
  { e with mStatus := status, mCompleted := true, mSyncEvent := e.mSyncEvent + 1 }

def isSync (e : CallbackEvent) : Bool := e.mFlags &&& CallbackEventFlag_SyncCall != 0

/-- The sender of the event number `n` gives up. -/
def giveUp (n : ℕ) (e : CallbackEvent) : CallbackEvent :=
  if e.serial = n then { e with mStatus := .cancelled } else e

end CallbackEvent

namespace CallbackContext

/-- The event being handled changes. -/
def current (f : CallbackEvent → CallbackEvent) (c : CallbackContext) : CallbackContext :=
  { c with mCurrentEvents := c.mCurrentEvents.modifyHead f }

def giveUp (n : ℕ) (c : CallbackContext) : CallbackContext :=
  { c with
    mEventQueue := c.mEventQueue.map (.giveUp n)
    mCurrentEvents := c.mCurrentEvents.map (.giveUp n) }

end CallbackContext

namespace HandlerState

/-- The end of the handling, from `Cancel` on. -/
def done (s : HandlerState) : HandlerState := { s with ctx := s.ctx.popEvent, phase := .looping }

/-- The handling of `e`, up to the call of the handler function. -/
def handle (dying : Bool) (e : CallbackEvent) (s : HandlerState) : HandlerState :=
  if e.mHandlerFunc = 0 then s.done
  else if e.isCar && dying then s.done
  else if e.isSync then
    if e.mStatus = .cancelled then
      HandlerState.done { s with ctx := s.ctx.current (complete e.mStatus) }
    else
      { s with
        ctx := s.ctx.current fun e => { e with mStatus := .running }
        phase := .invoking }
  else s.setPhase .invoking

/-- The handler function of `e` has returned. -/
def invoked (e : CallbackEvent) (s : HandlerState) : HandlerState :=
  if e.isSync then HandlerState.done { s with ctx := s.ctx.current (complete .completed) } else s.done

def act (s : HandlerState) : HandlerAction → Option HandlerState
  | .post new coalescer =>
    let (c, needNotify) := s.ctx.postCallbackEvent new coalescer
    some { s with ctx := c, signals := s.signals + if needNotify then 1 else 0 }
  | .signal =>
    if 0 < s.signals then
      some { s with
        ctx := { s.ctx with mThreadEvent := s.ctx.mThreadEvent + 1 }, signals := s.signals - 1 }
    else none
  | .cancel call => some { s with ctx := s.ctx.cancel call }
  | .giveUp n => some { s with ctx := s.ctx.giveUp n }
  | .requestToFinish nice => some { s with ctx := s.ctx.requestToFinish nice }
  | .finishing =>
    if s.phase = .outside then some { s with ctx := { s.ctx with mStatus := .finishing } } else none
  | .enter priority =>
    match s.phase with
    | .outside => some { s with phase := .looping, priority := priority }
    | .invoking =>
      some { s with
        phase := .looping, priority := priority, enclosing := s.priority :: s.enclosing }
    | _ => none
  | .look now => if s.phase = .looping then some (s.look now) else none
  | .readWhen =>
    match s.phase with
    | .reading serial => some (s.readWhen serial)
    | _ => none
  | .wake now => if s.phase = .sleeping then some (s.pass now) else none
  | .semWait =>
    if s.phase = .waiting ∧ 0 < s.ctx.mThreadEvent then
      some { s with
        ctx := { s.ctx with mThreadEvent := s.ctx.mThreadEvent - 1 }, phase := .looping }
    else none
  | .semTimeout => if s.phase = .waiting then some (s.setPhase .looping) else none
  | .handle dying =>
    if s.phase = .taken then s.ctx.mCurrentEvents.head?.map fun e => s.handle dying e else none
  | .invoked =>
    if s.phase = .invoking then s.ctx.mCurrentEvents.head?.map fun e => s.invoked e else none
  | .leave => if s.phase = .looping then some s.exit else none

/-- One step. After the sentinel was taken the run is not followed. -/
def step (s : HandlerState) (a : HandlerAction) : Option HandlerState :=
  if s.phase = .astray then none else s.act a

/-- `GetEvent` has returned `NULL` or events that were in the queue, each once and never again; it has
read no event that was cancelled, and `mEventsCount` is not negative. -/
structure DequeueSafe (s : HandlerState) : Prop where
  returned : ∀ r ∈ s.returned, r = .null ∨ ∃ e, r = .event e true
  once : (s.returned.filterMap Returned.serial ++ s.queued).Nodup
  untouched : s.touchedLate = false
  count : 0 ≤ s.ctx.mEventsCount

/-- The event that `GetEvent` is to read is still in the queue, and when it has the lock again with the
priority 0, there is an event. -/
def Stays (s : HandlerState) : HandlerAction → Prop
  | .readWhen => ∀ n, s.phase = .reading (some n) → n ∈ s.queued
  | .wake _ => s.priority = 0 → s.ctx.mEventQueue ≠ []
  | _ => True

/-! ### What the steps keep -/

/-- What has been returned of the queue. -/
def taken (s : HandlerState) : List ℕ := s.returned.filterMap Returned.serial

/-- The invariant. -/
structure Sound (s : HandlerState) : Prop where
  kept : s.ctx.Kept
  returned : ∀ r ∈ s.returned, r = .null ∨ ∃ e, r = .event e true
  once : (s.taken ++ s.queued).Nodup
  older : ∀ n ∈ s.taken, n < s.ctx.posts
  untouched : s.touchedLate = false

theorem sound_init : Sound {} :=
  ⟨kept_init, List.forall_mem_nil _, List.nodup_nil, List.forall_mem_nil _, rfl⟩

section

variable {s s' : HandlerState}

@[simp]
theorem ctx_exit (s : HandlerState) : s.exit.ctx = s.ctx := by
  rw [exit]
  split <;> rfl

@[simp]
theorem returned_exit (s : HandlerState) : s.exit.returned = s.returned := by
  rw [exit]
  split <;> rfl

@[simp]
theorem touchedLate_exit (s : HandlerState) : s.exit.touchedLate = s.touchedLate := by
  rw [exit]
  split <;> rfl

/-- The queue only loses events, and nothing is returned. -/
theorem Sound.lose (hs : s.Sound) (hkept : s'.ctx.Kept) (hreturned : s'.returned = s.returned)
    (htouched : s'.touchedLate = s.touchedLate) (hposts : s.ctx.posts ≤ s'.ctx.posts)
    (hqueued : s'.queued.Sublist s.queued) : s'.Sound where
  kept := hkept
  returned := hreturned ▸ hs.returned
  once := by
    rw [taken, hreturned]
    exact hs.once.sublist (hqueued.append_left _)
  older n hn := by
    rw [taken, hreturned] at hn
    exact (hs.older n hn).trans_le hposts
  untouched := htouched.trans hs.untouched

/-- Only the phase changes, or something that does not matter here. -/
theorem Sound.same (hs : s.Sound) (hctx : s'.ctx = s.ctx) (hreturned : s'.returned = s.returned)
    (htouched : s'.touchedLate = s.touchedLate) : s'.Sound := by
  refine hs.lose (hctx ▸ hs.kept) hreturned htouched (hctx ▸ le_rfl) ?_
  rw [queued, hctx]
  exact .refl _

theorem Sound.exit (hs : s.Sound) : s.exit.Sound :=
  hs.same (ctx_exit s) (returned_exit s) (touchedLate_exit s)

theorem Sound.idle (hs : s.Sound) : s.idle.Sound := by
  rw [HandlerState.idle]
  split
  · exact hs.exit
  · refine hs.lose hs.kept.idle rfl rfl ?_ ?_
    · dsimp only
      rw [CallbackContext.idle]
      split <;> exact le_rfl
    · rw [queued, queued, CallbackContext.idle]
      split <;> exact .refl _

/-- A new event comes into the queue. -/
theorem Sound.post (hs : s.Sound) (new : CallbackEvent) (coalescer : CallbackEvent → ECode) (k : ℕ) :
    Sound { s with ctx := (s.ctx.postCallbackEvent new coalescer).1, signals := k } := by
  have hkept := hs.kept.post new coalescer
  have hposting := posting new coalescer s.ctx
  have hsub := (keeps_coalesce (s.ctx.number new) coalescer s.ctx).sublist
  generalize (s.ctx.postCallbackEvent new coalescer).1 = c,
    (s.ctx.postCallbackEvent new coalescer).2 = notify at hkept hposting
  cases hposting with
  | refused _ => exact hs.lose hkept rfl rfl (Nat.le_succ _) (.refl _)
  | both _ hw _ =>
    rw [← hw] at hsub
    exact hs.lose hkept rfl rfl (Nat.le_succ _) (hsub.map _)
  | @inserted w _ hw _ =>
    rw [← hw] at hsub
    refine ⟨hkept, hs.returned, ?_, fun n hn => (hs.older n hn).trans (Nat.lt_succ_self _),
      hs.untouched⟩
    have hperm := (perm_insertEvent (lower (s.ctx.number new) w.highestFlag) w.queue).map (·.serial)
    rw [List.map_cons, serial_lower] at hperm
    have hold : (s.taken ++ w.queue.map (·.serial)).Nodup :=
      hs.once.sublist ((hsub.map _).append_left _)
    have hnew : s.ctx.posts ∉ s.taken ++ w.queue.map (·.serial) := by
      rw [List.mem_append, not_or]
      refine ⟨fun h => (hs.older _ h).false, fun h => ?_⟩
      obtain ⟨e, he, hserial⟩ := List.mem_map.mp h
      exact (hs.kept.older e (hsub.subset he)).ne hserial
    exact ((hperm.append_left _).trans List.perm_middle).nodup_iff.mpr (hold.cons hnew)

theorem Sound.pass (hs : s.Sound) {now : ℤ} (hne : s.priority = 0 → s.ctx.mEventQueue ≠ []) :
    (s.pass now).Sound := by
  rw [HandlerState.pass]
  split
  · have htaken : (s.returned ++ [Returned.null]).filterMap Returned.serial = s.taken := by
      rw [List.filterMap_append]
      exact List.append_nil _
    refine Sound.idle ⟨hs.kept, ?_, ?_, ?_, hs.untouched⟩
    · exact List.forall_mem_append.mpr ⟨hs.returned, List.forall_mem_singleton.mpr (.inl rfl)⟩
    · rw [taken, htaken]
      exact hs.once
    · rw [taken, htaken]
      exact hs.older
  · exact hs.same rfl rfl rfl
  · next e hdetached =>
    rcases getEvent_eq_detached hdetached with ⟨_, he, heq⟩ | ⟨_, _, heq⟩
    · cases heq
      have htaken : (s.returned ++ [Returned.event e (decide (e ∈ s.ctx.mEventQueue))]).filterMap
          Returned.serial = s.taken ++ [e.serial] := List.filterMap_append
      refine ⟨hs.kept.take he, ?_, ?_, ?_, hs.untouched⟩
      · refine List.forall_mem_append.mpr ⟨hs.returned, List.forall_mem_singleton.mpr (.inr ⟨e, ?_⟩)⟩
        rw [decide_eq_true he]
      · have hperm : (s.taken ++ [e.serial] ++ (s.ctx.mEventQueue.erase e).map (·.serial)).Perm
            (s.taken ++ s.queued) := by
          rw [List.append_assoc]
          exact ((List.perm_cons_erase he).map (·.serial)).symm.append_left _
        rw [taken, htaken]
        exact hperm.nodup_iff.mpr hs.once
      · rw [taken, htaken]
        exact List.forall_mem_append.mpr
          ⟨hs.older, List.forall_mem_singleton.mpr (hs.kept.older e he)⟩
    · cases heq
  · next hdetached =>
    rcases getEvent_eq_detached hdetached with ⟨_, _, heq⟩ | ⟨hzero, hnil, _⟩
    · cases heq
    · exact absurd hnil (hne hzero)

theorem Sound.look (hs : s.Sound) (now : ℤ) : (s.look now).Sound := by
  rw [HandlerState.look]
  split_ifs with _ hnil
  · exact hs.exit
  · exact hs.idle
  · exact hs.pass fun _ => by simpa using hnil

theorem Kept.giveUp {c : CallbackContext} (hc : c.Kept) (n : ℕ) : (c.giveUp n).Kept := by
  have hserial (e : CallbackEvent) : (e.giveUp n).serial = e.serial := by
    rw [CallbackEvent.giveUp]
    split <;> rfl
  have hkey (e : CallbackEvent) : (e.giveUp n).key = e.key := by
    rw [CallbackEvent.giveUp]
    split <;> rfl
  refine ⟨?_, ?_, ?_⟩
  · refine List.pairwise_map.mpr (hc.sorted.imp fun {e f} h => ?_)
    rw [before_iff, hkey, hkey]
    exact before_iff.mp h
  · exact hc.count.trans (congrArg _ (List.length_map _).symm)
  · intro e he
    obtain ⟨f, hf, rfl⟩ := List.mem_map.mp he
    rw [hserial]
    exact hc.older f hf

theorem queued_giveUp (s : HandlerState) (n : ℕ) :
    HandlerState.queued { s with ctx := s.ctx.giveUp n } = s.queued := by
  rw [queued, queued, CallbackContext.giveUp]
  dsimp only
  rw [List.map_map]
  refine List.map_congr_left fun e _ => ?_
  rw [Function.comp_apply, CallbackEvent.giveUp]
  split <;> rfl

/-- What is done with the events being handled does not matter to the queue. -/
theorem Sound.setCurrent (hs : s.Sound) (hqueue : s'.ctx.mEventQueue = s.ctx.mEventQueue)
    (hcount : s'.ctx.mEventsCount = s.ctx.mEventsCount) (hposts : s'.ctx.posts = s.ctx.posts)
    (hreturned : s'.returned = s.returned) (htouched : s'.touchedLate = s.touchedLate) :
    s'.Sound := by
  refine hs.lose ⟨?_, ?_, ?_⟩ hreturned htouched hposts.ge ?_
  · rw [hqueue]
    exact hs.kept.sorted
  · rw [hqueue, hcount]
    exact hs.kept.count
  · rw [hqueue, hposts]
    exact hs.kept.older
  · rw [queued, hqueue]
    exact .refl _

theorem Sound.handle (hs : s.Sound) (dying : Bool) (e : CallbackEvent) : (s.handle dying e).Sound := by
  rw [HandlerState.handle]
  split_ifs <;> exact hs.setCurrent rfl rfl rfl rfl rfl

theorem Sound.invoked (hs : s.Sound) (e : CallbackEvent) : (s.invoked e).Sound := by
  rw [HandlerState.invoked]
  split <;> exact hs.setCurrent rfl rfl rfl rfl rfl

/-- **One step** within the condition. -/
theorem Sound.step (hs : s.Sound) {a : HandlerAction} (hok : s.Stays a) (h : s.step a = some s') :
    s'.Sound := by
  rw [HandlerState.step] at h
  obtain ⟨_, h⟩ := Option.ite_none_left_eq_some.mp h
  cases a with
  | post new coalescer =>
    cases h
    exact hs.post new coalescer _
  | signal =>
    obtain ⟨_, h⟩ := Option.ite_none_right_eq_some.mp h
    cases h
    exact hs.setCurrent rfl rfl rfl rfl rfl
  | cancel call =>
    cases h
    obtain ⟨p, hp⟩ := exists_cancel_eq call
    refine hs.lose (hs.kept.cancel call) rfl rfl ?_ ?_
    · rw [hp, cancelWhere_eq]
    · rw [queued, hp, cancelWhere_eq]
      exact List.filter_sublist.map _
  | giveUp n =>
    cases h
    refine hs.lose (Kept.giveUp hs.kept n) rfl rfl le_rfl ?_
    rw [queued_giveUp]
  | requestToFinish nice =>
    cases h
    exact hs.setCurrent rfl rfl rfl rfl rfl
  | finishing =>
    obtain ⟨_, h⟩ := Option.ite_none_right_eq_some.mp h
    cases h
    exact hs.setCurrent rfl rfl rfl rfl rfl
  | enter priority =>
    rw [act] at h
    split at h
    · cases h
      exact hs.same rfl rfl rfl
    · cases h
      exact hs.same rfl rfl rfl
    · cases h
  | look now =>
    obtain ⟨_, h⟩ := Option.ite_none_right_eq_some.mp h
    cases h
    exact hs.look now
  | readWhen =>
    rw [act] at h
    split at h
    · next serial hphase =>
      cases h
      refine ⟨hs.kept, hs.returned, hs.once, hs.older, ?_⟩
      rw [HandlerState.readWhen, hs.untouched, Bool.false_or]
      cases serial with
      | none => rfl
      | some n => simpa using hok n hphase
    · cases h
  | wake now =>
    obtain ⟨_, h⟩ := Option.ite_none_right_eq_some.mp h
    cases h
    exact hs.pass hok
  | semWait =>
    obtain ⟨_, h⟩ := Option.ite_none_right_eq_some.mp h
    cases h
    exact hs.setCurrent rfl rfl rfl rfl rfl
  | semTimeout =>
    obtain ⟨_, h⟩ := Option.ite_none_right_eq_some.mp h
    cases h
    exact hs.same rfl rfl rfl
  | handle dying =>
    obtain ⟨_, h⟩ := Option.ite_none_right_eq_some.mp h
    obtain ⟨e, _, rfl⟩ := Option.map_eq_some_iff.mp h
    exact hs.handle dying e
  | invoked =>
    obtain ⟨_, h⟩ := Option.ite_none_right_eq_some.mp h
    obtain ⟨e, _, rfl⟩ := Option.map_eq_some_iff.mp h
    exact hs.invoked e
  | leave =>
    obtain ⟨_, h⟩ := Option.ite_none_right_eq_some.mp h
    cases h
    exact hs.exit

theorem Sound.dequeueSafe (hs : s.Sound) : s.DequeueSafe where
  returned := hs.returned
  once := hs.once
  untouched := hs.untouched
  count := hs.kept.count ▸ Int.natCast_nonneg _

end

/-- **What `GetEvent` returns.** In every run in which the event that is read after the lock was released
is still in the queue, and a handler with the priority 0 finds an event when it has the lock again,
`GetEvent` is safe. -/
theorem dequeueSafe_of_meets (as : List HandlerAction) (s : HandlerState)
    (hok : Trace.Meets step Stays {} as) (hrun : Trace.run step {} as = some s) : s.DequeueSafe :=
  (Trace.run_invariant (fun _ _ _ hs hok h => hs.step hok h) sound_init hok hrun).dequeueSafe

/-- The handler sleeps until the only event is due, and the events are cancelled. -/
def cancelledMeanwhile : List HandlerAction :=
  [.post (eventOf 7 0 20) fun _ => NOERROR, .signal, .enter 0, .look 10, .readWhen, .cancel .all,
    .wake 20]

theorem not_dequeueSafe_cancelledMeanwhile :
    ¬ ∀ (as : List HandlerAction) (s : HandlerState),
      Trace.run step {} as = some s → s.DequeueSafe := by
  intro h
  have hrun : ∃ s, Trace.run step {} cancelledMeanwhile = some s ∧ s.ctx.mEventsCount = -1 :=
    ⟨_, rfl, rfl⟩
  obtain ⟨s, hs, hcount⟩ := hrun
  have hnonneg := (h cancelledMeanwhile s hs).count
  rw [hcount] at hnonneg
  exact absurd hnonneg (by decide)

/-- The handler sleeps until the first event is due; a second is posted, and the first is taken. -/
def postedMeanwhile : List HandlerAction :=
  [.post (eventOf 7 0 20) fun _ => NOERROR, .signal, .enter 0, .look 10, .readWhen,
    .post (eventOf 8 1 20) fun _ => NOERROR, .cancel (.pending 1 8), .wake 20, .handle false, .invoked]

theorem dequeueSafe_of_meets_postedMeanwhile :
    ∃ s, Trace.run step {} postedMeanwhile = some s ∧ s.taken = [0] ∧ s.DequeueSafe := by
  refine ⟨_, rfl, rfl, dequeueSafe_of_meets postedMeanwhile _ ?_ rfl⟩
  refine .cons trivial rfl (.cons trivial rfl (.cons trivial rfl (.cons trivial rfl (.cons ?_ rfl
    (.cons trivial rfl (.cons trivial rfl (.cons ?_ rfl (.cons trivial rfl (.cons trivial rfl
    trivial)))))))))
  · rintro n ⟨⟩
    decide
  · intro _
    decide

end HandlerState

end ElastosCar
