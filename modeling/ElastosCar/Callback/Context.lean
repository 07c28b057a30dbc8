import ElastosCar.Callback.Event
import ElastosCar.Lib.Trace

/-!
# The callback context

The operations of `CCallbackContext` that change the event queue, each run under `mQueueLock`.
`ordered_of_run` is about every sequence of them: the queue is in the order of the priority bits, of
`mWhen` and of posting, `mEventsCount` counts its events, and a dequeue with the priority 0 takes the
first.

Every post brings an event of its own, with the number of the post as its `serial`. The events that
are in the queue no more, and not being handled either, are kept in `gone` as they were left.
-/

namespace ElastosCar

open CallbackEvent

/-- `mStatus` of a context. -/
inductive ContextStatus
  | created
  | idling
  | working
  | finishing
deriving DecidableEq, Repr

/-- A `CCallbackContext`. -/
structure CallbackContext where
  mExitRequested : Bool := false
  mRequestToQuit : Bool := false
  mEventQueue : List CallbackEvent := []
  mCurrentEvents : List CallbackEvent := []
  /-- The value of the semaphore. -/
  mThreadEvent : ℕ := 0
  mStatus : ContextStatus := .created
  mEventsCount : ℤ := 0
  /-- How many events were posted. -/
  posts : ℕ := 0
  gone : List CallbackEvent := []
deriving DecidableEq, Repr

namespace CallbackContext

/-- The coalescing of a `Duplicated` event. -/
def coalesce (new : CallbackEvent) (coalescer : CallbackEvent → ECode) (c : CallbackContext) :
    Coalesced :=
  if new.mFlags &&& CallbackEventFlag_Duplicated ≠ 0 then
    coalesceLoop new coalescer c.mEventQueue.reverse [] c.mEventsCount new.priority []
  else ⟨c.mEventQueue, c.mEventsCount, new.priority, [], false⟩

/-- The priority of a coalesced event is not below that of the events it stands for. -/
def lower (new : CallbackEvent) (highestFlag : CallbackEventFlags) : CallbackEvent :=
  if highestFlag < new.priority then new.setPriority highestFlag else new

def insert (new : CallbackEvent) (c : CallbackContext) : CallbackContext :=
  { c with mEventQueue := insertEvent new c.mEventQueue, mEventsCount := c.mEventsCount + 1 }

/-- The event with the number of its post. -/
def number (c : CallbackContext) (new : CallbackEvent) : CallbackEvent :=
  { new with serial := c.posts }

/-- The context takes no event any more. -/
def Refuses (c : CallbackContext) : Prop :=
  c.mExitRequested = true ∨ c.mRequestToQuit = true ∨ c.mStatus = .finishing

instance (c : CallbackContext) : Decidable c.Refuses := by
  unfold Refuses
  infer_instance

/-- The section of `PostCallbackEvent` under the lock, and `needNotify`. -/
def postCallbackEvent (new : CallbackEvent) (coalescer : CallbackEvent → ECode)
    (c : CallbackContext) : CallbackContext × Bool :=
  let e := c.number new
  if c.Refuses then ({ c with posts := c.posts + 1, gone := c.gone ++ [e.cancel] }, false)
  else
    let needNotify := c.mEventQueue.isEmpty
    let w := c.coalesce e coalescer
    let c' := { c with
      mEventQueue := w.queue, mEventsCount := w.count, posts := c.posts + 1
      gone := c.gone ++ w.removed }
    if w.both then ({ c' with gone := c'.gone ++ [e] }, false)
    else (c'.insert (lower e w.highestFlag), needNotify)

/-- The cancel operations, over the condition in their loop. -/
def cancelWhere (p : CallbackEvent → Bool) (c : CallbackContext) : CallbackContext :=
  let w := cancelLoop p c.mEventQueue c.mEventsCount
  { c with mEventQueue := w.queue, mEventsCount := w.count, gone := c.gone ++ w.removed }

def cancelAllPendingCallbacks (sender : UInt32) : CallbackContext → CallbackContext :=
  cancelWhere fun e => e.mSender == sender

def cancelPendingCallback (sender id : UInt32) : CallbackContext → CallbackContext :=
  cancelWhere fun e => e.mSender == sender && e.mID == id

def cancelAllCallbackEvents : CallbackContext → CallbackContext := cancelWhere fun _ => true

/-- `IsExistEvent`: an argument of -1 stands for any value. -/
def isExistEvent (sender id handlerThis handlerFunc : UInt32) (c : CallbackContext) : Bool :=
  c.mCurrentEvents.any fun e =>
    (sender == e.mSender || sender == -1) && (id == e.mID || id == -1) &&
      (handlerThis == e.mHandlerThis || handlerThis == -1) &&
      (handlerFunc == e.mHandlerFunc || handlerFunc == -1)

/-- `isBusy` is whether `mWorkingLock` cannot be had. -/
def cancelCallbackEvents (sender id handlerThis handlerFunc : UInt32) (isBusy : Bool)
    (c : CallbackContext) : ECode × CallbackContext :=
  let c := c.cancelWhere fun e =>
    e.mSender == sender && e.mID == id && e.mHandlerThis == handlerThis &&
      e.mHandlerFunc == handlerFunc
  (if c.isExistEvent sender id handlerThis handlerFunc && isBusy then E_CALLBACK_IS_BUSY else NOERROR, c)

/-- The calls that cancel. -/
inductive CancelCall
  | allPending (sender : UInt32)
  | pending (sender id : UInt32)
  | events (sender id handlerThis handlerFunc : UInt32) (isBusy : Bool)
  | all
deriving DecidableEq, Repr

def cancel : CancelCall → CallbackContext → CallbackContext
  | .allPending sender, c => c.cancelAllPendingCallbacks sender
  | .pending sender id, c => c.cancelPendingCallback sender id
  | .events sender id handlerThis handlerFunc isBusy, c =>
    (c.cancelCallbackEvents sender id handlerThis handlerFunc isBusy).2
  | .all, c => c.cancelAllCallbackEvents

/-- What `HandleCallbackEvents` does with the node that `GetEvent` has detached. -/
def take (node : Option CallbackEvent) (c : CallbackContext) : CallbackContext :=
  match node with
  | some e =>
    { c with
      mEventQueue := c.mEventQueue.erase e, mEventsCount := c.mEventsCount - 1
      mCurrentEvents := e :: c.mCurrentEvents, mStatus := .working }
  | none => { c with mEventsCount := c.mEventsCount - 1, mStatus := .working }

/-- There is nothing to take. -/
def idle (c : CallbackContext) : CallbackContext :=
  if c.mRequestToQuit then c else { c with mStatus := .idling }

/-- The passes of `GetEvent`, with the readings of the clock; between them nobody else has the
lock. -/
def getEvents (priority : UInt32) : List ℤ → CallbackContext → Option (Pass × CallbackContext)
  | [], _ => none
  | now :: clock, c =>
    match getEvent priority now c.mEventQueue with
    | .null => some (.null, c.idle)
    | .early _ => getEvents priority clock c
    | .detached node => some (.detached node, c.take node)

/-- A dequeue by `HandleCallbackEvents`. -/
def dequeue (priority : UInt32) (clock : List ℤ) (c : CallbackContext) :
    Option (Pass × CallbackContext) :=
  if c.mEventQueue.isEmpty then some (.null, c.idle) else getEvents priority clock c

/-- `PopEvent`. -/
def popEvent (c : CallbackContext) : CallbackContext :=
  { c with mCurrentEvents := c.mCurrentEvents.tail, gone := c.gone ++ c.mCurrentEvents.head?.toList }

/-- `nice` is whether the flag is `CallbackContextFinish_Nice`. -/
def requestToFinish (nice : Bool) (c : CallbackContext) : CallbackContext :=
  { c with mExitRequested := true, mRequestToQuit := nice, mThreadEvent := c.mThreadEvent + 1 }

end CallbackContext

/-- The operations on the queue. -/
inductive QueueAction
  | post (new : CallbackEvent) (coalescer : CallbackEvent → ECode)
  | cancel (call : CallbackContext.CancelCall)
  | dequeue (priority : UInt32) (clock : List ℤ)
  | pop
  | requestToFinish (nice : Bool)

namespace CallbackContext

/-- One operation. -/
def step (c : CallbackContext) : QueueAction → Option CallbackContext
  | .post new coalescer => some (c.postCallbackEvent new coalescer).1
  | .cancel call => some (c.cancel call)
  | .dequeue priority clock => (c.dequeue priority clock).map Prod.snd
  | .pop => some c.popEvent
  | .requestToFinish nice => some (c.requestToFinish nice)

/-- The queue is in order, `mEventsCount` is exact, and the priority 0 takes the first event. -/
structure Ordered (c : CallbackContext) : Prop where
  sorted : c.mEventQueue.Pairwise Before
  count : c.mEventsCount = c.mEventQueue.length
  first : ∀ clock r c', c.dequeue 0 clock = some (r, c') →
    c.mEventQueue = [] ∧ r = .null ∧ c'.mEventQueue = [] ∨
      ∃ e rest, c.mEventQueue = e :: rest ∧ r = .detached (some e) ∧ c'.mEventQueue = rest

/-! ### The operations one by one -/

/-- What a post that is not refused leaves in the queue, and what it detaches. -/
structure Keeps (w : Coalesced) (c : CallbackContext) : Prop where
  perm : (w.queue ++ w.removed).Perm c.mEventQueue
  sublist : w.queue.Sublist c.mEventQueue
  count : w.count + w.removed.length = c.mEventsCount

theorem keeps_coalesce (new : CallbackEvent) (coalescer : CallbackEvent → ECode)
    (c : CallbackContext) : Keeps (c.coalesce new coalescer) c := by
  have hqueue : c.mEventQueue.reverse.reverse ++ [] = c.mEventQueue := by
    rw [List.reverse_reverse, List.append_nil]
  rw [coalesce]
  split
  · constructor
    · refine (perm_coalesceLoop ..).trans ?_
      rw [List.append_nil, hqueue]
    · refine (sublist_coalesceLoop ..).trans ?_
      rw [hqueue]
    · rw [count_coalesceLoop]
      exact add_zero _
  · exact ⟨by rw [List.append_nil], .refl _, add_zero _⟩

/-- The ways a post can go. -/
inductive Posting (new : CallbackEvent) (coalescer : CallbackEvent → ECode) (c : CallbackContext) :
    CallbackContext → Bool → Prop
  | refused (h : c.Refuses) : Posting new coalescer c
      { c with posts := c.posts + 1, gone := c.gone ++ [(c.number new).cancel] } false
  | both {w : Coalesced} (hr : ¬ c.Refuses) (hw : w = c.coalesce (c.number new) coalescer)
      (h : w.both = true) :
      Posting new coalescer c
        { c with
          mEventQueue := w.queue, mEventsCount := w.count, posts := c.posts + 1
          gone := c.gone ++ w.removed ++ [c.number new] } false
  | inserted {w : Coalesced} (hr : ¬ c.Refuses) (hw : w = c.coalesce (c.number new) coalescer)
      (h : w.both = false) :
      Posting new coalescer c
        { c with
          mEventQueue := insertEvent (lower (c.number new) w.highestFlag) w.queue
          mEventsCount := w.count + 1, posts := c.posts + 1
          gone := c.gone ++ w.removed } c.mEventQueue.isEmpty

theorem posting (new : CallbackEvent) (coalescer : CallbackEvent → ECode) (c : CallbackContext) :
    Posting new coalescer c (c.postCallbackEvent new coalescer).1
      (c.postCallbackEvent new coalescer).2 := by
  rw [postCallbackEvent]
  split
  · next h => exact .refused h
  · next hr =>
    dsimp only
    split
    · next h => exact .both hr rfl h
    · next h => exact .inserted hr rfl (by simpa using h)

@[simp]
theorem serial_lower (new : CallbackEvent) (p : CallbackEventFlags) :
    (lower new p).serial = new.serial := by
  rw [lower]
  split <;> rfl

/-- Every call cancels the events that a condition holds of. -/
theorem exists_cancel_eq (call : CancelCall) :
    ∃ p, ∀ c : CallbackContext, c.cancel call = c.cancelWhere p := by
  cases call with
  | allPending sender => exact ⟨_, fun _ => rfl⟩
  | pending sender id => exact ⟨_, fun _ => rfl⟩
  | events sender id handlerThis handlerFunc isBusy => exact ⟨_, fun _ => rfl⟩
  | all => exact ⟨_, fun _ => rfl⟩

theorem cancelWhere_eq (p : CallbackEvent → Bool) (c : CallbackContext) :
    c.cancelWhere p =
      { c with
        mEventQueue := c.mEventQueue.filter fun e => !p e
        mEventsCount := c.mEventsCount - (c.mEventQueue.filter p).length
        gone := c.gone ++ (c.mEventQueue.filter p).map CallbackEvent.cancel } := by
  have hcount : (cancelLoop p c.mEventQueue c.mEventsCount).count
      = c.mEventsCount - (c.mEventQueue.filter p).length := by
    have h := count_cancelLoop p c.mEventQueue c.mEventsCount
    rw [removed_cancelLoop, List.length_map] at h
    exact eq_sub_of_add_eq h
  rw [cancelWhere, queue_cancelLoop, removed_cancelLoop, hcount]

end CallbackContext

/-- A node that `GetEvent` detaches is an event of the queue, or the sentinel of the empty queue. -/
theorem getEvent_eq_detached {priority : UInt32} {now : ℤ} {queue : List CallbackEvent}
    {node : Option CallbackEvent} (h : getEvent priority now queue = .detached node) :
    (∃ e ∈ queue, node = some e) ∨ priority = 0 ∧ queue = [] ∧ node = none := by
  rw [getEvent] at h
  split at h
  · cases hfind : queue.find? (selects priority) with
    | none =>
      rw [hfind] at h
      cases h
    | some e =>
      rw [hfind] at h
      dsimp only at h
      split at h
      · cases h
      · cases h
        exact .inl ⟨e, List.mem_of_find?_eq_some hfind, rfl⟩
  · next hzero =>
    split at h
    · cases h
    · cases h
      cases queue with
      | nil => exact .inr ⟨not_not.mp hzero, rfl, rfl⟩
      | cons e rest => exact .inl ⟨e, List.mem_cons_self, rfl⟩

/-- With the priority 0 it is the first. -/
theorem getEvent_zero (now : ℤ) (queue : List CallbackEvent) :
    getEvent 0 now queue = .early queue.head? ∨ getEvent 0 now queue = .detached queue.head? := by
  rw [getEvent, if_neg (by simp)]
  exact ite_eq_or_eq ..

namespace CallbackContext

/-! ### Sequences of operations -/

/-- The invariant: every event in the queue is older than the next post. -/
structure Kept (c : CallbackContext) : Prop where
  sorted : c.mEventQueue.Pairwise Before
  count : c.mEventsCount = c.mEventQueue.length
  older : ∀ e ∈ c.mEventQueue, e.serial < c.posts

theorem kept_init : Kept {} := ⟨.nil, rfl, List.forall_mem_nil _⟩

section

variable {c c' : CallbackContext}

theorem Kept.post (hc : c.Kept) (new : CallbackEvent) (coalescer : CallbackEvent → ECode) :
    (c.postCallbackEvent new coalescer).1.Kept := by
  have hposting := posting new coalescer c
  generalize (c.postCallbackEvent new coalescer).1 = c', (c.postCallbackEvent new coalescer).2 = notify
    at hposting
  have hlt {e : CallbackEvent} (he : e ∈ c.mEventQueue) : e.serial < c.posts + 1 :=
    (hc.older e he).trans (Nat.lt_succ_self _)
  have hkeeps := keeps_coalesce (c.number new) coalescer c
  have hcount (w : Coalesced) (hw : Keeps w c) : w.count = w.queue.length := by
    have hlength := hw.perm.length_eq
    have := hw.count
    rw [hc.count, ← hlength, List.length_append] at this
    push_cast at this
    omega
  cases hposting with
  | refused _ => exact ⟨hc.sorted, hc.count, fun e he => hlt he⟩
  | both _ hw _ =>
    rw [← hw] at hkeeps
    exact ⟨hc.sorted.sublist hkeeps.sublist, hcount _ hkeeps,
      fun e he => hlt (hkeeps.sublist.subset he)⟩
  | @inserted w _ hw _ =>
    rw [← hw] at hkeeps
    have hperm := perm_insertEvent (lower (c.number new) w.highestFlag) w.queue
    refine ⟨pairwise_insertEvent (fun e he => ?_) (hc.sorted.sublist hkeeps.sublist), ?_,
      fun e he => ?_⟩
    · rw [serial_lower]
      exact hc.older e (hkeeps.sublist.subset he)
    · change w.count + 1 = _
      rw [hperm.length_eq, List.length_cons, hcount w hkeeps, Nat.cast_succ]
    · rcases List.mem_cons.mp (hperm.mem_iff.mp he) with rfl | he
      · rw [serial_lower]
        exact Nat.lt_succ_self _
      · exact hlt (hkeeps.sublist.subset he)

theorem Kept.cancelWhere (hc : c.Kept) (p : CallbackEvent → Bool) : (c.cancelWhere p).Kept := by
  rw [cancelWhere_eq]
  refine ⟨hc.sorted.filter _, ?_, fun e he => hc.older e (List.mem_filter.mp he).1⟩
  have hlength := List.length_eq_length_filter_add (l := c.mEventQueue) p
  have hcount := hc.count
  dsimp only
  omega

theorem Kept.cancel (hc : c.Kept) (call : CancelCall) : (c.cancel call).Kept := by
  obtain ⟨p, hp⟩ := exists_cancel_eq call
  rw [hp]
  exact hc.cancelWhere p

theorem Kept.take (hc : c.Kept) {e : CallbackEvent} (he : e ∈ c.mEventQueue) :
    (c.take (some e)).Kept := by
  have hsub : (c.mEventQueue.erase e).Sublist c.mEventQueue := List.erase_sublist
  refine ⟨hc.sorted.sublist hsub, ?_, fun f hf => hc.older f (hsub.subset hf)⟩
  change c.mEventsCount - 1 = _
  have hpos := List.length_pos_of_mem he
  have hlength := List.length_erase_of_mem he
  have hcount := hc.count
  change c.mEventsCount - 1 = ((c.mEventQueue.erase e).length : ℤ)
  omega

theorem Kept.idle (hc : c.Kept) : c.idle.Kept := by
  rw [CallbackContext.idle]
  split
  · exact hc
  · exact ⟨hc.sorted, hc.count, hc.older⟩

/-- What the passes of `GetEvent` come to, on a queue that is not empty. -/
theorem getEvents_eq_some {priority : UInt32} {clock : List ℤ} {r : Pass}
    (hne : c.mEventQueue ≠ []) (h : c.getEvents priority clock = some (r, c')) :
    r = .null ∧ c' = c.idle ∧ priority ≠ 0 ∨
      ∃ e ∈ c.mEventQueue, r = .detached (some e) ∧ c' = c.take (some e) ∧
        (priority = 0 → c.mEventQueue.head? = some e) := by
  induction clock with
  | nil => cases h
  | cons now clock ih =>
    rw [getEvents] at h
    split at h
    · next hnull =>
      cases h
      refine .inl ⟨rfl, rfl, ?_⟩
      rintro rfl
      rcases getEvent_zero now c.mEventQueue with h0 | h0
      · rw [hnull] at h0
        cases h0
      · rw [hnull] at h0
        cases h0
    · exact ih h
    · next node hdetached =>
      cases h
      rcases getEvent_eq_detached hdetached with ⟨e, he, rfl⟩ | ⟨_, hnil, _⟩
      · refine .inr ⟨e, he, rfl, rfl, ?_⟩
        rintro rfl
        rcases getEvent_zero now c.mEventQueue with h0 | h0
        · rw [hdetached] at h0
          cases h0
        · rw [hdetached] at h0
          exact (Pass.detached.inj h0).symm
      · exact absurd hnil hne

theorem Kept.dequeue (hc : c.Kept) {priority : UInt32} {clock : List ℤ} {r : Pass}
    (h : c.dequeue priority clock = some (r, c')) : c'.Kept := by
  rw [CallbackContext.dequeue] at h
  split at h
  · cases h
    exact hc.idle
  · next hne =>
    rcases getEvents_eq_some (by simpa using hne) h with ⟨_, rfl, _⟩ | ⟨e, he, _, rfl, _⟩
    · exact hc.idle
    · exact hc.take he

/-- **One operation.** -/
theorem Kept.step (hc : c.Kept) {a : QueueAction} (h : c.step a = some c') : c'.Kept := by
  cases a with
  | post new coalescer =>
    cases h
    exact hc.post new coalescer
  | cancel call =>
    cases h
    exact hc.cancel call
  | dequeue priority clock =>
    obtain ⟨⟨r, _⟩, hdequeue, rfl⟩ := Option.map_eq_some_iff.mp h
    exact hc.dequeue hdequeue
  | pop =>
    cases h
    exact ⟨hc.sorted, hc.count, hc.older⟩
  | requestToFinish nice =>
    cases h
    exact ⟨hc.sorted, hc.count, hc.older⟩

theorem Kept.ordered (hc : c.Kept) : c.Ordered where
  sorted := hc.sorted
  count := hc.count
  first clock r c' h := by
    rw [CallbackContext.dequeue] at h
    split at h
    · next hnil =>
      cases h
      have hnil := List.isEmpty_iff.mp hnil
      refine .inl ⟨hnil, rfl, ?_⟩
      rw [CallbackContext.idle]
      split <;> exact hnil
    · next hne =>
      rcases getEvents_eq_some (by simpa using hne) h with ⟨_, _, h0⟩ | ⟨e, _, rfl, rfl, hhead⟩
      · exact absurd rfl h0
      · obtain ⟨rest, hqueue⟩ := List.head?_eq_some_iff.mp (hhead rfl)
        refine .inr ⟨e, rest, hqueue, rfl, ?_⟩
        change c.mEventQueue.erase e = rest
        rw [hqueue, List.erase_cons_head]

end

/-- **The order of the queue.** -/
theorem ordered_of_run (as : List QueueAction) (c : CallbackContext)
    (hrun : Trace.run step {} as = some c) : c.Ordered :=
  (Trace.run_induction (fun _ _ _ hc h => hc.step h) kept_init hrun).ordered

/-- An event of one sender and handler. -/
def eventOf (mID mFlags : UInt32) (mWhen : ℤ) : CallbackEvent where
  mID := mID
  mFlags := mFlags
  mSender := 1
  mHandlerThis := 2
  mHandlerFunc := 3
  mWhen := mWhen

/-- Three events are posted, the second goes first; a fourth takes the place of the first; one is
dequeued when it is due, and one cancelled. -/
def fourPosts : List QueueAction :=
  [.post (eventOf 7 5 20) fun _ => NOERROR, .post (eventOf 8 2 30) fun _ => NOERROR,
    .post (eventOf 9 5 20) fun _ => NOERROR, .post (eventOf 7 0x109 40) fun _ => NOERROR,
    .dequeue 0 [10, 31], .cancel (.pending 1 9)]

theorem ordered_of_run_fourPosts :
    ∃ c, Trace.run step {} fourPosts = some c ∧ c.mEventQueue.map (·.serial) = [3] ∧ c.Ordered :=
  ⟨_, rfl, rfl, ordered_of_run fourPosts _ rfl⟩

end CallbackContext

end ElastosCar
