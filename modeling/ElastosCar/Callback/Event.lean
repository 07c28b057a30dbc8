import ElastosCar.Lib.Insertion
import ElastosCar.Types

/-!
# Callback events

`CarCallbackEvent` of `callback.h`, and the walks over the queue of events that
`CCallbackContext.cpp` makes: the loop of `PostCallbackEvent` that coalesces, its search for the place
of the new event, the loop of the cancel operations, and `GetEvent`.

The queue is a ring with the sentinel `mEventQueue`; it is kept as the list of the events from
`mEventQueue.mNext` on, and where the code may hold the sentinel in place of an event, `none` stands
for it. Each walk counts `mEventsCount` down where it detaches an event, as the code does.
-/

namespace ElastosCar

/-- `CallbackEventFlags`, an `Int32` kept as its 32 bits. -/
abbrev CallbackEventFlags := UInt32

def CallbackEventFlag_PriorityMask : CallbackEventFlags := 0xFF

def CallbackEventFlag_Duplicated : CallbackEventFlags := 0x100

def CallbackEventFlag_SyncCall : CallbackEventFlags := 0x200

def E_CANCLE_BOTH_EVENTS : ECode := 0x80240000

def E_CALLBACK_IS_BUSY : ECode := 0x80280000

/-- `mStatus` of an event. -/
inductive CallingStatus
  | created
  | running
  | completed
  | cancelled
deriving DecidableEq, Repr

/-- How the thread that brought an event waits for it. -/
inductive Waiting
  /-- It called `PostCallbackEvent` and does not. -/
  | none
  /-- It called `SendCallbackEvent` and waits on `mSyncEvent` of the event. -/
  | thread
  /-- It runs a callback context itself, and waits on `mThreadEvent` of that. -/
  | context
deriving DecidableEq, Repr

/-- A `CarCallbackEvent`. Pointers and the `mID` are words. -/
structure CallbackEvent where
  /-- The number of the post that brought the event. -/
  serial : ℕ := 0
  mID : UInt32
  mFlags : CallbackEventFlags
  mSender : UInt32
  mCoalesceFunc : UInt32 := 0
  mHandlerThis : UInt32
  mHandlerFunc : UInt32
  /-- Whether `mTypeOfFunc` is `CallbackType_CAR`. -/
  isCar : Bool := false
  mWhen : ℤ := 0
  mStatus : CallingStatus := .created
  mCompleted : Bool := false
  /-- How often `mSyncEvent` was posted. -/
  mSyncEvent : ℕ := 0
  waiting : Waiting := .none
deriving DecidableEq, Repr

namespace CallbackEvent

/-- The priority bits of `mFlags`. -/
def priority (e : CallbackEvent) : CallbackEventFlags := e.mFlags &&& CallbackEventFlag_PriorityMask

/-- Two events that can be coalesced. -/
def Matches (e f : CallbackEvent) : Prop :=
  e.mID = f.mID ∧ e.mSender = f.mSender ∧ e.mHandlerThis = f.mHandlerThis ∧
    e.mHandlerFunc = f.mHandlerFunc

instance (e f : CallbackEvent) : Decidable (e.Matches f) := by
  unfold Matches
  infer_instance

/-- What the cancel operations do to an event they detach, and what a refused one gets. -/
def cancel (e : CallbackEvent) : CallbackEvent :=
  { e with mStatus := .cancelled, mCompleted := true, mSyncEvent := e.mSyncEvent + 1 }

def setPriority (e : CallbackEvent) (p : CallbackEventFlags) : CallbackEvent :=
  { e with mFlags := e.mFlags &&& ~~~CallbackEventFlag_PriorityMask ||| p }

@[simp]
theorem serial_cancel (e : CallbackEvent) : e.cancel.serial = e.serial := rfl

@[simp]
theorem serial_setPriority (e : CallbackEvent) (p : CallbackEventFlags) :
    (e.setPriority p).serial = e.serial := rfl

/-- The order of the queue: by the priority bits, then by `mWhen`, then in the order of posting. -/
def Before (e f : CallbackEvent) : Prop :=
  e.priority < f.priority ∨
    e.priority = f.priority ∧ (e.mWhen < f.mWhen ∨ e.mWhen = f.mWhen ∧ e.serial < f.serial)

/-- The place of an event in that order. -/
def key (e : CallbackEvent) : ℕ ×ₗ ℤ ×ₗ ℕ := toLex (e.priority.toNat, toLex (e.mWhen, e.serial))

theorem before_iff {e f : CallbackEvent} : e.Before f ↔ e.key < f.key := by
  rw [Before, key, key, Prod.Lex.toLex_lt_toLex, Prod.Lex.toLex_lt_toLex, UInt32.lt_iff_toNat_lt,
    ← UInt32.toNat_inj]

theorem Before.trans {e f g : CallbackEvent} (hef : e.Before f) (hfg : f.Before g) : e.Before g :=
  before_iff.mpr ((before_iff.mp hef).trans (before_iff.mp hfg))

end CallbackEvent

open CallbackEvent

/-! ### The walks -/

/-- What the coalescing loop comes to. -/
structure Coalesced where
  queue : List CallbackEvent
  count : ℤ
  highestFlag : CallbackEventFlags
  /-- The events it detached. -/
  removed : List CallbackEvent
  /-- `E_CANCLE_BOTH_EVENTS` was returned, and the new event is dropped as well. -/
  both : Bool
deriving DecidableEq, Repr

/-- The loop goes backwards from the last event; `rev` is what it has not visited, and `after` is what
it has left behind. `coalescer` is what `invokeCoalescer` returns for an old event. -/
def coalesceLoop (new : CallbackEvent) (coalescer : CallbackEvent → ECode) :
    (rev after : List CallbackEvent) → ℤ → CallbackEventFlags → List CallbackEvent → Coalesced
  | [], after, count, highestFlag, removed => ⟨after, count, highestFlag, removed, false⟩
  | prev :: rev, after, count, highestFlag, removed =>
    if new.Matches prev then
      if new.mCoalesceFunc ≠ 0 ∧ failed (coalescer prev) then
        if coalescer prev = E_CANCLE_BOTH_EVENTS then
          ⟨rev.reverse ++ after, count - 1, highestFlag, removed ++ [prev], true⟩
        else coalesceLoop new coalescer rev (prev :: after) count highestFlag removed
      else coalesceLoop new coalescer rev after (count - 1) prev.priority (removed ++ [prev])
    else coalesceLoop new coalescer rev (prev :: after) count highestFlag removed

/-- The new event goes after an event of a lower priority number, or of the same and not later. -/
def goesAfter (new prev : CallbackEvent) : Bool :=
  decide (prev.priority < new.priority ∨ prev.priority = new.priority ∧ prev.mWhen ≤ new.mWhen)

/-- The search for the place of the new event. -/
def insertEvent (new : CallbackEvent) (queue : List CallbackEvent) : List CallbackEvent :=
  insertBack (goesAfter new) new queue.reverse []

/-- What a cancel loop comes to. -/
structure Cancelled where
  queue : List CallbackEvent
  count : ℤ
  /-- The events it detached. -/
  removed : List CallbackEvent
deriving DecidableEq, Repr

/-- The loop of the cancel operations detaches the events that `p` holds of. -/
def cancelLoop (p : CallbackEvent → Bool) : List CallbackEvent → ℤ → Cancelled
  | [], count => ⟨[], count, []⟩
  | e :: rest, count =>
    if p e then
      let c := cancelLoop p rest (count - 1)
      { c with removed := e.cancel :: c.removed }
    else
      let c := cancelLoop p rest count
      { c with queue := e :: c.queue }

/-- Whether `GetEvent` takes an event for a `priority` other than 0. -/
def selects (priority : UInt32) (e : CallbackEvent) : Bool :=
  decide (priority &&& CallbackEventFlag_PriorityMask < e.priority) &&
    (priority &&& ~~~CallbackEventFlag_PriorityMask == 0 ||
      priority &&& ~~~CallbackEventFlag_PriorityMask &&& e.mFlags != 0)

/-- One pass of `GetEvent`, from `again` on. -/
inductive Pass
  /-- `NULL` is returned. -/
  | null
  /-- The node is not due: `mQueueLock` is released for the time until it is. -/
  | early (node : Option CallbackEvent)
  /-- The node is detached and returned. -/
  | detached (node : Option CallbackEvent)
deriving DecidableEq, Repr

/-- `mWhen` of the sentinel is 0. -/
def whenOf (node : Option CallbackEvent) : ℤ := node.elim 0 (·.mWhen)

/-- With the `priority` 0 the node is `mEventQueue.First()`, which is the sentinel if there is no
event. -/
def getEvent (priority : UInt32) (now : ℤ) (queue : List CallbackEvent) : Pass :=
  if priority ≠ 0 then
    match queue.find? (selects priority) with
    | some e => if now < e.mWhen then .early (some e) else .detached (some e)
    | none => .null
  else if now < whenOf queue.head? then .early queue.head?
  else .detached queue.head?

/-! ### What the walks keep -/

section Coalesce

variable {new : CallbackEvent} {coalescer : CallbackEvent → ECode} {highestFlag : CallbackEventFlags}

/-- Every event is left in the queue or detached. -/
theorem perm_coalesceLoop (rev after removed : List CallbackEvent) (count : ℤ)
    (highestFlag : CallbackEventFlags) :
    ((coalesceLoop new coalescer rev after count highestFlag removed).queue ++
      (coalesceLoop new coalescer rev after count highestFlag removed).removed).Perm
      (rev.reverse ++ after ++ removed) := by
  induction rev generalizing after removed count highestFlag with
  | nil => rfl
  | cons prev rev ih =>
    have hkeep := ih (prev :: after) removed count highestFlag
    have hdetach : (rev.reverse ++ after ++ (removed ++ [prev])).Perm
        (rev.reverse ++ prev :: after ++ removed) := by
      have hmiddle : (rev.reverse ++ after ++ (removed ++ [prev])).Perm
          (prev :: (rev.reverse ++ after ++ removed)) := by
        rw [← List.append_assoc]
        exact List.perm_append_singleton _ _
      refine hmiddle.trans ?_
      rw [List.append_assoc, List.append_assoc, List.cons_append]
      exact List.perm_middle.symm
    rw [List.reverse_cons, List.append_assoc _ [prev], List.singleton_append, coalesceLoop]
    split_ifs
    · exact hdetach
    · exact hkeep
    · exact (ih after (removed ++ [prev]) (count - 1) prev.priority).trans hdetach
    · exact hkeep

/-- What is left in the queue is in the old order. -/
theorem sublist_coalesceLoop (rev after removed : List CallbackEvent) (count : ℤ)
    (highestFlag : CallbackEventFlags) :
    (coalesceLoop new coalescer rev after count highestFlag removed).queue.Sublist
      (rev.reverse ++ after) := by
  induction rev generalizing after removed count highestFlag with
  | nil => exact .refl _
  | cons prev rev ih =>
    have hdetach : (rev.reverse ++ after).Sublist (rev.reverse ++ prev :: after) :=
      (List.sublist_cons_self prev after).append_left _
    rw [List.reverse_cons, List.append_assoc, List.singleton_append, coalesceLoop]
    split_ifs
    · exact hdetach
    · exact ih ..
    · exact (ih ..).trans hdetach
    · exact ih ..

theorem count_coalesceLoop (rev after removed : List CallbackEvent) (count : ℤ)
    (highestFlag : CallbackEventFlags) :
    (coalesceLoop new coalescer rev after count highestFlag removed).count +
      (coalesceLoop new coalescer rev after count highestFlag removed).removed.length
      = count + removed.length := by
  induction rev generalizing after removed count highestFlag with
  | nil => rfl
  | cons prev rev ih =>
    rw [coalesceLoop]
    split_ifs
    · rw [List.length_append]
      push_cast
      simp only [List.length_singleton, Nat.cast_one]
      ring
    · exact ih ..
    · rw [ih, List.length_append]
      push_cast
      simp only [List.length_singleton, Nat.cast_one]
      ring
    · exact ih ..

end Coalesce

theorem queue_cancelLoop (p : CallbackEvent → Bool) (queue : List CallbackEvent) (count : ℤ) :
    (cancelLoop p queue count).queue = queue.filter fun e => !p e := by
  induction queue generalizing count with
  | nil => rfl
  | cons e rest ih =>
    rw [cancelLoop, List.filter_cons]
    split
    · next hp => simpa [hp] using ih _
    · next hp => simpa [hp] using ih _

theorem removed_cancelLoop (p : CallbackEvent → Bool) (queue : List CallbackEvent) (count : ℤ) :
    (cancelLoop p queue count).removed = (queue.filter p).map cancel := by
  induction queue generalizing count with
  | nil => rfl
  | cons e rest ih =>
    rw [cancelLoop, List.filter_cons]
    split
    · next hp => simpa [hp] using ih _
    · next hp => simpa [hp] using ih _

theorem count_cancelLoop (p : CallbackEvent → Bool) (queue : List CallbackEvent) (count : ℤ) :
    (cancelLoop p queue count).count + (cancelLoop p queue count).removed.length = count := by
  induction queue generalizing count with
  | nil => exact add_zero count
  | cons e rest ih =>
    rw [cancelLoop]
    split
    · have := ih (count - 1)
      dsimp only
      rw [List.length_cons]
      push_cast
      omega
    · exact ih count

/-- The search goes by the order of the queue. -/
theorem goesAfter_iff {new prev : CallbackEvent} (h : prev.serial < new.serial) :
    goesAfter new prev = true ↔ prev.Before new := by
  rw [goesAfter, decide_eq_true_iff, Before, le_iff_lt_or_eq]
  simp [h]

/-- Of two events one comes first. -/
theorem before_of_not_before {e f : CallbackEvent} (hne : e.serial ≠ f.serial) (h : ¬ e.Before f) :
    f.Before e := by
  rw [before_iff] at h ⊢
  refine (not_lt.mp h).lt_of_ne fun heq => hne.symm ?_
  exact congrArg (fun k => (ofLex (ofLex k).2).2) heq

/-- An event that is newer than all others is put where the order has it. -/
theorem pairwise_insertEvent {new : CallbackEvent} {queue : List CallbackEvent}
    (hnew : ∀ e ∈ queue, e.serial < new.serial) (h : queue.Pairwise Before) :
    (insertEvent new queue).Pairwise Before := by
  have hqueue : (queue.reverse.reverse ++ []).Pairwise Before := by
    rwa [List.reverse_reverse, List.append_nil]
  refine pairwise_insertBack (fun hab hbc => hab.trans hbc) (fun e he hbefore => ?_)
    (fun e he hnot => ?_) (List.forall_mem_nil _) hqueue
  · exact (goesAfter_iff (hnew e (List.mem_reverse.mp he))).mp hbefore
  · have hlt := hnew e (List.mem_reverse.mp he)
    refine before_of_not_before hlt.ne fun hbefore => ?_
    rw [(goesAfter_iff hlt).mpr hbefore] at hnot
    cases hnot

theorem perm_insertEvent (new : CallbackEvent) (queue : List CallbackEvent) :
    (insertEvent new queue).Perm (new :: queue) := by
  have hinsert : (insertEvent new queue).Perm (new :: (queue.reverse.reverse ++ [])) :=
    perm_insertBack ..
  rwa [List.reverse_reverse, List.append_nil] at hinsert

end ElastosCar
