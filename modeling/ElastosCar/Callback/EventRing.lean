import ElastosCar.Callback.Context
import ElastosCar.Lib.Ring

/-!
# The cancel operations on the links

`mEventQueue` of `CCallbackContext` is the head of a ring of events, and the cancel operations take
events out of the ring while they go through it: three of them go on from the node before, the
fourth starts again at the head. `cancel_removes` says for every content of the ring what they
leave: the events that the arguments select are out of it, cancelled and released, and the others
stand in their order. So they do what `CallbackContext.cancel` does to the list of the events
(`view_cancel`).
-/

namespace ElastosCar

open CallbackContext (CancelCall)

/-- A `CCallbackContext` with its events at their addresses. -/
@[ext]
structure LinkedContext where
  /-- Of the events, and of the head of the queue. -/
  links : Links ℕ
  event : ℕ → CallbackEvent
  mRef : ℕ → ℤ
  /-- The address of the head. -/
  mEventQueue : ℕ
  mEventsCount : ℤ
  mCurrentEvents : List CallbackEvent := []
  mThreadEvent : ℕ := 0
  mExitRequested : Bool := false
  mRequestToQuit : Bool := false
  mStatus : ContextStatus := .created

namespace LinkedContext

/-! ### What the operations are made of -/

/-- `Detach`, and `mEventsCount` that goes with it. -/
def detach (a : ℕ) (c : LinkedContext) : Option LinkedContext :=
  (c.links.detach a).map fun links => { c with links, mEventsCount := c.mEventsCount - 1 }

/-- `AddRef` and `Release`. -/
def count (a : ℕ) (n : ℤ) (c : LinkedContext) : LinkedContext :=
  { c with mRef := Function.update c.mRef a (c.mRef a + n) }

/-- The event is cancelled and completed, and its `mSyncEvent` is posted. -/
def cancelEvent (a : ℕ) (c : LinkedContext) : LinkedContext :=
  { c with event := Function.update c.event a (c.event a).cancel }

/-- The context, with the events of the queue as a list. -/
def view (c : LinkedContext) (l : List ℕ) : CallbackContext where
  mExitRequested := c.mExitRequested
  mRequestToQuit := c.mRequestToQuit
  mEventQueue := l.map c.event
  mCurrentEvents := c.mCurrentEvents
  mThreadEvent := c.mThreadEvent
  mStatus := c.mStatus
  mEventsCount := c.mEventsCount

/-! ### The cancel operations -/

/-- The body of the loops: an event that is taken out hands over to the node before it. -/
def cancelBody (p : CallbackEvent → Bool) (cbEvent : ℕ) (c : LinkedContext) :
    Option (Flow ℕ × LinkedContext) :=
  if p (c.event cbEvent) then do
    let prev ← c.links.prev cbEvent
    let c ← c.detach cbEvent
    some (.next prev, (c.cancelEvent cbEvent).count cbEvent (-1))
  else some (.next cbEvent, c)

/-- The loops of the cancel operations, over the condition in them. -/
def cancelWhere (p : CallbackEvent → Bool) (fuel : ℕ) (c : LinkedContext) :
    Option LinkedContext := do
  let cbEvent ← c.links.next c.mEventQueue
  let (_, c) ← forEach (fun c => c.links.next) (cancelBody p) c.mEventQueue fuel cbEvent c
  some c

def cancelAllPendingCallbacks (sender : UInt32) : ℕ → LinkedContext → Option LinkedContext :=
  cancelWhere fun e => e.mSender == sender

def cancelPendingCallback (sender id : UInt32) : ℕ → LinkedContext → Option LinkedContext :=
  cancelWhere fun e => e.mSender == sender && e.mID == id

/-- `IsExistEvent` looks at `mCurrentEvents` only. -/
def cancelCallbackEvents (sender id handlerThis handlerFunc : UInt32) (isBusy : Bool) (fuel : ℕ)
    (c : LinkedContext) : Option (ECode × LinkedContext) := do
  let c ← c.cancelWhere (fun e => e.mSender == sender && e.mID == id &&
    e.mHandlerThis == handlerThis && e.mHandlerFunc == handlerFunc) fuel
  if (c.view []).isExistEvent sender id handlerThis handlerFunc && isBusy then
    some (E_CALLBACK_IS_BUSY, c)
  else some (NOERROR, c)

/-- The loop runs as long as the head does not point to itself. -/
def cancelAllCallbackEvents : ℕ → LinkedContext → Option LinkedContext
  | 0, _ => none
  | fuel + 1, c => do
    let callbackEvent ← c.links.next c.mEventQueue
    if callbackEvent = c.mEventQueue then some c
    else
      let c ← c.detach callbackEvent
      cancelAllCallbackEvents fuel ((c.cancelEvent callbackEvent).count callbackEvent (-1))

def cancel (fuel : ℕ) (c : LinkedContext) :
    CancelCall → Option (ECode × LinkedContext)
  | .allPending sender => (c.cancelAllPendingCallbacks sender fuel).map (NOERROR, ·)
  | .pending sender id => (c.cancelPendingCallback sender id fuel).map (NOERROR, ·)
  | .events sender id handlerThis handlerFunc isBusy =>
    c.cancelCallbackEvents sender id handlerThis handlerFunc isBusy fuel
  | .all => (c.cancelAllCallbackEvents fuel).map (NOERROR, ·)

end LinkedContext

/-- The events that the arguments of a call select. -/
def CallbackContext.CancelCall.selects : CancelCall → CallbackEvent → Bool
  | .allPending sender, e => decide (e.mSender = sender)
  | .pending sender id, e => decide (e.mSender = sender ∧ e.mID = id)
  | .events sender id handlerThis handlerFunc _, e =>
    decide (e.mSender = sender ∧ e.mID = id ∧ e.mHandlerThis = handlerThis ∧
      e.mHandlerFunc = handlerFunc)
  | .all, _ => true

namespace LinkedContext

/-- What is left when the events of a list are taken out and released, and `f` is done to them:
nothing else differs but the links. -/
def withReleased (f : CallbackEvent → CallbackEvent) (c : LinkedContext) (links : Links ℕ)
    (removed : List ℕ) : LinkedContext :=
  { c with
    links
    event := fun a => if a ∈ removed then f (c.event a) else c.event a
    mRef := fun a => if a ∈ removed then c.mRef a - 1 else c.mRef a
    mEventsCount := c.mEventsCount - removed.length }

section

variable {c : LinkedContext} {links links' : Links ℕ} {a : ℕ} {l r removed : List ℕ}
  {p : CallbackEvent → Bool} {f : CallbackEvent → CallbackEvent}

theorem withReleased_nil : c.withReleased f c.links [] = c := by
  simp [withReleased]

/-- Further events. -/
theorem withReleased_withReleased {more : List ℕ} (hdisjoint : ∀ a ∈ more, a ∉ removed) :
    (c.withReleased f links removed).withReleased f links' more =
      c.withReleased f links' (removed ++ more) := by
  refine LinkedContext.ext rfl (funext fun b => ?_) (funext fun b => ?_) rfl ?_ rfl rfl rfl rfl rfl
  · by_cases hb : b ∈ more
    · simp [withReleased, hb, hdisjoint b hb]
    · simp [withReleased, hb]
  · by_cases hb : b ∈ more
    · simp [withReleased, hb, hdisjoint b hb]
    · simp [withReleased, hb]
  · change c.mEventsCount - removed.length - more.length =
      c.mEventsCount - ((removed ++ more).length : ℕ)
    rw [List.length_append]
    push_cast
    ring

/-- An event is taken out of the ring, cancelled and released. -/
theorem detach_eq (h : LinkedRing c.links c.mEventQueue (l ++ a :: r)) :
    ∃ c' links, c.detach a = some c' ∧
      (c'.cancelEvent a).count a (-1) = c.withReleased .cancel links [a] ∧
      LinkedRing links c.mEventQueue (l ++ r) := by
  obtain ⟨links, hdetach, hring⟩ := h.detach
  refine ⟨_, links, by rw [detach, hdetach]; rfl, ?_, hring⟩
  refine LinkedContext.ext rfl (funext fun b => ?_) (funext fun b => ?_) rfl rfl rfl rfl rfl rfl rfl
  · rcases eq_or_ne b a with rfl | hne
    · simp [withReleased, cancelEvent, count]
    · simp [withReleased, cancelEvent, count, hne]
  · rcases eq_or_ne b a with rfl | hne
    · simp [withReleased, cancelEvent, count, sub_eq_add_neg]
    · simp [withReleased, cancelEvent, count, hne]

theorem cancelBody_of_pos (h : LinkedRing c.links c.mEventQueue (l ++ a :: r))
    (hp : p (c.event a) = true) :
    ∃ links, cancelBody p a c =
        some (.next (l.getLastD c.mEventQueue), c.withReleased .cancel links [a]) ∧
      LinkedRing links c.mEventQueue (l ++ r) := by
  obtain ⟨c', links, hdetach, hcancel, hring⟩ := detach_eq h
  refine ⟨links, ?_, hring⟩
  rw [cancelBody, if_pos hp, h.prev_eq, hdetach, ← hcancel]
  rfl

/-- The loop has dealt with the events of `seen`, and those of `rest` are to come. -/
def Passed (p : CallbackEvent → Bool) (c : LinkedContext) (seen rest : List ℕ)
    (c' : LinkedContext) : Prop :=
  ∃ links, c' = c.withReleased .cancel links (seen.filter fun a => p (c.event a)) ∧
    LinkedRing links c.mEventQueue ((seen.filter fun a => !p (c.event a)) ++ rest)

/-- One round of the loop. -/
theorem Passed.step {c' : LinkedContext} (h : Passed p c l (a :: r) c') (ha : a ∉ l) :
    ∃ b c'', cancelBody p a c' = some (.next b, c'') ∧
      c''.links.next b = some (r.headD c.mEventQueue) ∧ Passed p c (l ++ [a]) r c'' := by
  obtain ⟨links, rfl, hring⟩ := h
  have hnot : a ∉ l.filter fun a => p (c.event a) := fun hmem => ha (List.mem_filter.mp hmem).1
  have hsame : (c.withReleased .cancel links (l.filter fun a => p (c.event a))).event a =
      c.event a := if_neg hnot
  by_cases hp : p (c.event a) = true
  · -- the next event is found from the one before, or from the head
    obtain ⟨links', hbody, hring'⟩ := cancelBody_of_pos
      (c := c.withReleased .cancel links (l.filter fun a => p (c.event a))) hring (hsame ▸ hp)
    refine ⟨_, _, hbody, hring'.between.1, links', ?_, ?_⟩
    · rw [withReleased_withReleased (by simpa using hnot), List.filter_append,
        List.filter_cons_of_pos (by simpa using hp), List.filter_nil]
    · rw [List.filter_append, List.filter_cons_of_neg (by simpa using hp), List.filter_nil,
        List.append_nil]
      exact hring'
  · have hbody : cancelBody p a (c.withReleased .cancel links (l.filter fun a => p (c.event a))) =
        some (.next a, c.withReleased .cancel links (l.filter fun a => p (c.event a))) := by
      rw [cancelBody, hsame, if_neg hp]
    refine ⟨_, _, hbody, hring.next_eq, links, ?_, ?_⟩
    · rw [List.filter_append, List.filter_cons_of_neg (by simpa using hp), List.filter_nil,
        List.append_nil]
    · rw [List.filter_append, List.filter_cons_of_pos (by simpa using hp), List.filter_nil,
        List.append_assoc, List.singleton_append]
      exact hring

/-- The loop ends, and takes the events out that the condition holds of. -/
theorem passed_cancelWhere (h : LinkedRing c.links c.mEventQueue l) (p : CallbackEvent → Bool)
    {fuel : ℕ} (hfuel : l.length < fuel) :
    ∃ c', c.cancelWhere p fuel = some c' ∧ Passed p c l [] c' := by
  have hbody (a : ℕ) (rest : List ℕ) (c' : LinkedContext)
      (hI : ∃ seen, l = seen ++ a :: rest ∧ Passed p c seen (a :: rest) c') :
      a ≠ c.mEventQueue ∧
        ((∃ b c'', cancelBody p a c' = some (.next b, c'') ∧
            c''.links.next b = some (rest.headD c.mEventQueue) ∧
            ∃ seen, l = seen ++ rest ∧ Passed p c seen rest c'') ∨
          ∃ c'', cancelBody p a c' = some (.leave, c'') ∧ Passed p c l [] c'') := by
    obtain ⟨seen, hl, hpassed⟩ := hI
    have hnot : a ∉ seen := by
      have hnodup := (List.nodup_cons.mp h.nodup).2
      rw [hl] at hnodup
      exact fun hmem => (List.nodup_append.mp hnodup).2.2 a hmem a List.mem_cons_self rfl
    obtain ⟨b, c'', hgo, hfollow, hpassed'⟩ := hpassed.step hnot
    refine ⟨h.ne_head (by simp [hl]), .inl ⟨b, c'', hgo, hfollow, seen ++ [a], ?_, hpassed'⟩⟩
    rw [hl, List.append_assoc, List.singleton_append]
  obtain ⟨left, c', hrun, hpassed⟩ := forEach_spec
    (I := fun rest c' => ∃ seen, l = seen ++ rest ∧ Passed p c seen rest c')
    (Q := fun _ c' => Passed p c l [] c') hbody
    (fun c' ⟨seen, hl, hpassed⟩ => by rwa [hl, List.append_nil])
    ⟨[], rfl, c.links, withReleased_nil.symm, h⟩ hfuel
  refine ⟨c', ?_, hpassed⟩
  rw [cancelWhere, h.next_head]
  change (forEach _ _ _ _ _ _).bind _ = _
  rw [hrun]
  rfl

/-- The loop that takes the first event goes on until there is none. -/
theorem cancelAllCallbackEvents_eq {fuel : ℕ} (h : LinkedRing c.links c.mEventQueue l)
    (hfuel : l.length < fuel) :
    ∃ links, c.cancelAllCallbackEvents fuel = some (c.withReleased .cancel links l) ∧
      LinkedRing links c.mEventQueue [] := by
  induction l generalizing c fuel with
  | nil =>
    obtain ⟨fuel, rfl⟩ := Nat.exists_eq_succ_of_ne_zero (Nat.ne_zero_of_lt hfuel)
    refine ⟨c.links, ?_, h⟩
    rw [cancelAllCallbackEvents, h.next_head, withReleased_nil]
    exact if_pos rfl
  | cons a l ih =>
    obtain ⟨fuel, rfl⟩ := Nat.exists_eq_succ_of_ne_zero (Nat.ne_zero_of_lt hfuel)
    have hne : a ≠ c.mEventQueue := h.ne_head List.mem_cons_self
    have hnot : a ∉ l := (List.nodup_cons.mp (List.nodup_cons.mp h.nodup).2).1
    obtain ⟨c', links, hdetach, hcancel, hring⟩ := detach_eq (l := []) h
    obtain ⟨links', hrun, hring'⟩ :=
      ih (c := c.withReleased .cancel links [a]) hring (Nat.lt_of_succ_lt_succ hfuel)
    refine ⟨links', ?_, hring'⟩
    have hdisjoint : ∀ b ∈ l, b ∉ [a] := fun b hb hmem => hnot (List.mem_singleton.mp hmem ▸ hb)
    rw [withReleased_withReleased hdisjoint, ← hcancel] at hrun
    rw [cancelAllCallbackEvents, h.next_head]
    change ite (a = c.mEventQueue) _ ((c.detach a).bind _) = _
    rw [if_neg hne, hdetach]
    exact hrun

end

/-! ### What the operations leave -/

section

variable {c : LinkedContext} {l : List ℕ}

/-- What is left when the events of a list are taken out that a condition holds of. -/
theorem Passed.exists_links {p : CallbackEvent → Bool} {c' : LinkedContext}
    (h : Passed p c l [] c') :
    ∃ links, c' = c.withReleased .cancel links (l.filter fun a => p (c.event a)) ∧
      LinkedRing links c.mEventQueue (l.filter fun a => !p (c.event a)) := by
  obtain ⟨links, hc', hring⟩ := h
  rw [List.append_nil] at hring
  exact ⟨links, hc', hring⟩

theorem selects_pending (sender id : UInt32) :
    (fun e : CallbackEvent => e.mSender == sender && e.mID == id) =
      (CancelCall.pending sender id).selects := by
  funext e
  simp [CancelCall.selects, beq_eq_decide]

theorem selects_events (sender id handlerThis handlerFunc : UInt32) (isBusy : Bool) :
    (fun e : CallbackEvent => e.mSender == sender && e.mID == id &&
      e.mHandlerThis == handlerThis && e.mHandlerFunc == handlerFunc) =
        (CancelCall.events sender id handlerThis handlerFunc isBusy).selects := by
  funext e
  simp [CancelCall.selects, beq_eq_decide, Bool.and_assoc]

/-- **Every operation removes what its arguments select.** -/
theorem cancel_removes (h : LinkedRing c.links c.mEventQueue l) (call : CancelCall)
    {fuel : ℕ} (hfuel : l.length < fuel) :
    ∃ ec links, c.cancel fuel call =
        some (ec, c.withReleased .cancel links (l.filter fun a => call.selects (c.event a))) ∧
      LinkedRing links c.mEventQueue (l.filter fun a => !call.selects (c.event a)) := by
  obtain ⟨c', hrun, hpassed⟩ := passed_cancelWhere h call.selects hfuel
  obtain ⟨links, rfl, hring⟩ := hpassed.exists_links
  cases call with
  | allPending sender => exact ⟨NOERROR, links, congrArg (Option.map (NOERROR, ·)) hrun, hring⟩
  | pending sender id =>
    refine ⟨NOERROR, links, ?_, hring⟩
    rw [cancel, cancelPendingCallback, selects_pending, hrun]
    rfl
  | events sender id handlerThis handlerFunc isBusy =>
    let c' := c.withReleased .cancel links (l.filter fun a =>
      (CancelCall.events sender id handlerThis handlerFunc isBusy).selects (c.event a))
    refine ⟨if (c'.view []).isExistEvent sender id handlerThis handlerFunc && isBusy then
      E_CALLBACK_IS_BUSY else NOERROR, links, ?_, hring⟩
    rw [cancel, cancelCallbackEvents, selects_events _ _ _ _ isBusy, hrun]
    exact (apply_ite (fun ec => some (ec, c')) _ _ _).symm
  | all =>
    -- this one has a loop of its own
    obtain ⟨links, hrun, hring⟩ := cancelAllCallbackEvents_eq h hfuel
    refine ⟨NOERROR, links, ?_, ?_⟩
    · rw [cancel, hrun]
      exact congrArg (fun l => some (NOERROR, c.withReleased .cancel links l))
        (List.filter_true l).symm
    · exact (List.filter_false l).symm ▸ hring

/-- Three events in the ring, the second of another sender. -/
def threeEvents : LinkedContext where
  links := ⟨fun a => if a ≤ 3 then some ((a + 1) % 4) else none,
    fun a => if a ≤ 3 then some ((a + 3) % 4) else none⟩
  event a := { CallbackContext.eventOf 7 0 a with mSender := if a = 2 then 5 else 1 }
  mRef _ := 1
  mEventQueue := 0
  mEventsCount := 3

theorem linkedRing_threeEvents :
    LinkedRing threeEvents.links threeEvents.mEventQueue [1, 2, 3] where
  nexts := ⟨rfl, rfl, rfl, rfl⟩
  prevs := ⟨rfl, rfl, rfl, rfl⟩
  nodup := by decide

theorem cancel_removes_threeEvents :
    ∃ ec links, threeEvents.cancel 4 (.pending 1 7) =
        some (ec, threeEvents.withReleased .cancel links [1, 3]) ∧
      LinkedRing links threeEvents.mEventQueue [2] :=
  cancel_removes linkedRing_threeEvents (.pending 1 7) (by decide)

/-- Every call takes out of the list what its arguments select. -/
theorem cancel_eq (d : CallbackContext) (call : CancelCall) :
    d.cancel call = d.cancelWhere call.selects := by
  cases call with
  | allPending sender => rfl
  | pending sender id => exact congrArg d.cancelWhere (selects_pending sender id)
  | events sender id handlerThis handlerFunc isBusy =>
    exact congrArg d.cancelWhere (selects_events sender id handlerThis handlerFunc isBusy)
  | all => rfl

/-- The operations do to the list of the events what `CallbackContext.cancel` does. -/
theorem view_cancel (h : LinkedRing c.links c.mEventQueue l) (call : CancelCall)
    {fuel : ℕ} (hfuel : l.length < fuel) :
    ∃ ec c' l', c.cancel fuel call = some (ec, c') ∧ LinkedRing c'.links c'.mEventQueue l' ∧
      c'.view l' = { (c.view l).cancel call with gone := [] } := by
  obtain ⟨ec, links, hrun, hring⟩ := cancel_removes h call hfuel
  refine ⟨ec, _, _, hrun, hring, ?_⟩
  rw [cancel_eq, CallbackContext.cancelWhere_eq]
  have hqueue : (l.filter fun a => !call.selects (c.event a)).map
      (c.withReleased .cancel links (l.filter fun a => call.selects (c.event a))).event =
        (l.map c.event).filter fun e => !call.selects e := by
    rw [List.filter_map]
    refine List.map_congr_left fun a ha => if_neg fun hmem => ?_
    rw [List.mem_filter] at ha hmem
    simp [hmem.2] at ha
  have hcount : (l.filter fun a => call.selects (c.event a)).length =
      ((l.map c.event).filter call.selects).length := by
    rw [List.filter_map, List.length_map]
    rfl
  rw [view, hqueue]
  exact congrArg (fun n : ℕ => { c.view l with
    mEventQueue := (l.map c.event).filter fun e => !call.selects e
    mEventsCount := c.mEventsCount - n }) hcount

end

end LinkedContext

end ElastosCar
