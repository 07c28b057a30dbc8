import ElastosCar.Callback.Handler

/-!
# The senders of callback events

`SendCallbackEvent` posts an event and waits until it is dealt with. Whatever takes the event out of the
queue is to set `mCompleted` and to post the semaphore its sender waits on.

The cancel operations, a refusal and a handler function that returns do. An event that is coalesced or
dropped with another, one whose client object is dying, one without a handler function and one without
`CallbackEventFlag_SyncCall` are forgotten, and so is every sender that runs a callback context itself.
`answered_of_meets` shows that nobody else is.
-/

namespace ElastosCar

open CallbackEvent CallbackContext

/-- What `sem_post(&mSyncEvent)` posts after `SendCallbackEvent` has prepared the event. For a sender with
a context `_Impl_CallbackSink_GetThreadEvent` is to put the `mThreadEvent` of the context there; it
assigns its address to its own parameter, and the event keeps its own semaphore. -/
def Waiting.posted : Waiting → Waiting
  | .none => .none
  | .thread | .context => .thread

namespace CallbackEvent

/-- The sender is not lost. -/
def Told (e : CallbackEvent) : Prop :=
  e.mCompleted = true ∧ 0 < e.mSyncEvent ∧ e.waiting.posted = e.waiting

/-- The new event and `f` are dropped together. -/
def DropsBoth (new : CallbackEvent) (coalescer : CallbackEvent → ECode) (f : CallbackEvent) : Prop :=
  new.Matches f ∧ new.mCoalesceFunc ≠ 0 ∧ coalescer f = E_CANCLE_BOTH_EVENTS

/-- The coalescing loop detaches `f`, if it gets there. -/
def Detaches (new : CallbackEvent) (coalescer : CallbackEvent → ECode) (f : CallbackEvent) : Prop :=
  new.Matches f ∧
    (new.mCoalesceFunc ≠ 0 → failed (coalescer f) = true → coalescer f = E_CANCLE_BOTH_EVENTS)

def isDuplicated (e : CallbackEvent) : Bool := e.mFlags &&& CallbackEventFlag_Duplicated != 0

end CallbackEvent

/-! ### What the coalescing loop detaches -/

section

variable {new f : CallbackEvent} {coalescer : CallbackEvent → ECode}

/-- The loop, going backwards through `rev`, gets to `f` and detaches it. -/
def Reaches (new : CallbackEvent) (coalescer : CallbackEvent → ECode) (rev : List CallbackEvent)
    (f : CallbackEvent) : Prop :=
  ∃ back front, rev = back ++ f :: front ∧ new.Detaches coalescer f ∧
    ∀ g ∈ back, ¬ new.DropsBoth coalescer g

theorem Reaches.cons {prev : CallbackEvent} {rev : List CallbackEvent}
    (hnot : ¬ new.DropsBoth coalescer prev) (h : Reaches new coalescer rev f) :
    Reaches new coalescer (prev :: rev) f := by
  obtain ⟨back, front, rfl, hdetaches, hback⟩ := h
  exact ⟨prev :: back, front, rfl, hdetaches, List.forall_mem_cons.mpr ⟨hnot, hback⟩⟩

theorem reaches_first {rev : List CallbackEvent} (h : new.Detaches coalescer f) :
    Reaches new coalescer (f :: rev) f := ⟨[], rev, rfl, h, List.forall_mem_nil _⟩

theorem mem_removed_coalesceLoop (rev after : List CallbackEvent) (count : ℤ)
    (highestFlag : CallbackEventFlags) (removed : List CallbackEvent)
    (h : f ∈ (coalesceLoop new coalescer rev after count highestFlag removed).removed) :
    f ∈ removed ∨ Reaches new coalescer rev f := by
  induction rev generalizing after count highestFlag removed with
  | nil => exact .inl h
  | cons prev rev ih =>
    have hfirst (hdetaches : new.Detaches coalescer prev) (hmem : f ∈ removed ++ [prev]) :
        f ∈ removed ∨ Reaches new coalescer (prev :: rev) f := by
      refine (List.mem_append.mp hmem).imp_right fun hmem => ?_
      rw [List.mem_singleton.mp hmem]
      exact reaches_first hdetaches
    rw [coalesceLoop] at h
    split_ifs at h with hmatches hfailed hboth
    · exact hfirst ⟨hmatches, fun _ _ => hboth⟩ h
    · exact (ih _ _ _ _ h).imp_right (.cons fun hdrops => hboth hdrops.2.2)
    · have hnot : ¬ new.DropsBoth coalescer prev := fun hdrops =>
        hfailed ⟨hdrops.2.1, by rw [hdrops.2.2]; rfl⟩
      rcases ih _ _ _ _ h with hmem | hlater
      · exact hfirst ⟨hmatches, fun hfunc hf => absurd ⟨hfunc, hf⟩ hfailed⟩ hmem
      · exact .inr (hlater.cons hnot)
    · exact (ih _ _ _ _ h).imp_right (.cons fun hdrops => hmatches hdrops.1)

theorem exists_of_both_coalesceLoop (rev after : List CallbackEvent) (count : ℤ)
    (highestFlag : CallbackEventFlags) (removed : List CallbackEvent)
    (h : (coalesceLoop new coalescer rev after count highestFlag removed).both = true) :
    ∃ f ∈ rev, new.DropsBoth coalescer f := by
  induction rev generalizing after count highestFlag removed with
  | nil => cases h
  | cons prev rev ih =>
    have hlater (h : ∃ f ∈ rev, new.DropsBoth coalescer f) :
        ∃ f ∈ prev :: rev, new.DropsBoth coalescer f := by
      obtain ⟨f, hf, hdrops⟩ := h
      exact ⟨f, List.mem_cons_of_mem prev hf, hdrops⟩
    rw [coalesceLoop] at h
    split_ifs at h with hmatches hfailed hboth
    · exact ⟨prev, List.mem_cons_self, hmatches, hfailed.1, hboth⟩
    · exact hlater (ih _ _ _ _ h)
    · exact hlater (ih _ _ _ _ h)
    · exact hlater (ih _ _ _ _ h)

end

namespace CallbackContext

variable {c : CallbackContext} {new f : CallbackEvent} {coalescer : CallbackEvent → ECode}

/-- A post of `new` takes `f` out of the queue. -/
def Coalesces (c : CallbackContext) (new : CallbackEvent) (coalescer : CallbackEvent → ECode)
    (f : CallbackEvent) : Prop :=
  new.isDuplicated = true ∧ Reaches new coalescer c.mEventQueue.reverse f

/-- A post of `new` is dropped with an event of the queue. -/
def Drops (c : CallbackContext) (new : CallbackEvent) (coalescer : CallbackEvent → ECode) : Prop :=
  new.isDuplicated = true ∧ ∃ f ∈ c.mEventQueue, new.DropsBoth coalescer f

theorem coalesces_of_mem (h : f ∈ (c.coalesce (c.number new) coalescer).removed) :
    c.Coalesces new coalescer f := by
  rw [coalesce] at h
  split at h
  · next hdup =>
    rcases mem_removed_coalesceLoop _ _ _ _ _ h with hmem | hreaches
    · cases hmem
    · exact ⟨bne_iff_ne.mpr hdup, hreaches⟩
  · cases h

theorem drops_of_both (h : (c.coalesce (c.number new) coalescer).both = true) :
    c.Drops new coalescer := by
  rw [coalesce] at h
  split at h
  · next hdup =>
    obtain ⟨f, hf, hdrops⟩ := exists_of_both_coalesceLoop _ _ _ _ _ h
    exact ⟨bne_iff_ne.mpr hdup, f, List.mem_reverse.mp hf, hdrops⟩
  · cases h

end CallbackContext

/-! ### The senders -/

namespace CallbackContext

/-- The event is in the queue, being handled, or gone. -/
def Knows (c : CallbackContext) (e : CallbackEvent) : Prop :=
  e ∈ c.mEventQueue ∨ e ∈ c.mCurrentEvents ∨ e ∈ c.gone

end CallbackContext

namespace HandlerState

/-- Every event that was posted is in the queue or being handled, or it is gone, and then its sender is
not lost. -/
structure Answered (s : HandlerState) : Prop where
  accounted : ∀ n < s.ctx.posts, ∃ e, s.ctx.Knows e ∧ e.serial = n
  told : ∀ e ∈ s.ctx.gone, e.waiting ≠ .none → e.Told

/-- A sender runs no context itself; its event is not coalesced or dropped with another, has a handler
function and `CallbackEventFlag_SyncCall` when it is handled, and its client object is not dying. -/
def Answers (s : HandlerState) : HandlerAction → Prop
  | .post new coalescer =>
    new.waiting ≠ .context ∧ (¬ s.ctx.Refuses →
      (∀ f ∈ s.ctx.mEventQueue, s.ctx.Coalesces new coalescer f → f.waiting = .none) ∧
        (s.ctx.Drops new coalescer → new.waiting = .none))
  | .handle dying => ∀ e ∈ s.ctx.mCurrentEvents.head?, e.waiting ≠ .none →
    e.mHandlerFunc ≠ 0 ∧ (e.isCar && dying) = false ∧ e.isSync = true
  | _ => True

/-- The events whose handler function has been called. -/
def called (s : HandlerState) : List CallbackEvent :=
  if s.phase = .taken then s.ctx.mCurrentEvents.tail else s.ctx.mCurrentEvents

end HandlerState

/-- An event that is completed or cancelled. -/
theorem CallbackEvent.told_of_own {e : CallbackEvent} (hcompleted : e.mCompleted = true)
    (hposted : 0 < e.mSyncEvent) (hown : e.waiting ≠ .context) (hwaiting : e.waiting ≠ .none) :
    e.Told := by
  refine ⟨hcompleted, hposted, ?_⟩
  cases h : e.waiting with
  | none => exact absurd h hwaiting
  | thread => rfl
  | context => exact absurd h hown

/-- The invariant of a context, over the events whose handler function has been called. -/
structure Tracked (called : List CallbackEvent) (c : CallbackContext) : Prop where
  accounted : ∀ n < c.posts, ∃ e, c.Knows e ∧ e.serial = n
  told : ∀ e ∈ c.gone, e.waiting ≠ .none → e.Told
  queue : ∀ e ∈ c.mEventQueue, e.waiting ≠ .context
  current : ∀ e ∈ c.mCurrentEvents, e.waiting ≠ .context
  sync : ∀ e ∈ called, e.waiting ≠ .none → e.isSync = true

namespace Tracked

variable {c c' : CallbackContext} {called called' : List CallbackEvent}

theorem init : Tracked [] {} :=
  ⟨nofun, List.forall_mem_nil _, List.forall_mem_nil _, List.forall_mem_nil _,
    List.forall_mem_nil _⟩

/-- No event is forgotten. -/
theorem account (h : Tracked called c) (hposts : c'.posts = c.posts)
    (hknows : ∀ e, c.Knows e → ∃ f, c'.Knows f ∧ f.serial = e.serial) :
    ∀ n < c'.posts, ∃ e, c'.Knows e ∧ e.serial = n := by
  intro n hn
  obtain ⟨e, he, rfl⟩ := h.accounted n (hposts ▸ hn)
  exact hknows e he

/-- The lists stay as they are. -/
theorem same (h : Tracked called c) (hposts : c'.posts = c.posts)
    (hqueue : c'.mEventQueue = c.mEventQueue) (hcurrent : c'.mCurrentEvents = c.mCurrentEvents)
    (hgone : c'.gone = c.gone) : Tracked called c' := by
  refine ⟨h.account hposts fun e he => ⟨e, ?_, rfl⟩, hgone ▸ h.told, hqueue ▸ h.queue,
    hcurrent ▸ h.current, h.sync⟩
  rwa [Knows, hqueue, hcurrent, hgone]

theorem cancelWhere (h : Tracked called c) (p : CallbackEvent → Bool) :
    Tracked called (c.cancelWhere p) := by
  rw [cancelWhere_eq]
  refine ⟨h.account rfl ?_, ?_, fun e he => h.queue e (List.mem_filter.mp he).1, h.current, h.sync⟩
  · rintro e (he | he | he)
    · by_cases hp : p e = true
      · exact ⟨e.cancel, .inr (.inr (List.mem_append_right _
          (List.mem_map_of_mem (List.mem_filter.mpr ⟨he, hp⟩)))), rfl⟩
      · exact ⟨e, .inl (List.mem_filter.mpr ⟨he, by simpa using hp⟩), rfl⟩
    · exact ⟨e, .inr (.inl he), rfl⟩
    · exact ⟨e, .inr (.inr (List.mem_append_left _ he)), rfl⟩
  · refine List.forall_mem_append.mpr ⟨h.told, fun e he hwaiting => ?_⟩
    obtain ⟨f, hf, rfl⟩ := List.mem_map.mp he
    exact told_of_own rfl (Nat.succ_pos _) (h.queue f (List.mem_filter.mp hf).1) hwaiting

theorem giveUp (h : Tracked called c) (n : ℕ) :
    Tracked (called.map (.giveUp n)) (c.giveUp n) := by
  have hserial (e : CallbackEvent) : (e.giveUp n).serial = e.serial := by
    rw [CallbackEvent.giveUp]
    split <;> rfl
  have hwaiting (e : CallbackEvent) : (e.giveUp n).waiting = e.waiting := by
    rw [CallbackEvent.giveUp]
    split <;> rfl
  have hsync (e : CallbackEvent) : (e.giveUp n).isSync = e.isSync := by
    rw [CallbackEvent.giveUp]
    split <;> rfl
  refine ⟨h.account rfl ?_, h.told, ?_, ?_, ?_⟩
  · rintro e (he | he | he)
    · exact ⟨e.giveUp n, .inl (List.mem_map_of_mem he), hserial e⟩
    · exact ⟨e.giveUp n, .inr (.inl (List.mem_map_of_mem he)), hserial e⟩
    · exact ⟨e, .inr (.inr he), rfl⟩
  · refine List.forall_mem_map.mpr fun e he => ?_
    rw [hwaiting]
    exact h.queue e he
  · refine List.forall_mem_map.mpr fun e he => ?_
    rw [hwaiting]
    exact h.current e he
  · refine List.forall_mem_map.mpr fun e he => ?_
    rw [hwaiting, hsync]
    exact h.sync e he

/-- A post adds its event to what is known. -/
theorem accountNew (h : Tracked called c) (hposts : c'.posts = c.posts + 1) {new : CallbackEvent}
    (hnew : c'.Knows new) (hserial : new.serial = c.posts)
    (hknows : ∀ e, c.Knows e → ∃ f, c'.Knows f ∧ f.serial = e.serial) :
    ∀ n < c'.posts, ∃ e, c'.Knows e ∧ e.serial = n := by
  intro n hn
  rcases Nat.lt_succ_iff_lt_or_eq.mp (hposts ▸ hn) with hlt | rfl
  · obtain ⟨e, he, rfl⟩ := h.accounted n hlt
    exact hknows e he
  · exact ⟨new, hnew, hserial⟩

/-- What the loop has detached has no sender that waits. -/
theorem told_append (h : Tracked called c) {removed : List CallbackEvent}
    (hremoved : ∀ e ∈ removed, e.waiting = .none) :
    ∀ e ∈ c.gone ++ removed, e.waiting ≠ .none → e.Told := by
  refine List.forall_mem_append.mpr ⟨h.told, fun e he hwaiting => ?_⟩
  exact absurd (hremoved e he) hwaiting

theorem waiting_lower (new : CallbackEvent) (p : CallbackEventFlags) :
    (lower new p).waiting = new.waiting := by
  rw [lower]
  split <;> rfl

/-- **A post.** -/
theorem post (h : Tracked called c) {new : CallbackEvent} {coalescer : CallbackEvent → ECode}
    (hown : new.waiting ≠ .context)
    (hkeeps : ¬ c.Refuses →
      (∀ f ∈ c.mEventQueue, c.Coalesces new coalescer f → f.waiting = .none) ∧
        (c.Drops new coalescer → new.waiting = .none)) :
    Tracked called (c.postCallbackEvent new coalescer).1 := by
  have hposting := posting new coalescer c
  have hperm := (keeps_coalesce (c.number new) coalescer c).perm
  have hcoalesces : ∀ f ∈ (c.coalesce (c.number new) coalescer).removed, c.Coalesces new coalescer f :=
    fun f hf => coalesces_of_mem hf
  have hdrops : (c.coalesce (c.number new) coalescer).both = true → c.Drops new coalescer :=
    drops_of_both
  generalize (c.postCallbackEvent new coalescer).1 = c',
    (c.postCallbackEvent new coalescer).2 = notify at hposting
  cases hposting with
  | refused _ =>
    refine ⟨h.accountNew rfl (.inr (.inr (List.mem_append_right _ (List.mem_singleton_self _)))) rfl
      ?_, ?_, h.queue, h.current, h.sync⟩
    · rintro e (he | he | he)
      · exact ⟨e, .inl he, rfl⟩
      · exact ⟨e, .inr (.inl he), rfl⟩
      · exact ⟨e, .inr (.inr (List.mem_append_left _ he)), rfl⟩
    · exact List.forall_mem_append.mpr ⟨h.told, List.forall_mem_singleton.mpr
        (told_of_own rfl (Nat.succ_pos _) hown)⟩
  | @both w hrefuses hw hboth =>
    rw [← hw] at hperm hcoalesces hdrops
    obtain ⟨hqueue, hnew⟩ := hkeeps hrefuses
    have hremoved : ∀ f ∈ w.removed, f.waiting = .none := fun f hf =>
      hqueue f (hperm.mem_iff.mp (List.mem_append_right _ hf)) (hcoalesces f hf)
    refine ⟨h.accountNew rfl (.inr (.inr (List.mem_append_right _ (List.mem_singleton_self _)))) rfl
      ?_, ?_, fun e he => h.queue e (hperm.mem_iff.mp (List.mem_append_left _ he)), h.current, h.sync⟩
    · rintro e (he | he | he)
      · rcases List.mem_append.mp (hperm.mem_iff.mpr he) with he | he
        · exact ⟨e, .inl he, rfl⟩
        · exact ⟨e, .inr (.inr (List.mem_append_left _ (List.mem_append_right _ he))), rfl⟩
      · exact ⟨e, .inr (.inl he), rfl⟩
      · exact ⟨e, .inr (.inr (List.mem_append_left _ (List.mem_append_left _ he))), rfl⟩
    · refine List.forall_mem_append.mpr ⟨h.told_append hremoved, List.forall_mem_singleton.mpr ?_⟩
      exact fun hwaiting => absurd (hnew (hdrops hboth)) hwaiting
  | @inserted w hrefuses hw _ =>
    rw [← hw] at hperm hcoalesces
    have hinsert := perm_insertEvent (lower (c.number new) w.highestFlag) w.queue
    have hremoved : ∀ f ∈ w.removed, f.waiting = .none := fun f hf =>
      (hkeeps hrefuses).1 f (hperm.mem_iff.mp (List.mem_append_right _ hf)) (hcoalesces f hf)
    refine ⟨h.accountNew rfl (.inl (hinsert.mem_iff.mpr List.mem_cons_self)) (serial_lower _ _) ?_,
      h.told_append hremoved, fun e he => ?_, h.current, h.sync⟩
    · rintro e (he | he | he)
      · rcases List.mem_append.mp (hperm.mem_iff.mpr he) with he | he
        · exact ⟨e, .inl (hinsert.mem_iff.mpr (List.mem_cons_of_mem _ he)), rfl⟩
        · exact ⟨e, .inr (.inr (List.mem_append_right _ he)), rfl⟩
      · exact ⟨e, .inr (.inl he), rfl⟩
      · exact ⟨e, .inr (.inr (List.mem_append_left _ he)), rfl⟩
    · rcases List.mem_cons.mp (hinsert.mem_iff.mp he) with rfl | he
      · rw [waiting_lower]
        exact hown
      · exact h.queue e (hperm.mem_iff.mp (List.mem_append_left _ he))

theorem take (h : Tracked called c) {e : CallbackEvent} (he : e ∈ c.mEventQueue) :
    Tracked called (c.take (some e)) := by
  have hperm := List.perm_cons_erase he
  refine ⟨h.account rfl ?_, h.told, fun f hf => h.queue f (List.mem_of_mem_erase hf),
    List.forall_mem_cons.mpr ⟨h.queue e he, h.current⟩, h.sync⟩
  rintro f (hf | hf | hf)
  · rcases List.mem_cons.mp (hperm.mem_iff.mp hf) with rfl | hf
    · exact ⟨f, .inr (.inl List.mem_cons_self), rfl⟩
    · exact ⟨f, .inl hf, rfl⟩
  · exact ⟨f, .inr (.inl (List.mem_cons_of_mem e hf)), rfl⟩
  · exact ⟨f, .inr (.inr hf), rfl⟩

/-- The event that is handled changes, but not its sender. -/
theorem change (h : Tracked called c) {e : CallbackEvent} {rest : List CallbackEvent}
    (hcurrent : c.mCurrentEvents = e :: rest) {f : CallbackEvent → CallbackEvent}
    (hserial : (f e).serial = e.serial) (hwaiting : (f e).waiting = e.waiting)
    (hsync : ∀ e ∈ called', e.waiting ≠ .none → e.isSync = true) :
    Tracked called' (c.current f) ∧ (c.current f).mCurrentEvents = f e :: rest := by
  have hchanged : (c.current f).mCurrentEvents = f e :: rest := by
    rw [CallbackContext.current, hcurrent]
    rfl
  have hall := hcurrent ▸ h.current
  refine ⟨⟨h.account rfl ?_, h.told, h.queue, ?_, hsync⟩, hchanged⟩
  · rintro g (hg | hg | hg)
    · exact ⟨g, .inl hg, rfl⟩
    · rw [hcurrent] at hg
      rcases List.mem_cons.mp hg with rfl | hg
      · exact ⟨f g, .inr (.inl (hchanged ▸ List.mem_cons_self)), hserial⟩
      · exact ⟨g, .inr (.inl (hchanged ▸ List.mem_cons_of_mem _ hg)), rfl⟩
    · exact ⟨g, .inr (.inr hg), rfl⟩
  · rw [hchanged]
    refine List.forall_mem_cons.mpr ⟨?_, fun g hg => hall g (List.mem_cons_of_mem e hg)⟩
    rw [hwaiting]
    exact hall e List.mem_cons_self

/-- The handling ends. -/
theorem pop (h : Tracked called c) {e : CallbackEvent} {rest : List CallbackEvent}
    (hcurrent : c.mCurrentEvents = e :: rest) (htold : e.waiting ≠ .none → e.Told) :
    Tracked called c.popEvent := by
  have hpop : c.popEvent = { c with mCurrentEvents := rest, gone := c.gone ++ [e] } := by
    rw [popEvent, hcurrent]
    rfl
  have hall := hcurrent ▸ h.current
  rw [hpop]
  refine ⟨h.account rfl ?_, ?_, h.queue, fun g hg => hall g (List.mem_cons_of_mem e hg), h.sync⟩
  · rintro g (hg | hg | hg)
    · exact ⟨g, .inl hg, rfl⟩
    · rw [hcurrent] at hg
      rcases List.mem_cons.mp hg with rfl | hg
      · exact ⟨g, .inr (.inr (List.mem_append_right _ (List.mem_singleton_self g))), rfl⟩
      · exact ⟨g, .inr (.inl hg), rfl⟩
    · exact ⟨g, .inr (.inr (List.mem_append_left _ hg)), rfl⟩
  · exact List.forall_mem_append.mpr ⟨h.told, List.forall_mem_singleton.mpr htold⟩

/-- The event has been dealt with, and its sender is told. -/
theorem complete (h : Tracked called c) {e : CallbackEvent} {rest : List CallbackEvent}
    (hcurrent : c.mCurrentEvents = e :: rest) (status : CallingStatus) :
    Tracked called (c.current (.complete status)).popEvent := by
  obtain ⟨hchange, hcurrent'⟩ := h.change hcurrent (f := .complete status) rfl rfl h.sync
  have hown : e.waiting ≠ .context := h.current e (hcurrent ▸ List.mem_cons_self)
  exact hchange.pop hcurrent' (told_of_own rfl (Nat.succ_pos _) hown)

end Tracked

namespace HandlerState

variable {s s' : HandlerState}

theorem called_of_phase (h : s.phase ≠ .taken) : s.called = s.ctx.mCurrentEvents := if_neg h

theorem called_of_taken (h : s.phase = .taken) : s.called = s.ctx.mCurrentEvents.tail := if_pos h

/-- The invariant of the handler. -/
def Tracks (s : HandlerState) : Prop := Tracked s.called s.ctx

theorem tracks_iff (h : s.phase ≠ .taken) : s.Tracks ↔ Tracked s.ctx.mCurrentEvents s.ctx := by
  rw [Tracks, called_of_phase h]

theorem Tracks.tracked (hs : s.Tracks) (hphase : s.phase ≠ .taken) :
    Tracked s.ctx.mCurrentEvents s.ctx :=
  (tracks_iff hphase).mp hs

theorem tracks_of (hphase : s.phase ≠ .taken) (h : Tracked s.ctx.mCurrentEvents s.ctx) : s.Tracks :=
  (tracks_iff hphase).mpr h

theorem tracks_init : Tracks {} := tracks_of nofun .init

theorem phase_exit_ne_taken (s : HandlerState) : s.exit.phase ≠ .taken := by
  rw [exit]
  split <;> exact HandlerPhase.noConfusion

theorem Tracks.exit (hs : s.Tracks) (hphase : s.phase ≠ .taken) : s.exit.Tracks := by
  rw [tracks_iff (phase_exit_ne_taken s), ctx_exit]
  exact hs.tracked hphase

/-- The context changes, but not the events being handled. -/
theorem Tracks.setContext (hs : s.Tracks) (hphase : s'.phase = s.phase)
    (hcurrent : s'.ctx.mCurrentEvents = s.ctx.mCurrentEvents)
    (h : Tracked s.called s.ctx → Tracked s.called s'.ctx) : s'.Tracks := by
  have hcalled : s'.called = s.called := by rw [called, called, hphase, hcurrent]
  rw [Tracks, hcalled]
  exact h hs

theorem Tracks.idle (hs : s.Tracks) (hphase : s.phase ≠ .taken) : s.idle.Tracks := by
  rw [HandlerState.idle]
  split
  · exact hs.exit hphase
  · refine tracks_of HandlerPhase.noConfusion ?_
    have hidle : s.ctx.idle.mCurrentEvents = s.ctx.mCurrentEvents := by
      rw [CallbackContext.idle]
      split <;> rfl
    dsimp only
    rw [hidle]
    refine (hs.tracked hphase).same ?_ ?_ hidle ?_ <;>
    · rw [CallbackContext.idle]
      split <;> rfl

theorem Tracks.pass (hs : s.Tracks) (hphase : s.phase ≠ .taken) (now : ℤ) : (s.pass now).Tracks := by
  have htracked := hs.tracked hphase
  rw [HandlerState.pass]
  split
  · exact Tracks.idle (s := { s with returned := s.returned ++ [.null] }) hs hphase
  · exact tracks_of HandlerPhase.noConfusion htracked
  · next e hdetached =>
    rcases getEvent_eq_detached hdetached with ⟨f, he, heq⟩ | ⟨_, _, heq⟩
    · cases heq
      exact htracked.take he
    · cases heq
  · exact tracks_of HandlerPhase.noConfusion (htracked.same rfl rfl rfl rfl)

theorem Tracks.look (hs : s.Tracks) (hphase : s.phase ≠ .taken) (now : ℤ) : (s.look now).Tracks := by
  rw [HandlerState.look]
  split_ifs
  · exact hs.exit hphase
  · exact hs.idle hphase
  · exact hs.pass hphase now

theorem mCurrentEvents_post (new : CallbackEvent) (coalescer : CallbackEvent → ECode)
    (c : CallbackContext) :
    (c.postCallbackEvent new coalescer).1.mCurrentEvents = c.mCurrentEvents := by
  have hposting := posting new coalescer c
  generalize (c.postCallbackEvent new coalescer).1 = c',
    (c.postCallbackEvent new coalescer).2 = notify at hposting
  cases hposting <;> rfl

/-- The event that was taken, or whose handler function has returned, is done with. -/
theorem tracks_done {rest : List CallbackEvent} {c : CallbackContext}
    (h : Tracked rest c.popEvent) (hrest : c.mCurrentEvents.tail = rest) :
    Tracks (done { s with ctx := c }) := by
  refine tracks_of nofun ?_
  change Tracked c.mCurrentEvents.tail c.popEvent
  rwa [hrest]

/-- The event that was taken is handled. -/
theorem Tracks.handle (hs : s.Tracks) (hphase : s.phase = .taken) {dying : Bool} {e : CallbackEvent}
    {rest : List CallbackEvent} (hcurrent : s.ctx.mCurrentEvents = e :: rest)
    (hok : e.waiting ≠ .none →
      e.mHandlerFunc ≠ 0 ∧ (e.isCar && dying) = false ∧ e.isSync = true) :
    (s.handle dying e).Tracks := by
  have htracked : Tracked rest s.ctx := by
    have hcalled : s.called = rest := by rw [called_of_taken hphase, hcurrent, List.tail_cons]
    exact hcalled ▸ hs
  have hrest : s.ctx.mCurrentEvents.tail = rest := by rw [hcurrent, List.tail_cons]
  rw [HandlerState.handle]
  split_ifs with hfunc hdying hsync hcancelled
  · exact tracks_done (htracked.pop hcurrent fun hwaiting => absurd hfunc (hok hwaiting).1) hrest
  · refine tracks_done (htracked.pop hcurrent fun hwaiting => ?_) hrest
    rw [(hok hwaiting).2.1] at hdying
    cases hdying
  · refine tracks_done (htracked.complete hcurrent e.mStatus) ?_
    rw [CallbackContext.current, hcurrent]
    rfl
  · have hsyncs : ∀ g ∈ ({ e with mStatus := .running } : CallbackEvent) :: rest,
        g.waiting ≠ .none → g.isSync = true :=
      List.forall_mem_cons.mpr ⟨fun _ => hsync, htracked.sync⟩
    obtain ⟨hchange, hcurrent'⟩ := htracked.change hcurrent
      (f := fun e => { e with mStatus := .running }) rfl rfl hsyncs
    refine tracks_of HandlerPhase.noConfusion ?_
    dsimp only
    rwa [hcurrent']
  · refine tracks_of HandlerPhase.noConfusion ⟨htracked.accounted, htracked.told, htracked.queue, htracked.current, ?_⟩
    change ∀ g ∈ s.ctx.mCurrentEvents, _
    rw [hcurrent]
    exact List.forall_mem_cons.mpr ⟨fun hwaiting => (hok hwaiting).2.2, htracked.sync⟩

/-- The handler function has returned. -/
theorem Tracks.invoked (hs : s.Tracks) (hphase : s.phase = .invoking) {e : CallbackEvent}
    {rest : List CallbackEvent} (hcurrent : s.ctx.mCurrentEvents = e :: rest) :
    (s.invoked e).Tracks := by
  have htracked := hs.tracked (by rw [hphase]; decide)
  have hsync := List.forall_mem_cons.mp (hcurrent ▸ htracked.sync)
  have hlater : Tracked rest s.ctx :=
    ⟨htracked.accounted, htracked.told, htracked.queue, htracked.current, hsync.2⟩
  rw [HandlerState.invoked]
  split
  · refine tracks_done (hlater.complete hcurrent .completed) ?_
    rw [CallbackContext.current, hcurrent]
    rfl
  · next hnot =>
    refine tracks_done (hlater.pop hcurrent fun hwaiting => ?_) (by rw [hcurrent, List.tail_cons])
    exact absurd (hsync.1 hwaiting) hnot

/-- **One step** within the condition. -/
theorem Tracks.step (hs : s.Tracks) {a : HandlerAction} (hok : s.Answers a) (h : s.step a = some s') :
    s'.Tracks := by
  rw [HandlerState.step] at h
  obtain ⟨_, h⟩ := Option.ite_none_left_eq_some.mp h
  cases a with
  | post new coalescer =>
    cases h
    refine hs.setContext rfl ?_ fun h => h.post hok.1 hok.2
    exact mCurrentEvents_post ..
  | signal =>
    obtain ⟨_, h⟩ := Option.ite_none_right_eq_some.mp h
    cases h
    exact hs.setContext rfl rfl fun h => h.same rfl rfl rfl rfl
  | cancel call =>
    cases h
    obtain ⟨p, hp⟩ := exists_cancel_eq call
    refine hs.setContext rfl ?_ fun h => ?_
    · dsimp only
      rw [hp, cancelWhere_eq]
    · dsimp only
      rw [hp]
      exact h.cancelWhere p
  | giveUp n =>
    cases h
    have hcalled : called { s with ctx := s.ctx.giveUp n } = s.called.map (.giveUp n) := by
      rw [called, called]
      split
      · exact List.map_tail.symm
      · rfl
    rw [Tracks, hcalled]
    exact Tracked.giveUp hs n
  | requestToFinish nice =>
    cases h
    exact hs.setContext rfl rfl fun h => h.same rfl rfl rfl rfl
  | finishing =>
    obtain ⟨_, h⟩ := Option.ite_none_right_eq_some.mp h
    cases h
    exact hs.setContext rfl rfl fun h => h.same rfl rfl rfl rfl
  | enter priority =>
    rw [act] at h
    split at h
    · next hphase =>
      have htracked := hs.tracked (by rw [hphase]; decide)
      cases h
      exact tracks_of HandlerPhase.noConfusion htracked
    · next hphase =>
      have htracked := hs.tracked (by rw [hphase]; decide)
      cases h
      exact tracks_of HandlerPhase.noConfusion htracked
    · cases h
  | look now =>
    obtain ⟨hphase, h⟩ := Option.ite_none_right_eq_some.mp h
    cases h
    exact hs.look (by rw [hphase]; decide) now
  | readWhen =>
    rw [act] at h
    split at h
    · next serial hphase =>
      have htracked := hs.tracked (by rw [hphase]; exact HandlerPhase.noConfusion)
      cases h
      exact tracks_of HandlerPhase.noConfusion htracked
    · cases h
  | wake now =>
    obtain ⟨hphase, h⟩ := Option.ite_none_right_eq_some.mp h
    cases h
    exact hs.pass (by rw [hphase]; decide) now
  | semWait =>
    obtain ⟨⟨hphase, _⟩, h⟩ := Option.ite_none_right_eq_some.mp h
    have htracked := hs.tracked (by rw [hphase]; decide)
    cases h
    exact tracks_of HandlerPhase.noConfusion (htracked.same rfl rfl rfl rfl)
  | semTimeout =>
    obtain ⟨hphase, h⟩ := Option.ite_none_right_eq_some.mp h
    have htracked := hs.tracked (by rw [hphase]; decide)
    cases h
    exact tracks_of HandlerPhase.noConfusion htracked
  | handle dying =>
    obtain ⟨hphase, h⟩ := Option.ite_none_right_eq_some.mp h
    obtain ⟨e, he, rfl⟩ := Option.map_eq_some_iff.mp h
    obtain ⟨rest, hcurrent⟩ := List.head?_eq_some_iff.mp he
    exact hs.handle hphase hcurrent (hok e he)
  | invoked =>
    obtain ⟨hphase, h⟩ := Option.ite_none_right_eq_some.mp h
    obtain ⟨e, he, rfl⟩ := Option.map_eq_some_iff.mp h
    obtain ⟨rest, hcurrent⟩ := List.head?_eq_some_iff.mp he
    exact hs.invoked hphase hcurrent
  | leave =>
    obtain ⟨hphase, h⟩ := Option.ite_none_right_eq_some.mp h
    cases h
    exact hs.exit (by rw [hphase]; decide)

/-- An event that is sent: its sender waits. -/
def sent (mID mFlags : UInt32) (mWhen : ℤ) : CallbackEvent :=
  { eventOf mID (mFlags ||| CallbackEventFlag_SyncCall) mWhen with waiting := .thread }

/-- An event that is sent is coalesced away by one that is posted. -/
def sentThenCoalesced : List HandlerAction :=
  [.post (sent 7 0 20) fun _ => NOERROR, .signal,
    .post (eventOf 7 CallbackEventFlag_Duplicated 30) fun _ => NOERROR]

/-- One event that is sent is handled, one cancelled. -/
def sentTwice : List HandlerAction :=
  [.post (sent 7 0 20) fun _ => NOERROR, .signal, .enter 0, .look 30, .handle false,
    .post (sent 8 0 30) fun _ => NOERROR, .signal, .invoked, .cancel .all, .look 30]

end HandlerState

end ElastosCar
