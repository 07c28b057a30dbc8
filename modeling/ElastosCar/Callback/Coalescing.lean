import ElastosCar.Callback.EventRing

/-!
# Posting a duplicated event

`PostCallbackEvent` on the ring of events. With the flag `Duplicated` it first goes backwards
through the ring and takes events out of it that the new one stands for, as its coalescer says, and
gives the new event the priority of the last of them; then it goes backwards again for the place of
the new event.

In a queue in order the last event that is taken out has the best priority of them. So the new event
is queued once, with the best priority of all that it stands for (`post_coalesces`), whatever the
coalescer answers; if the answer is to drop both events, the loop is left at once.
-/

namespace ElastosCar

open CallbackEvent

namespace CallbackEvent

/-- By the priority and the time. -/
def InOrder (e f : CallbackEvent) : Prop :=
  e.priority < f.priority ∨ e.priority = f.priority ∧ e.mWhen ≤ f.mWhen

theorem inOrder_iff {e f : CallbackEvent} : e.InOrder f ↔ goesAfter f e = true := by
  rw [goesAfter, decide_eq_true_iff]
  rfl

theorem InOrder.trans {e f g : CallbackEvent} (hef : e.InOrder f) (hfg : f.InOrder g) :
    e.InOrder g := by
  rcases hef with hlt | ⟨heq, hle⟩
  · refine .inl ?_
    rcases hfg with hlt' | ⟨heq', -⟩
    · exact UInt32.lt_trans hlt hlt'
    · exact heq' ▸ hlt
  · rcases hfg with hlt' | ⟨heq', hle'⟩
    · exact .inl (heq ▸ hlt')
    · exact .inr ⟨heq.trans heq', hle.trans hle'⟩

theorem inOrder_of_not {e f : CallbackEvent} (h : ¬ e.InOrder f) : f.InOrder e := by
  rw [InOrder, not_or, not_and, UInt32.not_lt] at h
  obtain ⟨hle, htime⟩ := h
  rcases UInt32.lt_or_eq_of_le hle with hlt | heq
  · exact .inl hlt
  · exact .inr ⟨heq, (not_le.mp (htime heq.symm)).le⟩

theorem InOrder.priority_le {e f : CallbackEvent} (h : e.InOrder f) : e.priority ≤ f.priority := by
  rcases h with hlt | ⟨heq, -⟩
  · exact UInt32.le_of_lt hlt
  · exact heq ▸ UInt32.le_refl _

theorem and_not_or_self (f m : UInt32) : f &&& ~~~m ||| f &&& m = f := by
  rw [← UInt32.toBitVec_inj]
  ext i hi
  simp only [UInt32.toBitVec_and, UInt32.toBitVec_or, UInt32.toBitVec_not, BitVec.getElem_and,
    BitVec.getElem_or, BitVec.getElem_not]
  cases f.toBitVec[i] <;> cases m.toBitVec[i] <;> rfl

theorem setPriority_priority (e : CallbackEvent) : e.setPriority e.priority = e :=
  congrArg (fun flags => { e with mFlags := flags }) (and_not_or_self e.mFlags _)

end CallbackEvent

namespace LinkedContext

/-! ### The operation -/

/-- `InsertNext`, and `mEventsCount` that goes with it. -/
def insertNext (a new : ℕ) (c : LinkedContext) : Option LinkedContext :=
  (c.links.insertNext a new).map fun links => { c with links, mEventsCount := c.mEventsCount + 1 }

/-- The body of the coalescing loop; it goes with the context and `highestFlag`. `coalescer` is what
`invokeCoalescer` returns for the event at an address. -/
def coalesceBody (coalescer : ℕ → ECode) (new prevCBEvent : ℕ) :
    LinkedContext × CallbackEventFlags →
      Option (Flow ℕ × (LinkedContext × CallbackEventFlags))
  | (c, highestFlag) =>
    if (c.event new).Matches (c.event prevCBEvent) then
      if (c.event new).mCoalesceFunc ≠ 0 ∧ failed (coalescer prevCBEvent) then
        if coalescer prevCBEvent = E_CANCLE_BOTH_EVENTS then do
          let c ← (c.count new (-1)).detach prevCBEvent
          some (.leave, c.count prevCBEvent (-1), highestFlag)
        else some (.next prevCBEvent, c, highestFlag)
      else do
        -- the loop goes on from the next event, which will have another one before it
        let next ← c.links.next prevCBEvent
        let highestFlag := (c.event prevCBEvent).priority
        let c ← c.detach prevCBEvent
        some (.next next, c.count prevCBEvent (-1), highestFlag)
    else some (.next prevCBEvent, c, highestFlag)

/-- The coalescing of a `Duplicated` event, and whether it is dropped. -/
def coalesce (coalescer : ℕ → ECode) (new fuel : ℕ) (c : LinkedContext) :
    Option (Bool × LinkedContext) :=
  if (c.event new).mFlags &&& CallbackEventFlag_Duplicated ≠ 0 then do
    let last ← c.links.prev c.mEventQueue
    let (both, c, highestFlag) ← forEach (fun s => s.1.links.prev) (coalesceBody coalescer new)
      c.mEventQueue fuel last (c, (c.event new).priority)
    if both then some (true, c)
    else
      let event := Function.update c.event new (CallbackContext.lower (c.event new) highestFlag)
      some (false, { c with event })
  else some (false, c)

/-- The body of the loop that looks for the place. -/
def insertBody (new prevCBEvent : ℕ) (c : LinkedContext) : Option (Flow ℕ × LinkedContext) :=
  if goesAfter (c.event new) (c.event prevCBEvent) then
    (c.insertNext prevCBEvent new).map (.leave, ·)
  else some (.next prevCBEvent, c)

/-- If no event is found behind which the new one goes, it is the first. -/
def insert (new fuel : ℕ) (c : LinkedContext) : Option LinkedContext := do
  let last ← c.links.prev c.mEventQueue
  let (inserted, c) ← forEach (fun c => c.links.prev) (insertBody new) c.mEventQueue fuel last c
  if inserted then some c else c.insertNext c.mEventQueue new

/-- `PostCallbackEvent`. -/
def postCallbackEvent (coalescer : ℕ → ECode) (new fuel : ℕ) (c : LinkedContext) :
    Option LinkedContext :=
  let c := c.count new 1
  if (c.view []).Refuses then some ((c.cancelEvent new).count new (-1))
  else do
    let first ← c.links.next c.mEventQueue
    let needNotify := decide (first = c.mEventQueue)
    let (both, c) ← c.coalesce coalescer new fuel
    if both then some c
    else do
      let c ← c.insert new fuel
      some (if needNotify then { c with mThreadEvent := c.mThreadEvent + 1 } else c)

/-! ### What it comes to -/

section

variable (coalescer : ℕ → ECode) (new : ℕ) (c : LinkedContext)

/-- An event that the new one stands for: it matches, and the coalescer succeeds or there is
none. -/
def Drops (a : ℕ) : Prop :=
  (c.event new).Matches (c.event a) ∧
    ((c.event new).mCoalesceFunc = 0 ∨ failed (coalescer a) = false)

instance (a : ℕ) : Decidable (c.Drops coalescer new a) := by
  unfold Drops
  infer_instance

/-- The answer to drop the new event as well. -/
def AnswersBoth (a : ℕ) : Prop :=
  (c.event new).Matches (c.event a) ∧ (c.event new).mCoalesceFunc ≠ 0 ∧
    coalescer a = E_CANCLE_BOTH_EVENTS

/-- How a post goes on a ring of the events `l`: what becomes of the new event, and the queue. -/
inductive Coalesces (l : List ℕ) : CallbackEvent → List ℕ → Prop
  | refused (h : (c.view []).Refuses) : Coalesces l (c.event new).cancel l
  | both {before after : List ℕ} {b : ℕ} (h : ¬ (c.view []).Refuses)
      (hl : l = before ++ b :: after) (hb : c.AnswersBoth coalescer new b)
      (hafter : ∀ a ∈ after, ¬ c.AnswersBoth coalescer new a) :
      Coalesces l (c.event new) (before ++ after.filter fun a => ¬ c.Drops coalescer new a)
  | kept {before after : List ℕ} {p : CallbackEventFlags} (h : ¬ (c.view []).Refuses)
      (hl : ∀ a ∈ l, ¬ c.AnswersBoth coalescer new a)
      (hqueue : (l.filter fun a => ¬ c.Drops coalescer new a) = before ++ after)
      (hp : IsLeast ({(c.event new).priority} ∪
        {p | ∃ a ∈ l, c.Drops coalescer new a ∧ p = (c.event a).priority}) p) :
      Coalesces l ((c.event new).setPriority p) (before ++ new :: after)

end

/-! ### The loops -/

/-- On the way from a ring of the events `l`: what is in the ring now, and that `mEventsCount` has
changed by as much. -/
structure Holds (c : LinkedContext) (l queue : List ℕ) (c' : LinkedContext) : Prop where
  ring : LinkedRing c'.links c'.mEventQueue queue
  head : c'.mEventQueue = c.mEventQueue
  event : c'.event = c.event
  count : c'.mEventsCount - queue.length = c.mEventsCount - l.length

section

variable {coalescer : ℕ → ECode} {new a : ℕ} {c c' : LinkedContext} {l queue before after : List ℕ}

theorem Holds.addRef (h : Holds c l queue c') (n : ℤ) : Holds c l queue (c'.count a n) :=
  ⟨h.ring, h.head, h.event, h.count⟩

theorem Holds.notify (h : Holds c l queue c') (b : Bool) :
    Holds c l queue (if b then { c' with mThreadEvent := c'.mThreadEvent + 1 } else c') := by
  cases b
  · exact h
  · exact ⟨h.ring, h.head, h.event, h.count⟩

theorem Holds.detach (h : Holds c l (before ++ a :: after) c') :
    ∃ c'', c'.detach a = some c'' ∧ Holds c l (before ++ after) c'' := by
  obtain ⟨links, hdetach, hring⟩ := h.ring.detach
  refine ⟨{ c' with links, mEventsCount := c'.mEventsCount - 1 }, congrArg (Option.map _) hdetach,
    hring, h.head, h.event, ?_⟩
  have hcount := h.count
  rw [List.length_append, List.length_cons] at hcount
  push_cast at hcount
  change c'.mEventsCount - 1 - ((before ++ after).length : ℕ) = _
  rw [List.length_append]
  push_cast
  omega

theorem Holds.insertNext (h : Holds c l (before ++ after) c')
    (hnew : new ∉ c.mEventQueue :: (before ++ after)) :
    ∃ c'', c'.insertNext (before.getLastD c'.mEventQueue) new = some c'' ∧
      Holds c l (before ++ new :: after) c'' := by
  obtain ⟨links, hinsert, hring⟩ := h.ring.insertNext (h.head ▸ hnew)
  refine ⟨{ c' with links, mEventsCount := c'.mEventsCount + 1 }, congrArg (Option.map _) hinsert,
    hring, h.head, h.event, ?_⟩
  have hcount := h.count
  rw [List.length_append] at hcount
  push_cast at hcount
  change c'.mEventsCount + 1 - ((before ++ new :: after).length : ℕ) = _
  rw [List.length_append, List.length_cons]
  push_cast
  omega

/-- The coalescing loop has dealt with the events of `after`, backwards, and left none of them that
answered to drop both; those of `rest` are to come. -/
structure Visited (coalescer : ℕ → ECode) (new : ℕ) (c : LinkedContext) (rest after : List ℕ)
    (s : LinkedContext × CallbackEventFlags) : Prop where
  holds : Holds c (rest.reverse ++ after)
    (rest.reverse ++ after.filter fun a => ¬ c.Drops coalescer new a) s.1
  highestFlag : s.2 = ((after.filter fun a => c.Drops coalescer new a).map
    fun a => (c.event a).priority).headD (c.event new).priority
  answers : ∀ a ∈ after, ¬ c.AnswersBoth coalescer new a

theorem Drops.not_answersBoth (h : c.Drops coalescer new a) : ¬ c.AnswersBoth coalescer new a := by
  rintro ⟨-, hfunc, hboth⟩
  rcases h.2 with hzero | hok
  · exact hfunc hzero
  · rw [hboth] at hok
    exact absurd hok (show failed E_CANCLE_BOTH_EVENTS ≠ false by decide)

/-! A round of the loop, by what the coalescer answers. -/

theorem coalesceBody_both (hevent : c'.event = c.event) (h : c.AnswersBoth coalescer new a)
    (highestFlag : CallbackEventFlags) :
    coalesceBody coalescer new a (c', highestFlag) = ((c'.count new (-1)).detach a).map fun c'' =>
      (.leave, c''.count a (-1), highestFlag) := by
  have hfailed : (c.event new).mCoalesceFunc ≠ 0 ∧ failed (coalescer a) = true :=
    ⟨h.2.1, h.2.2 ▸ by decide⟩
  rw [coalesceBody, hevent, if_pos h.1, if_pos hfailed, if_pos h.2.2]
  cases (c'.count new (-1)).detach a <;> rfl

theorem coalesceBody_drops (hevent : c'.event = c.event) (h : c.Drops coalescer new a)
    (highestFlag : CallbackEventFlags) :
    coalesceBody coalescer new a (c', highestFlag) = (c'.links.next a).bind fun n =>
      (c'.detach a).map fun c'' => (.next n, c''.count a (-1), (c.event a).priority) := by
  have hok : ¬ ((c.event new).mCoalesceFunc ≠ 0 ∧ failed (coalescer a) = true) := by
    rintro ⟨hfunc, hfailed⟩
    rcases h.2 with hzero | hok
    · exact hfunc hzero
    · exact Bool.false_ne_true (hok.symm.trans hfailed)
  rw [coalesceBody, hevent, if_pos h.1, if_neg hok]
  cases c'.links.next a with
  | none => rfl
  | some n => cases c'.detach a <;> rfl

theorem coalesceBody_keeps (hevent : c'.event = c.event) (h : ¬ c.Drops coalescer new a)
    (hboth : ¬ c.AnswersBoth coalescer new a) (highestFlag : CallbackEventFlags) :
    coalesceBody coalescer new a (c', highestFlag) = some (.next a, c', highestFlag) := by
  rw [coalesceBody, hevent]
  split
  · next hmatches =>
    have hfailed : (c.event new).mCoalesceFunc ≠ 0 ∧ failed (coalescer a) = true := by
      rw [Drops, not_and, not_or, Bool.not_eq_false] at h
      exact h hmatches
    rw [if_pos hfailed, if_neg fun heq => hboth ⟨hmatches, hfailed.1, heq⟩]
  · rfl

/-- One round of the coalescing loop. -/
theorem Visited.step {rest : List ℕ} {s : LinkedContext × CallbackEventFlags}
    (h : Visited coalescer new c (a :: rest) after s) :
    (∃ b s', coalesceBody coalescer new a s = some (.next b, s') ∧
        s'.1.links.prev b = some (rest.headD c.mEventQueue) ∧
        Visited coalescer new c rest (a :: after) s') ∨
      ∃ s', coalesceBody coalescer new a s = some (.leave, s') ∧
        c.AnswersBoth coalescer new a ∧
        Holds c (rest.reverse ++ a :: after)
          (rest.reverse ++ after.filter fun a => ¬ c.Drops coalescer new a) s'.1 := by
  obtain ⟨c', highestFlag⟩ := s
  obtain ⟨hholds, hflag, hanswers⟩ := h
  rw [List.reverse_cons, List.append_assoc, List.append_assoc, List.singleton_append,
    List.singleton_append] at hholds
  by_cases hboth : c.AnswersBoth coalescer new a
  · obtain ⟨c'', hdetach, hholds'⟩ := (hholds.addRef (a := new) (-1)).detach
    refine .inr ⟨(c''.count a (-1), highestFlag), ?_, hboth, hholds'.addRef (-1)⟩
    rw [coalesceBody_both hholds.event hboth, hdetach]
    rfl
  have hanswers' : ∀ b ∈ a :: after, ¬ c.AnswersBoth coalescer new b :=
    List.forall_mem_cons.mpr ⟨hboth, hanswers⟩
  by_cases hdrops : c.Drops coalescer new a
  · obtain ⟨c'', hdetach, hholds'⟩ := hholds.detach
    have hbody := coalesceBody_drops hholds.event hdrops highestFlag
    rw [hholds.ring.next_eq, hdetach] at hbody
    refine .inl ⟨_, _, hbody, ?_, ?_, ?_, hanswers'⟩
    · have hprev := hholds'.ring.between.2
      rw [hholds'.head, getLastD_reverse] at hprev
      rw [hholds.head]
      exact hprev
    · rw [List.filter_cons_of_neg (by simpa using hdrops)]
      exact hholds'.addRef (-1)
    · rw [List.filter_cons_of_pos (by simpa using hdrops)]
      rfl
  · have hbody := coalesceBody_keeps hholds.event hdrops hboth highestFlag
    refine .inl ⟨_, _, hbody, ?_, ?_, ?_, hanswers'⟩
    · rw [hholds.ring.prev_eq, getLastD_reverse, hholds.head]
    · rw [List.filter_cons_of_pos (by simpa using hdrops)]
      exact hholds
    · rw [List.filter_cons_of_neg (by simpa using hdrops)]
      exact hflag

/-- How the coalescing loop ends on a ring of the events `l`: it was left at an event, or has dealt
with all of them. -/
def LoopEnds (coalescer : ℕ → ECode) (new : ℕ) (c : LinkedContext) (l : List ℕ) (left : Bool)
    (s : LinkedContext × CallbackEventFlags) : Prop :=
  if left then ∃ before b after, l = before ++ b :: after ∧ c.AnswersBoth coalescer new b ∧
    (∀ a ∈ after, ¬ c.AnswersBoth coalescer new a) ∧
    Holds c l (before ++ after.filter fun a => ¬ c.Drops coalescer new a) s.1
  else Visited coalescer new c [] l s

/-- The coalescing loop. -/
theorem loopEnds_coalesce (h : LinkedRing c.links c.mEventQueue l) (coalescer : ℕ → ECode) (new : ℕ)
    {fuel : ℕ} (hfuel : l.length < fuel) :
    ∃ left s, forEach (fun s => s.1.links.prev) (coalesceBody coalescer new) c.mEventQueue fuel
        (l.getLastD c.mEventQueue) (c, (c.event new).priority) = some (left, s) ∧
      LoopEnds coalescer new c l left s := by
  rw [← headD_reverse]
  refine forEach_spec (I := fun rest s => ∃ after, l = rest.reverse ++ after ∧
    Visited coalescer new c rest after s) ?_ ?_ ?_ (by rwa [List.length_reverse])
  · rintro a rest s ⟨after, hl, hvisited⟩
    rw [List.reverse_cons, List.append_assoc, List.singleton_append] at hl
    refine ⟨h.ne_head (by simp [hl]), ?_⟩
    rcases hvisited.step with ⟨b, s', hbody, hfollow, hvisited'⟩ | ⟨s', hbody, hboth, hholds⟩
    · exact .inl ⟨b, s', hbody, hfollow, a :: after, hl, hvisited'⟩
    · refine .inr ⟨s', hbody, ?_⟩
      rw [LoopEnds, if_pos rfl]
      exact ⟨_, a, after, hl, hboth, hvisited.answers, hl ▸ hholds⟩
  · rintro s ⟨after, rfl, hvisited⟩
    exact hvisited
  · refine ⟨[], by simp, ?_, rfl, List.forall_mem_nil _⟩
    rw [List.reverse_reverse, List.filter_nil, List.append_nil]
    exact ⟨h, rfl, rfl, rfl⟩

/-- One round of the search for the place. -/
theorem insertBody_cases (h : Holds c l (before ++ a :: after) c')
    (hnew : new ∉ c.mEventQueue :: (before ++ a :: after)) :
    (goesAfter (c.event new) (c.event a) = true ∧ ∃ c'', insertBody new a c' = some (.leave, c'') ∧
        Holds c l (before ++ a :: new :: after) c'') ∨
      goesAfter (c.event new) (c.event a) = false ∧ insertBody new a c' = some (.next a, c') := by
  rw [insertBody, h.event]
  by_cases hgoes : goesAfter (c.event new) (c.event a) = true
  · have hsplit : before ++ a :: after = (before ++ [a]) ++ after := by
      rw [List.append_assoc, List.singleton_append]
    rw [hsplit] at h hnew
    obtain ⟨c'', hinsert, hholds⟩ := h.insertNext hnew
    rw [List.getLastD_concat] at hinsert
    rw [List.append_assoc, List.singleton_append] at hholds
    rw [if_pos hgoes, hinsert]
    exact .inl ⟨hgoes, c'', rfl, hholds⟩
  · rw [if_neg hgoes]
    exact .inr ⟨Bool.eq_false_iff.mpr hgoes, rfl⟩

/-- The search for the place goes as in a list. -/
theorem holds_insert (h : Holds c l queue c') (hnew : new ∉ c.mEventQueue :: queue) {fuel : ℕ}
    (hfuel : queue.length < fuel) :
    ∃ c'', c'.insert new fuel = some c'' ∧ Holds c l
      (insertBack (fun a => goesAfter (c.event new) (c.event a)) new queue.reverse []) c'' := by
  set place := insertBack (fun a => goesAfter (c.event new) (c.event a)) new with hplace
  have hloop : ∃ left c'', forEach (fun c => c.links.prev) (insertBody new) c'.mEventQueue fuel
      (queue.reverse.headD c'.mEventQueue) c' = some (left, c'') ∧
        if left then Holds c l (place queue.reverse []) c''
        else c'' = c' ∧ place queue.reverse [] = new :: queue := by
    refine forEach_spec (I := fun rest s => s = c' ∧ ∃ after, queue = rest.reverse ++ after ∧
      place rest after = place queue.reverse []) (Q := fun left s =>
        if left then Holds c l (place queue.reverse []) s
        else s = c' ∧ place queue.reverse [] = new :: queue) ?_ ?_
      ⟨rfl, [], by simp, rfl⟩ (by rwa [List.length_reverse])
    · rintro a rest _ ⟨rfl, after, hqueue, heq⟩
      rw [List.reverse_cons, List.append_assoc, List.singleton_append] at hqueue
      refine ⟨h.ring.ne_head (by simp [hqueue]), ?_⟩
      have hcases := insertBody_cases (hqueue ▸ h) (hqueue ▸ hnew)
      rcases hcases with ⟨hgoes, c'', hbody, hholds⟩ | ⟨hgoes, hbody⟩
      · refine .inr ⟨c'', hbody, ?_⟩
        rw [if_pos rfl, ← heq, hplace, insertBack, if_pos hgoes]
        exact hholds
      · refine .inl ⟨a, _, hbody, ?_, rfl, a :: after, hqueue, ?_⟩
        · have hring := h.ring
          rw [hqueue] at hring
          rw [hring.prev_eq, getLastD_reverse]
        · rw [← heq, hplace, insertBack, if_neg (by simp [hgoes])]
    · rintro _ ⟨rfl, after, rfl, heq⟩
      exact ⟨rfl, heq.symm⟩
  obtain ⟨left, c'', hrun, hleft⟩ := hloop
  rw [insert, h.ring.prev_head, ← headD_reverse]
  change ∃ c'', (forEach _ _ _ _ _ _).bind _ = _ ∧ _
  rw [hrun]
  cases left with
  | true => exact ⟨c'', rfl, hleft⟩
  | false =>
    obtain ⟨rfl, heq⟩ := hleft
    obtain ⟨c', hinsert, hholds⟩ := (show Holds c l ([] ++ queue) c'' from h).insertNext hnew
    rw [heq]
    exact ⟨c', hinsert, hholds⟩

end

/-! ### The queue after a post -/

/-- The priority that a new event has in the end, when the events of a list in order are dropped for
it: the first of them has the best. -/
theorem lower_isLeast (e : CallbackEvent) {es : List CallbackEvent} (h : es.Pairwise InOrder) :
    ∃ p, CallbackContext.lower e ((es.map priority).headD e.priority) = e.setPriority p ∧
      IsLeast ({e.priority} ∪ {p | ∃ f ∈ es, p = f.priority}) p := by
  cases es with
  | nil =>
    refine ⟨e.priority, ?_, .inl rfl, ?_⟩
    · rw [List.map_nil, List.headD_nil, CallbackContext.lower, if_neg (UInt32.lt_irrefl _),
        setPriority_priority]
    · rintro p (rfl | ⟨f, hf, -⟩)
      · exact UInt32.le_refl _
      · exact absurd hf List.not_mem_nil
  | cons f es =>
    have hfirst : ∀ g ∈ f :: es, f.priority ≤ g.priority := by
      refine List.forall_mem_cons.mpr ⟨UInt32.le_refl _, fun g hg => ?_⟩
      exact ((List.pairwise_cons.mp h).1 g hg).priority_le
    rw [List.map_cons, List.headD_cons, CallbackContext.lower]
    split
    · next hlt =>
      refine ⟨f.priority, rfl, .inr ⟨f, List.mem_cons_self, rfl⟩, ?_⟩
      rintro p (rfl | ⟨g, hg, rfl⟩)
      · exact UInt32.le_of_lt hlt
      · exact hfirst g hg
    · next hlt =>
      refine ⟨e.priority, (setPriority_priority e).symm, .inl rfl, ?_⟩
      rintro p (rfl | ⟨g, hg, rfl⟩)
      · exact UInt32.le_refl _
      · exact UInt32.le_trans (UInt32.not_lt.mp hlt) (hfirst g hg)

section

variable {coalescer : ℕ → ECode} {new a : ℕ} {c c' : LinkedContext} {l queue before after : List ℕ}

/-- In a queue in order the new event gets a place in order. -/
theorem pairwise_place (event : ℕ → CallbackEvent)
    (h : (queue.map event).Pairwise InOrder) :
    ((insertBack (fun a => goesAfter (event new) (event a)) new queue.reverse []).map
      event).Pairwise InOrder := by
  rw [List.pairwise_map] at h ⊢
  refine pairwise_insertBack (fun hab hbc => hab.trans hbc) (fun a _ hgoes => ?_)
    (fun a _ hnot => ?_) (List.forall_mem_nil _) (by simpa using h)
  · exact inOrder_iff.mpr hgoes
  · exact inOrder_of_not fun hinOrder => by simp [inOrder_iff.mp hinOrder] at hnot

/-- The coalescing either ends at an event that answered to drop both, or with the best priority. -/
theorem coalesce_cases (h : LinkedRing c.links c.mEventQueue l)
    (hsorted : (l.map c.event).Pairwise InOrder)
    (hduplicated : (c.event new).mFlags &&& CallbackEventFlag_Duplicated ≠ 0)
    (coalescer : ℕ → ECode) {fuel : ℕ} (hfuel : l.length < fuel) :
    (∃ before b after c', l = before ++ b :: after ∧ c.AnswersBoth coalescer new b ∧
        (∀ a ∈ after, ¬ c.AnswersBoth coalescer new a) ∧
        c.coalesce coalescer new fuel = some (true, c') ∧
        Holds c l (before ++ after.filter fun a => ¬ c.Drops coalescer new a) c') ∨
      ∃ p c', (∀ a ∈ l, ¬ c.AnswersBoth coalescer new a) ∧
        IsLeast ({(c.event new).priority} ∪
          {p | ∃ a ∈ l, c.Drops coalescer new a ∧ p = (c.event a).priority}) p ∧
        c.coalesce coalescer new fuel = some (false, c') ∧
        Holds { c with event := Function.update c.event new ((c.event new).setPriority p) } l
          (l.filter fun a => ¬ c.Drops coalescer new a) c' := by
  obtain ⟨left, ⟨c', highestFlag⟩, hrun, hends⟩ := loopEnds_coalesce h coalescer new hfuel
  have hcoalesce : c.coalesce coalescer new fuel = if left then some (true, c') else
      some (false, { c' with
        event := Function.update c'.event new
          (CallbackContext.lower (c'.event new) highestFlag) }) := by
    rw [coalesce, if_pos hduplicated, h.prev_head]
    change (forEach _ _ _ _ _ _).bind _ = _
    rw [hrun]
    rfl
  rw [hcoalesce]
  rcases left with _ | _
  · -- the priorities of the dropped events are in order, as they are in the queue
    have hvisited : Visited coalescer new c [] l (c', highestFlag) := hends
    have hdropped : ((l.filter fun a => c.Drops coalescer new a).map c.event).Pairwise InOrder :=
      hsorted.sublist (List.filter_sublist.map c.event)
    obtain ⟨p, hlower, hleast⟩ := lower_isLeast (c.event new) hdropped
    have hflag : highestFlag = (((l.filter fun a => c.Drops coalescer new a).map c.event).map
        priority).headD (c.event new).priority := by
      rw [List.map_map]
      exact hvisited.highestFlag
    rw [← hflag] at hlower
    have hset :
        {p | ∃ f ∈ (l.filter fun a => c.Drops coalescer new a).map c.event, p = f.priority} =
          {p | ∃ a ∈ l, c.Drops coalescer new a ∧ p = (c.event a).priority} := by
      ext q
      simp [and_assoc]
    have hholds := hvisited.holds
    have hevent : c'.event = c.event := hholds.event
    refine .inr ⟨p, _, hvisited.answers, hset ▸ hleast, rfl, hholds.ring, hholds.head, ?_,
      hholds.count⟩
    rw [hevent, hlower]
  · obtain ⟨before, b, after, hl, hboth, hafter, hholds⟩ := hends
    exact .inl ⟨before, b, after, c', hl, hboth, hafter, rfl, hholds⟩

/-! A post that is not refused. -/

theorem post_of_both {first : ℕ} (hrefuses : ¬ (c.view []).Refuses)
    (hfirst : c.links.next c.mEventQueue = some first) {fuel : ℕ}
    (h : (c.count new 1).coalesce coalescer new fuel = some (true, c')) :
    c.postCallbackEvent coalescer new fuel = some c' := by
  have hnot : ¬ ((c.count new 1).view []).Refuses := hrefuses
  have hnext : (c.count new 1).links.next (c.count new 1).mEventQueue = some first := hfirst
  rw [postCallbackEvent]
  dsimp only
  rw [if_neg hnot, hnext, h]
  rfl

theorem post_of_kept {first : ℕ} {c'' : LinkedContext} (hrefuses : ¬ (c.view []).Refuses)
    (hfirst : c.links.next c.mEventQueue = some first) {fuel : ℕ}
    (h : (c.count new 1).coalesce coalescer new fuel = some (false, c'))
    (hinsert : c'.insert new fuel = some c'') :
    c.postCallbackEvent coalescer new fuel = some (if decide (first = c.mEventQueue) then
      { c'' with mThreadEvent := c''.mThreadEvent + 1 } else c'') := by
  have hnot : ¬ ((c.count new 1).view []).Refuses := hrefuses
  have hnext : (c.count new 1).links.next (c.count new 1).mEventQueue = some first := hfirst
  rw [postCallbackEvent]
  dsimp only
  rw [if_neg hnot, hnext, h]
  change (c'.insert new fuel).bind _ = _
  rw [hinsert]
  rfl

/-- **Coalescing.** -/
theorem post_coalesces (h : LinkedRing c.links c.mEventQueue l)
    (hsorted : (l.map c.event).Pairwise InOrder) (hnew : new ∉ c.mEventQueue :: l)
    (hduplicated : (c.event new).mFlags &&& CallbackEventFlag_Duplicated ≠ 0)
    (coalescer : ℕ → ECode) {fuel : ℕ} (hfuel : l.length < fuel) :
    ∃ c' queue, c.postCallbackEvent coalescer new fuel = some c' ∧
      LinkedRing c'.links c'.mEventQueue queue ∧
      c'.mEventsCount - queue.length = c.mEventsCount - l.length ∧
      (∀ a, a ≠ new → c'.event a = c.event a) ∧ (queue.map c'.event).Pairwise InOrder ∧
      c.Coalesces coalescer new l (c'.event new) queue := by
  have hring : LinkedRing (c.count new 1).links (c.count new 1).mEventQueue l := h
  have hnotmem : new ∉ l := fun hmem => hnew (List.mem_cons_of_mem _ hmem)
  by_cases hrefuses : (c.view []).Refuses
  · have hevent (a : ℕ) (ha : a ≠ new) :
        (((c.count new 1).cancelEvent new).count new (-1)).event a = c.event a :=
      Function.update_of_ne ha ..
    have hself : (((c.count new 1).cancelEvent new).count new (-1)).event new =
        (c.event new).cancel := Function.update_self ..
    refine ⟨((c.count new 1).cancelEvent new).count new (-1), l, if_pos hrefuses, h, rfl, hevent,
      ?_, ?_⟩
    · rwa [List.map_congr_left fun a ha => hevent a fun heq => hnotmem (heq ▸ ha)]
    · rw [hself]
      exact .refused hrefuses
  rcases coalesce_cases hring hsorted hduplicated coalescer hfuel with
    ⟨before, b, after, c', hl, hboth, hafter, hrun, hholds⟩ | ⟨p, c', hnone, hleast, hrun, hholds⟩
  · have hsub : (before ++ after.filter fun a => ¬ c.Drops coalescer new a).Sublist l :=
      hl ▸ (List.filter_sublist.trans (List.sublist_cons_self b after)).append_left before
    have hevent : c'.event = c.event := hholds.event
    refine ⟨c', _, post_of_both hrefuses h.next_head hrun, hholds.ring, hholds.count,
      fun a _ => congrFun hevent a, ?_, ?_⟩
    · rw [hevent]
      exact hsorted.sublist (hsub.map c.event)
    · rw [hevent]
      exact .both hrefuses hl hboth hafter
  · let event := Function.update c.event new ((c.event new).setPriority p)
    have hholds : Holds { c with event } l (l.filter fun a => ¬ c.Drops coalescer new a) c' :=
      ⟨hholds.ring, hholds.head, hholds.event, hholds.count⟩
    have hother (a : ℕ) (ha : a ≠ new) : event a = c.event a := Function.update_of_ne ha ..
    have hself : event new = (c.event new).setPriority p := Function.update_self ..
    have hsub : (l.filter fun a => ¬ c.Drops coalescer new a).Sublist l := List.filter_sublist
    have hnew' : new ∉ c.mEventQueue :: l.filter fun a => ¬ c.Drops coalescer new a :=
      fun hmem => hnew ((hsub.cons_cons c.mEventQueue).subset hmem)
    obtain ⟨c'', hinsert, hholds'⟩ :=
      holds_insert hholds hnew' (hsub.length_le.trans_lt hfuel)
    obtain ⟨before, after, hplace, hqueue⟩ := exists_insertBack
      (fun a => goesAfter (event new) (event a)) new
      (l.filter fun a => ¬ c.Drops coalescer new a).reverse []
    rw [List.reverse_reverse, List.append_nil] at hqueue
    have hnotify := hholds'.notify (decide (l.headD c.mEventQueue = c.mEventQueue))
    refine ⟨_, _, post_of_kept hrefuses h.next_head hrun hinsert, hnotify.ring, hnotify.count,
      fun a ha => ?_, ?_, ?_⟩
    · rw [hnotify.event]
      exact hother a ha
    · rw [hnotify.event]
      refine pairwise_place event ?_
      have hsame : (l.filter fun a => ¬ c.Drops coalescer new a).map event =
          (l.filter fun a => ¬ c.Drops coalescer new a).map c.event :=
        List.map_congr_left fun a ha => hother a fun heq => hnotmem (hsub.subset (heq ▸ ha))
      rw [hsame]
      exact hsorted.sublist (hsub.map c.event)
    · rw [hnotify.event]
      change Coalesces coalescer new c l (event new) (insertBack _ _ _ _)
      rw [hplace, hself]
      exact .kept hrefuses hnone hqueue hleast

/-- The second and the third event are in the queue when the first is posted. -/
def twoEvents : LinkedContext where
  links := ⟨fun a => if a = 0 then some 2 else if a = 2 then some 3 else some 0,
    fun a => if a = 0 then some 3 else if a = 2 then some 0 else some 2⟩
  event a := { CallbackContext.eventOf 7 (0x100 + UInt32.ofNat a) a with mCoalesceFunc := 4 }
  mRef _ := 1
  mEventQueue := 0
  mEventsCount := 2

theorem linkedRing_twoEvents : LinkedRing twoEvents.links twoEvents.mEventQueue [2, 3] where
  nexts := ⟨rfl, rfl, rfl⟩
  prevs := ⟨rfl, rfl, rfl⟩
  nodup := by decide

/-- The coalescer fails for one of them. -/
theorem post_coalesces_twoEvents :
    ∃ c' queue, twoEvents.postCallbackEvent (fun a => if a = 2 then E_FAIL else NOERROR) 1 3 =
        some c' ∧
      LinkedRing c'.links c'.mEventQueue queue ∧
      c'.mEventsCount - queue.length = twoEvents.mEventsCount - [2, 3].length ∧
      (∀ a, a ≠ 1 → c'.event a = twoEvents.event a) ∧
      (queue.map c'.event).Pairwise InOrder ∧
      twoEvents.Coalesces (fun a => if a = 2 then E_FAIL else NOERROR) 1 [2, 3] (c'.event 1)
        queue :=
  post_coalesces linkedRing_twoEvents
    (List.pairwise_pair.mpr (.inl (by decide))) (by decide) (by decide) _ (by decide)

end

end LinkedContext

end ElastosCar
