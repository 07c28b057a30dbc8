import ElastosCar.Lib.Trace

/-!
# The looper

`AddFd`, `RemoveFd` and `PollInner` of `linux_rpc/looper.cpp`. `PollInner` waits for events without
the lock, copies the requests of the descriptors that have one under the lock, releases it and calls
back; a callback that returns 0 has its descriptor removed.

Between these steps other threads and the callbacks themselves add and remove descriptors, and a
descriptor that was removed may be closed and its number be given to another file. Both the copying
and the removal go by the number only: an event may be delivered to a registration that is newer
than the event, and the removal may hit a registration that is newer than the callback.
`registered_of_meets` shows that nothing else goes wrong.
-/

namespace ElastosCar

namespace Looper

def EPOLL_MAX_EVENTS : ℕ := 2048

def LOOPER_POLL_WAKE : Int32 := -1
def LOOPER_POLL_CALLBACK : Int32 := -2
def LOOPER_POLL_TIMEOUT : Int32 := -3
def LOOPER_POLL_ERROR : Int32 := -4

def LOOPER_EVENT_INPUT : UInt32 := 1
def LOOPER_EVENT_OUTPUT : UInt32 := 2
def LOOPER_EVENT_ERROR : UInt32 := 4
def LOOPER_EVENT_HANGUP : UInt32 := 8

def EPOLLIN : UInt32 := 0x001
def EPOLLOUT : UInt32 := 0x004
def EPOLLERR : UInt32 := 0x008
def EPOLLHUP : UInt32 := 0x010
def EPOLLET : UInt32 := 0x80000000

/-- The flag `value` if `bit` is set in `events`. -/
def flag (events bit value : UInt32) : UInt32 := if events &&& bit ≠ 0 then value else 0

/-- The events of epoll for those of the looper. -/
def epollEvents (events : UInt32) : UInt32 :=
  flag events LOOPER_EVENT_INPUT EPOLLIN ||| flag events LOOPER_EVENT_OUTPUT EPOLLOUT

/-- The events of the looper for those of epoll. -/
def looperEvents (epollEvents : UInt32) : UInt32 :=
  flag epollEvents EPOLLIN LOOPER_EVENT_INPUT ||| flag epollEvents EPOLLOUT LOOPER_EVENT_OUTPUT |||
    flag epollEvents EPOLLERR LOOPER_EVENT_ERROR ||| flag epollEvents EPOLLHUP LOOPER_EVENT_HANGUP

/-- A `Request`. Registrations are numbered in the order of the successful calls of `AddFd`. -/
structure Request where
  mFd : Int32
  mIdent : Int32
  mCallback : Option ℕ
  mData : ℕ
  number : ℕ
deriving DecidableEq, Repr

/-- A descriptor in the epoll set, with the number of the registration that put it there. -/
structure EpollItem where
  events : UInt32
  number : ℕ
deriving DecidableEq, Repr

/-- An event that `epoll_wait` returns, with the number of the registration it is for. -/
structure Ready where
  fd : Int32
  events : UInt32
  number : ℕ
deriving DecidableEq, Repr

inductive WaitResult
  | error (eintr : Bool)
  | items (rs : List Ready)
deriving DecidableEq, Repr

/-- A `Response`, with the number of the registration that its event is for. -/
structure Response where
  mEvents : UInt32
  mRequest : Request
  collected : ℕ
deriving DecidableEq, Repr

/-- Where the thread of the looper is in `PollInner`. -/
inductive PollState
  | outside
  /-- `epoll_wait` has returned. -/
  | waited (r : WaitResult)
  /-- The lock is released, and the response `i` is next. -/
  | calling (i : ℕ) (result : Int32)
  | inCallback (i : ℕ)
  /-- The callback of the response `i` has returned 0. -/
  | removing (i : ℕ)
deriving DecidableEq, Repr

end Looper

open Looper

/-- The looper, the epoll set, and what has happened so far. -/
structure LooperState where
  mAllowNonCallbacks : Bool := true
  mRequests : Finmap (fun _ : Int32 => Request) := ∅
  epoll : Finmap (fun _ : Int32 => EpollItem) := ∅
  mResponses : List Response := []
  poll : PollState := .outside
  /-- The descriptors of the registrations, in their order. -/
  made : List Int32 := []
  /-- The responses whose callbacks were invoked. -/
  invoked : List Response := []
  /-- For each callback that returned 0: the registration it was invoked for, and what was removed. -/
  removed : List (ℕ × Option ℕ) := []

inductive LooperAction
  /-- `AddFd`; `granted` is whether the kernel grants what it may refuse for other reasons. -/
  | addFd (fd ident : Int32) (events : UInt32) (callback : Option ℕ) (data : ℕ) (granted : Bool)
  | removeFd (fd : Int32)
  /-- A descriptor that is not registered is closed, and the number is free. -/
  | close (fd : Int32)
  | wait (r : WaitResult)
  /-- The section of `PollInner` under the lock. -/
  | collect
  /-- `PollInner` goes to the next response: it calls back, or it does not, or it returns. -/
  | next
  /-- The callback returns, with 0 or not. -/
  | ret (zero : Bool)
  /-- `RemoveFd` after a callback that returned 0. -/
  | remove

namespace LooperState

/-! ### epoll_ctl -/

/-- `EPOLL_CTL_ADD`. -/
def epollAdd (s : LooperState) (granted : Bool) (fd : Int32) (item : EpollItem) :
    Option (Finmap fun _ : Int32 => EpollItem) :=
  if fd ∈ s.epoll then none else if granted then some (s.epoll.insert fd item) else none

/-- `EPOLL_CTL_MOD`. -/
def epollMod (s : LooperState) (granted : Bool) (fd : Int32) (item : EpollItem) :
    Option (Finmap fun _ : Int32 => EpollItem) :=
  if fd ∈ s.epoll ∧ granted then some (s.epoll.insert fd item) else none

/-- `EPOLL_CTL_DEL`. -/
def epollDel (s : LooperState) (fd : Int32) : Option (Finmap fun _ : Int32 => EpollItem) :=
  if fd ∈ s.epoll then some (s.epoll.erase fd) else none

/-! ### AddFd and RemoveFd -/

/-- The request that `AddFd` makes. -/
def request (fd ident : Int32) (callback : Option ℕ) (data : ℕ) (s : LooperState) : Request where
  mFd := fd
  mIdent := if callback = none then ident else LOOPER_POLL_CALLBACK
  mCallback := callback
  mData := data
  number := s.made.length

def eventItem (events : UInt32) (s : LooperState) : EpollItem where
  events := epollEvents events ||| EPOLLET
  number := s.made.length

/-- `AddFd`. -/
def addFd (fd ident : Int32) (events : UInt32) (callback : Option ℕ) (data : ℕ) (granted : Bool)
    (s : LooperState) : Int32 × LooperState :=
  if callback = none ∧ (s.mAllowNonCallbacks = false ∨ ident < 0) then (-1, s)
  else if EPOLL_MAX_EVENTS ≤ s.mRequests.keys.card then (-1, s)
  else
    let result := match s.mRequests.lookup fd with
      | none => s.epollAdd granted fd (s.eventItem events)
      | some _ => s.epollMod granted fd (s.eventItem events)
    match result with
    | none => (-1, s)
    | some epoll =>
      (1, { s with
        epoll := epoll
        mRequests := s.mRequests.insert fd (s.request fd ident callback data)
        made := s.made ++ [fd] })

/-- `RemoveFd`. -/
def removeFd (fd : Int32) (s : LooperState) : Int32 × LooperState :=
  match s.mRequests.lookup fd with
  | none => (0, s)
  | some _ =>
    match s.epollDel fd with
    | none => (-1, s)
    | some epoll => (1, { s with epoll := epoll, mRequests := s.mRequests.erase fd })

/-! ### PollInner -/

/-- The responses for what `epoll_wait` returned: descriptors without a request are passed over. -/
def responses (s : LooperState) (rs : List Ready) : List Response :=
  rs.filterMap fun r =>
    (s.mRequests.lookup r.fd).map fun q => ⟨looperEvents r.events, q, r.number⟩

/-- The section of `PollInner` under the lock. -/
def collect (r : WaitResult) (s : LooperState) : LooperState :=
  match r with
  | .error eintr =>
    { s with poll := .calling 0 (if eintr then LOOPER_POLL_WAKE else LOOPER_POLL_ERROR) }
  | .items [] => { s with poll := .calling 0 LOOPER_POLL_TIMEOUT }
  | .items rs => { s with poll := .calling 0 LOOPER_POLL_WAKE, mResponses := s.responses rs }

/-- `response.mRequest.mCallback.Clear()`, and on to the next response. -/
def clear (i : ℕ) (s : LooperState) : LooperState :=
  { s with
    mResponses := s.mResponses.modify i fun r => { r with mRequest := { r.mRequest with mCallback := none } }
    poll := .calling (i + 1) LOOPER_POLL_CALLBACK }

/-- `RemoveFd` after the callback of `r` returned 0. -/
def removeAfter (r : Response) (s : LooperState) : LooperState :=
  let (ec, s') := s.removeFd r.mRequest.mFd
  let what := if ec = 1 then (s.mRequests.lookup r.mRequest.mFd).map (·.number) else none
  { s' with removed := s.removed ++ [(r.mRequest.number, what)] }

/-- What `epoll_wait` may return: events of descriptors in the set, each once. -/
def Possible (s : LooperState) : WaitResult → Prop
  | .error _ => True
  | .items rs => rs.length ≤ EPOLL_MAX_EVENTS ∧ (rs.map (·.fd)).Nodup ∧
      ∀ r ∈ rs, (s.epoll.lookup r.fd).map (·.number) = some r.number

instance (s : LooperState) (r : WaitResult) : Decidable (s.Possible r) := by
  cases r <;> unfold Possible <;> infer_instance

/-- One step. -/
def step (s : LooperState) : LooperAction → Option LooperState
  | .addFd fd ident events callback data granted =>
    some (s.addFd fd ident events callback data granted).2
  | .removeFd fd => some (s.removeFd fd).2
  | .close fd =>
    if s.mRequests.lookup fd = none then some { s with epoll := s.epoll.erase fd } else none
  | .wait r =>
    if s.poll = .outside ∧ s.Possible r then some { s with mResponses := [], poll := .waited r }
    else none
  | .collect =>
    match s.poll with
    | .waited r => some (s.collect r)
    | _ => none
  | .next =>
    match s.poll with
    | .calling i result =>
      match s.mResponses[i]? with
      | none => some { s with poll := .outside }
      | some r =>
        if r.mRequest.mIdent = LOOPER_POLL_CALLBACK then
          some { s with invoked := s.invoked ++ [r], poll := .inCallback i }
        else some { s with poll := .calling (i + 1) result }
    | _ => none
  | .ret zero =>
    match s.poll with
    | .inCallback i => some (if zero then { s with poll := .removing i } else s.clear i)
    | _ => none
  | .remove =>
    match s.poll with
    | .removing i => (s.mResponses[i]?).map fun r => (s.removeAfter r).clear i
    | _ => none

/-- The requests and the epoll set are of the same registrations; callbacks were invoked for events of
their own registration; and what was removed after a callback returned 0 was the registration that it
was invoked for, which is gone. -/
structure Matched (s : LooperState) : Prop where
  agree : ∀ fd, (s.epoll.lookup fd).map (·.number) = (s.mRequests.lookup fd).map (·.number)
  own : ∀ r ∈ s.invoked, r.collected = r.mRequest.number
  removed : ∀ p ∈ s.removed, (p.2 = none ∨ p.2 = some p.1) ∧
    ∀ fd q, s.mRequests.lookup fd = some q → q.number ≠ p.1

/-- A descriptor for which `epoll_wait` returned an event still has the registration of the event when
the requests are copied, if it has one; and a descriptor whose callback returned 0 has the
registration of the callback, if it has one. -/
def Steady (s : LooperState) : LooperAction → Prop
  | .collect => ∀ rs, s.poll = .waited (.items rs) → ∀ r ∈ rs, ∀ q,
      s.mRequests.lookup r.fd = some q → q.number = r.number
  | .remove => ∀ i r, s.poll = .removing i → s.mResponses[i]? = some r → ∀ q,
      s.mRequests.lookup r.mRequest.mFd = some q → q.number = r.mRequest.number
  | _ => True

/-- The invariant. -/
structure Sound (s : LooperState) : Prop extends s.Matched where
  made : ∀ fd q, s.mRequests.lookup fd = some q → q.mFd = fd ∧ s.made[q.number]? = some fd
  responses : ∀ r ∈ s.mResponses, r.collected = r.mRequest.number ∧
    s.made[r.mRequest.number]? = some r.mRequest.mFd
  numbered : ∀ p ∈ s.removed, p.1 < s.made.length

section

variable {s s' : LooperState}

/-- Registrations keep their numbers. -/
theorem made_append {made more : List Int32} {k : ℕ} {fd : Int32} (h : made[k]? = some fd) :
    (made ++ more)[k]? = some fd := by
  rw [List.getElem?_append_left (List.getElem?_eq_some_iff.mp h).1, h]

theorem sound_init (allow : Bool) : Sound { mAllowNonCallbacks := allow } where
  agree _ := rfl
  own := List.forall_mem_nil _
  removed := List.forall_mem_nil _
  made _ _ h := by cases h
  responses := List.forall_mem_nil _
  numbered := List.forall_mem_nil _

/-- `AddFd` does nothing, or makes a new registration of the descriptor. -/
theorem addFd_cases (s : LooperState) (fd ident : Int32) (events : UInt32) (callback : Option ℕ)
    (data : ℕ) (granted : Bool) :
    (s.addFd fd ident events callback data granted).2 = s ∨
      (s.addFd fd ident events callback data granted).2 = { s with
        epoll := s.epoll.insert fd (s.eventItem events)
        mRequests := s.mRequests.insert fd (s.request fd ident callback data)
        made := s.made ++ [fd] } := by
  rw [addFd]
  split
  · exact .inl rfl
  split
  · exact .inl rfl
  dsimp only
  split
  · exact .inl rfl
  next epoll hepoll =>
  have : epoll = s.epoll.insert fd (s.eventItem events) := by
    split at hepoll
    · rw [epollAdd] at hepoll
      split at hepoll
      · cases hepoll
      · rw [Option.ite_none_right_eq_some] at hepoll
        exact (Option.some.inj hepoll.2).symm
    · rw [epollMod, Option.ite_none_right_eq_some] at hepoll
      exact (Option.some.inj hepoll.2).symm
  exact .inr (by rw [this])

/-- `RemoveFd` removes the descriptor from both. -/
theorem Sound.removeFd_eq (hs : s.Sound) {fd : Int32} {q : Request}
    (h : s.mRequests.lookup fd = some q) :
    s.removeFd fd = (1, { s with epoll := s.epoll.erase fd, mRequests := s.mRequests.erase fd }) := by
  have hmem : fd ∈ s.epoll := by
    have hagree := hs.agree fd
    rw [h] at hagree
    obtain ⟨item, hitem, -⟩ := Option.map_eq_some_iff.mp hagree
    exact Finmap.mem_of_lookup_eq_some hitem
  rw [removeFd, h]
  simp only [epollDel, hmem, if_true]

theorem Sound.addFd (hs : s.Sound) {fd ident : Int32} {events : UInt32} {callback : Option ℕ}
    {data : ℕ} {granted : Bool} : (s.addFd fd ident events callback data granted).2.Sound := by
  rcases addFd_cases s fd ident events callback data granted with h | h
  · rwa [h]
  rw [h]
  constructor
  · constructor
    · intro fd'
      rcases eq_or_ne fd' fd with rfl | hne
      · simp only [Finmap.lookup_insert, Option.map_some, eventItem, request]
      · simp only [Finmap.lookup_insert_of_ne _ hne]
        exact hs.agree fd'
    · exact hs.own
    · intro p hp
      refine ⟨(hs.removed p hp).1, fun fd' q' hq' => ?_⟩
      rcases eq_or_ne fd' fd with rfl | hne
      · -- the number of the new registration is new
        rw [Finmap.lookup_insert] at hq'
        cases hq'
        exact (hs.numbered p hp).ne'
      · rw [Finmap.lookup_insert_of_ne _ hne] at hq'
        exact (hs.removed p hp).2 fd' q' hq'
  · intro fd' q' hq'
    rcases eq_or_ne fd' fd with rfl | hne
    · rw [Finmap.lookup_insert] at hq'
      cases hq'
      exact ⟨rfl, List.getElem?_concat_length⟩
    · rw [Finmap.lookup_insert_of_ne _ hne] at hq'
      obtain ⟨hfd, hmade⟩ := hs.made fd' q' hq'
      exact ⟨hfd, made_append hmade⟩
  · intro r hr
    obtain ⟨hcollected, hmade⟩ := hs.responses r hr
    exact ⟨hcollected, made_append hmade⟩
  · intro p hp
    have := hs.numbered p hp
    simp only [List.length_append, List.length_singleton]
    omega

/-- `RemoveFd` keeps what is left. -/
theorem Sound.removeFd (hs : s.Sound) (fd : Int32) : (s.removeFd fd).2.Sound := by
  cases hq : s.mRequests.lookup fd with
  | none =>
    rw [LooperState.removeFd, hq]
    exact hs
  | some q =>
    rw [hs.removeFd_eq hq]
    have hsome {fd' : Int32} {q' : Request} (h : (s.mRequests.erase fd).lookup fd' = some q') :
        s.mRequests.lookup fd' = some q' := by
      rcases eq_or_ne fd' fd with rfl | hne
      · rw [Finmap.lookup_erase] at h
        cases h
      · rwa [Finmap.lookup_erase_ne hne] at h
    refine ⟨⟨fun fd' => ?_, hs.own, fun p hp => ⟨(hs.removed p hp).1, fun fd' q' hq' =>
      (hs.removed p hp).2 fd' q' (hsome hq')⟩⟩, fun fd' q' hq' => hs.made fd' q' (hsome hq'),
      hs.responses, hs.numbered⟩
    rcases eq_or_ne fd' fd with rfl | hne
    · simp only [Finmap.lookup_erase]
      rfl
    · simp only [Finmap.lookup_erase_ne hne]
      exact hs.agree fd'

theorem lookup_removeFd (hs : s.Sound) (fd : Int32) :
    (s.removeFd fd).2.mRequests.lookup fd = none := by
  cases hq : s.mRequests.lookup fd with
  | none =>
    rw [LooperState.removeFd, hq]
    exact hq
  | some q =>
    rw [hs.removeFd_eq hq]
    exact Finmap.lookup_erase fd _

theorem removeFd_made (s : LooperState) (fd : Int32) :
    (s.removeFd fd).2.made = s.made ∧ (s.removeFd fd).2.removed = s.removed := by
  rw [LooperState.removeFd]
  split
  · exact ⟨rfl, rfl⟩
  · split <;> exact ⟨rfl, rfl⟩

/-- A descriptor without a request is not in the epoll set, so it can be closed. -/
theorem Sound.close (hs : s.Sound) {fd : Int32} (hfd : s.mRequests.lookup fd = none) :
    Sound { s with epoll := s.epoll.erase fd } := by
  refine ⟨⟨fun fd' => ?_, hs.own, hs.removed⟩, hs.made, hs.responses, hs.numbered⟩
  rcases eq_or_ne fd' fd with rfl | hne
  · simp only [Finmap.lookup_erase, hfd]
    rfl
  · simp only [Finmap.lookup_erase_ne hne]
    exact hs.agree fd'

/-- The requests that are copied are those that the events are for. -/
theorem Sound.collect (hs : s.Sound) {r : WaitResult} (hpoll : s.poll = .waited r)
    (hok : s.Steady .collect) : (s.collect r).Sound := by
  cases r with
  | error eintr => exact ⟨⟨hs.agree, hs.own, hs.removed⟩, hs.made, hs.responses, hs.numbered⟩
  | items rs =>
    have hresponses : ∀ r ∈ s.responses rs, r.collected = r.mRequest.number ∧
        s.made[r.mRequest.number]? = some r.mRequest.mFd := by
      intro r hr
      obtain ⟨ready, hready, hmap⟩ := List.mem_filterMap.mp hr
      obtain ⟨q, hq, rfl⟩ := Option.map_eq_some_iff.mp hmap
      obtain ⟨hfd, hmade⟩ := hs.made _ _ hq
      exact ⟨(hok rs hpoll ready hready q hq).symm, by rw [hmade, hfd]⟩
    rw [LooperState.collect.eq_def]
    split
    · exact ⟨⟨hs.agree, hs.own, hs.removed⟩, hs.made, hs.responses, hs.numbered⟩
    · exact ⟨⟨hs.agree, hs.own, hs.removed⟩, hs.made, hs.responses, hs.numbered⟩
    · next h =>
      cases h
      exact ⟨⟨hs.agree, hs.own, hs.removed⟩, hs.made, hresponses, hs.numbered⟩

/-- The callback of a response is cleared. -/
theorem Sound.clear (hs : s.Sound) (i : ℕ) : (s.clear i).Sound := by
  refine ⟨⟨hs.agree, hs.own, hs.removed⟩, hs.made, fun r hr => ?_, hs.numbered⟩
  obtain ⟨j, hj⟩ := List.mem_iff_getElem?.mp hr
  change (s.mResponses.modify i _)[j]? = some r at hj
  rw [List.getElem?_modify] at hj
  obtain ⟨r', hr', rfl⟩ := Option.map_eq_some_iff.mp hj
  have := hs.responses r' (List.mem_of_getElem? hr')
  split <;> exact this

/-- A callback returned 0: its own registration goes, or has gone before. -/
theorem Sound.removeAfter (hs : s.Sound) {r : Response} (hr : r ∈ s.mResponses)
    (hok : ∀ q, s.mRequests.lookup r.mRequest.mFd = some q → q.number = r.mRequest.number) :
    (s.removeAfter r).Sound := by
  have hremoved := hs.removeFd r.mRequest.mFd
  obtain ⟨-, hmade⟩ := hs.responses r hr
  -- a registration is found under its own descriptor only, and that one is gone
  have hgone : ∀ fd q, (s.removeFd r.mRequest.mFd).2.mRequests.lookup fd = some q →
      q.number ≠ r.mRequest.number := by
    intro fd q hq hn
    obtain ⟨-, hmade'⟩ := hremoved.made fd q hq
    rw [(removeFd_made s _).1, hn, hmade] at hmade'
    cases hmade'
    rw [lookup_removeFd hs] at hq
    cases hq
  refine ⟨⟨hremoved.agree, hremoved.own, fun p hp => ?_⟩, hremoved.made, hremoved.responses,
    fun p hp => ?_⟩
  · rcases List.mem_append.mp hp with hp | hp
    · rw [← (removeFd_made s r.mRequest.mFd).2] at hp
      exact hremoved.removed p hp
    · rw [List.mem_singleton.mp hp]
      refine ⟨?_, hgone⟩
      change (if (s.removeFd r.mRequest.mFd).1 = 1 then _ else none) = none ∨
        (if (s.removeFd r.mRequest.mFd).1 = 1 then _ else none) = some r.mRequest.number
      by_cases hec : (s.removeFd r.mRequest.mFd).1 = 1
      · rw [if_pos hec]
        cases hq : s.mRequests.lookup r.mRequest.mFd with
        | none => exact .inl rfl
        | some q => exact .inr (congrArg some (hok q hq))
      · exact .inl (if_neg hec)
  · change p.1 < (s.removeFd r.mRequest.mFd).2.made.length
    rw [(removeFd_made s r.mRequest.mFd).1]
    rcases List.mem_append.mp hp with hp | hp
    · exact hs.numbered p hp
    · rw [List.mem_singleton.mp hp]
      exact (List.getElem?_eq_some_iff.mp hmade).1

/-- **One step** within the condition. -/
theorem Sound.step (hs : s.Sound) {a : LooperAction} (hok : s.Steady a) (h : s.step a = some s') :
    s'.Sound := by
  cases a with
  | addFd fd ident events callback data granted =>
    cases h
    exact hs.addFd
  | removeFd fd =>
    cases h
    exact hs.removeFd fd
  | close fd =>
    rw [LooperState.step, Option.ite_none_right_eq_some] at h
    obtain ⟨hfd, h⟩ := h
    cases h
    exact hs.close hfd
  | wait r =>
    rw [LooperState.step, Option.ite_none_right_eq_some] at h
    obtain ⟨-, h⟩ := h
    cases h
    exact ⟨⟨hs.agree, hs.own, hs.removed⟩, hs.made, List.forall_mem_nil _, hs.numbered⟩
  | collect =>
    rw [LooperState.step] at h
    split at h
    · next r hpoll =>
      cases h
      exact hs.collect hpoll hok
    · cases h
  | next =>
    rw [LooperState.step] at h
    split at h
    swap
    · cases h
    split at h
    · cases h
      exact ⟨⟨hs.agree, hs.own, hs.removed⟩, hs.made, hs.responses, hs.numbered⟩
    · next r hr =>
      split at h
      · cases h
        refine ⟨⟨hs.agree, fun r' hr' => ?_, hs.removed⟩, hs.made, hs.responses, hs.numbered⟩
        rcases List.mem_append.mp hr' with hr' | hr'
        · exact hs.own r' hr'
        · rw [List.mem_singleton.mp hr']
          exact (hs.responses r (List.mem_of_getElem? hr)).1
      · cases h
        exact ⟨⟨hs.agree, hs.own, hs.removed⟩, hs.made, hs.responses, hs.numbered⟩
  | ret zero =>
    rw [LooperState.step] at h
    split at h
    swap
    · cases h
    cases zero with
    | true =>
      cases h
      exact ⟨⟨hs.agree, hs.own, hs.removed⟩, hs.made, hs.responses, hs.numbered⟩
    | false =>
      cases h
      exact hs.clear _
  | remove =>
    rw [LooperState.step] at h
    split at h
    swap
    · cases h
    next i hpoll =>
    obtain ⟨r, hr, rfl⟩ := Option.map_eq_some_iff.mp h
    exact (hs.removeAfter (List.mem_of_getElem? hr) (hok i r hpoll hr)).clear i

end

/-- **Registrations and callbacks match**, in every run in which no descriptor gets a new registration
between an event and the copying of the requests, or between that and the removal after its
callback. -/
theorem registered_of_meets (allow : Bool) (as : List LooperAction) (s : LooperState)
    (hok : Trace.Meets step Steady { mAllowNonCallbacks := allow } as)
    (hrun : Trace.run step { mAllowNonCallbacks := allow } as = some s) : s.Matched :=
  (Trace.run_invariant (fun _ _ _ hs hok h => hs.step hok h) (sound_init allow) hok hrun).toMatched

/-- While the callback of descriptor 5 runs, another thread removes and closes it, and the number is
registered again; then the callback returns 0. -/
def reused : List LooperAction :=
  [.addFd 5 0 1 (some 0) 0 true, .wait (.items [⟨5, 1, 0⟩]), .collect, .next, .removeFd 5, .close 5,
    .addFd 5 0 1 (some 1) 0 true, .ret true, .remove]

theorem not_registered_reused :
    ¬ ∀ (as : List LooperAction) (s : LooperState),
      Trace.run step { mAllowNonCallbacks := true } as = some s → s.Matched := by
  intro h
  have hrun : ∃ s, Trace.run step { mAllowNonCallbacks := true } reused = some s ∧
      (0, some 1) ∈ s.removed := ⟨_, rfl, by decide⟩
  obtain ⟨s, hs, hremoved⟩ := hrun
  rcases (h reused s hs).removed _ hremoved with ⟨hnone | hsome, -⟩
  · cases hnone
  · cases hsome

/-- Two descriptors have events; the callback of the first one adds a third one and returns 0, that of
the second one removes its own descriptor and returns 0. -/
def twoEvents : List LooperAction :=
  [.addFd 5 0 1 (some 0) 0 true, .addFd 6 0 1 (some 1) 0 true,
    .wait (.items [⟨5, 1, 0⟩, ⟨6, 17, 1⟩]), .collect, .next, .addFd 7 0 1 (some 2) 0 true, .ret true,
    .remove, .next, .removeFd 6, .close 6, .ret true, .remove, .next]

theorem registered_of_meets_twoEvents :
    ∃ s, Trace.run step { mAllowNonCallbacks := true } twoEvents = some s ∧
      s.removed = [(0, some 0), (1, none)] ∧ s.invoked.length = 2 ∧ s.poll = .outside ∧
      s.Matched := by
  refine ⟨_, rfl, rfl, rfl, rfl, registered_of_meets true twoEvents _ ?_ rfl⟩
  refine .cons trivial rfl (.cons trivial rfl (.cons trivial rfl (.cons ?_ rfl (.cons trivial rfl
    (.cons trivial rfl (.cons trivial rfl (.cons ?_ rfl (.cons trivial rfl (.cons trivial rfl
    (.cons trivial rfl (.cons trivial rfl (.cons ?_ rfl (.cons trivial rfl trivial)))))))))))))
  · rintro rs ⟨⟩ r hr q hq
    fin_cases hr
    · exact Option.some.inj hq ▸ rfl
    · exact Option.some.inj hq ▸ rfl
  · rintro i r ⟨⟩ ⟨⟩ q hq
    exact Option.some.inj hq ▸ rfl
  · rintro i r ⟨⟩ ⟨⟩ q hq
    cases hq

end LooperState

end ElastosCar
