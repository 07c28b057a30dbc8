import ElastosCar.Lib.Trace

/-!
# The thread pool

`ThreadPoolExecutor` of `linux_rpc/threadpoolexecutor.cpp`. `RunTask` makes a `Worker`, starts a
thread with a plain pointer to it and adds it to `mWorkers`; the thread takes a reference of its own
when it first runs, waits for `mLock` of the worker, which `RunTask` holds until the worker is in the
list, runs the task and takes the worker out of the list. `StopTask` takes the first worker of a task
out of the list and sends its thread a signal, whose handler ends the thread.

A thread that has not run yet is not counted. Its worker is kept by `RunTask` and by the list, and
`StopTask` takes it out of the list all the same: the thread then starts with a pointer to a worker
that is gone. `workerLifetime_of_meets` shows that nothing else goes wrong.
-/

namespace ElastosCar

/-- Where `RunTask` is with a worker. -/
inductive RunState
  /-- The thread has been created, and `mLock` is held. -/
  | locked
  /-- The worker is in the list, and `mLock` is held. -/
  | added
  | unlocked
  /-- `NOERROR` was returned. -/
  | returned
  /-- `pthread_create` failed. -/
  | failed
deriving DecidableEq, Repr

/-- Where the thread of a worker is. -/
inductive ThreadState
  /-- There is none. -/
  | absent
  /-- It has been created and has not run. -/
  | unstarted
  /-- It has its own reference. -/
  | started
  /-- It has had `mLock`. -/
  | passed
  | running
  /-- `Run` has returned. -/
  | ran
  /-- It is done with `mWorkers`. -/
  | left
  | finished
  /-- It was ended by the signal, and its reference is not given back. -/
  | killed
deriving DecidableEq, Repr

/-- A `Worker`; the task is its number. -/
structure Worker where
  mTask : ℕ
  mRef : ℤ := 1
  freed : Bool := false
  /-- Whether `mThread` is set. -/
  mThread : Bool := false
  call : RunState := .locked
  thread : ThreadState := .unstarted
  signalled : Bool := false
  /-- How often the task has been run. -/
  runs : ℕ := 0
deriving DecidableEq, Repr

namespace Worker

def addRef (w : Worker) : Worker := { w with mRef := w.mRef + 1 }

/-- `Release` deletes the worker when the count falls to zero. -/
def release (w : Worker) : Worker :=
  { w with mRef := w.mRef - 1, freed := w.freed || decide (w.mRef - 1 = 0) }

end Worker

/-- The executor. -/
structure PoolState where
  /-- The workers made so far. -/
  worker : ℕ → Option Worker := fun _ => none
  mWorkers : List ℕ := []
  /-- Whether a worker was used after it was deleted. -/
  usedLate : Bool := false

/-- The steps of `RunTask`, of the threads and of `StopTask`; a section under a lock is one step. -/
inductive PoolAction
  /-- `RunTask` makes the worker `k` and calls `pthread_create`. -/
  | create (k task : ℕ) (created : Bool)
  /-- It sets `mThread` and adds the worker to the list. -/
  | add (k : ℕ)
  | unlock (k : ℕ)
  /-- It returns, and gives its reference back. -/
  | ret (k : ℕ)
  /-- The thread takes its reference. -/
  | start (k : ℕ)
  | pass (k : ℕ)
  | run (k : ℕ)
  /-- `Run` returns. -/
  | done (k : ℕ)
  /-- The thread takes the worker out of the list. -/
  | leave (k : ℕ)
  | exit (k : ℕ)
  | stop (task : ℕ)
  /-- The signal arrives; `pthread_exit` unwinds the stack of the thread or does not. -/
  | deliver (k : ℕ) (unwinds : Bool)
deriving DecidableEq, Repr

/-- The thread holds a reference that it will give back, or would have. -/
def ThreadState.holds : ThreadState → Bool
  | .started | .passed | .running | .ran | .left | .killed => true
  | _ => false

/-- The thread does nothing more. -/
def ThreadState.isOver : ThreadState → Bool
  | .absent | .finished | .killed => true
  | _ => false

namespace PoolState

def taskOf (s : PoolState) (k : ℕ) : Option ℕ := (s.worker k).map (·.mTask)

def isFreed (s : PoolState) (k : ℕ) : Bool := (s.worker k).elim false (·.freed)

/-- The workers `ks` are used. -/
def touch (ks : List ℕ) (s : PoolState) : PoolState :=
  { s with usedLate := s.usedLate || ks.any s.isFreed }

def set (k : ℕ) (w : Worker) (s : PoolState) : PoolState :=
  { s with worker := Function.update s.worker k (some w) }

/-- The worker `k`, if it is in a state that the step is possible in, is used and changed. -/
def change (s : PoolState) (k : ℕ) (possible : Worker → Bool) (f : Worker → Worker) :
    Option PoolState :=
  match s.worker k with
  | some w => if possible w then some ((s.touch [k]).set k (f w)) else none
  | none => none

/-- The removal of a worker from the list gives the reference of the list back. -/
def unlist (k : ℕ) (s : PoolState) : PoolState :=
  if k ∈ s.mWorkers then
    { s with
      mWorkers := s.mWorkers.erase k
      worker := Function.update s.worker k ((s.worker k).map Worker.release) }
  else s

/-- `pthread_kill` of the thread of the worker. -/
def signal (k : ℕ) (s : PoolState) : PoolState :=
  { s with
    worker := Function.update s.worker k
      ((s.worker k).map fun w => { w with signalled := w.signalled || w.mThread }) }

/-- `StopTask`, in the section under `mMainLock`. -/
def stopTask (t : ℕ) (s : PoolState) : PoolState :=
  match s.mWorkers.find? fun k => s.taskOf k = some t with
  | none => s.touch s.mWorkers
  | some k =>
    ((s.touch (k :: s.mWorkers.takeWhile fun k => s.taskOf k ≠ some t)).signal k).unlist k

/-- One step. -/
def step (s : PoolState) : PoolAction → Option PoolState
  | .create k t created =>
    if s.worker k = none then
      some (s.set k (if created then { mTask := t }
        else { mTask := t, thread := .absent, call := .failed, mRef := 0, freed := true }))
    else none
  | .add k =>
    (s.change k (·.call = .locked) fun w => { w.addRef with mThread := true, call := .added }).map
      fun s => { s with mWorkers := s.mWorkers ++ [k] }
  | .unlock k => s.change k (·.call = .added) fun w => { w with call := .unlocked }
  | .ret k => s.change k (·.call = .unlocked) fun w => { w.release with call := .returned }
  | .start k => s.change k (·.thread = .unstarted) fun w => { w.addRef with thread := .started }
  | .pass k =>
    s.change k (fun w => w.thread = .started ∧ (w.call = .unlocked ∨ w.call = .returned))
      fun w => { w with thread := .passed }
  | .run k =>
    s.change k (·.thread = .passed) fun w => { w with thread := .running, runs := w.runs + 1 }
  | .done k => s.change k (·.thread = .running) fun w => { w with thread := .ran }
  | .leave k =>
    (s.change k (·.thread = .ran) fun w => { w with thread := .left }).map (unlist k)
  | .exit k => s.change k (·.thread = .left) fun w => { w.release with thread := .finished }
  | .stop t => some (s.stopTask t)
  | .deliver k unwinds =>
    match s.worker k with
    | some w =>
      if w.signalled ∧ w.thread.isOver = false then
        if w.thread.holds = false then some (s.set k { w with thread := .finished })
        else if unwinds then some ((s.touch [k]).set k { w.release with thread := .finished })
        else some (s.set k { w with thread := .killed })
      else none
    | none => none

/-- Workers are used only while they exist. A task whose `RunTask` has returned `NOERROR` is run at most
once, and its thread is not over before the task was run or was stopped before it started; a thread
that is not over can go on. `StopTask` takes at most one worker out of the list, one of its task.
When all threads are over, the list is empty. -/
structure Lifetime (s : PoolState) : Prop where
  notLate : s.usedLate = false
  once : ∀ k w, s.worker k = some w → w.call = .returned →
    w.runs ≤ 1 ∧ (w.thread.isOver = true → w.runs = 1 ∨ w.runs = 0 ∧ w.signalled = true)
  goesOn : ∀ k w, s.worker k = some w → w.call = .returned → w.thread.isOver = false →
    ∃ a ∈ [PoolAction.start k, .pass k, .run k, .done k, .leave k, .exit k], (s.step a).isSome
  stops : ∀ t s', s.step (.stop t) = some s' → s'.mWorkers = s.mWorkers ∨
    ∃ k, s.taskOf k = some t ∧ s'.mWorkers = s.mWorkers.erase k
  empty : (∀ k w, s.worker k = some w → w.thread.isOver = true) → s.mWorkers = []

/-- The worker that `StopTask` finds has a thread that has run. -/
def Started (s : PoolState) : PoolAction → Prop
  | .stop t => ∀ k w, (s.mWorkers.find? fun k => s.taskOf k = some t) = some k →
    s.worker k = some w → w.thread ≠ .unstarted
  | _ => True

end PoolState

/-! ### One worker -/

/-- The references that `RunTask` holds. -/
def RunState.refs : RunState → ℤ
  | .locked | .added | .unlocked => 1
  | .returned | .failed => 0

/-- The invariant of a worker that is in the list or is not: every reference is counted, and a thread
that has not run is waited for by `RunTask` or is in the list. -/
structure Worker.Valid (inList : Bool) (w : Worker) : Prop where
  count : w.mRef = w.call.refs + (if inList then 1 else 0) + (if w.thread.holds then 1 else 0)
  freed : w.freed = true → w.mRef = 0
  failed : w.call = .failed ↔ w.thread = .absent
  named : w.call ≠ .locked → w.call ≠ .failed → w.mThread = true
  listed : inList = true → w.call ≠ .locked ∧ w.call ≠ .failed ∧ w.signalled = false ∧
    w.thread ≠ .left ∧ w.thread.isOver = false
  early : w.call = .locked → w.signalled = false ∧ (w.thread = .unstarted ∨ w.thread = .started)
  unstarted : w.thread = .unstarted → w.call = .locked ∨ inList = true
  passed : w.thread = .passed ∨ w.thread = .running ∨ w.thread = .ran ∨ w.thread = .left →
    w.call = .unlocked ∨ w.call = .returned
  runs : w.runs = 0 ∧ (w.thread.isOver = true → w.call ≠ .failed → w.signalled = true) ∧
      w.thread ≠ .running ∧ w.thread ≠ .ran ∧ w.thread ≠ .left ∨
    w.runs = 1 ∧ w.thread ≠ .unstarted ∧ w.thread ≠ .started ∧ w.thread ≠ .passed

theorem RunState.refs_nonneg (c : RunState) : 0 ≤ c.refs := by cases c <;> decide

theorem ThreadState.eq_unstarted {t : ThreadState} (hholds : t.holds = false)
    (hover : t.isOver = false) : t = .unstarted := by
  cases t <;> simp_all [holds, isOver]

namespace Worker.Valid

variable {w : Worker} {inList : Bool}

/-- A worker that somebody holds has not been deleted. -/
theorem not_freed (h : w.Valid inList)
    (hheld : w.call.refs = 1 ∨ inList = true ∨ w.thread.holds = true) : w.freed = false := by
  by_contra hfreed
  have hcount := h.count
  rw [h.freed (by simpa using hfreed)] at hcount
  have := w.call.refs_nonneg
  grind

theorem create (t : ℕ) : Valid false { mTask := t } := by
  constructor <;> simp [RunState.refs, ThreadState.holds, ThreadState.isOver]

theorem fail (t : ℕ) :
    Valid false { mTask := t, thread := .absent, call := .failed, mRef := 0, freed := true } := by
  constructor <;> simp [RunState.refs, ThreadState.holds]

theorem add (h : w.Valid false) (hc : w.call = .locked) :
    Valid true { w.addRef with mThread := true, call := .added } := by
  have hrefs := w.call.refs_nonneg
  obtain ⟨h1, h2, h3, h4, h5, h6, h7, h8, h9⟩ := h
  constructor <;> dsimp only [addRef] <;> grind [RunState.refs, ThreadState.isOver]

theorem unlock (h : w.Valid inList) (hc : w.call = .added) :
    Valid inList { w with call := .unlocked } := by
  obtain ⟨h1, h2, h3, h4, h5, h6, h7, h8, h9⟩ := h
  constructor <;> grind [RunState.refs]

theorem ret (h : w.Valid inList) (hc : w.call = .unlocked) :
    Valid inList { w.release with call := .returned } := by
  have hrefs := w.call.refs_nonneg
  obtain ⟨h1, h2, h3, h4, h5, h6, h7, h8, h9⟩ := h
  constructor <;> dsimp only [release] <;> grind [RunState.refs]

theorem start (h : w.Valid inList) (ht : w.thread = .unstarted) :
    Valid inList { w.addRef with thread := .started } := by
  have hrefs := w.call.refs_nonneg
  obtain ⟨h1, h2, h3, h4, h5, h6, h7, h8, h9⟩ := h
  constructor <;> dsimp only [addRef] <;> grind [RunState.refs, ThreadState.holds, ThreadState.isOver]

theorem pass (h : w.Valid inList) (ht : w.thread = .started)
    (hc : w.call = .unlocked ∨ w.call = .returned) :
    Valid inList { w with thread := .passed } := by
  obtain ⟨h1, h2, h3, h4, h5, h6, h7, h8, h9⟩ := h
  constructor <;> grind [ThreadState.holds, ThreadState.isOver]

theorem run (h : w.Valid inList) (ht : w.thread = .passed) :
    Valid inList { w with thread := .running, runs := w.runs + 1 } := by
  obtain ⟨h1, h2, h3, h4, h5, h6, h7, h8, h9⟩ := h
  constructor <;> grind [ThreadState.holds, ThreadState.isOver]

theorem done (h : w.Valid inList) (ht : w.thread = .running) :
    Valid inList { w with thread := .ran } := by
  obtain ⟨h1, h2, h3, h4, h5, h6, h7, h8, h9⟩ := h
  constructor <;> grind [ThreadState.holds, ThreadState.isOver]

/-- The list gives its reference back. -/
theorem unlist (h : w.Valid true) (ht : w.thread ≠ .unstarted) : Valid false w.release := by
  have hrefs := w.call.refs_nonneg
  obtain ⟨h1, h2, h3, h4, h5, h6, h7, h8, h9⟩ := h
  constructor <;> dsimp only [release] <;> grind

/-- The thread takes the worker out of the list, if it is still there. -/
theorem leave (h : w.Valid inList) (ht : w.thread = .ran) :
    Valid false (if inList then { w with thread := .left }.release else { w with thread := .left }) := by
  have hrefs := w.call.refs_nonneg
  obtain ⟨h1, h2, h3, h4, h5, h6, h7, h8, h9⟩ := h
  cases inList with
  | false => constructor <;> grind [ThreadState.holds, ThreadState.isOver]
  | true => constructor <;> dsimp only [release] <;> grind [ThreadState.holds, ThreadState.isOver]

theorem exit (h : w.Valid inList) (ht : w.thread = .left) :
    Valid inList { w.release with thread := .finished } := by
  have hrefs := w.call.refs_nonneg
  obtain ⟨h1, h2, h3, h4, h5, h6, h7, h8, h9⟩ := h
  constructor <;> dsimp only [release] <;> grind [ThreadState.holds, ThreadState.isOver]

theorem signal (h : w.Valid true) (ht : w.thread ≠ .unstarted) :
    Valid false { w with signalled := w.signalled || w.mThread }.release := by
  have hrefs := w.call.refs_nonneg
  obtain ⟨h1, h2, h3, h4, h5, h6, h7, h8, h9⟩ := h
  constructor <;> dsimp only [release] <;> grind

theorem kill (h : w.Valid inList) (hs : w.signalled = true) (hholds : w.thread.holds = true) : Valid inList { w with thread := .killed } := by
  obtain ⟨h1, h2, h3, h4, h5, h6, h7, h8, h9⟩ := h
  constructor <;> grind [ThreadState.holds, ThreadState.isOver]

theorem unwind (h : w.Valid inList) (hs : w.signalled = true) (hholds : w.thread.holds = true) : Valid inList { w.release with thread := .finished } := by
  have hrefs := w.call.refs_nonneg
  obtain ⟨h1, h2, h3, h4, h5, h6, h7, h8, h9⟩ := h
  constructor <;> dsimp only [release] <;> grind [ThreadState.holds, ThreadState.isOver]

end Worker.Valid

/-! ### The executor -/

namespace PoolState

/-- The invariant. -/
structure Sound (s : PoolState) : Prop where
  valid : ∀ k w, s.worker k = some w → w.Valid (decide (k ∈ s.mWorkers))
  known : ∀ k ∈ s.mWorkers, (s.worker k).isSome
  nodup : s.mWorkers.Nodup
  notLate : s.usedLate = false

theorem sound_init : Sound {} := ⟨nofun, List.forall_mem_nil _, List.nodup_nil, rfl⟩

section

variable {s s' : PoolState}

theorem Sound.isFreed_of_mem (hs : s.Sound) {k : ℕ} (hk : k ∈ s.mWorkers) : s.isFreed k = false := by
  obtain ⟨w, hw⟩ := Option.isSome_iff_exists.mp (hs.known k hk)
  rw [isFreed, hw]
  exact (hs.valid k w hw).not_freed (.inr (.inl (decide_eq_true hk)))

/-- A worker and its place in the list change, and it was there if it was used. -/
theorem Sound.replace (hs : s.Sound) {k : ℕ} {w' : Worker}
    (hworker : s'.worker = Function.update s.worker k (some w'))
    (hmem : ∀ j ≠ k, j ∈ s'.mWorkers ↔ j ∈ s.mWorkers) (hnodup : s'.mWorkers.Nodup)
    (hvalid : w'.Valid (decide (k ∈ s'.mWorkers))) (hlate : s'.usedLate = false) : s'.Sound where
  valid j w hw := by
    rw [hworker] at hw
    rcases eq_or_ne j k with rfl | hj
    · rw [Function.update_self] at hw
      cases hw
      exact hvalid
    · rw [Function.update_of_ne hj] at hw
      rw [decide_eq_decide.mpr (hmem j hj)]
      exact hs.valid j w hw
  known j hj := by
    rw [hworker]
    rcases eq_or_ne j k with rfl | hne
    · rw [Function.update_self]
      rfl
    · rw [Function.update_of_ne hne]
      exact hs.known j ((hmem j hne).mp hj)
  nodup := hnodup
  notLate := hlate

theorem change_eq_some {k : ℕ} {possible : Worker → Bool} {f : Worker → Worker}
    (h : s.change k possible f = some s') :
    ∃ w, s.worker k = some w ∧ possible w = true ∧ s' = (s.touch [k]).set k (f w) := by
  rw [change] at h
  cases hw : s.worker k with
  | none =>
    rw [hw] at h
    cases h
  | some w =>
    rw [hw, Option.ite_none_right_eq_some] at h
    exact ⟨w, rfl, h.1, (Option.some.inj h.2).symm⟩

theorem usedLate_touch (hs : s.usedLate = false) {ks : List ℕ} (hks : ∀ k ∈ ks, s.isFreed k = false) :
    (s.touch ks).usedLate = false := by
  rw [touch, hs, Bool.false_or, List.any_eq_false]
  exact fun k hk => by rw [hks k hk]; decide

/-- A step that uses one worker and leaves the list as it is. -/
theorem Sound.change (hs : s.Sound) {k : ℕ} {possible : Worker → Bool} {f : Worker → Worker}
    (hf : ∀ w inList, w.Valid inList → possible w = true →
      (f w).Valid inList ∧ w.freed = false)
    (h : s.change k possible f = some s') : s'.Sound := by
  obtain ⟨w, hw, hpossible, rfl⟩ := change_eq_some h
  obtain ⟨hvalid, hfreed⟩ := hf w _ (hs.valid k w hw) hpossible
  refine hs.replace rfl (fun j _ => Iff.rfl) hs.nodup hvalid (usedLate_touch hs.notLate ?_)
  rw [List.forall_mem_singleton, isFreed, hw]
  exact hfreed

theorem Sound.create (hs : s.Sound) {k t : ℕ} {created : Bool}
    (h : s.step (.create k t created) = some s') : s'.Sound := by
  rw [step, Option.ite_none_right_eq_some] at h
  obtain ⟨hnone, h⟩ := h
  cases h
  have hnew : k ∉ s.mWorkers := fun hk => by
    have := hs.known k hk
    rw [hnone] at this
    cases this
  refine hs.replace rfl (fun j _ => Iff.rfl) hs.nodup ?_ hs.notLate
  change Worker.Valid (decide (k ∈ s.mWorkers)) _
  rw [decide_eq_false hnew]
  cases created with
  | false => exact .fail t
  | true => exact .create t

theorem Sound.add (hs : s.Sound) {k : ℕ} (h : s.step (.add k) = some s') : s'.Sound := by
  obtain ⟨_, hchange, rfl⟩ := Option.map_eq_some_iff.mp h
  obtain ⟨w, hw, hc, rfl⟩ := change_eq_some hchange
  have hvalid := hs.valid k w hw
  have hnew : k ∉ s.mWorkers := fun hk =>
    (hvalid.listed (decide_eq_true hk)).1 (of_decide_eq_true hc)
  rw [decide_eq_false hnew] at hvalid
  refine hs.replace rfl (fun j hj => ?_) ?_ ?_ (usedLate_touch hs.notLate ?_)
  · simp [touch, set, hj]
  · have := hs.nodup.concat hnew
    rwa [List.concat_eq_append] at this
  · have hmem : k ∈ s.mWorkers ++ [k] := by simp
    change Worker.Valid (decide (k ∈ s.mWorkers ++ [k])) _
    rw [decide_eq_true hmem]
    exact hvalid.add (of_decide_eq_true hc)
  · rw [List.forall_mem_singleton, isFreed, hw]
    exact hvalid.not_freed (.inl (by rw [of_decide_eq_true hc]; rfl))

/-- A worker changes and is taken out of the list. -/
theorem Sound.unlist (hs : s.Sound) {k : ℕ} {w : Worker}
    (hworker : s'.worker = Function.update s.worker k (some w)) (hlist : s'.mWorkers = s.mWorkers)
    (hlate : s'.usedLate = false)
    (hvalid : Worker.Valid false (if k ∈ s.mWorkers then w.release else w)) :
    (s'.unlist k).Sound := by
  rw [PoolState.unlist, hlist]
  split
  · next hk =>
    rw [if_pos hk] at hvalid
    have hnot : k ∉ s.mWorkers.erase k := hs.nodup.not_mem_erase
    have hrelease : Function.update s'.worker k ((s'.worker k).map Worker.release)
        = Function.update s.worker k (some w.release) := by
      rw [hworker, Function.update_self, Function.update_idem]
      rfl
    refine hs.replace (k := k) hrelease (fun j hj => List.mem_erase_of_ne hj) (hs.nodup.erase k) ?_ hlate
    change Worker.Valid (decide (k ∈ s.mWorkers.erase k)) _
    rwa [decide_eq_false hnot]
  · next hk =>
    rw [if_neg hk] at hvalid
    refine hs.replace hworker (fun j _ => by rw [hlist]) (hlist ▸ hs.nodup) ?_ hlate
    rwa [hlist, decide_eq_false hk]

theorem Sound.leave (hs : s.Sound) {k : ℕ} (h : s.step (.leave k) = some s') : s'.Sound := by
  obtain ⟨_, hchange, rfl⟩ := Option.map_eq_some_iff.mp h
  obtain ⟨w, hw, ht, rfl⟩ := change_eq_some hchange
  have ht := of_decide_eq_true ht
  have hvalid := hs.valid k w hw
  refine hs.unlist rfl rfl (usedLate_touch hs.notLate ?_) ?_
  · rw [List.forall_mem_singleton, isFreed, hw]
    exact hvalid.not_freed (.inr (.inr (by rw [ht]; rfl)))
  · simpa using hvalid.leave ht

/-- What `StopTask` finds is in the list and has the task. -/
theorem mem_of_find? {t k : ℕ} (h : (s.mWorkers.find? fun k => s.taskOf k = some t) = some k) :
    k ∈ s.mWorkers ∧ s.taskOf k = some t :=
  ⟨List.mem_of_find?_eq_some h, by simpa using List.find?_some h⟩

theorem Sound.stop (hs : s.Sound) {t : ℕ} (hok : s.Started (.stop t)) : (s.stopTask t).Sound := by
  rw [stopTask]
  cases hfind : s.mWorkers.find? fun k => s.taskOf k = some t with
  | none =>
    exact ⟨hs.valid, hs.known, hs.nodup, usedLate_touch hs.notLate fun k hk => hs.isFreed_of_mem hk⟩
  | some k =>
    obtain ⟨hk, -⟩ := mem_of_find? hfind
    obtain ⟨w, hw⟩ := Option.isSome_iff_exists.mp (hs.known k hk)
    have hvalid := hs.valid k w hw
    rw [decide_eq_true hk] at hvalid
    have hworker : (((s.touch (k :: s.mWorkers.takeWhile fun k => s.taskOf k ≠ some t)).signal k)).worker
        = Function.update s.worker k (some { w with signalled := w.signalled || w.mThread }) := by
      change Function.update s.worker k ((s.worker k).map _) = _
      rw [hw]
      rfl
    refine hs.unlist hworker rfl (usedLate_touch hs.notLate ?_) ?_
    · refine List.forall_mem_cons.mpr ⟨hs.isFreed_of_mem hk, fun j hj => ?_⟩
      exact hs.isFreed_of_mem ((List.takeWhile_sublist _).subset hj)
    · rw [if_pos hk]
      exact hvalid.signal (hok k w hfind hw)

theorem Sound.deliver (hs : s.Sound) {k : ℕ} {unwinds : Bool}
    (h : s.step (.deliver k unwinds) = some s') : s'.Sound := by
  rw [PoolState.step] at h
  cases hw : s.worker k with
  | none =>
    rw [hw] at h
    cases h
  | some w =>
    rw [hw, Option.ite_none_right_eq_some] at h
    obtain ⟨⟨hsignalled, hover⟩, h⟩ := h
    have hvalid := hs.valid k w hw
    split at h
    · next hholds =>
      -- a thread that has been signalled has run, and then it holds a reference
      rcases hvalid.unstarted (ThreadState.eq_unstarted hholds hover) with hc | hk
      · rw [(hvalid.early hc).1] at hsignalled
        cases hsignalled
      · rw [(hvalid.listed hk).2.2.1] at hsignalled
        cases hsignalled
    · next hholds =>
      rw [Bool.not_eq_false] at hholds
      cases unwinds with
      | true =>
        cases h
        refine hs.replace rfl (fun j _ => Iff.rfl) hs.nodup (hvalid.unwind hsignalled hholds)
          (usedLate_touch hs.notLate ?_)
        rw [List.forall_mem_singleton, isFreed, hw]
        exact hvalid.not_freed (.inr (.inr hholds))
      | false =>
        cases h
        exact hs.replace rfl (fun j _ => Iff.rfl) hs.nodup (hvalid.kill hsignalled hholds)
          hs.notLate

/-- **One step** within the condition. -/
theorem Sound.step (hs : s.Sound) {a : PoolAction} (hok : s.Started a) (h : s.step a = some s') :
    s'.Sound := by
  cases a with
  | create k t created => exact hs.create h
  | add k => exact hs.add h
  | unlock k =>
    refine hs.change (fun w inList hw hc => ?_) h
    have hc := of_decide_eq_true hc
    exact ⟨hw.unlock hc, hw.not_freed (.inl (by rw [hc]; rfl))⟩
  | ret k =>
    refine hs.change (fun w inList hw hc => ?_) h
    have hc := of_decide_eq_true hc
    exact ⟨hw.ret hc, hw.not_freed (.inl (by rw [hc]; rfl))⟩
  | start k =>
    refine hs.change (fun w inList hw ht => ?_) h
    have ht := of_decide_eq_true ht
    exact ⟨hw.start ht, hw.not_freed ((hw.unstarted ht).imp (fun hc => by rw [hc]; rfl) .inl)⟩
  | pass k =>
    refine hs.change (fun w inList hw ht => ?_) h
    obtain ⟨ht, hc⟩ := of_decide_eq_true ht
    exact ⟨hw.pass ht hc, hw.not_freed (.inr (.inr (by rw [ht]; rfl)))⟩
  | run k =>
    refine hs.change (fun w inList hw ht => ?_) h
    have ht := of_decide_eq_true ht
    exact ⟨hw.run ht, hw.not_freed (.inr (.inr (by rw [ht]; rfl)))⟩
  | done k =>
    refine hs.change (fun w inList hw ht => ?_) h
    have ht := of_decide_eq_true ht
    exact ⟨hw.done ht, hw.not_freed (.inr (.inr (by rw [ht]; rfl)))⟩
  | leave k => exact hs.leave h
  | exit k =>
    refine hs.change (fun w inList hw ht => ?_) h
    have ht := of_decide_eq_true ht
    exact ⟨hw.exit ht, hw.not_freed (.inr (.inr (by rw [ht]; rfl)))⟩
  | stop t =>
    cases h
    exact hs.stop hok
  | deliver k unwinds => exact hs.deliver h

/-- Each state of a thread but the last ones is left by one step. -/
theorem goesOn_of_returned {k : ℕ} {w : Worker} (hw : s.worker k = some w) (hc : w.call = .returned)
    (ht : w.thread.isOver = false) :
    ∃ a ∈ [PoolAction.start k, .pass k, .run k, .done k, .leave k, .exit k], (s.step a).isSome := by
  have hchange {possible : Worker → Bool} {f : Worker → Worker} (h : possible w = true) :
      (s.change k possible f).isSome := by
    rw [PoolState.change, hw]
    simp [h]
  cases hthread : w.thread with
  | unstarted => exact ⟨.start k, by simp, hchange (decide_eq_true hthread)⟩
  | started => exact ⟨.pass k, by simp, hchange (decide_eq_true ⟨hthread, .inr hc⟩)⟩
  | passed => exact ⟨.run k, by simp, hchange (decide_eq_true hthread)⟩
  | running => exact ⟨.done k, by simp, hchange (decide_eq_true hthread)⟩
  | ran =>
    refine ⟨.leave k, by simp, ?_⟩
    rw [PoolState.step, Option.isSome_map]
    exact hchange (decide_eq_true hthread)
  | left => exact ⟨.exit k, by simp, hchange (decide_eq_true hthread)⟩
  | absent | finished | killed =>
    rw [hthread] at ht
    cases ht

theorem mWorkers_stopTask (s : PoolState) (t : ℕ) : (s.stopTask t).mWorkers = s.mWorkers ∨
    ∃ k, s.taskOf k = some t ∧ (s.stopTask t).mWorkers = s.mWorkers.erase k := by
  rw [stopTask]
  cases hfind : s.mWorkers.find? fun k => s.taskOf k = some t with
  | none => exact .inl rfl
  | some k =>
    obtain ⟨hk, htask⟩ := mem_of_find? hfind
    refine .inr ⟨k, htask, ?_⟩
    have hmem : k ∈ ((s.touch (k :: s.mWorkers.takeWhile fun k => s.taskOf k ≠ some t)).signal
      k).mWorkers := hk
    dsimp only
    rw [PoolState.unlist, if_pos hmem]
    rfl

theorem Sound.lifetime (hs : s.Sound) : s.Lifetime where
  notLate := hs.notLate
  once k w hw hc := by
    have hruns := (hs.valid k w hw).runs
    have hcall : w.call ≠ .failed := by rw [hc]; decide
    rcases hruns with ⟨hruns, hover, -⟩ | ⟨hruns, -⟩
    · exact ⟨by omega, fun h => .inr ⟨hruns, hover h hcall⟩⟩
    · exact ⟨hruns.le, fun _ => .inl hruns⟩
  goesOn k w := goesOn_of_returned
  stops t s' h := by
    cases h
    exact mWorkers_stopTask s t
  empty hover := by
    refine List.eq_nil_iff_forall_not_mem.mpr fun k hk => ?_
    obtain ⟨w, hw⟩ := Option.isSome_iff_exists.mp (hs.known k hk)
    have hlisted := (hs.valid k w hw).listed (decide_eq_true hk)
    rw [hover k w hw] at hlisted
    cases hlisted.2.2.2.2

end

/-- **The life of a worker.** In every run in which `StopTask` finds no worker whose thread has not run
yet, workers are used only while they exist, tasks are run once, and the list is emptied. -/
theorem workerLifetime_of_meets (as : List PoolAction) (s : PoolState)
    (hok : Trace.Meets step Started {} as) (hrun : Trace.run step {} as = some s) : s.Lifetime :=
  (Trace.run_invariant (fun _ _ _ hs hok h => hs.step hok h) sound_init hok hrun).lifetime

/-- A task is stopped when `RunTask` has returned and its thread has not run. -/
def stoppedEarly : List PoolAction :=
  [.create 0 0 true, .add 0, .unlock 0, .ret 0, .stop 0, .start 0]

theorem not_workerLifetime_stoppedEarly :
    ¬ ∀ (as : List PoolAction) (s : PoolState),
      Trace.run step {} as = some s → s.Lifetime := by
  intro h
  have hrun : ∃ s, Trace.run step {} stoppedEarly = some s ∧ s.usedLate = true := ⟨_, rfl, rfl⟩
  obtain ⟨s, hs, hlate⟩ := hrun
  have hnot := (h stoppedEarly s hs).notLate
  rw [hlate] at hnot
  cases hnot

/-- One task runs to its end, one is stopped while it runs, and one thread cannot be created. -/
def threeTasks : List PoolAction :=
  [.create 0 0 true, .start 0, .add 0, .create 1 1 true, .unlock 0, .add 1, .pass 0, .unlock 1, .ret 1,
    .create 2 2 false, .start 1, .run 0, .pass 1, .run 1, .done 0, .stop 1, .deliver 1 true, .leave 0,
    .exit 0, .ret 0]

theorem workerLifetime_of_meets_threeTasks :
    ∃ s, Trace.run step {} threeTasks = some s ∧ s.mWorkers = [] ∧ s.isFreed 0 = true ∧
      s.isFreed 1 = true ∧ s.Lifetime := by
  refine ⟨_, rfl, rfl, rfl, rfl, workerLifetime_of_meets threeTasks _ ?_ rfl⟩
  refine .cons trivial rfl (.cons trivial rfl (.cons trivial rfl (.cons trivial rfl
    (.cons trivial rfl (.cons trivial rfl (.cons trivial rfl (.cons trivial rfl (.cons trivial rfl
    (.cons trivial rfl (.cons trivial rfl (.cons trivial rfl (.cons trivial rfl (.cons trivial rfl
    (.cons trivial rfl (.cons ?_ rfl (.cons trivial rfl (.cons trivial rfl (.cons trivial rfl
    (.cons trivial rfl trivial)))))))))))))))))))
  rintro k w ⟨⟩ ⟨⟩
  decide

end PoolState

end ElastosCar
