import ElastosCar.Lib.Run

/-!
# Non-recursive mutexes

What one thread does with mutexes that it must not lock twice. A state records which of them the
thread holds; to lock one of these ends the computation with a deadlock. `withLock` is a scope that
locks a mutex and unlocks it on every way out.

`Keeps` says that a computation leaves the mutexes as they were. It composes, and a scope has it if
its body has, so that a thread which comes to an end has released what it took.
-/

namespace ElastosCar

/-- A state, and the mutexes that the thread holds. -/
structure Locked (μ σ : Type) where
  held : μ → Bool
  val : σ

/-- Why a thread does not come to its end. -/
inductive Stuck (μ ε : Type)
  /-- It holds the mutex that it locks. -/
  | deadlock (m : μ)
  | fault (e : ε)
deriving DecidableEq, Repr

namespace Locked

variable {μ σ ε α β : Type}

/-- A thread that may deadlock. -/
abbrev Thread (μ σ ε α : Type) := Run (Locked μ σ) (Stuck μ ε) α

/-- A step that takes no mutex. -/
def lift (x : Run σ ε α) : Thread μ σ ε α := fun s =>
  match x s.val with
  | .ok (a, v) => .ok (a, ⟨s.held, v⟩)
  | .error e => .error (.fault e)

section

variable [DecidableEq μ]

def lock (m : μ) : Thread μ σ ε Unit := fun s =>
  if s.held m then .error (.deadlock m) else .ok ((), ⟨Function.update s.held m true, s.val⟩)

def unlock (m : μ) : Thread μ σ ε Unit := fun s =>
  .ok ((), ⟨Function.update s.held m false, s.val⟩)

/-- The mutex is locked, and unlocked at the end of the scope. -/
def withLock (m : μ) (x : Thread μ σ ε α) : Thread μ σ ε α := do
  lock m
  let a ← x
  unlock m
  pure a

end

/-- The mutexes are left as they were. -/
def Keeps (x : Thread μ σ ε α) : Prop := x.Respects fun s s' => s'.held = s.held

theorem lift_ok {x : Run σ ε α} {s : Locked μ σ} {a : α} {v : σ} (h : x s.val = .ok (a, v)) :
    (lift x : Thread μ σ ε α) s = .ok (a, ⟨s.held, v⟩) := by
  rw [lift, h]

theorem lift_error {x : Run σ ε α} {s : Locked μ σ} {e : ε} (h : x s.val = .error e) :
    (lift x : Thread μ σ ε α) s = .error (.fault e) := by
  rw [lift, h]

namespace Keeps

theorem pure (a : α) : Keeps (Pure.pure a : Thread μ σ ε α) := by
  intro s b s' h
  cases h
  rfl

theorem bind {x : Thread μ σ ε α} {f : α → Thread μ σ ε β} (hx : Keeps x) (hf : ∀ a, Keeps (f a)) :
    Keeps (x >>= f) := Run.Respects.bind (fun _ _ _ h h' => h'.trans h) hx hf

theorem lift (x : Run σ ε α) : Keeps (lift x : Thread μ σ ε α) := by
  intro s a s' h
  rw [Locked.lift] at h
  split at h
  · cases h
    rfl
  · cases h

end Keeps

section

variable [DecidableEq μ] {m : μ} {x : Thread μ σ ε α} {s : Locked μ σ}

/-- A mutex that is held is not locked again. -/
theorem withLock_held (h : s.held m = true) : withLock m x s = .error (.deadlock m) := by
  have hlock : (lock m : Thread μ σ ε Unit) s = .error (.deadlock m) := if_pos h
  exact Run.bind_error hlock

theorem lock_ok (h : s.held m = false) : (lock m : Thread μ σ ε Unit) s
    = .ok ((), ⟨Function.update s.held m true, s.val⟩) := if_neg (by rw [h]; decide)

/-- A scope ends if its body does. -/
theorem ends_withLock_iff (h : s.held m = false) :
    (withLock m x).Ends s ↔ x.Ends ⟨Function.update s.held m true, s.val⟩ := by
  rw [withLock, Run.ends_bind_ok (lock_ok h)]
  exact Run.ends_bind_iff fun a s' => ⟨a, _, rfl⟩

/-- A scope whose body does not come to its end. -/
theorem withLock_error {e : Stuck μ ε} (h : s.held m = false)
    (hx : x ⟨Function.update s.held m true, s.val⟩ = .error e) : withLock m x s = .error e := by
  rw [withLock, Run.bind_ok (lock_ok h)]
  exact Run.bind_error hx

/-- A scope whose body comes to its end. -/
theorem withLock_ok {a : α} {v : σ} (h : s.held m = false)
    (hx : x ⟨Function.update s.held m true, s.val⟩ = .ok (a, ⟨Function.update s.held m true, v⟩)) :
    withLock m x s = .ok (a, ⟨s.held, v⟩) := by
  rw [withLock, Run.bind_ok (lock_ok h), Run.bind_ok hx]
  change Except.ok (a, (⟨Function.update (Function.update s.held m true) m false, v⟩ : Locked μ σ)) = _
  rw [Function.update_idem, ← h, Function.update_eq_self]

/-- A scope with nothing in it. -/
theorem withLock_pure (h : s.held m = false) (a : α) :
    withLock m (pure a : Thread μ σ ε α) s = .ok (a, s) := withLock_ok h (v := s.val) rfl

theorem Keeps.withLock (hx : Keeps x) : Keeps (withLock m x) := by
  intro s a s' h
  by_cases hfree : s.held m = true
  · rw [withLock_held hfree] at h
    cases h
  rw [Bool.not_eq_true] at hfree
  rw [Locked.withLock, Run.bind_ok (lock_ok hfree)] at h
  obtain ⟨a', s₁, hbody, hend⟩ := Run.bind_eq_ok h
  cases hend
  have hheld := hx _ _ _ hbody
  change Function.update s₁.held m false = s.held
  rw [hheld, Function.update_idem, ← hfree, Function.update_eq_self]

end

end Locked

end ElastosCar
