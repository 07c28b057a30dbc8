import Mathlib

/-!
# Computations with a state and an abrupt end

`Run σ ε α` is a computation that passes a state and may end abruptly. The rules here are
the ones a proof by symbolic execution takes its steps with: `bind_ok` runs the first half of
a sequence whose result is known, `bind_eq_ok` takes a finished sequence apart.

`Post E Q` is the partial-correctness reading of an outcome: a normal end meets `Q`, an
abrupt one is among those `E` allows. It composes along sequences by `Post.bind`. `Respects R`
relates the states before and after a normal end, and composes where `R` is transitive; `Yields Q`
speaks about the result alone.
-/

namespace ElastosCar

/-- A computation on a state `σ` that may end abruptly with an `ε`. -/
abbrev Run (σ ε α : Type) := StateT σ (Except ε) α

namespace Run

variable {σ ε α β : Type}

@[simp]
theorem pure_apply (a : α) (s : σ) : (pure a : Run σ ε α) s = .ok (a, s) := rfl

@[simp]
theorem get_apply (s : σ) : (get : Run σ ε σ) s = .ok (s, s) := rfl

@[simp]
theorem set_apply (s s' : σ) : (set s' : Run σ ε PUnit) s = .ok (⟨⟩, s') := rfl

@[simp]
theorem throw_apply (e : ε) (s : σ) : (throw e : Run σ ε α) s = .error e := rfl

/-- Run the first half of a sequence. -/
theorem bind_ok {x : Run σ ε α} {f : α → Run σ ε β} {s s' : σ} {a : α}
    (h : x s = .ok (a, s')) : (x >>= f) s = f a s' := by
  simp only [bind, StateT.bind, Except.bind, h]

theorem bind_error {x : Run σ ε α} {f : α → Run σ ε β} {s : σ} {e : ε}
    (h : x s = .error e) : (x >>= f) s = .error e := by
  simp only [bind, StateT.bind, Except.bind, h]

@[simp]
theorem get_bind (f : σ → Run σ ε β) (s : σ) : (get >>= f) s = f s s := rfl

@[simp]
theorem set_bind (s' : σ) (f : PUnit → Run σ ε β) (s : σ) : (set s' >>= f) s = f ⟨⟩ s' := rfl

@[simp]
theorem pure_bind_apply (a : α) (f : α → Run σ ε β) (s : σ) :
    ((pure a : Run σ ε α) >>= f) s = f a s := rfl

/-- Take a finished sequence apart. -/
theorem bind_eq_ok {x : Run σ ε α} {f : α → Run σ ε β} {s t : σ} {b : β}
    (h : (x >>= f) s = .ok (b, t)) : ∃ a s', x s = .ok (a, s') ∧ f a s' = .ok (b, t) := by
  rcases hx : x s with e | ⟨a, s'⟩
  · rw [bind_error hx] at h
    cases h
  · rw [bind_ok hx] at h
    exact ⟨a, s', rfl, h⟩

/-- The computation comes to a normal end. -/
def Ends (x : Run σ ε α) (s : σ) : Prop := ∃ a s', x s = .ok (a, s')

theorem not_ends {x : Run σ ε α} {s : σ} {e : ε} (h : x s = .error e) : ¬ x.Ends s := by
  rintro ⟨a, s', h'⟩
  rw [h] at h'
  cases h'

/-- What ends is what follows a finished first half. -/
theorem ends_bind_ok {x : Run σ ε α} {f : α → Run σ ε β} {s s' : σ} {a : α}
    (h : x s = .ok (a, s')) : (x >>= f).Ends s ↔ (f a).Ends s' := by
  rw [Ends, bind_ok h, Ends]

/-- A sequence whose second half always ends. -/
theorem ends_bind_iff {x : Run σ ε α} {f : α → Run σ ε β} {s : σ} (hf : ∀ a s', (f a).Ends s') :
    (x >>= f).Ends s ↔ x.Ends s := by
  constructor
  · rintro ⟨b, t, h⟩
    obtain ⟨a, s', hx, -⟩ := bind_eq_ok h
    exact ⟨a, s', hx⟩
  · rintro ⟨a, s', hx⟩
    exact (ends_bind_ok hx).mpr (hf a s')

theorem ends_pure (a : α) (s : σ) : (pure a : Run σ ε α).Ends s := ⟨a, s, rfl⟩

/-- What is done with the result does not matter. -/
theorem ends_bind_pure {x : Run σ ε α} {f : α → β} {s : σ} :
    (x >>= fun a => (pure (f a) : Run σ ε β)).Ends s ↔ x.Ends s :=
  ends_bind_iff fun a s' => ends_pure (f a) s'

/-! ### Postconditions -/

/-- A normal end meets `Q`, an abrupt one `E`. -/
def Post (E : ε → Prop) (Q : α → σ → Prop) : Except ε (α × σ) → Prop
  | .ok (a, s) => Q a s
  | .error e => E e

variable {E : ε → Prop} {Q : α → σ → Prop} {R : β → σ → Prop}

theorem Post.bind {x : Run σ ε α} {f : α → Run σ ε β} {s : σ} (hx : Post E Q (x s))
    (hf : ∀ a s', Q a s' → Post E R (f a s')) : Post E R ((x >>= f) s) := by
  rcases hr : x s with e | ⟨a, s'⟩
  · rw [bind_error hr]
    rw [hr] at hx
    exact hx
  · rw [bind_ok hr]
    rw [hr] at hx
    exact hf a s' hx

/-! ### The states before and after -/

/-- Where the computation ends normally, `R` holds between the states before and after it. -/
def Respects (R : σ → σ → Prop) (x : Run σ ε α) : Prop :=
  ∀ s a s', x s = .ok (a, s') → R s s'

namespace Respects

variable {R : σ → σ → Prop} {x : Run σ ε α} {f : α → Run σ ε β}

theorem pure (hrefl : ∀ s, R s s) (a : α) : Respects R (pure a : Run σ ε α) := by
  intro s b s' h
  cases h
  exact hrefl s

theorem throw (e : ε) : Respects R (throw e : Run σ ε α) := nofun

theorem bind (htrans : ∀ s t u, R s t → R t u → R s u) (hx : Respects R x)
    (hf : ∀ a, Respects R (f a)) : Respects R (x >>= f) := by
  intro s b u h
  obtain ⟨a, t, ht, hu⟩ := bind_eq_ok h
  exact htrans s t u (hx s a t ht) (hf a t b u hu)

end Respects

/-- Where the computation ends normally, its result meets `Q`. -/
def Yields (Q : α → Prop) (x : Run σ ε α) : Prop := ∀ s a s', x s = .ok (a, s') → Q a

namespace Yields

variable {Q : β → Prop}

theorem pure {a : α} {Q : α → Prop} (h : Q a) : Yields Q (pure a : Run σ ε α) := by
  intro s b s' hb
  cases hb
  exact h

theorem throw (e : ε) : Yields Q (throw e : Run σ ε β) := nofun

theorem bind {x : Run σ ε α} {f : α → Run σ ε β} (hf : ∀ a, Yields Q (f a)) :
    Yields Q (x >>= f) := by
  intro s b u h
  obtain ⟨a, t, -, hu⟩ := bind_eq_ok h
  exact hf a t b u hu

end Yields

end Run

/-! ### Without a state -/

namespace Except

variable {ε α β : Type}

theorem bind_ok {x : Except ε α} {f : α → Except ε β} {a : α} (h : x = .ok a) :
    (x >>= f) = f a := by
  rw [h]
  rfl

/-- Take a finished sequence apart. -/
theorem bind_eq_ok {x : Except ε α} {f : α → Except ε β} {b : β} (h : (x >>= f) = .ok b) :
    ∃ a, x = .ok a ∧ f a = .ok b := by
  cases x with
  | error e => cases h
  | ok a => exact ⟨a, rfl, h⟩

end Except

end ElastosCar
