import ElastosCar.Lib.Run

/-!
# Streams

A medium is written to, symbol after symbol, and later read from the start. A `Stream` says
when a state of the medium has received given symbols and when it has given symbols left to
read. `Appends` and `Reads` are the specifications of a write and of a read: a write that
finds room appends its symbols, a read takes its symbols off the front and returns a result
with a given property.
-/

namespace ElastosCar

/-- The symbols in the states of a medium. -/
structure Stream (π τ : Type) where
  /-- The symbols fit into the medium. -/
  Room : List τ → Prop
  /-- The symbols have been written, and more can be. -/
  Wrote : List τ → π → Prop
  /-- The symbols are left to be read. -/
  Left : List τ → π → Prop
  room_of_append : ∀ {as bs : List τ}, Room (as ++ bs) → Room as

namespace Stream

variable {π τ ε ρ α β : Type} (S : Stream π τ)

/-- The write `w` returns `ok` and appends `ts`, if there is room for them. -/
def Appends (ok : ρ) (w : π → ρ × π) (ts : List τ) : Prop :=
  ∀ p ss, S.Wrote ss p → S.Room (ss ++ ts) → ∃ q, w p = (ok, q) ∧ S.Wrote (ss ++ ts) q

/-- The read `r` takes `ts` off the front and returns a result with the property `Q`. -/
def Reads (r : Run π ε α) (ts : List τ) (Q : α → Prop) : Prop :=
  ∀ p rest, S.Left (ts ++ rest) p → ∃ a q, r p = .ok (a, q) ∧ Q a ∧ S.Left rest q

variable {S}

theorem Reads.mono {r : Run π ε α} {ts : List τ} {Q R : α → Prop} (h : S.Reads r ts Q)
    (hQR : ∀ a, Q a → R a) : S.Reads r ts R := by
  intro p rest hp
  obtain ⟨a, q, hr, hQ, hq⟩ := h p rest hp
  exact ⟨a, q, hr, hQR a hQ, hq⟩

theorem Reads.bind {r : Run π ε α} {f : α → Run π ε β} {as bs : List τ} {Q : α → Prop}
    {R : β → Prop} (hr : S.Reads r as Q) (hf : ∀ a, Q a → S.Reads (f a) bs R) :
    S.Reads (r >>= f) (as ++ bs) R := by
  intro p rest hp
  rw [List.append_assoc] at hp
  obtain ⟨a, q, hq, hQ, hleft⟩ := hr p _ hp
  obtain ⟨c, q', hq', hR, hleft'⟩ := hf a hQ q rest hleft
  exact ⟨c, q', by rw [Run.bind_ok hq, hq'], hR, hleft'⟩

theorem Reads.pure (a : α) : S.Reads (pure a : Run π ε α) [] (· = a) :=
  fun p _ hp => ⟨a, p, rfl, rfl, hp⟩

/-- A read followed by a computation on its result. -/
theorem Reads.map {r : Run π ε α} {f : α → Run π ε β} {ts : List τ} {Q : α → Prop} {R : β → Prop}
    (hr : S.Reads r ts Q) (hf : ∀ a, Q a → ∃ b, f a = Pure.pure b ∧ R b) :
    S.Reads (r >>= f) ts R := by
  rw [← List.append_nil ts]
  refine hr.bind fun a hQ => ?_
  obtain ⟨b, hb, hR⟩ := hf a hQ
  rw [hb]
  exact (Reads.pure b).mono fun c hc => hc ▸ hR

end Stream

end ElastosCar
