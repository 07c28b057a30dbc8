import Mathlib

/-!
# Loops

The body of a loop is a partial function `next : σ → Option σ` that says how the loop goes on, and
`none` where it ends. `loop next n` goes through the body at most `n` times, and answers `none` if
the end is not reached by then; `Returns next s t` says that the loop, begun in `s`, ends in `t`.

A proof about a loop that is known to end is an induction on its way to the end,
`Returns.head_induction`, and carries no number of turns; a proof that a loop ends takes one turn
after another by `returns_next`.
-/

namespace ElastosCar.Loop

variable {σ : Type} {next : σ → Option σ} {s s' t u : σ}

/-- At most `n` turns. -/
def loop (next : σ → Option σ) : ℕ → σ → Option σ
  | 0, _ => none
  | n + 1, s =>
    match next s with
    | none => some s
    | some s' => loop next n s'

/-- The loop ends. -/
def Returns (next : σ → Option σ) (s t : σ) : Prop := ∃ n, loop next n s = some t

theorem loop_end (h : next s = none) (n : ℕ) : loop next (n + 1) s = some s := by
  rw [loop, h]

theorem loop_next (h : next s = some s') (n : ℕ) : loop next (n + 1) s = loop next n s' := by
  rw [loop, h]

theorem returns_end (h : next s = none) : Returns next s s := ⟨1, loop_end h 0⟩

/-- **One turn.** -/
theorem returns_next (h : next s = some s') : Returns next s t ↔ Returns next s' t := by
  constructor
  · rintro ⟨n | n, hn⟩
    · exact absurd hn nofun
    · exact ⟨n, loop_next h n ▸ hn⟩
  · rintro ⟨n, hn⟩
    exact ⟨n + 1, (loop_next h n).trans hn⟩

/-- **Induction on the way to the end.** -/
theorem Returns.head_induction {P : σ → Prop} (h : Returns next s t)
    (hend : next t = none → P t) (hnext : ∀ s s', next s = some s' → P s' → P s) : P s := by
  obtain ⟨n, hn⟩ := h
  induction n generalizing s with
  | zero => exact absurd hn nofun
  | succ n ih =>
    rcases hs : next s with _ | s'
    · obtain rfl := Option.some.inj ((loop_end hs n).symm.trans hn)
      exact hend hs
    · exact hnext s s' hs (ih ((loop_next hs n).symm.trans hn))

theorem Returns.unique (ht : Returns next s t) (hu : Returns next s u) : t = u := by
  refine ht.head_induction (P := fun s => Returns next s u → t = u) (fun hend hu => ?_)
    (fun s s' hs ih hu => ih ((returns_next hs).mp hu)) hu
  obtain ⟨n | n, hn⟩ := hu
  · exact absurd hn nofun
  · exact Option.some.inj ((loop_end hend n).symm.trans hn)

/-- The end of a loop meets what every turn keeps. -/
theorem Returns.invariant {I : σ → Prop} (hnext : ∀ s s', I s → next s = some s' → I s')
    (h : Returns next s t) (hs : I s) : I t ∧ next t = none :=
  h.head_induction (P := fun s => I s → I t ∧ next t = none) (fun hend hI => ⟨hI, hend⟩)
    (fun s s' hstep ih hI => ih (hnext s s' hI hstep)) hs

end ElastosCar.Loop
