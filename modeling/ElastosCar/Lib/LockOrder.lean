import Mathlib

/-!
# Recursive locks taken in an order

What a thread does with recursive locks is a list of events. `Ordered lt held` says that each lock it
requests is one it holds already, or comes after every lock it holds; `after held` is what it holds at
the end.

* `From r n` is the compositional form for an order by rank: the events ask for locks of rank `n` on,
  whatever of rank at most `n` is held before, and give back what they take. `From.crit` is the rule for
  a critical section.
* Threads that run such events one against the other never wait in a circle (`not_waits_of_ordered`).
-/

namespace ElastosCar

/-- An event of a thread at a lock. -/
inductive LockEvent (L : Type)
  | lock (l : L)
  | unlock (l : L)
deriving DecidableEq, Repr

namespace LockEvent

variable {L : Type}

/-- A critical section. -/
def crit (l : L) (body : List (LockEvent L)) : List (LockEvent L) := lock l :: (body ++ [unlock l])

/-- Each lock that is requested is held already, or comes after all locks that are held. -/
def Ordered [DecidableEq L] (lt : L → L → Prop) : List L → List (LockEvent L) → Prop
  | _, [] => True
  | held, lock l :: es => (∀ h ∈ held, h = l ∨ lt h l) ∧ Ordered lt (l :: held) es
  | held, unlock l :: es => Ordered lt (held.erase l) es

/-- What is held after the events. -/
def after [DecidableEq L] : List L → List (LockEvent L) → List L
  | held, [] => held
  | held, lock l :: es => after (l :: held) es
  | held, unlock l :: es => after (held.erase l) es

variable [DecidableEq L] {lt : L → L → Prop} {held : List L} {es es' : List (LockEvent L)}

theorem after_append (held : List L) (es es' : List (LockEvent L)) :
    after held (es ++ es') = after (after held es) es' := by
  induction es generalizing held with
  | nil => rfl
  | cons e es ih =>
    cases e with
    | lock l => exact ih (l :: held)
    | unlock l => exact ih (held.erase l)

theorem ordered_append :
    Ordered lt held (es ++ es') ↔ Ordered lt held es ∧ Ordered lt (after held es) es' := by
  induction es generalizing held with
  | nil => exact ⟨fun h => ⟨trivial, h⟩, And.right⟩
  | cons e es ih =>
    cases e with
    | lock l =>
      rw [List.cons_append, Ordered, Ordered, ih, and_assoc]
      rfl
    | unlock l => exact ih

/-! ### Sections by rank -/

/-- The events take locks of rank `n` on, in order, and leave what was held. -/
structure From (r : L → ℕ) (n : ℕ) (es : List (LockEvent L)) : Prop where
  ordered : ∀ held : List L, (∀ h ∈ held, r h ≤ n) → Ordered (fun a b => r a < r b) held es
  after_eq : ∀ held : List L, after held es = held

namespace From

variable {r : L → ℕ} {n m : ℕ} {l : L}

theorem nil (r : L → ℕ) (n : ℕ) : From r n [] := ⟨fun _ _ => trivial, fun _ => rfl⟩

theorem append (h : From r n es) (h' : From r n es') : From r n (es ++ es') where
  ordered held hheld := by
    rw [ordered_append, h.after_eq]
    exact ⟨h.ordered held hheld, h'.ordered held hheld⟩
  after_eq held := by rw [after_append, h.after_eq, h'.after_eq]

theorem mono (h : From r n es) (hm : m ≤ n) : From r m es :=
  ⟨fun held hheld => h.ordered held fun l hl => (hheld l hl).trans hm, h.after_eq⟩

/-- **A critical section** of a lock whose rank is no less than those that are held. -/
theorem crit (hr : Function.Injective r) (h : From r (r l) es) (hn : n ≤ r l) :
    From r n (LockEvent.crit l es) where
  ordered held hheld := by
    refine ⟨fun a ha => ?_, ?_⟩
    · have hle : r a ≤ r l := (hheld a ha).trans hn
      exact hle.eq_or_lt.imp (fun heq => hr heq) id
    · rw [ordered_append]
      refine ⟨h.ordered (l :: held) ?_, trivial⟩
      exact List.forall_mem_cons.mpr ⟨le_rfl, fun a ha => (hheld a ha).trans hn⟩
  after_eq held := by
    rw [LockEvent.crit, after, after_append, h.after_eq, after, after, List.erase_cons_head]

theorem flatMap {α : Type} {f : α → List (LockEvent L)} {as : List α}
    (h : ∀ a ∈ as, From r n (f a)) : From r n (as.flatMap f) := by
  induction as with
  | nil => exact nil r n
  | cons a as ih =>
    rw [List.flatMap_cons]
    exact (h a List.mem_cons_self).append (ih fun b hb => h b (List.mem_cons_of_mem _ hb))

theorem ite {c : Prop} [Decidable c] (h : c → From r n es) (h' : ¬c → From r n es') :
    From r n (if c then es else es') := by
  split
  · exact h ‹c›
  · exact h' ‹¬c›

end From

/-! ### Threads -/

/-- What a thread holds, and what it still has to do. -/
structure Thread (L : Type) where
  held : List L := []
  rest : List (LockEvent L)

variable {ι : Type} [DecidableEq ι]

/-- The next event of a thread: a lock must not be held by another. -/
def step (s : ι → Thread L) (i : ι) (s' : ι → Thread L) : Prop :=
  match (s i).rest with
  | [] => False
  | lock l :: es =>
    (∀ j, j ≠ i → l ∉ (s j).held) ∧ s' = Function.update s i ⟨l :: (s i).held, es⟩
  | unlock l :: es => s' = Function.update s i ⟨(s i).held.erase l, es⟩

/-- The states that the threads can get to. -/
inductive RunsTo (s : ι → Thread L) : (ι → Thread L) → Prop
  | refl : RunsTo s s
  | step {s' s'' : ι → Thread L} {i : ι} (h : RunsTo s s') (hstep : step s' i s'') : RunsTo s s''

/-- A thread requests a lock that another one holds. -/
def WaitsFor (s : ι → Thread L) (i j : ι) : Prop :=
  i ≠ j ∧ ∃ l es, (s i).rest = lock l :: es ∧ l ∈ (s j).held

/-- No lock has two holders, and every thread goes on in order. -/
structure Orderly (lt : L → L → Prop) (s : ι → Thread L) : Prop where
  exclusive : ∀ i j l, l ∈ (s i).held → l ∈ (s j).held → i = j
  ordered : ∀ i, Ordered lt (s i).held (s i).rest

variable {s s' : ι → Thread L} {i j : ι}

theorem Orderly.step (h : Orderly lt s) (hstep : step s i s') : Orderly lt s' := by
  have hordered := h.ordered i
  unfold LockEvent.step at hstep
  split at hstep
  · exact hstep.elim
  · rename_i l es hrest
    obtain ⟨hfree, rfl⟩ := hstep
    rw [hrest] at hordered
    constructor
    · -- A lock that is taken was free.
      have hnew : ∀ j m, m ∈ (Function.update s i ⟨l :: (s i).held, es⟩ j).held →
          (j = i ∧ m = l) ∨ m ∈ (s j).held := by
        intro j m hm
        rw [Function.update_apply] at hm
        split at hm
        · rename_i heq
          subst heq
          exact (List.mem_cons.mp hm).imp (fun h => ⟨rfl, h⟩) id
        · exact .inr hm
      intro j k m hj hk
      rcases hnew j m hj with ⟨hji, hm⟩ | hj' <;> rcases hnew k m hk with ⟨hki, hm'⟩ | hk'
      · exact hji.trans hki.symm
      · by_contra hne
        exact hfree k (fun hki => hne (hji.trans hki.symm)) (hm ▸ hk')
      · by_contra hne
        exact hfree j (fun hji => hne (hji.trans hki.symm)) (hm' ▸ hj')
      · exact h.exclusive j k m hj' hk'
    · intro j
      rw [Function.update_apply]
      split
      · exact hordered.2
      · exact h.ordered j
  · rename_i l es hrest
    subst hstep
    rw [hrest] at hordered
    constructor
    · have hold : ∀ j m, m ∈ (Function.update s i ⟨(s i).held.erase l, es⟩ j).held → m ∈ (s j).held := by
        intro j m hm
        rw [Function.update_apply] at hm
        split at hm
        · rename_i heq
          subst heq
          exact List.mem_of_mem_erase hm
        · exact hm
      intro j k m hj hk
      exact h.exclusive j k m (hold j m hj) (hold k m hk)
    · intro j
      rw [Function.update_apply]
      split
      · exact hordered
      · exact h.ordered j

theorem Orderly.reaches (h : Orderly lt s) (hreach : RunsTo s s') : Orderly lt s' := by
  induction hreach with
  | refl => exact h
  | step _ hstep ih => exact ih.step hstep

omit [DecidableEq ι] in
/-- Two threads in order do not wait for each other. -/
theorem Orderly.not_waits [IsStrictOrder L lt] (h : Orderly lt s) : ¬(WaitsFor s i j ∧ WaitsFor s j i) := by
  rintro ⟨⟨hne, l, es, hi, hl⟩, -, m, es', hj, hm⟩
  have hordered := h.ordered i
  have hordered' := h.ordered j
  rw [hi] at hordered
  rw [hj] at hordered'
  rcases hordered.1 m hm with rfl | hml
  · exact hne (h.exclusive i j m hm hl)
  · rcases hordered'.1 l hl with rfl | hlm
    · exact hne (h.exclusive i j l hm hl)
    · exact irrefl_of lt m (trans_of lt hml hlm)

/-- **No circle of two**: threads whose events are ordered never wait for each other. -/
theorem not_waits_of_ordered [IsStrictOrder L lt] {programs : ι → List (LockEvent L)}
    (h : ∀ i, Ordered lt [] (programs i))
    (hreach : RunsTo (fun i => { rest := programs i }) s) (i j : ι) :
    ¬(WaitsFor s i j ∧ WaitsFor s j i) := by
  have hinit : Orderly lt fun i => ({ rest := programs i } : Thread L) :=
    ⟨fun _ _ _ hl => (List.not_mem_nil hl).elim, h⟩
  exact (hinit.reaches hreach).not_waits

end LockEvent

end ElastosCar
