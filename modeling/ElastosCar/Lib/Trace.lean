import Mathlib

/-!
# Runs of a system of steps

A system is a partial function `step : σ → α → Option σ`: in a given state, an action is possible
and leads to one state, or it is not possible. What several threads do in any interleaving is a
list of actions; `run` follows it.

`Meets ok` says that every action of a run meets a condition on the state it is taken in, and
`run_invariant` is the induction along such runs: an invariant that the initial state has and that
every step within the condition keeps holds in every state reached. A state reached on the way is
the end of a shorter run, so nothing is said about the states in between.
-/

namespace ElastosCar.Trace

variable {σ α : Type} {step : σ → α → Option σ}

/-- Follow the actions; `none` if one of them is not possible. -/
def run (step : σ → α → Option σ) : σ → List α → Option σ
  | s, [] => some s
  | s, a :: as => (step s a).bind fun s' => run step s' as

/-- Every action meets the condition in the state it is taken in. -/
def Meets (step : σ → α → Option σ) (ok : σ → α → Prop) : σ → List α → Prop
  | _, [] => True
  | s, a :: as => ok s a ∧ ∀ s', step s a = some s' → Meets step ok s' as

theorem run_cons_eq_some {s t : σ} {a : α} {as : List α} :
    run step s (a :: as) = some t ↔ ∃ s', step s a = some s' ∧ run step s' as = some t :=
  Option.bind_eq_some_iff

theorem run_cons {s s' : σ} {a : α} {as : List α} (h : step s a = some s') :
    run step s (a :: as) = run step s' as := by
  rw [run, h, Option.bind_some]

theorem Meets.cons {ok : σ → α → Prop} {s s' : σ} {a : α} {as : List α} (h : ok s a)
    (hstep : step s a = some s') (hrest : Meets step ok s' as) : Meets step ok s (a :: as) :=
  ⟨h, fun t ht => by
    rw [hstep] at ht
    exact Option.some.inj ht ▸ hrest⟩

theorem Meets.imp {ok ok' : σ → α → Prop} (h : ∀ s a, ok s a → ok' s a) {s : σ} {as : List α}
    (hmeets : Meets step ok s as) : Meets step ok' s as := by
  induction as generalizing s with
  | nil => trivial
  | cons a as ih => exact ⟨h s a hmeets.1, fun t ht => ih (hmeets.2 t ht)⟩

/-- What a condition implies where an invariant holds that it keeps. -/
theorem Meets.imp_of_invariant {ok ok' : σ → α → Prop} {I : σ → Prop}
    (himp : ∀ s a, I s → ok s a → ok' s a)
    (hstep : ∀ s a s', I s → ok s a → step s a = some s' → I s') {s : σ} {as : List α} (hI : I s)
    (h : Meets step ok s as) : Meets step ok' s as := by
  induction as generalizing s with
  | nil => trivial
  | cons a as ih =>
    exact ⟨himp s a hI h.1, fun t ht => ih (hstep s a t hI h.1 ht) (h.2 t ht)⟩

/-- Besides, a condition on the actions alone. -/
theorem Meets.and_mem {ok : σ → α → Prop} {p : α → Prop} {s : σ} {as : List α}
    (h : Meets step ok s as) (hp : ∀ a ∈ as, p a) :
    Meets step (fun s a => ok s a ∧ p a) s as := by
  induction as generalizing s with
  | nil => trivial
  | cons a as ih =>
    obtain ⟨ha, has⟩ := List.forall_mem_cons.mp hp
    exact ⟨⟨h.1, ha⟩, fun t ht => ih (h.2 t ht) has⟩

/-- A run that meets a condition, in two parts. -/
theorem meets_append {ok : σ → α → Prop} {s : σ} {as bs : List α} :
    Meets step ok s (as ++ bs) ↔
      Meets step ok s as ∧ ∀ t, run step s as = some t → Meets step ok t bs := by
  induction as generalizing s with
  | nil => exact ⟨fun h => ⟨trivial, fun t ht => Option.some.inj ht ▸ h⟩, fun h => h.2 s rfl⟩
  | cons a as ih =>
    constructor
    · intro ⟨hok, hrest⟩
      refine ⟨⟨hok, fun s' hs' => (ih.mp (hrest s' hs')).1⟩, fun t ht => ?_⟩
      obtain ⟨s', hs', hrun⟩ := run_cons_eq_some.mp ht
      exact (ih.mp (hrest s' hs')).2 t hrun
    · intro ⟨⟨hok, hfirst⟩, hrest⟩
      refine ⟨hok, fun s' hs' => ih.mpr ⟨hfirst s' hs', fun t ht => hrest t ?_⟩⟩
      exact (run_cons hs').trans ht

/-- Two conditions that agree where an invariant holds, which one of them keeps. -/
theorem meets_iff {ok ok' : σ → α → Prop} {I : σ → Prop} (hiff : ∀ s a, I s → (ok s a ↔ ok' s a))
    (hstep : ∀ s a s', I s → ok s a → step s a = some s' → I s') {s : σ} {as : List α} (hI : I s) :
    Meets step ok s as ↔ Meets step ok' s as := by
  induction as generalizing s with
  | nil => exact Iff.rfl
  | cons a as ih =>
    constructor
    · intro ⟨hok, hrest⟩
      exact ⟨(hiff s a hI).mp hok, fun t ht => (ih (hstep s a t hI hok ht)).mp (hrest t ht)⟩
    · intro ⟨hok, hrest⟩
      have hok' := (hiff s a hI).mpr hok
      exact ⟨hok', fun t ht => (ih (hstep s a t hI hok' ht)).mpr (hrest t ht)⟩

/-- A run that meets a condition, step by step. -/
theorem meets_run_cons {ok : σ → α → Prop} {s s' t : σ} {a : α} {as : List α} (h : ok s a)
    (hstep : step s a = some s') (hrest : Meets step ok s' as ∧ run step s' as = some t) :
    Meets step ok s (a :: as) ∧ run step s (a :: as) = some t :=
  ⟨.cons h hstep hrest.1, (run_cons hstep).trans hrest.2⟩

/-- **Induction along the runs that meet a condition.** -/
theorem run_invariant {ok : σ → α → Prop} {I : σ → Prop}
    (hstep : ∀ s a s', I s → ok s a → step s a = some s' → I s')
    {s t : σ} {as : List α} (hinit : I s) (hmeets : Meets step ok s as)
    (hrun : run step s as = some t) : I t := by
  induction as generalizing s with
  | nil => exact Option.some.inj hrun ▸ hinit
  | cons a as ih =>
    obtain ⟨s', hs', hrun⟩ := run_cons_eq_some.mp hrun
    exact ih (hstep s a s' hinit hmeets.1 hs') (hmeets.2 s' hs') hrun

/-- A condition that every action meets in every state. -/
theorem meets_of_forall {ok : σ → α → Prop} (h : ∀ s a, ok s a) (s : σ) (as : List α) :
    Meets step ok s as := by
  induction as generalizing s with
  | nil => trivial
  | cons a as ih => exact ⟨h s a, fun s' _ => ih s'⟩

/-- **Induction along all runs.** -/
theorem run_induction {I : σ → Prop} (hstep : ∀ s a s', I s → step s a = some s' → I s')
    {s t : σ} {as : List α} (hinit : I s) (hrun : run step s as = some t) : I t :=
  run_invariant (fun s a s' hs _ h => hstep s a s' hs h) hinit
    (meets_of_forall (fun _ _ => trivial) s as) hrun

/-- **Progress.** Where an invariant makes every action within the condition possible, the runs that
meet it go through. -/
theorem exists_run_of_meets {ok : σ → α → Prop} {I : σ → Prop}
    (hstep : ∀ s a, I s → ok s a → ∃ s', step s a = some s' ∧ I s') {s : σ} {as : List α}
    (hinit : I s) (hmeets : Meets step ok s as) : ∃ t, run step s as = some t ∧ I t := by
  induction as generalizing s with
  | nil => exact ⟨s, rfl, hinit⟩
  | cons a as ih =>
    obtain ⟨s', hs', hI⟩ := hstep s a hinit hmeets.1
    obtain ⟨t, hrun, ht⟩ := ih hI (hmeets.2 s' hs')
    exact ⟨t, (run_cons hs').trans hrun, ht⟩

/-- **Progress.** Where an invariant makes every action possible, all runs go through. -/
theorem exists_run {I : σ → Prop} (hstep : ∀ s a, I s → ∃ s', step s a = some s' ∧ I s')
    {s : σ} (hinit : I s) (as : List α) : ∃ t, run step s as = some t ∧ I t :=
  exists_run_of_meets (fun s a hs _ => hstep s a hs) hinit
    (meets_of_forall (fun _ _ => trivial) s as)

end ElastosCar.Trace
