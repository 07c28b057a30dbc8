import ElastosCar.Proxy.Death

/-!
# Death recipients over a sequence of calls

What `LinkToDeath`, `UnlinkToDeath` and `StubDied` of one `CObjectProxy` return, and whom they notify,
against a registry of recipients that says what they are for: a recipient is notified once for each
time it is linked and not unlinked, and after the death of the stub nothing is linked, unlinked or
notified any more.

The code departs from it in three ways: `*result` of `UnlinkToDeath` is never `TRUE`, nothing ever sets
`mStubDied`, and there is no list before the first `LinkToDeath`. `outcomes_iff` shows that these are
the only ones.
-/

namespace ElastosCar

open Locked Death

/-- A call from outside; the recipients do nothing on the proxy. -/
inductive DeathCall
  | linkToDeath (recipient : Option ℕ)
  | unlinkToDeath (recipient : Option ℕ)
  | stubDied
deriving DecidableEq, Repr

/-- What comes of a call: the code, `*result` of `UnlinkToDeath`, and whose `ProxyDied` was called. -/
structure DeathOutcome where
  ec : ECode
  result : Bool := false
  notified : List ℕ := []
deriving DecidableEq, Repr

namespace DeathCall

def perform : DeathCall → Death (ECode × Bool)
  | .linkToDeath r => do pure (← Death.linkToDeath r, false)
  | .unlinkToDeath r => Death.unlinkToDeath r
  | .stubDied => do pure (← Death.stubDied (notify 1), false)

/-- One call, by a thread that holds no mutex. -/
def outcome (c : DeathCall) (v : DeathState) :
    Except (Stuck DeathMutex DeathFault) (DeathOutcome × DeathState) :=
  match c.perform ⟨fun _ => false, { v with notified := [] }⟩ with
  | .ok ((ec, result), s) => .ok (⟨ec, result, s.val.notified⟩, s.val)
  | .error e => .error e

def outcomes : List DeathCall → DeathState →
    Except (Stuck DeathMutex DeathFault) (List DeathOutcome)
  | [], _ => pure []
  | c :: cs, v => do
    let (o, v) ← c.outcome v
    pure (o :: (← outcomes cs v))

end DeathCall

/-! ### What the calls are for -/

/-- The recipients that are linked, each as often as it is, and whether the stub has died. -/
structure DeathRegistry where
  linked : List ℕ := []
  died : Bool := false
deriving DecidableEq, Repr

namespace DeathRegistry

/-- What a call should do. -/
def call (g : DeathRegistry) : DeathCall → DeathOutcome × DeathRegistry
  | .linkToDeath none | .unlinkToDeath none => (⟨E_INVALID_ARGUMENT, false, []⟩, g)
  | .linkToDeath (some r) =>
    if g.died then (⟨E_FAIL, false, []⟩, g)
    else (⟨NOERROR, false, []⟩, { g with linked := g.linked ++ [r] })
  | .unlinkToDeath (some r) =>
    if g.died then (⟨E_FAIL, false, []⟩, g)
    else (⟨NOERROR, decide (r ∈ g.linked), []⟩, { g with linked := g.linked.erase r })
  | .stubDied => (⟨NOERROR, false, if g.died then [] else g.linked⟩, ⟨[], true⟩)

theorem call_of_died {g : DeathRegistry} (h : g.died = true) (r : ℕ) :
    (g.call (.linkToDeath (some r))).1 = ⟨E_FAIL, false, []⟩ ∧
      (g.call (.unlinkToDeath (some r))).1 = ⟨E_FAIL, false, []⟩ := by
  rw [call, call, h]
  exact ⟨rfl, rfl⟩

theorem call_of_alive {g : DeathRegistry} (h : g.died = false) (r : ℕ) :
    g.call (.linkToDeath (some r)) = (⟨NOERROR, false, []⟩, { g with linked := g.linked ++ [r] }) ∧
      g.call (.unlinkToDeath (some r))
        = (⟨NOERROR, decide (r ∈ g.linked), []⟩, { g with linked := g.linked.erase r }) := by
  rw [call, call, h]
  exact ⟨rfl, rfl⟩

def outcomes : DeathRegistry → List DeathCall → List DeathOutcome
  | _, [] => []
  | g, c :: cs => (g.call c).1 :: outcomes (g.call c).2 cs

/-- The registry after some calls. -/
def after : DeathRegistry → List DeathCall → DeathRegistry
  | g, [] => g
  | g, c :: cs => after (g.call c).2 cs

/-- How often a recipient is unlinked. -/
def unlinked (r : ℕ) : DeathRegistry → List DeathCall → ℕ
  | _, [] => 0
  | g, c :: cs =>
    (if c = .unlinkToDeath (some r) ∧ (g.call c).1.result then 1 else 0) + unlinked r (g.call c).2 cs

theorem count_call {g : DeathRegistry} {c : DeathCall} (hg : g.died = false) (hc : c ≠ .stubDied)
    (r : ℕ) : (g.call c).2.died = false ∧
      (g.call c).2.linked.count r
          + (if c = .unlinkToDeath (some r) ∧ (g.call c).1.result then 1 else 0)
        = g.linked.count r + if c = .linkToDeath (some r) then 1 else 0 := by
  cases c with
  | linkToDeath q =>
    cases q with
    | none => exact ⟨hg, by simp [call]⟩
    | some q =>
      rw [(call_of_alive hg q).1]
      refine ⟨hg, ?_⟩
      by_cases hq : q = r <;> simp [hq, List.count_append]
  | unlinkToDeath q =>
    cases q with
    | none => exact ⟨hg, by simp [call]⟩
    | some q =>
      rw [(call_of_alive hg q).2]
      refine ⟨hg, ?_⟩
      by_cases hq : q = r
      · subst hq
        by_cases hmem : q ∈ g.linked
        · have := List.count_pos_iff.mpr hmem
          simp only [hmem, List.count_erase_self, decide_true, and_self, if_true, reduceCtorEq, if_false]
          omega
        · simp [hmem, List.erase_of_not_mem]
      · rw [List.count_erase_of_ne (Ne.symm hq)]
        simp [hq]
  | stubDied => exact absurd rfl hc

/-- Up to the death of the stub, a recipient is in the registry as often as it was linked and not
unlinked; and so often is it notified. -/
theorem count_linked (r : ℕ) (calls : List DeathCall) {g : DeathRegistry} (hg : g.died = false)
    (hcalls : .stubDied ∉ calls) :
    (g.after calls).linked.count r + g.unlinked r calls
        = g.linked.count r + calls.count (.linkToDeath (some r)) ∧
      ((g.after calls).call .stubDied).1.notified = (g.after calls).linked := by
  induction calls generalizing g with
  | nil =>
    refine ⟨rfl, ?_⟩
    rw [after, call, hg]
    rfl
  | cons c calls ih =>
    rw [List.mem_cons, not_or] at hcalls
    obtain ⟨hc, hcalls⟩ := hcalls
    obtain ⟨hdied, hcount⟩ := count_call hg (Ne.symm hc) r
    obtain ⟨hrest, hnotified⟩ := ih hdied hcalls
    refine ⟨?_, hnotified⟩
    rw [after, unlinked, List.count_cons]
    have hbeq : (if (c == DeathCall.linkToDeath (some r)) = true then 1 else 0)
        = if c = .linkToDeath (some r) then 1 else 0 := by simp
    rw [hbeq]
    omega

end DeathRegistry

/-- After the calls `before` the code does what the call `c` should do: nothing is linked or unlinked
after the death of the stub, something was linked before anything is looked for, and what is unlinked
is not linked. -/
def DeathCall.Handled (before : List DeathCall) : DeathCall → Prop
  | .linkToDeath r => r = none ∨ .stubDied ∉ before
  | .unlinkToDeath r => r = none ∨
      .stubDied ∉ before ∧ (∃ q, .linkToDeath (some q) ∈ before) ∧ .linkToDeath r ∉ before
  | .stubDied => ∃ q, .linkToDeath (some q) ∈ before

/-- The proxy and the registry after the calls `before`. -/
structure DeathRegistry.Sim (before : List DeathCall) (v : DeathState) (g : DeathRegistry) : Prop where
  orgue : (v.mOrgue.getD []).map (·.mObject) = g.linked.map some
  isSome : v.mOrgue.isSome ↔ ∃ q, .linkToDeath (some q) ∈ before
  alive : v.mStubDied = false
  script : v.script = []
  died : g.died = true ↔ .stubDied ∈ before
  linked : .stubDied ∉ before → ∀ r, r ∈ g.linked ↔ .linkToDeath (some r) ∈ before
  gone : g.died = true → g.linked = []

section

variable {before : List DeathCall} {v : DeathState} {g : DeathRegistry}

/-- Recipients that do nothing are notified, one after the other. -/
theorem notifyEach_silent (l : List CarDeathRecipient) {held : DeathMutex → Bool} :
    ∀ (v : DeathState) (rs : List ℕ), v.mOrgue = some l → v.script = [] → l.map (·.mObject) = rs.map some →
      notifyEach (notify 1) l ⟨held, v⟩
        = .ok ((), ⟨held, { v with mOrgue := some [], notified := v.notified ++ rs }⟩) := by
  induction l with
  | nil =>
    intro v rs hl _ hrs
    obtain rfl : rs = [] := by simpa using hrs.symm
    rw [List.append_nil, ← hl]
    rfl
  | cons c l ih =>
    intro v rs hl hscript hrs
    obtain ⟨number, mObject⟩ := c
    cases rs with
    | nil => cases hrs
    | cons r rs =>
      rw [List.map_cons, List.map_cons, List.cons.injEq] at hrs
      obtain ⟨hr, hrs⟩ := hrs
      obtain rfl : mObject = some r := hr
      have hnotify : notify 1 ⟨number, some r⟩ ⟨held, v⟩
          = .ok ((), ⟨held, { v with notified := v.notified ++ [r] }⟩) := by
        obtain ⟨mOrgue, mStubDied, next, script, notified⟩ := v
        obtain rfl : script = [] := hscript
        rfl
      have hrest := ih { v with mOrgue := some l, notified := v.notified ++ [r] } rs rfl hscript hrs
      rw [List.append_assoc] at hrest
      rw [notifyEach_cons _ hnotify hl]
      exact hrest

namespace DeathRegistry.Sim

theorem init : Sim [] {} {} := ⟨rfl, by simp, rfl, rfl, by simp, fun _ r => by simp, fun _ => rfl⟩

/-- A call that changes nothing on either side. -/
theorem same (h : Sim before v g) {c : DeathCall} (hlink : ∀ q, c ≠ .linkToDeath (some q))
    (hdied : c ≠ .stubDied) : Sim (before ++ [c]) { v with notified := [] } g where
  orgue := h.orgue
  isSome := by
    rw [h.isSome]
    simp [fun q => (hlink q).symm]
  alive := h.alive
  script := h.script
  died := by
    rw [h.died]
    simp [hdied.symm]
  linked hd r := by
    rw [List.mem_append, not_or] at hd
    rw [h.linked hd.1 r]
    simp [(hlink r).symm]
  gone := h.gone

theorem link (h : Sim before v g) {r : ℕ} (hd : .stubDied ∉ before) :
    ∃ v', DeathCall.outcome (.linkToDeath (some r)) v = .ok (⟨NOERROR, false, []⟩, v') ∧
      Sim (before ++ [.linkToDeath (some r)]) v' { g with linked := g.linked ++ [r] } := by
  obtain ⟨mOrgue, mStubDied, next, script, notified⟩ := v
  obtain rfl : mStubDied = false := h.alive
  refine ⟨⟨some (mOrgue.getD [] ++ [⟨next, some r⟩]), false, next + 1, script, []⟩, rfl, ?_, ?_, rfl,
    h.script, ?_, fun _ q => ?_, fun hg => absurd (h.died.mp hg) hd⟩
  · have horgue := h.orgue
    dsimp only at horgue
    simp [horgue]
  · simp
  · simpa using h.died
  · have hlinked := h.linked hd q
    simp [hlinked, eq_comm]

theorem unlink (h : Sim before v g) {r : ℕ} (hlist : ∃ q, .linkToDeath (some q) ∈ before)
    (hr : r ∉ g.linked) :
    DeathCall.outcome (.unlinkToDeath (some r)) v
      = .ok (⟨NOERROR, false, []⟩, { v with notified := [] }) := by
  obtain ⟨mOrgue, mStubDied, next, script, notified⟩ := v
  obtain rfl : mStubDied = false := h.alive
  obtain ⟨l, rfl⟩ : ∃ l, mOrgue = some l := Option.isSome_iff_exists.mp (h.isSome.mpr hlist)
  have hnone : l.find? (fun c => isMatch c r) = none := by
    rw [List.find?_eq_none]
    intro c hc hmatch
    have hmem := List.mem_map_of_mem (f := (·.mObject)) hc
    have horgue : l.map (·.mObject) = g.linked.map some := h.orgue
    rw [horgue, of_decide_eq_true hmatch, List.mem_map] at hmem
    obtain ⟨q, hq, hqr⟩ := hmem
    exact hr (Option.some.inj hqr ▸ hq)
  let s : Locked DeathMutex DeathState := ⟨fun _ => false, ⟨some l, false, next, script, []⟩⟩
  have hfind : find r s = .ok (none, s) := by
    refine withLock_ok rfl ((Run.bind_ok (orgue_ok rfl)).trans ?_)
    rw [hnone]
    rfl
  have hrun : unlinkToDeath (some r) s = .ok ((NOERROR, false), s) := by
    rw [unlinkToDeath, Run.bind_ok get_apply, if_neg Bool.false_ne_true, Run.bind_ok hfind]
    rfl
  rw [DeathCall.outcome, DeathCall.perform, hrun]

theorem stubDied (h : Sim before v g) (hlist : ∃ q, .linkToDeath (some q) ∈ before) :
    ∃ v', DeathCall.outcome .stubDied v = .ok (⟨NOERROR, false, g.linked⟩, v') ∧
      Sim (before ++ [.stubDied]) v' ⟨[], true⟩ := by
  obtain ⟨mOrgue, mStubDied, next, script, notified⟩ := v
  obtain rfl : mStubDied = false := h.alive
  obtain rfl : script = [] := h.script
  obtain ⟨l, rfl⟩ : ∃ l, mOrgue = some l := Option.isSome_iff_exists.mp (h.isSome.mpr hlist)
  let s : Locked DeathMutex DeathState := ⟨fun _ => false, ⟨some l, false, next, [], []⟩⟩
  have hall : notifyAll (notify 1) s = .ok ((), ⟨s.held, ⟨some [], false, next, [], g.linked⟩⟩) :=
    withLock_ok rfl ((Run.bind_ok (orgue_ok rfl)).trans
      (notifyEach_silent l ⟨some l, false, next, [], []⟩ g.linked rfl rfl h.orgue))
  refine ⟨⟨some [], false, next, [], g.linked⟩, ?_, rfl, ?_, rfl, rfl, by simp, ?_, fun _ => rfl⟩
  · have hrun : DeathCall.perform .stubDied s
        = .ok ((NOERROR, false), ⟨s.held, ⟨some [], false, next, [], g.linked⟩⟩) := by
      have hdied : Death.stubDied (notify 1) s
          = .ok (NOERROR, ⟨s.held, ⟨some [], false, next, [], g.linked⟩⟩) := Run.bind_ok hall
      exact Run.bind_ok hdied
    rw [DeathCall.outcome, hrun]
  · simpa using hlist
  · simp

/-- Without a list, a call that needs one does not come to its end. -/
theorem noList (h : Sim before v g) (hlist : ¬ ∃ q, .linkToDeath (some q) ∈ before) :
    DeathCall.outcome .stubDied v = .error (.fault .noList) ∧
      ∀ r, DeathCall.outcome (.unlinkToDeath (some r)) v = .error (.fault .noList) := by
  obtain ⟨mOrgue, mStubDied, next, script, notified⟩ := v
  obtain rfl : mStubDied = false := h.alive
  obtain rfl : mOrgue = none := by
    rw [← h.isSome, Option.not_isSome_iff_eq_none] at hlist
    exact hlist
  exact ⟨rfl, fun r => rfl⟩

theorem died_eq_false (h : Sim before v g) (hd : .stubDied ∉ before) : g.died = false := by
  rwa [← Bool.not_eq_true, h.died]

/-- **One call** that is handled: the code and the registry do the same. -/
theorem step (h : Sim before v g) {c : DeathCall} (hc : c.Handled before) :
    ∃ v', c.outcome v = .ok ((g.call c).1, v') ∧ Sim (before ++ [c]) v' (g.call c).2 := by
  cases c with
  | linkToDeath r =>
    cases r with
    | none => exact ⟨_, rfl, h.same nofun nofun⟩
    | some r =>
      have hd : .stubDied ∉ before := hc.resolve_left nofun
      rw [(call_of_alive (h.died_eq_false hd) r).1]
      exact h.link hd
  | unlinkToDeath r =>
    cases r with
    | none => exact ⟨_, rfl, h.same nofun nofun⟩
    | some r =>
      obtain ⟨hd, hlist, hnot⟩ := hc.resolve_left nofun
      have hr : r ∉ g.linked := by rwa [h.linked hd r]
      rw [(call_of_alive (h.died_eq_false hd) r).2, h.unlink hlist hr, decide_eq_false hr,
        List.erase_of_not_mem hr]
      exact ⟨_, rfl, h.same nofun nofun⟩
  | stubDied =>
    obtain ⟨v', hrun, hsim⟩ := h.stubDied hc
    refine ⟨v', ?_, hsim⟩
    rw [hrun, DeathRegistry.call]
    split
    · next hg => rw [h.gone hg]
    · rfl

theorem outcome_link (h : Sim before v g) (r : ℕ) :
    ∃ v', DeathCall.outcome (.linkToDeath (some r)) v = .ok (⟨NOERROR, false, []⟩, v') := by
  obtain ⟨mOrgue, mStubDied, next, script, notified⟩ := v
  obtain rfl : mStubDied = false := h.alive
  exact ⟨_, rfl⟩

/-- `UnlinkToDeath` says that it has not removed anything. -/
theorem outcome_unlink (h : Sim before v g) {r : ℕ} {o : DeathOutcome} {v' : DeathState}
    (hrun : DeathCall.outcome (.unlinkToDeath (some r)) v = .ok (o, v')) :
    o.ec = NOERROR ∧ o.result = false := by
  obtain ⟨mOrgue, mStubDied, next, script, notified⟩ := v
  obtain rfl : mStubDied = false := h.alive
  rw [DeathCall.outcome] at hrun
  split at hrun
  · next ec result s hperform =>
    cases hrun
    rw [DeathCall.perform, unlinkToDeath, Run.bind_ok get_apply, if_neg Bool.false_ne_true] at hperform
    obtain ⟨c, s₁, -, hend⟩ := Run.bind_eq_ok hperform
    split at hend
    · obtain ⟨_, s₂, -, hend⟩ := Run.bind_eq_ok hend
      cases hend
      exact ⟨rfl, rfl⟩
    · cases hend
      exact ⟨rfl, rfl⟩
  · cases hrun

/-- A call that is not handled: the code does something else. -/
theorem step_ne (h : Sim before v g) {c : DeathCall} (hc : ¬ c.Handled before) (v' : DeathState) :
    c.outcome v ≠ .ok ((g.call c).1, v') := by
  cases c with
  | linkToDeath r =>
    rw [DeathCall.Handled, not_or, not_not, ← h.died] at hc
    obtain ⟨hr, hd⟩ := hc
    obtain ⟨r, rfl⟩ := Option.ne_none_iff_exists'.mp hr
    obtain ⟨v'', hrun⟩ := h.outcome_link r
    rw [hrun, (call_of_died hd r).1]
    intro heq
    cases heq
  | unlinkToDeath r =>
    rw [DeathCall.Handled, not_or] at hc
    obtain ⟨hr, hc⟩ := hc
    obtain ⟨r, rfl⟩ := Option.ne_none_iff_exists'.mp hr
    intro hrun
    obtain ⟨hec, hresult⟩ := h.outcome_unlink hrun
    by_cases hd : .stubDied ∈ before
    · rw [(call_of_died (h.died.mpr hd) r).2] at hec
      exact absurd hec (by decide)
    · by_cases hlist : ∃ q, .linkToDeath (some q) ∈ before
      · -- the recipient is linked, and the registry says that it was removed
        have hlinked : r ∈ g.linked := by
          rw [h.linked hd r]
          by_contra hnot
          exact hc ⟨hd, hlist, hnot⟩
        rw [(call_of_alive (h.died_eq_false hd) r).2, decide_eq_true hlinked] at hresult
        cases hresult
      · rw [(h.noList hlist).2 r] at hrun
        cases hrun
  | stubDied =>
    rw [(h.noList hc).1]
    nofun

/-- The code and the registry do the same in the calls that follow exactly if these are handled. -/
theorem outcomes_eq_iff (h : Sim before v g) (calls : List DeathCall) :
    DeathCall.outcomes calls v = .ok (g.outcomes calls) ↔
      ∀ cs c rest, calls = cs ++ c :: rest → c.Handled (before ++ cs) := by
  induction calls generalizing before v g with
  | nil => exact ⟨fun _ cs c rest hcs => by simp at hcs, fun _ => rfl⟩
  | cons c calls ih =>
    have hsplit : (∀ cs d rest, c :: calls = cs ++ d :: rest → d.Handled (before ++ cs)) ↔
        c.Handled before ∧ ∀ cs d rest, calls = cs ++ d :: rest →
          d.Handled (before ++ [c] ++ cs) := by
      constructor
      · intro hall
        refine ⟨by simpa using hall [] c calls rfl, fun cs d rest hcs => ?_⟩
        rw [List.append_assoc]
        exact hall (c :: cs) d rest (by rw [hcs]; rfl)
      · rintro ⟨hc, hall⟩ cs d rest hcs
        cases cs with
        | nil =>
          cases hcs
          simpa using hc
        | cons c' cs =>
          rw [List.cons_append, List.cons.injEq] at hcs
          obtain ⟨rfl, hcs⟩ := hcs
          have := hall cs d rest hcs
          rwa [List.append_assoc] at this
    rw [hsplit]
    rw [DeathCall.outcomes, DeathRegistry.outcomes]
    by_cases hc : c.Handled before
    · obtain ⟨v', hrun, hsim⟩ := h.step hc
      rw [and_iff_right hc, ← ih hsim, Except.bind_ok hrun]
      constructor
      · intro heq
        obtain ⟨os, hos, heq⟩ := Except.bind_eq_ok heq
        cases heq
        exact hos
      · intro hos
        exact Except.bind_ok hos
    · refine ⟨fun heq => ?_, fun hall => absurd hall.1 hc⟩
      obtain ⟨⟨o, v'⟩, hrun, heq⟩ := Except.bind_eq_ok heq
      obtain ⟨os, -, heq⟩ := Except.bind_eq_ok heq
      cases heq
      exact absurd hrun (h.step_ne hc v')

end DeathRegistry.Sim

end

/-- **Calls on a proxy** have the outcomes that they should have exactly if each is handled. -/
theorem outcomes_iff (calls : List DeathCall) :
    DeathCall.outcomes calls {} = .ok (DeathRegistry.outcomes {} calls) ↔
      ∀ before c after, calls = before ++ c :: after → c.Handled before := by
  have := DeathRegistry.Sim.init.outcomes_eq_iff calls
  simpa only [List.nil_append] using this

/-- A recipient that is linked is unlinked, and `*result` is `FALSE`. -/
theorem not_outcomes_unlink :
    DeathCall.outcomes [.linkToDeath (some 7), .unlinkToDeath (some 7)] {}
      ≠ .ok (DeathRegistry.outcomes {} [.linkToDeath (some 7), .unlinkToDeath (some 7)]) := by
  decide

end ElastosCar
