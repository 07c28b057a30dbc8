import ElastosCar.Marshal.OutLayout
import ElastosCar.Marshal.Results

/-!
# Calls that are carried

The signatures whose arguments arrive at the stub and whose results arrive at the caller, in any
number and order, and what the two sides of such a call have to do.

* A caller passes values that are delivered, and for the results null pointers or variables of its
  own.
* A method is called on the values that were passed, with a slot for every result that the caller
  wants. It leaves the arguments and the tags alone, and stores a result where there is a slot.
-/

namespace ElastosCar

open CRemoteParcel Marshal

/-- An `[in]` parameter whose value is delivered, or an `[out]` one whose result is returned. -/
def Param.Carried (t : Param) : Prop :=
  t.isIn = true ∧ t.isOut = false ∧
      (t.type = .uint8 ∨ t.type = .uint16 ∨ t.type = .uint32 ∨ t.type = .uint64 ∨
        t.type = .emuid ∨ t.type = .string ∨ t.type = .arrayOf) ∨
    t.isIn = false ∧ t.isOut = true ∧ t.Returned

/-- The value is delivered. The stub of android_linux does not allocate an array of a size that
`ArrayOf::Alloc` refuses. -/
def Marshaller.Delivers (m : Marshaller) (v : ArgVal) : Prop :=
  v.Exact ∧ (m = .ipc → ∀ q, v = .array (some q) → refusesSize q.mSize = false)

/-- The result is delivered. -/
def Marshaller.DeliversOut (m : Marshaller) (v : ArgVal) : Prop :=
  m.Returns v ∧ ∀ q, v = .array (some q) → q.Plain ∧ (m = .ipc → refusesSize q.mSize = false)

/-! ### The two sides -/

section

variable {π : Type} (b : Build) (m : Marshaller)

/-- The variable that the pointer at word `i` points to. -/
def Proc.variableAt (c : Proc π) (i : ℕ) : Option ℕ :=
  match c.stack i with
  | .obj a => some a
  | _ => none

/-- What is passed for the parameter `n` at word `i`: a value that is delivered, or null or a
variable for the result. -/
def Proc.Offers (c : Proc π) (n : ℕ) (t : Param) (i : ℕ) : Prop :=
  if t.isOut then
    c.stack i = .null ∨ ∃ a o, c.stack i = .obj a ∧ c.heap.objs[a]? = some o ∧ o.Takes t
  else ∃ v, c.readArg b n t i = some v ∧ m.Delivers v

/-- What is passed for the parameters from index `n` on, at the words from `i` on. -/
def Proc.OffersAll (c : Proc π) : (n : ℕ) → List Param → (i : ℕ) → Prop
  | _, [], _ => True
  | n, t :: ts, i => c.Offers b m n t i ∧ OffersAll c (n + 1) ts (nextArg b c.phase n t i)

/-- The arguments of a call are on the stack of `c`, with a variable of its own for each result. -/
structure Proc.Calls (params : List Param) (c : Proc π) : Prop where
  offers : c.OffersAll b m 0 params 0
  distinct : ((outSlots (nextArg b c.phase) 0 params 0).filterMap c.variableAt).Nodup

/-- The pointers in `s` are to the slots for the results that `c` wants, the first slot being at
word `o` of the out buffer. -/
def Pointed (c s : Proc π) : (n : ℕ) → List Param → (i o : ℕ) → Prop
  | _, [], _, _ => True
  | n, t :: ts, i, o =>
    (t.isOut → c.stack i ≠ .null → s.stack i = .slot (o + 1)) ∧
      Pointed c s (n + 1) ts (nextArg b c.phase n t i)
        (o + (c.sent b n t i).elim 0 (Sent.span .rpc t))

/-- The memory with which the method is called for `c`. -/
structure Proc.CalledFor (params : List Param) (c s : Proc π) : Prop where
  arrived : AllArrived b c s 0 params 0
  laid : Laid .rpc b c s 0 params 0 4
  pointed : Pointed b c s 0 params 0 4
  phase : s.phase = c.phase

end

/-! ### Parameters -/

section

variable {t : Param}

theorem Param.Carried.in_or_out (h : t.Carried) :
    t.isIn = true ∧ t.isOut = false ∨ t.isIn = false ∧ t.isOut = true :=
  h.imp (fun h => ⟨h.1, h.2.1⟩) fun h => ⟨h.1, h.2.1⟩

theorem Param.Carried.out_of_in (h : t.Carried) (hin : t.isIn = true) : t.isOut = false := by
  rcases h.in_or_out with ⟨-, hout⟩ | ⟨hin', -⟩
  · exact hout
  · rw [hin'] at hin
    cases hin

theorem Param.Carried.returned (h : t.Carried) (hout : t.isOut = true) : t.Returned := by
  rcases h with ⟨-, hout', -⟩ | ⟨-, -, h⟩
  · rw [hout'] at hout
    cases hout
  · exact h

theorem Param.Carried.ne_eguid (h : t.Carried) (hin : t.isIn = true) : t.type ≠ .eguid := by
  rcases h with ⟨-, -, h⟩ | ⟨hin', -⟩
  · rcases h with h | h | h | h | h | h | h <;> rw [h] <;> decide
  · rw [hin'] at hin
    cases hin

theorem Param.Returned.slotWords_isSome (h : t.Returned) (m : Marshaller) :
    (slotWords m t).isSome := by
  rcases h with h | h | h | h | h | h | h | ⟨h, -⟩ <;> rw [slotWords, h] <;> rfl

/-- The slots of the two marshallers are the same. -/
theorem Param.Carried.slotWords_eq (h : t.Carried) (m : Marshaller) :
    slotWords m t = slotWords .rpc t := by
  rw [slotWords, slotWords]
  rcases h with ⟨-, -, h | h | h | h | h | h | h⟩ | ⟨-, -, h | h | h | h | h | h | h | ⟨h, -⟩⟩ <;>
    rw [h]

theorem Param.Carried.span_eq (h : t.Carried) (m : Marshaller) (x : Sent) :
    x.span m t = x.span .rpc t := by
  cases x with
  | value v => rfl
  | wanted size => rw [Sent.span, Sent.span, h.slotWords_eq]
  | unwanted => rfl

theorem Param.Carried.slotSpan_eq (h : t.Carried) (m : Marshaller) (x : Option ArgVal) :
    slotSpan m t x = slotSpan .rpc t x := by
  rw [slotSpan, slotSpan, h.slotWords_eq]

theorem Param.Carried.marshalled (h : t.Carried) : t.Marshalled where
  encoded hin := by
    rcases h with ⟨-, -, h⟩ | ⟨hin', -⟩
    · rcases h with h | h | h | h | h | h | h <;> simp [Param.Encoded, h]
    · rw [hin'] at hin
      cases hin
  laidOut hout := (h.returned hout).slotWords_isSome .rpc
  direction := h.in_or_out.imp And.left And.right

/-- The functions that return results find the arguments where they are. -/
theorem Param.Carried.skipArg_eq (h : t.Carried) (b : Build) (phase n i : ℕ) :
    skipArg b phase n t i = nextArg b phase n t i := by
  exact skipArg_eq_nextArg h.ne_eguid h.out_of_in h.marshalled.direction

end

section

variable {b : Build} {phase : ℕ} {params : List Param} (hparams : ∀ t ∈ params, t.Carried)
include hparams

theorem outSlots_skipArg (n i : ℕ) :
    outSlots (skipArg b phase) n params i = outSlots (nextArg b phase) n params i := by
  induction params generalizing n i with
  | nil => rfl
  | cons t ts ih =>
    rw [List.forall_mem_cons] at hparams
    rw [outSlots, outSlots, hparams.1.skipArg_eq, ih hparams.2]

theorem pointerSlots_sizeArg (n i : ℕ) :
    pointerSlots (sizeArg b phase) n params i = pointerSlots (nextArg b phase) n params i := by
  induction params generalizing n i with
  | nil => rfl
  | cons t ts ih =>
    rw [List.forall_mem_cons] at hparams
    rw [pointerSlots, pointerSlots, sizeArg_eq_nextArg hparams.1.ne_eguid, ih hparams.2]

end

/-! ### The request -/

section

variable {π τ : Type} {S : Stream π τ} {P : IParcel π} {m : Marshaller} {b : Build} {c : Proc π}
  {params : List Param}

/-- What is passed for a result is null or not. -/
theorem Proc.Offers.sent_out {n i : ℕ} {t : Param} (ht : t.Carried) (hout : t.isOut = true) :
    c.sent b n t i = some (if c.stack i = .null then .unwanted else .wanted none) := by
  have hin : t.isIn = false := by
    rcases ht.in_or_out with ⟨-, hout'⟩ | ⟨hin, -⟩
    · rw [hout'] at hout
      cases hout
    · exact hin
  have harr : ¬ (t.isArray = true ∧ ¬ t.isCallee = true) := by
    rintro ⟨harr, hcallee⟩
    rcases ht.returned hout with h | h | h | h | h | h | h | ⟨-, h⟩
    case inr.inr.inr.inr.inr.inr.inr => exact hcallee h
    all_goals simp [Param.isArray, h] at harr
  rw [Proc.sent, if_neg (by simp [hin]), if_neg harr]
  split <;> rfl

/-- The value of an `[in]` argument is delivered. -/
theorem Proc.Offers.sent_in {n i : ℕ} {t : Param} (ht : t.Carried) (hout : t.isOut = false)
    (h : c.Offers b m n t i) :
    ∃ v, c.readArg b n t i = some v ∧ c.sent b n t i = some (.value v) ∧ m.Delivers v ∧
      t.isIn = true := by
  have hin : t.isIn = true := by
    rcases ht.in_or_out with ⟨hin, -⟩ | ⟨-, hout'⟩
    · exact hin
    · rw [hout'] at hout
      cases hout
  rw [Proc.Offers, if_neg (by simp [hout])] at h
  obtain ⟨v, hv, hdelivers⟩ := h
  exact ⟨v, hv, by rw [Proc.sent, if_pos hin, hv, Option.map_some], hdelivers, hin⟩

/-- A value that is delivered is one that linux_rpc carries. -/
theorem ArgVal.Exact.carries {E : RpcEnv} {body : Itf → List UInt8} {v : ArgVal} (h : v.Exact) :
    RpcCarries E.itfs body v := by
  cases v with
  | array q =>
    cases q with
    | none => exact h.elim
    | some q => exact lawfulArray_of_plain h
  | struct _ _ | interface _ => exact h.elim
  | word _ | dword _ | emuid _ | eguid _ _ | string _ => trivial

/-- What a caller passes is `ok` if its values and its pointers for results are. -/
theorem Proc.OffersAll.passes_of {ok : Param → Sent → Prop} (hparams : ∀ t ∈ params, t.Carried)
    (hvalue : ∀ t v, t.Carried → t.isIn = true → t.isOut = false → m.Delivers v → ok t (.value v))
    (hresult : ∀ t x, t.Carried → t.isOut = true → (∀ v, x ≠ .value v) → ok t x) {n i : ℕ}
    (h : c.OffersAll b m n params i) : c.Passes b ok n params i := by
  induction params generalizing n i with
  | nil => trivial
  | cons t ts ih =>
    rw [List.forall_mem_cons] at hparams
    refine ⟨?_, ih hparams.2 h.2⟩
    by_cases hout : t.isOut = true
    · refine ⟨_, Proc.Offers.sent_out hparams.1 hout, hresult t _ hparams.1 hout fun v => ?_⟩
      split <;> exact Sent.noConfusion
    · have hout' : t.isOut = false := by simpa using hout
      obtain ⟨v, -, hsent, hdelivers, hin⟩ := h.1.sent_in hparams.1 hout'
      exact ⟨_, hsent, hvalue t v hparams.1 hin hout' hdelivers⟩

/-- **What a caller passes** is accepted by the stub. -/
theorem Proc.OffersAll.passes {C : Codec S P} (hC : ∀ v, m.Delivers v → C.Carries v)
    (hparams : ∀ t ∈ params, t.Carried) {n i : ℕ} (h : c.OffersAll b m n params i) :
    c.Passes b (C.Accepts m) n params i := by
  refine h.passes_of hparams (fun t v ht hin hout hv => ⟨hout, hC v hv, ht.ne_eguid hin⟩)
    fun t x ht hout hx => ?_
  cases x with
  | value v => exact absurd rfl (hx v)
  | wanted _ | unwanted => exact ⟨hout, (ht.returned hout).slotWords_isSome m⟩

/-- A result that a caller may ask for takes room in the out buffer. -/
theorem Proc.OffersAll.outSpan_pos (hparams : ∀ t ∈ params, t.Carried) {n i : ℕ}
    (h : c.OffersAll b m n params i) (hout : params.any (·.isOut)) :
    0 < c.outSpan b m n params i := by
  induction params generalizing n i with
  | nil => cases hout
  | cons t ts ih =>
    rw [List.forall_mem_cons] at hparams
    rw [Proc.outSpan]
    rw [List.any_cons, Bool.or_eq_true] at hout
    rcases hout with hout | hout
    · rw [Proc.Offers.sent_out hparams.1 hout, Option.elim_some]
      split <;> simp only [Sent.span] <;> omega
    · have := ih hparams.2 h.2 hout
      omega

/-- **The estimate** is made, and where there are results it is not zero, also with the size of a
header added. -/
theorem bufferSize_of_offers (rawLen : Word → UInt32) (hparams : ∀ t ∈ params, t.Carried)
    (hlen : params.length < 256) (h : c.OffersAll b m 0 params 0) :
    ∃ z j, proxyProcessMshBufferSize m b rawLen params (c.sizing {} 0)
        = .ok (NOERROR, c.sizing z j) ∧
      (params.any (·.isOut) → z.outSize ≠ 0 ∧ z.outSize + 16 ≠ 0) := by
  have hpasses : c.Passes b (fun _ _ => True) 0 params 0 :=
    h.passes_of hparams (fun _ _ _ _ _ _ => trivial) fun _ _ _ _ _ => trivial
  obtain ⟨z, j, hrun, hz⟩ := bufferSize_spec (m := m) rawLen params
    (fun t ht => (hparams t ht).marshalled) (fun t ht => (hparams t ht).out_of_in)
    0 0 0 {} hpasses (pointerSlots_sizeArg hparams 0 0)
  refine ⟨z, j, hrun, fun hout => ?_⟩
  have hpos := h.outSpan_pos hparams hout
  have hle := outSpan_le (b := b) m c params 0 0
  have hz' : z.outSize.toNat = 4 * c.outSpan b m 0 params 0 := by
    rw [hz, UInt32.zero_add, UInt32.toNat_ofNat_of_lt' (show _ < 4294967296 by omega)]
  constructor <;> intro hzero <;> have hnat := congrArg UInt32.toNat hzero
  · rw [hz', UInt32.toNat_zero] at hnat
    omega
  · rw [UInt32.toNat_add, hz', UInt32.toNat_zero] at hnat
    simp only [UInt32.reduceToNat] at hnat
    omega

end

/-! What is on the wire does not depend on the process. -/

section

variable {E E' : RpcEnv} {henv : E.alloc.Succeeds} {henv' : E'.alloc.Succeeds}
  {body body' : Itf → List UInt8} {m : Marshaller} {b : Build} {c : Proc CRemoteParcel}
  {params : List Param}

theorem wireArg_of_exact {v : ArgVal} (h : v.Exact) :
    wireArg E.itfs body v = wireArg E'.itfs body' v := by
  cases v with
  | array q =>
    cases q with
    | none => rfl
    | some q =>
      have hplain : q.Plain := h
      rw [wireArg, wireArg, wireArrayOf_plain hplain, wireArrayOf_plain hplain]
  | struct _ _ | interface _ => exact h.elim
  | word _ | dword _ | emuid _ | eguid _ _ | string _ => rfl

variable (E' henv' body') in
theorem request_env (hparams : ∀ t ∈ params, t.Carried) {n i : ℕ}
    (h : c.OffersAll b m n params i) : (rpcCodec E henv body).request b c n params i
      = (rpcCodec E' henv' body').request b c n params i := by
  induction params generalizing n i with
  | nil => rfl
  | cons t ts ih =>
    rw [List.forall_mem_cons] at hparams
    rw [Codec.request, Codec.request, ih hparams.2 h.2]
    by_cases hout : t.isOut = true
    · rw [Proc.Offers.sent_out hparams.1 hout]
      split <;> rfl
    · obtain ⟨v, -, hsent, hdelivers, -⟩ := h.1.sent_in hparams.1 (by simpa using hout)
      rw [hsent]
      exact congrArg (· ++ _) (wireArg_of_exact hdelivers.1)

variable (E' henv') in
theorem reply_env {s : Proc CRemoteParcel} {o : ℕ} (hparams : ∀ t ∈ params, t.Carried)
    (h : s.Stores .rpc (fun _ x => ∀ v, x = some v → m.DeliversOut v) params o) :
    (rpcOutCodec E henv).reply .rpc s params o
      = (rpcOutCodec E' henv').reply .rpc s params o := by
  induction params generalizing o with
  | nil => rfl
  | cons t ts ih =>
    rw [List.forall_mem_cons] at hparams
    rw [Proc.Stores] at h
    rw [OutCodec.reply, OutCodec.reply]
    split at h
    · next hout =>
      obtain ⟨x, hx, hxok, hrest⟩ := h
      rw [if_pos hout, if_pos hout, hx, Option.elim_some, Option.elim_some, Option.elim_some,
        ih hparams.2 hrest]
      refine congrArg (· ++ _) ?_
      cases x with
      | none => rfl
      | some v =>
        refine congrArg (wire32 MSH_NOT_NULL ++ ·) ?_
        have hdelivers : (rpcOutCodec E henv).Delivers .rpc t (some v) :=
          delivers_of_returned (hparams.1.returned hout) hx fun q hq => ((hxok _ hq).2 q rfl).1
        have hreturns := hdelivers.1.1
        change wireArg E.itfs _ v = wireArg E'.itfs _ v
        cases v with
        | array q =>
          cases q with
          | none => rfl
          | some q => exact wireArg_of_exact ((hxok _ rfl).2 q rfl).1
        | struct bs size =>
          cases bs <;> rfl
        | eguid _ _ | interface _ => exact hreturns.elim
        | word _ | dword _ | emuid _ | string _ => rfl
    · next hout =>
      rw [if_neg hout, if_neg hout, ih hparams.2 h]

end

/-! ### What the method is called with -/

section

variable {π : Type} {m : Marshaller} {b : Build} {c s t : Proc π} {params : List Param}

/-- The slot of an `[out]` parameter is where its argument points to. -/
theorem layOut_pointed {P : IParcel π} {p : Param} {s s' : Proc π} {o : ℕ}
    (hp : p.Returned) (ho : s.out = some o) (h : layOut m P p s = .ok (none, s')) :
    s'.stack s.args = .slot o ∧ s'.args = s.args := by
  obtain ⟨parcel, args, stack, out, buffer, heap, addr, phase⟩ := s
  dsimp only at ho
  subst ho
  rcases hp with ht | ht | ht | ht | ht | ht | ht | ⟨ht, hcallee⟩ <;> simp only [layOut, ht] at h
  case inr.inr.inr.inr.inr.inr.inr =>
    simp only [hcallee, not_true_eq_false, if_false] at h
    cases h
    exact ⟨Function.update_self _ _ _, rfl⟩
  all_goals
    cases h
    exact ⟨Function.update_self _ _ _, rfl⟩

theorem pointed_of_unmshInOut {P : IParcel π} {p : Param} {s s' : Proc π} {o : ℕ}
    (hp : p.Returned) (ho : s.out = some o) (h : unmshInOut m P p s = .ok (none, s')) :
    s'.stack s.args = .null ∨ s'.stack s.args = .slot (o + 1) := by
  obtain ⟨parcel, args, stack, out, buffer, heap, addr, phase⟩ := s
  dsimp only at ho
  subst ho
  rw [unmshInOut, Run.get_bind, Run.bind_ok rfl] at h
  obtain ⟨⟨ec, v⟩, s₁, hread, h⟩ := Run.bind_eq_ok h
  rw [Marshal.read] at hread
  split at hread
  swap
  · cases hread
  cases hread
  dsimp only at h
  split at h
  · rw [Run.bind_ok rfl, Run.bind_ok rfl] at h
    obtain ⟨r, s₂, hlay, h⟩ := Run.bind_eq_ok h
    cases r with
    | some ec => cases h
    | none =>
      cases h
      exact .inr (layOut_pointed hp rfl hlay).1
  split at h
  · cases h
    exact .inl (Function.update_self _ _ _)
  · cases h

/-- **The pointers of the method** are to the slots that the results are taken from. -/
theorem pointed_of_unmshIn {τ : Type} {S : Stream π τ} {P : IParcel π} (C : Codec S P)
    (hparams : ∀ p ∈ params, p.Carried) :
    ∀ (n i o : ℕ) (s s' : Proc π) (rest : List τ), c.Passes b (C.Accepts m) n params i →
      s.args = i → (∀ p ∈ params, p.isOut → s.out = some o) → s.phase = c.phase →
      S.Left (C.request b c n params i ++ rest) s.parcel →
      process (unmshInStep m b P) n params s = .ok (NOERROR, s') →
      Pointed b c s' n params i o := by
  induction params with
  | nil => exact fun _ _ _ _ _ _ _ _ _ _ _ _ => trivial
  | cons p ps ih =>
    rintro n i o s s' rest ⟨⟨x, hx, hok⟩, hrest⟩ rfl ho hphase hleft hrun
    rw [List.forall_mem_cons] at hparams ho
    rw [Codec.request, hx, Option.elim_some, List.append_assoc] at hleft
    obtain ⟨s₁, hstep, hleft₁, hargs, hout, hframe, harr, -⟩ := unmshInStep_spec C hx hok
      (fun h => by rw [ho.1 h]; rfl) hphase hleft
    have hphase₁ : s₁.phase = c.phase := hframe.phase.trans hphase
    have hout₁ : ∀ q ∈ ps, q.isOut → s₁.out = some (o + x.span m p) := fun q hq hqout => by
      rw [hout, ho.2 q hq hqout, Option.map_some]
    rw [process, Run.bind_ok hstep] at hrun
    obtain ⟨s₂, hrun', -, -, -, hframe', -, -⟩ := unmshIn_spec C c ps (n + 1) _ s₁ rest hrest hargs
      (fun q hq hqout => by rw [hout₁ q hq hqout]; rfl) hphase₁ hleft₁
    obtain rfl : s₂ = s' := (Prod.mk.inj (Except.ok.inj (hrun'.symm.trans hrun))).2
    refine ⟨fun hisOut hne => ?_, ?_⟩
    · -- later steps leave the pointer alone
      have hlt := lt_nextArg (b := b) c.phase n p s.args
      rw [hframe'.stack s.args (.inl hlt)]
      rw [unmshInStep, if_pos hisOut] at hstep
      have hin : p.isIn = false := by
        rcases hparams.1.in_or_out with ⟨-, hout'⟩ | ⟨hin, -⟩
        · rw [hout'] at hisOut
          cases hisOut
        · exact hin
      rw [Arrived, if_neg (by simp [hin])] at harr
      exact (pointed_of_unmshInOut (hparams.1.returned hisOut) (ho.1 hisOut) hstep).resolve_left
        fun hnull => hne (harr.mp hnull)
    · rw [hx, Option.elim_some, ← hparams.1.span_eq m]
      exact ih hparams.2 (n + 1) _ _ s₁ s₂ rest hrest hargs hout₁ hphase₁ hleft₁ hrun

/-! ### What the method leaves -/

theorem slot_of_tag {p : Param} {o : ℕ} {x : Option ArgVal} {y : Sent}
    (htag : s.outBuffer o = .num y.tag) (hx : s.slot p o = some x) :
    x = none ↔ y.tag = MSH_NULL := by
  rw [Proc.slot, Proc.outAt, htag, Word.bits_num] at hx
  split at hx
  · next hnull =>
    cases hx
    exact iff_of_true rfl hnull
  · next hnull =>
    split at hx
    · obtain ⟨v, -, rfl⟩ := Option.map_eq_some_iff.mp hx
      exact iff_of_false (Option.some_ne_none v) hnull
    · cases hx

/-- The slot of a result: empty where the caller passed null, and as long as it was laid out. -/
theorem slot_of_laid {ok : Param → Option ArgVal → Prop} {p : Param} {ps : List Param} {n i o : ℕ}
    (hp : p.Carried) (hout : p.isOut = true) (hlaid : Laid .rpc b c t n (p :: ps) i o)
    (hstores : t.Stores .rpc ok (p :: ps) o) :
    ∃ x, t.slot p o = some x ∧ (x = none ↔ c.stack i = .null) ∧
      Laid .rpc b c t (n + 1) ps (nextArg b c.phase n p i) (o + slotSpan .rpc p x) ∧
      t.Stores .rpc ok ps (o + slotSpan .rpc p x) := by
  have hsent : c.sent b n p i = some (if c.stack i = .null then .unwanted else .wanted none) :=
    Proc.Offers.sent_out hp hout
  rw [Proc.Stores, if_pos hout] at hstores
  obtain ⟨x, hx, -, hrest⟩ := hstores
  obtain ⟨htag, htail⟩ := hlaid
  have hnone := slot_of_tag (htag _ hsent hout) hx
  rw [hsent, Option.elim_some] at htail
  by_cases hnull : c.stack i = .null
  · rw [if_pos hnull] at hnone htail
    obtain rfl := hnone.mpr rfl
    exact ⟨none, hx, iff_of_true rfl hnull, htail, hrest⟩
  · rw [if_neg hnull] at hnone htail
    obtain ⟨v, rfl⟩ := Option.ne_none_iff_exists'.mp fun h => MSH_NOT_NULL_ne (hnone.mp h)
    exact ⟨some v, hx, iff_of_false (Option.some_ne_none v) hnull, htail, hrest⟩

/-- **The results fit** the variables of the caller. -/
theorem fits_outArgs {ok : Param → Option ArgVal → Prop} (hparams : ∀ p ∈ params, p.Carried) :
    ∀ {n i o : ℕ}, c.OffersAll b m n params i → Laid .rpc b c t n params i o →
      t.Stores .rpc ok params o →
      ∀ r ∈ outArgs .rpc t c params (outSlots (nextArg b c.phase) n params i) o,
        r.Fits c.heap := by
  induction params with
  | nil => exact fun _ _ _ => List.forall_mem_nil _
  | cons p ps ih =>
    rintro n i o ⟨hoffer, hoffers⟩ hlaid hstores
    rw [List.forall_mem_cons] at hparams
    rw [outArgs, outSlots]
    by_cases hout : p.isOut = true
    · obtain ⟨x, hx, hnone, hlaid', hstores'⟩ := slot_of_laid hparams.1 hout hlaid hstores
      rw [if_pos hout, if_pos hout, hx]
      refine List.forall_mem_cons.mpr ⟨?_, ih hparams.2 hoffers hlaid' hstores'⟩
      rw [Proc.Offers, if_pos hout] at hoffer
      cases x with
      | none => exact hnone.mp rfl
      | some v => exact hoffer.resolve_left fun h => by cases hnone.mpr h
    · rw [if_neg hout, if_neg hout]
      rw [Proc.Stores, if_neg hout] at hstores
      have hlaid' := hlaid.2
      obtain ⟨v, -, hsent, -, -⟩ := hoffer.sent_in hparams.1 (by simpa using hout)
      rw [hsent] at hlaid'
      exact ih hparams.2 hoffers hlaid' hstores

theorem targets_outArgs {ρ : Type} (m : Marshaller) (t : Proc ρ) (c : Proc π)
    (next : ℕ → Param → ℕ → ℕ) (params : List Param) (n i o : ℕ) :
    targets (outArgs m t c params (outSlots next n params i) o)
      = (outSlots next n params i).filterMap c.variableAt := by
  induction params generalizing n i o with
  | nil => rfl
  | cons p ps ih =>
    rw [outArgs, outSlots]
    by_cases hout : p.isOut = true
    · rw [if_pos hout, if_pos hout, targets_cons]
      change (c.variableAt i).toList ++ _ = _
      rw [List.tail_cons, ih, List.filterMap_cons]
      cases c.variableAt i <;> rfl
    · rw [if_neg hout, if_neg hout, ih]

/-- **The arguments can be released**: they are what the stub has made of the values that were
passed. -/
theorem releases_of_allArrived (hparams : ∀ p ∈ params, p.Carried) (hphase : s.phase = c.phase) :
    ∀ {n i : ℕ}, c.OffersAll b m n params i → AllArrived b c s n params i →
      s.Releases b n params i := by
  induction params with
  | nil => exact fun _ _ => trivial
  | cons p ps ih =>
    rintro n i ⟨hoffer, hoffers⟩ ⟨harr, harrived⟩
    rw [List.forall_mem_cons] at hparams
    refine ⟨fun hout => ?_, ?_⟩
    · obtain ⟨v, hv, -, hdelivers, hin⟩ := hoffer.sent_in hparams.1 hout
      rw [Arrived, if_pos hin] at harr
      obtain ⟨v', hv', -⟩ := harr v hv hdelivers.1
      have htype : p.type = .uint8 ∨ p.type = .uint16 ∨ p.type = .uint32 ∨ p.type = .uint64 ∨
          p.type = .emuid ∨ p.type = .string ∨ p.type = .arrayOf := by
        rcases hparams.1 with ⟨-, -, h⟩ | ⟨hin', -⟩
        · exact h
        · rw [hin'] at hin
          cases hin
      rw [Heap.Releasable]
      rw [Proc.readArg] at hv'
      rcases htype with h | h | h | h | h | h | h <;> rw [h] at hv' ⊢
      case inr.inr.inr.inr.inr.inl =>
        obtain ⟨str, hstr, -⟩ := Option.map_eq_some_iff.mp hv'
        obtain ⟨a, ha, -⟩ := string?_eq_some hstr
        exact .inr ⟨a, ha⟩
      case inr.inr.inr.inr.inr.inr =>
        dsimp only at hv' ⊢
        split at hv'
        · next hnull => exact .inl hnull
        · obtain ⟨q, hq, -⟩ := Option.map_eq_some_iff.mp hv'
          exact .inr (by rw [hq]; rfl)
      all_goals trivial
    · rw [hparams.1.skipArg_eq, hphase]
      exact ih hparams.2 hoffers harrived

/-! The slots are where linux_rpc has them. -/

theorem Laid.toRpc (hparams : ∀ p ∈ params, p.Carried) {n i o : ℕ}
    (h : Laid m b c s n params i o) : Laid .rpc b c s n params i o := by
  induction params generalizing n i o with
  | nil => trivial
  | cons p ps ih =>
    rw [List.forall_mem_cons] at hparams
    have hspan : Sent.span m p = Sent.span .rpc p := funext (hparams.1.span_eq m)
    rw [Laid, hspan] at h
    exact ⟨h.1, ih hparams.2 h.2⟩

theorem Proc.Stores.ofRpc {ok : Param → Option ArgVal → Prop} (hparams : ∀ p ∈ params, p.Carried)
    {o : ℕ} (h : t.Stores .rpc ok params o) : t.Stores m ok params o := by
  induction params generalizing o with
  | nil => trivial
  | cons p ps ih =>
    rw [List.forall_mem_cons] at hparams
    rw [Proc.Stores] at h ⊢
    split at h
    · next hout =>
      obtain ⟨x, hx, hxok, hrest⟩ := h
      rw [if_pos hout]
      refine ⟨x, hx, hxok, ?_⟩
      rw [hparams.1.slotSpan_eq]
      exact ih hparams.2 hrest
    · next hout =>
      rw [if_neg hout]
      exact ih hparams.2 h

theorem outArgs_toRpc {ρ : Type} {c : Proc ρ} (hparams : ∀ p ∈ params, p.Carried)
    (slots : List ℕ) (o : ℕ) : outArgs m t c params slots o = outArgs .rpc t c params slots o := by
  induction params generalizing slots o with
  | nil => rfl
  | cons p ps ih =>
    rw [List.forall_mem_cons] at hparams
    rw [outArgs, outArgs]
    dsimp only
    rw [hparams.1.slotSpan_eq m, ih hparams.2, ih hparams.2]

/-- Where nothing is to be returned, the arguments are released and the reply is left alone. -/
theorem process_release {P : IParcel π} {onlyReleaseIn : Bool}
    (hnone : onlyReleaseIn = true ∨ ∀ p ∈ params, p.isOut = false) (n : ℕ) (s : Proc π)
    (hrel : s.Releases b n params s.args) :
    ∃ s', process (mshOutStep m b P onlyReleaseIn) n params s = .ok (NOERROR, s') ∧
      s'.parcel = s.parcel := by
  induction params generalizing n s with
  | nil => exact ⟨s, rfl, rfl⟩
  | cons p ps ih =>
    rw [List.forall_mem_cons] at hnone
    have hstep : ∃ out ev, mshOutStep m b P onlyReleaseIn n p s
        = .ok (none, s.moved s.parcel (skipArg b s.phase n p s.args) out ev) := by
      by_cases hout : p.isOut = true
      · have honly : onlyReleaseIn = true := hnone.resolve_right fun h => by
          rw [h.1] at hout
          cases hout
        refine ⟨s.out, s.heap.events, ?_⟩
        rw [mshOutStep, if_pos hout, mshOutOut, bumpArgs_bind, if_pos honly, skipArg, if_pos hout]
        rfl
      · have hout' : p.isOut = false := by simpa using hout
        obtain ⟨ev, hrun⟩ := mshOutIn_spec (b := b) (n := n) hout' (hrel.1 hout')
        exact ⟨s.out, ev, by rw [mshOutStep, if_neg hout, hrun]⟩
    obtain ⟨out, ev, hrun⟩ := hstep
    obtain ⟨s', hrun', hparcel⟩ := ih (hnone.imp_right And.right) (n + 1) _
      (hrel.2.moved s.parcel _ out ev)
    refine ⟨s', ?_, hparcel⟩
    rw [process, Run.bind_ok hrun]
    exact hrun'

theorem reply_of_no_out {τ : Type} {S : Stream π τ} {P : IParcel π}
    (C : OutCodec S P) (hout : ∀ p ∈ params, p.isOut = false) (o : ℕ) :
    C.reply m s params o = [] := by
  induction params with
  | nil => rfl
  | cons p ps ih =>
    rw [List.forall_mem_cons] at hout
    rw [OutCodec.reply, if_neg (by simp [hout.1]), ih hout.2]

theorem outArgs_of_no_out {ρ : Type} {c : Proc ρ}
    (hout : ∀ p ∈ params, p.isOut = false) (slots : List ℕ) (o : ℕ) :
    outArgs m s c params slots o = [] := by
  induction params generalizing slots o with
  | nil => rfl
  | cons p ps ih =>
    rw [List.forall_mem_cons] at hout
    rw [outArgs, if_neg (by simp [hout.1]), ih hout.2]

end

end ElastosCar
