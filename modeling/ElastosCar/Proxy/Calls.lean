import ElastosCar.Marshal.Carried
import ElastosCar.Proxy.Entry

/-!
# The two sides of a call

What a call comes down to, whichever marshaller and parcel carry the values: the stub calls the
method on memory that holds what the caller has passed (`CalledFor`), the method returns
(`Answers`), and its results are read to the variables of the caller.

* `OutCodec.Complete` says that a wire format delivers what its marshaller does.
* A request is left to read, or has been written, behind other symbols: the header of a request and
  the code in a reply.
-/

namespace ElastosCar

open Marshal

/-- The method `m` of the interface `i` is not oneway, and its parameters are of types that are
carried. The indices fit in the header of a request. -/
structure CObjectStub.Provides (stub : CObjectStub) (i m : ℕ) (info : CIInterfaceInfo)
    (methodInfo : CIMethodInfo) : Prop where
  interface_lt : i < 32768
  method_lt : m < 32764
  interface : stub.mInfo.mInterfaces[i]? = some info
  method : info.mMethods[m]? = some methodInfo
  waits : methodInfo.oneway = false
  carried : ∀ p ∈ methodInfo.mParams, p.Carried
  few : methodInfo.mParams.length < 256

/-- The proxy finds the method. -/
theorem CObjectStub.Provides.method_ofNat {stub : CObjectStub} {i m : ℕ} {info : CIInterfaceInfo}
    {methodInfo : CIMethodInfo} (h : stub.Provides i m info methodInfo) :
    info.mMethods[(UInt32.ofNat m).toNat]? = some methodInfo := by
  have hm := h.method_lt
  rw [UInt32.toNat_ofNat_of_lt' (show m < 4294967296 by omega)]
  exact h.method

/-- The method has been called on `s` and has returned `ec`. The arguments are as before, and so are
the tags of the slots; if it has succeeded there is a result in every slot. -/
structure Proc.Answers (b : Build) (m : Marshaller) (params : List Param) (c s t : Proc Unit)
    (ec : ECode) : Prop where
  stack : t.stack = s.stack
  phase : t.phase = s.phase
  addr : t.addr = s.addr
  objs : s.heap.objs <+: t.heap.objs
  tags : ∀ (k : ℕ) (p : Param) (o : ℕ), params[k]? = some p → p.isOut →
    (outPlaces .rpc b c 0 params 0 4)[k]? = some o → t.outBuffer o = s.outBuffer o
  stores : failed ec = false →
    t.Stores .rpc (fun _ x => ∀ v, x = some v → m.DeliversOut v) params 4

/-- The wire format carries the values and the results that the marshaller delivers. -/
structure OutCodec.Complete {π τ : Type} {S : Stream π τ} {P : IParcel π} (C : OutCodec S P)
    (m : Marshaller) : Prop where
  carries : ∀ v, m.Delivers v → C.Carries v
  carriesOut : ∀ {s : Proc π} {t : Param} {o : ℕ} {v : ArgVal}, s.readOut t o = some v →
    m.DeliversOut v → C.CarriesOut v

/-- The results have been returned to the caller: they are in its variables, and no other object of
it has changed. -/
structure Proc.Receives {π : Type} (rs : List OutArg) (c : Proc Unit) (c' : Proc π) : Prop where
  /-- There is a result for every variable. -/
  wanted : ∀ r ∈ rs, r.value = none → r.ptr = .null
  arrived : ∀ r ∈ rs, r.Arrived c.heap c'.heap
  changed : (c.call c'.parcel none).Changed c' (targets rs)

/-! ### Memory -/

section

variable {π ρ : Type} {m : Marshaller} {b : Build} {c s t : Proc π} {c' s' t' : Proc ρ}
  {params : List Param}

/-- The same memory, whatever the parcels and the positions are. -/
structure Proc.SameMemory (s : Proc π) (s' : Proc ρ) : Prop where
  stack : s'.stack = s.stack
  outBuffer : s'.outBuffer = s.outBuffer
  heap : s'.heap = s.heap
  addr : s'.addr = s.addr
  phase : s'.phase = s.phase

theorem Proc.sameMemory_call (s : Proc π) (p : ρ) (out : Option ℕ) :
    s.SameMemory (s.call p out) := ⟨rfl, rfl, rfl, rfl, rfl⟩

theorem Proc.OffersAll.of_same {n i : ℕ} (h : c.OffersAll b m n params i) (hc : c.SameMemory c') :
    c'.OffersAll b m n params i := by
  obtain ⟨_, _, _, _, _, _, _, _⟩ := c'
  obtain ⟨rfl, rfl, rfl, rfl, rfl⟩ := hc
  induction params generalizing n i with
  | nil => trivial
  | cons u us ih => exact ⟨h.1, ih h.2⟩

theorem AllArrived.of_same {n i : ℕ} (h : AllArrived b c s n params i) (hc : c.SameMemory c')
    (hs : s.SameMemory s') : AllArrived b c' s' n params i := by
  obtain ⟨_, _, _, _, _, _, _, _⟩ := c'
  obtain ⟨_, _, _, _, _, _, _, _⟩ := s'
  obtain ⟨rfl, rfl, rfl, rfl, rfl⟩ := hc
  obtain ⟨rfl, rfl, rfl, rfl, rfl⟩ := hs
  induction params generalizing n i with
  | nil => trivial
  | cons u us ih => exact ⟨h.1, ih h.2⟩

theorem Laid.of_same {n i o : ℕ} (h : Laid m b c s n params i o)
    (hc : c.SameMemory c') (hs : s.SameMemory s') : Laid m b c' s' n params i o := by
  obtain ⟨_, _, _, _, _, _, _, _⟩ := c'
  obtain ⟨_, _, _, _, _, _, _, _⟩ := s'
  obtain ⟨rfl, rfl, rfl, rfl, rfl⟩ := hc
  obtain ⟨rfl, rfl, rfl, rfl, rfl⟩ := hs
  induction params generalizing n i o with
  | nil => trivial
  | cons u us ih => exact ⟨h.1, ih h.2⟩

theorem Pointed.of_same {n i o : ℕ} (h : Pointed b c s n params i o)
    (hc : c.SameMemory c') (hs : s.SameMemory s') : Pointed b c' s' n params i o := by
  obtain ⟨_, _, _, _, _, _, _, _⟩ := c'
  obtain ⟨_, _, _, _, _, _, _, _⟩ := s'
  obtain ⟨rfl, rfl, rfl, rfl, rfl⟩ := hc
  obtain ⟨rfl, rfl, rfl, rfl, rfl⟩ := hs
  induction params generalizing n i o with
  | nil => trivial
  | cons u us ih => exact ⟨h.1, ih h.2⟩

theorem Proc.Stores.of_same {ok : Param → Option ArgVal → Prop} {o : ℕ}
    (h : t.Stores m ok params o) (ht : t.SameMemory t') : t'.Stores m ok params o := by
  obtain ⟨_, _, _, _, _, _, _, _⟩ := t'
  obtain ⟨rfl, rfl, rfl, rfl, rfl⟩ := ht
  induction params generalizing o with
  | nil => trivial
  | cons u us ih =>
    rw [Proc.Stores] at h ⊢
    split at h
    · next hout =>
      rw [if_pos hout]
      obtain ⟨x, hx, hok, hrest⟩ := h
      exact ⟨x, hx, hok, ih hrest⟩
    · next hout =>
      rw [if_neg hout]
      exact ih h

theorem outArgs_of_same {slots : List ℕ} {o : ℕ} (ht : t.SameMemory t')
    (hc : c.SameMemory c') : outArgs m t' c' params slots o = outArgs m t c params slots o := by
  obtain ⟨_, _, _, _, _, _, _, _⟩ := c'
  obtain ⟨_, _, _, _, _, _, _, _⟩ := t'
  obtain ⟨rfl, rfl, rfl, rfl, rfl⟩ := hc
  obtain ⟨rfl, rfl, rfl, rfl, rfl⟩ := ht
  induction params generalizing slots o with
  | nil => rfl
  | cons u us ih =>
    rw [outArgs, outArgs]
    split
    · exact congrArg (_ :: ·) ih
    · exact ih

theorem Proc.Releases.of_eq {n i : ℕ} (h : s.Releases b n params i) (hstack : s'.stack = s.stack)
    (hheap : s'.heap = s.heap) (hphase : s'.phase = s.phase) : s'.Releases b n params i := by
  obtain ⟨_, _, _, _, _, _, _, _⟩ := s'
  dsimp only at hstack hheap hphase
  subst hstack hheap hphase
  induction params generalizing n i with
  | nil => trivial
  | cons u us ih => exact ⟨h.1, ih h.2⟩

/-- Arguments that are left alone have arrived. -/
theorem AllArrived.frame {n i : ℕ} (h : AllArrived b c s n params i) (hphase : s.phase = c.phase)
    (hframe : ∀ j, s.Frame t j j 0 0) : AllArrived b c t n params i := by
  induction params generalizing n i with
  | nil => trivial
  | cons u us ih =>
    refine ⟨(hframe (nextArg b c.phase n u i)).arrived ?_ h.1, ih h.2⟩
    rw [hphase]

end

theorem laid_of_no_out {π : Type} {m : Marshaller} {c s : Proc π} {params : List Param}
    (hout : ∀ t ∈ params, t.isOut = false) {n i o : ℕ} : Laid m b c s n params i o := by
  induction params generalizing n i o with
  | nil => trivial
  | cons t ts ih =>
    rw [List.forall_mem_cons] at hout
    refine ⟨fun x _ ho => ?_, ih hout.2⟩
    rw [hout.1] at ho
    cases ho

/-! ### What a slot holds -/

section

variable {π τ : Type} {S : Stream π τ} {P : IParcel π} {m : Marshaller} {s : Proc π} {t : Param}
  {o : ℕ}

theorem readOut_of_slot {v : ArgVal} (h : s.slot t o = some (some v)) :
    s.readOut t (o + 1) = some v := by
  rw [Proc.slot] at h
  split at h
  · cases h
  · split at h
    · obtain ⟨v', hv, hvv⟩ := Option.map_eq_some_iff.mp h
      cases hvv
      exact hv
    · cases h

/-- What the method has stored is delivered. -/
theorem OutCodec.Complete.delivers {C : OutCodec S P} (hC : C.Complete m) {x : Option ArgVal}
    (ht : t.Returned) (hx : s.slot t o = some x) (hx' : ∀ v, x = some v → m.DeliversOut v) :
    C.Delivers m t x := by
  refine ⟨?_, fun q hq => ((hx' _ hq).2 q rfl).1⟩
  cases x with
  | none => trivial
  | some v =>
    refine ⟨hC.carriesOut (readOut_of_slot hx) (hx' v rfl), (hx' v rfl).1, fun harray => ?_⟩
    rcases ht with h | h | h | h | h | h | h | ⟨-, h⟩ <;>
      first | exact h | exact absurd (h.symm.trans harray) (by decide)

end

/-! ### The method is called -/

/-- **The sizes are estimated**, and where there are results there is an out buffer. -/
theorem bufferSize_of_calls (m : Marshaller) (b : Build) (rawLen : Word → UInt32)
    {params : List Param} (hparams : ∀ t ∈ params, t.Carried) (hlen : params.length < 256)
    {c : Proc Unit} (h : c.OffersAll b m 0 params 0) :
    ∃ s, proxyProcessMshBufferSize m b rawLen params (c.call {} none) = .ok (NOERROR, s) ∧
      (params.any (·.isOut) →
        (if s.parcel.outSize ≠ 0 then s.parcel.outSize + 16 else s.parcel.outSize) ≠ 0) := by
  let c' : Proc Unit := c.call () none
  have hoffers : c'.OffersAll b m 0 params 0 := h.of_same (c.sameMemory_call _ _)
  obtain ⟨z, j, hrun, hz⟩ := bufferSize_of_offers rawLen hparams hlen hoffers
  refine ⟨_, hrun, fun hout => ?_⟩
  obtain ⟨hne, hne'⟩ := hz hout
  change (if z.outSize ≠ 0 then z.outSize + 16 else z.outSize) ≠ 0
  rwa [if_pos hne]

section

variable {π τ : Type} {S : Stream π τ} {P : IParcel π} {m : Marshaller} {b : Build}
  {params : List Param} (hparams : ∀ t ∈ params, t.Carried)
include hparams

/-- **The arguments are written** behind what is in the parcel already. -/
theorem mshIn_of_offers {C : Codec S P} (hC : ∀ v, m.Delivers v → C.Carries v) {c : Proc Unit}
    (hoffers : c.OffersAll b m 0 params 0) {p p₀ : π} {ss : List τ} (hwrote : S.Wrote ss p)
    (hroom : S.Room (ss ++ C.request b (c.call p₀ none) 0 params 0)) :
    ∃ s, proxyProcessMshIn m b P params (c.call p none) = .ok (NOERROR, s) ∧
      S.Wrote (ss ++ C.request b (c.call p₀ none) 0 params 0) s.parcel := by
  let c' : Proc π := c.call p₀ none
  have hpasses : c'.Passes b (fun _ x => ∀ v, x = .value v → m.Delivers v) 0 params 0 := by
    refine (hoffers.of_same (c.sameMemory_call _ _)).passes_of hparams (fun t v _ _ _ hv w hw => ?_)
      fun t x _ _ hx v hv => absurd hv (hx v)
    cases hw
    exact hv
  obtain ⟨p', hrun, -, hwrote'⟩ := mshIn_spec (m := m) (b := b) C
    (fun t v h => C.writes_arg v (hC v (h v rfl))) (fun t bs k h => (h _ rfl).1.elim) c' params 0 0 p
    ss hpasses hwrote hroom
  exact ⟨_, hrun, hwrote'⟩

/-- **The stub calls the method** with what the caller passed. -/
theorem calledFor_of_unmshIn {C : Codec S P} (hC : ∀ v, m.Delivers v → C.Carries v)
    {c mem : Proc Unit} (hoffers : c.OffersAll b m 0 params 0) (hphase : mem.phase = c.phase)
    {p p₀ : π} {o : Option ℕ} (hout : ∀ t ∈ params, t.isOut → o = some 0) {more : List τ}
    (hleft : S.Left (C.request b (c.call p₀ none) 0 params 0 ++ more) p) :
    ∃ s, stubProcessUnmshIn m b P params (mem.call p o) = .ok (NOERROR, s) ∧
      c.CalledFor b params (s.call () o) := by
  let c' : Proc π := c.call p₀ none
  let s₀ : Proc π := (mem.call p o).skipHeader
  have hpasses : c'.Passes b (C.Accepts m) 0 params 0 :=
    (hoffers.of_same (c.sameMemory_call _ _)).passes hC hparams
  -- the slots begin behind the header of the out buffer
  have hfour : ∀ t ∈ params, t.isOut → s₀.out = some 4 := fun t ht ho => by
    change o.map (· + 4) = some 4
    rw [hout t ht ho]
    rfl
  obtain ⟨s, hrun, -, -, -, hframe, harrived, hlaid⟩ := unmshIn_spec (m := m) (b := b) C c' params 0
    0 s₀ more hpasses rfl (fun t ht ho => by rw [hfour t ht ho]; rfl) hphase hleft
  have hpointed : Pointed b c' s 0 params 0 4 :=
    pointed_of_unmshIn C hparams 0 0 4 s₀ s more hpasses rfl hfour hphase hleft hrun
  have hlaid' : Laid m b c' s 0 params 0 4 := by
    by_cases hany : ∃ t ∈ params, t.isOut = true
    · obtain ⟨t, ht, ho⟩ := hany
      exact hlaid 4 (hfour t ht ho)
    · push Not at hany
      exact laid_of_no_out fun t ht => by simpa using hany t ht
  have hc : c'.SameMemory c := ⟨rfl, rfl, rfl, rfl, rfl⟩
  have hs : s.SameMemory (s.call () o) := s.sameMemory_call () o
  exact ⟨s, hrun, harrived.of_same hc hs, (hlaid'.toRpc hparams).of_same hc hs,
    hpointed.of_same hc hs, hframe.phase.trans hphase⟩

/-! ### The method has returned -/

variable {c s t : Proc Unit} {ec : ECode} (hoffers : c.OffersAll b m 0 params 0)
  (hs : c.CalledFor b params s) (ht : c.Answers b m params s t ec)
include hoffers hs ht

/-- The arguments of the method can be released when it has returned. -/
theorem Proc.Answers.releases : t.Releases b 0 params 0 := by
  -- what the method has stored in the slots does not matter
  let t' : Proc Unit := { t with outBuffer := s.outBuffer }
  have harrived : AllArrived b c t' 0 params 0 :=
    hs.arrived.frame hs.phase fun j => ⟨fun _ _ => congrFun ht.stack _, fun _ _ => rfl, ht.objs,
      ht.addr, ht.phase⟩
  have hphase : t'.phase = c.phase := ht.phase.trans hs.phase
  exact (releases_of_allArrived hparams hphase hoffers harrived).of_eq rfl rfl rfl

/-- **The results are written** behind what is in the reply already. -/
theorem mshOut_of_answers {C : OutCodec S P} (hC : C.Complete m) (hec : failed ec = false)
    {p p₀ : π} {o : Option ℕ} (hout : ∀ t ∈ params, t.isOut → o = some 0) {ss : List τ}
    (hwrote : S.Wrote ss p) (hroom : S.Room (ss ++ C.reply m (t.call p₀ none) params 4)) :
    ∃ t', stubProcessMshOut m b P params false (t.call p o) = .ok (NOERROR, t') ∧
      S.Wrote (ss ++ C.reply m (t.call p₀ none) params 4) t'.parcel := by
  let t₁ : Proc π := (t.call p o).skipHeader
  have hreleases : t₁.Releases b 0 params 0 := (ht.releases hparams hoffers hs).of_eq rfl rfl rfl
  have hreply : C.reply m t₁ params 4 = C.reply m (t.call p₀ none) params 4 :=
    reply_moved C (t.call p₀ none) p 0 (o.map (· + 4)) t.heap.events params 4
  by_cases hany : ∃ q ∈ params, q.isOut = true
  · obtain ⟨q, hq, hqout⟩ := hany
    have hsame : t.SameMemory t₁ := ⟨rfl, rfl, rfl, rfl, rfl⟩
    have hstored : t₁.Stores m (fun _ x => ∀ v, x = some v → m.DeliversOut v) params 4 :=
      ((ht.stores hec).of_same hsame).ofRpc hparams
    have hstores : t₁.Stores m (C.Yields m) params 4 := hstored.mono fun u hu huout x _ hx hx' =>
      (hC.delivers ((hparams u hu).returned huout) hx hx').1
    have hfour : t₁.out = some 4 := by
      change o.map (· + 4) = some 4
      rw [hout q hq hqout]
      rfl
    obtain ⟨t', hrun, hwrote'⟩ :=
      mshOut_spec (b := b) C params 0 4 t₁ ss hstores hfour hreleases hwrote (by rwa [hreply])
    rw [hreply] at hwrote'
    exact ⟨t', hrun, hwrote'⟩
  · -- without results the arguments are released, and that is all
    push Not at hany
    have hnone : ∀ q ∈ params, q.isOut = false := fun q hq => by simpa using hany q hq
    obtain ⟨t', hrun, hparcel⟩ :=
      process_release (m := m) (b := b) (P := P) (.inr hnone) 0 t₁ hreleases
    refine ⟨t', hrun, ?_⟩
    rw [reply_of_no_out C hnone, List.append_nil, hparcel]
    exact hwrote

/-- Where only the arguments are released, the reply is left alone. -/
theorem mshOut_onlyRelease (P : IParcel π) (p : π) (out : Option ℕ) :
    ∃ t', stubProcessMshOut m b P params true (t.call p out) = .ok (NOERROR, t') ∧
      t'.parcel = p :=
  process_release (.inl rfl) 0 (t.call p out).skipHeader
    ((ht.releases hparams hoffers hs).of_eq rfl rfl rfl)

end

/-! ### The results -/

/-- **The results are read** to the variables of the caller. -/
theorem unmshOut_of_answers {π τ : Type} {S : Stream π τ} {P : IParcel π} {m : Marshaller}
    {b : Build} {params : List Param} {C : OutCodec S P} (hC : C.Complete m)
    (hparams : ∀ t ∈ params, t.Carried) {c s t : Proc Unit} {ec : ECode}
    (hcalls : c.Calls b m params) (hs : c.CalledFor b params s)
    (ht : c.Answers b m params s t ec) (hec : failed ec = false) {q p₀ : π} {rest : List τ}
    (hq : S.Left (C.reply m (t.call p₀ none) params 4 ++ rest) q) :
    ∃ c', proxyProcessUnmshOut b P params (c.call q none) = .ok (NOERROR, c') ∧
      S.Left rest c'.parcel ∧ c.Receives (resultArgs b params t c) c' := by
  let c₁ : Proc π := c.call q none
  let t₁ : Proc π := t.call p₀ none
  have hstored : t₁.Stores m (fun _ x => ∀ v, x = some v → m.DeliversOut v) params 4 :=
    ((ht.stores hec).of_same (t.sameMemory_call _ _)).ofRpc hparams
  have hstores : t₁.Stores m (C.Delivers m) params 4 := hstored.mono fun u hu huout x o hx hx' =>
    hC.delivers ((hparams u hu).returned huout) hx hx'
  -- the tags say for which results the caller has a variable
  have hlaid : Laid .rpc b c t 0 params 0 4 := by
    have hsame := hs.laid
    rw [← Nat.zero_add 4] at hsame ⊢
    refine hsame.congr fun k p o hp hout ho => ?_
    rw [Nat.zero_add]
    exact ht.tags k p o hp hout ho
  have hrs : outArgs m t₁ c₁ params (outSlots (skipArg b c₁.phase) 0 params 0) 4
      = resultArgs b params t c := by
    rw [outSlots_skipArg hparams, outArgs_toRpc hparams,
      outArgs_of_same (t.sameMemory_call _ _) (c.sameMemory_call _ _)]
    rfl
  have hfits : ∀ r ∈ resultArgs b params t c, r.Fits c.heap :=
    fits_outArgs hparams hcalls.offers hlaid (ht.stores hec)
  have hnodup : (targets (resultArgs b params t c)).Nodup := by
    rw [resultArgs, targets_outArgs]
    exact hcalls.distinct
  obtain ⟨c', hrun, hleft, hchanged, harrived⟩ := unmshOut_spec (b := b) C t₁ c₁ params 0 4
    (c.call q none) rest (resultArgs b params t c) hrs hstores hfits hnodup rfl rfl le_rfl
    (fun _ _ => rfl) hq
  refine ⟨c', hrun, hleft, fun r hr hnone => ?_, harrived,
    ⟨hchanged.stack, hchanged.phase, hchanged.grown, hchanged.others⟩⟩
  have hfit := hfits r hr
  rwa [OutArg.Fits, hnone] at hfit

end ElastosCar
