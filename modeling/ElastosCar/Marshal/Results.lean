import ElastosCar.Marshal.OutArgs
import ElastosCar.Marshal.RoundTrip

/-!
# Results over linux_rpc

The results of a call, from the slots of the stub to the variables of the caller. They arrive if and
only if the caller's proxy looks for the `[out]` pointers where they are: it steps over an `[in]`
`EGuid` as if it took five words, and it takes six.
-/

namespace ElastosCar

open CRemoteParcel Marshal

/-! ### The codec -/

/-- The results that arrive: all but interfaces and `EGuid`s. -/
def RpcReturns : ArgVal → Prop
  | .struct (some bs) size => size = sizeOf32 bs
  | .array (some q) => q.Plain
  | .struct none _ | .eguid _ _ | .interface _ => False
  | _ => True

theorem lawfulArray_of_plain {itfs : Interfaces} {body : Itf → List UInt8} {q : CarQuintet}
    (h : q.Plain) : LawfulArray itfs body q := by
  intro xs hxs
  have hfits := q.fits
  rw [hxs] at hfits
  exact absurd hfits.1 h

/-- **The wire format of linux_rpc**, for results. -/
def rpcOutCodec (E : RpcEnv) (henv : E.alloc.Succeeds) : OutCodec rpcStream (rpcParcel E) where
  toCodec := rpcCodec E henv fun _ => []
  CarriesOut := RpcReturns
  writes_out v hv := by
    cases v with
    | word v => exact (rpcCodec E henv fun _ => []).writes_arg (.word v) trivial
    | dword v => exact (rpcCodec E henv fun _ => []).writes_arg (.dword v) trivial
    | emuid id => exact (rpcCodec E henv fun _ => []).writes_arg (.emuid id) trivial
    | string str =>
      cases str with
      | none => exact appends_of_appends (appends_writeInt32 henv MSH_NULL)
      | some str => exact (rpcCodec E henv fun _ => []).writes_arg (.string (some str)) trivial
    | array q =>
      cases q with
      | none => exact (rpcCodec E henv fun _ => []).writes_arg (.array none) trivial
      | some q =>
        exact (rpcCodec E henv fun _ => []).writes_arg (.array (some q)) (lawfulArray_of_plain hv)
    | struct bs size =>
      cases bs with
      | none => exact hv.elim
      | some bs =>
        have hsize : size = sizeOf32 bs := hv
        subst hsize
        exact appends_of_appends (appends_writeStruct henv bs)
    | eguid id ptr | interface x => exact hv.elim
  reads_out v hv := by
    cases v with
    | word v =>
      refine ⟨?_, ?_, (rpcCodec E henv fun _ => []).reads_arg (.word v) trivial⟩
      · exact (reads_of_reads (fun j : Junk => readByte j.word)
          fun j => reads_readVia j.word rfl).mono fun r hr => by rw [hr]
      · exact (reads_of_reads (fun j : Junk => readInt16 j.word)
          fun j => reads_readVia j.word rfl).mono fun r hr => by rw [hr]
    | dword v => exact (rpcCodec E henv fun _ => []).reads_arg (.dword v) trivial
    | emuid id => exact (rpcCodec E henv fun _ => []).reads_arg (.emuid id) trivial
    | string str => exact (rpcCodec E henv fun _ => []).reads_arg (.string str) trivial
    | array q =>
      cases q with
      | none => exact (rpcCodec E henv fun _ => []).reads_arg (.array none) trivial
      | some q =>
        exact (rpcCodec E henv fun _ => []).reads_arg (.array (some q)) (lawfulArray_of_plain hv)
    | struct bs size =>
      cases bs with
      | none => exact hv.elim
      | some bs =>
        have hsize : size = sizeOf32 bs := hv
        subst hsize
        exact (reads_of_reads (fun j : Junk => readStruct j.word j.len)
          fun j => reads_readStruct bs j.word j.len).mono fun r hr => by rw [hr]
    | eguid id ptr | interface x => exact hv.elim

/-! ### A call -/

/-- The `[out]` parameters that are returned. -/
def Param.Returned (t : Param) : Prop :=
  t.type = .puint8 ∨ t.type = .puint16 ∨ t.type = .puint32 ∨ t.type = .puint64 ∨
    t.type = .pemuid ∨ t.type = .pstruct ∨ t.type = .pstring ∨
      t.type = .arrayOf ∧ t.isCallee = true

/-- The `[out]` parameters of a call: the slots of the stub `s` behind the header of the out buffer, and
the pointers on the stack of the caller `c`. -/
def resultArgs {π ρ : Type} (b : Build) (params : List Param) (s : Proc π) (c : Proc ρ) :
    List OutArg :=
  outArgs .rpc s c params (outSlots (nextArg b c.phase) 0 params 0) 4

/-- A call whose method has returned. Where the caller passed null the tag in the out buffer says so;
elsewhere the method has stored a value, of an array one without interfaces, and the caller passed a
variable of its own, null if it is that for an array. The stub can release what it has made for the
`[in]` parameters, and the reply is shorter than `2 ^ 30` bytes. -/
structure ResultCall (E : RpcEnv) (henv : E.alloc.Succeeds) (b b' : Build) (params : List Param)
    (s c : Proc CRemoteParcel) : Prop where
  stores : s.Stores .rpc (fun _ x => ∀ q, x = some (.array (some q)) → q.Plain) params 4
  fits : ∀ r ∈ resultArgs b params s c, r.Fits c.heap
  distinct : (targets (resultArgs b params s c)).Nodup
  releases : s.Releases b' 0 params 0
  room : ((rpcOutCodec E henv).reply .rpc s params 4).length < 2 ^ 30

/-- The results have been returned: those that the caller wants are in its variables, no other object
of it has changed, and the reply has been read to its end. -/
structure ResultsArrived (rs : List OutArg) (c c' : Proc CRemoteParcel) : Prop where
  arrived : ∀ r ∈ rs, r.Arrived c.heap c'.heap
  changed : c.Changed c' (targets rs)
  consumed : c'.parcel.mDataPos = c'.parcel.dataSize

/-! ### Where the walks agree -/

section

variable {b : Build} {phase : ℕ}

theorem lt_skipArg (n : ℕ) (t : Param) (i : ℕ) : i < skipArg b phase n t i := by
  have := le_align64 (b := b) phase n i
  rw [skipArg]
  split
  · omega
  · split <;> omega

/-- The words of the `[out]` arguments come one after the other. -/
theorem sortedLT_outSlots {next : ℕ → Param → ℕ → ℕ} (hnext : ∀ n t i, i < next n t i) (n : ℕ)
    (params : List Param) (i : ℕ) :
    (outSlots next n params i).SortedLT ∧ ∀ j ∈ outSlots next n params i, i ≤ j := by
  induction params generalizing n i with
  | nil => exact ⟨List.Pairwise.nil.sortedLT, List.forall_mem_nil _⟩
  | cons t ts ih =>
    obtain ⟨hsorted, hle⟩ := ih (n + 1) (next n t i)
    have hlt := hnext n t i
    rw [outSlots]
    split
    · refine ⟨?_, fun j hj => ?_⟩
      · rw [List.sortedLT_iff_pairwise, List.pairwise_cons]
        exact ⟨fun j hj => by have := hle j hj; omega, hsorted.pairwise⟩
      · rcases List.mem_cons.mp hj with rfl | hj
        · exact le_rfl
        · have := hle j hj
          omega
    · exact ⟨hsorted, fun j hj => by have := hle j hj; omega⟩

theorem length_outSlots (next : ℕ → Param → ℕ → ℕ) (n : ℕ) (params : List Param) (i : ℕ) :
    (outSlots next n params i).length = params.countP (·.isOut) := by
  induction params generalizing n i with
  | nil => rfl
  | cons t ts ih =>
    rw [outSlots, List.countP_cons]
    by_cases hout : t.isOut = true
    · rw [if_pos hout, if_pos hout, List.length_cons, ih]
    · rw [if_neg hout, if_neg hout, ih, Nat.add_zero]

/-- Two walks that come to the same words come to them in the same order. -/
theorem outSlots_eq_of_subset {next next' : ℕ → Param → ℕ → ℕ} (hnext : ∀ n t i, i < next n t i)
    (hnext' : ∀ n t i, i < next' n t i) {n : ℕ} {params : List Param} {i : ℕ}
    (h : outSlots next n params i ⊆ outSlots next' n params i) :
    outSlots next n params i = outSlots next' n params i := by
  have hs := (sortedLT_outSlots hnext n params i).1
  have hs' := (sortedLT_outSlots hnext' n params i).1
  have hperm := (List.subperm_of_subset hs.nodup h).perm_of_length_le
    (by rw [length_outSlots, length_outSlots])
  exact hperm.eq_of_sortedLE hs.sortedLE hs'.sortedLE

end

/-! ### The results arrive -/

section

variable {E : RpcEnv} {henv : E.alloc.Succeeds} {b b' : Build} {params : List Param}
  {s c : Proc CRemoteParcel}

theorem Proc.Stores.mono {π : Type} {m : Marshaller} {s : Proc π}
    {ok ok' : Param → Option ArgVal → Prop} {params : List Param} {o : ℕ}
    (h : s.Stores m ok params o)
    (hok : ∀ t ∈ params, t.isOut → ∀ x o, s.slot t o = some x → ok t x → ok' t x) :
    s.Stores m ok' params o := by
  induction params generalizing o with
  | nil => trivial
  | cons t ts ih =>
    rw [List.forall_mem_cons] at hok
    rw [Proc.Stores] at h ⊢
    by_cases hout : t.isOut = true
    · rw [if_pos hout] at h ⊢
      obtain ⟨x, hx, hxok, hrest⟩ := h
      exact ⟨x, hx, hok.1 hout x o hx hxok, ih hrest hok.2⟩
    · rw [if_neg hout] at h ⊢
      exact ih h hok.2

theorem rpcReturns_of_readOut {t : Param} {o : ℕ} {v : ArgVal} (hv : s.readOut t o = some v)
    (hplain : ∀ q, v = .array (some q) → q.Plain) : RpcReturns v := by
  rw [Proc.readOut] at hv
  cases ht : t.type <;> rw [ht] at hv
  case puint8 | puint16 | puint32 | puint64 | pemuid =>
    cases hv
    trivial
  case pstruct =>
    cases hv
    rw [RpcReturns, sizeOf32, length_outBytes]
    apply UInt32.toNat_inj.mp
    simp
  case pstring =>
    dsimp only at hv
    split at hv
    · cases hv
      trivial
    · obtain ⟨_, -, rfl⟩ := Option.map_eq_some_iff.mp hv
      trivial
  case arrayOf =>
    dsimp only at hv
    split at hv
    · cases hv
      trivial
    · obtain ⟨q, -, rfl⟩ := Option.map_eq_some_iff.mp hv
      exact hplain q rfl
  all_goals cases hv

/-- What the method stores for a parameter of the types that are returned is delivered. -/
theorem delivers_of_returned {t : Param} {x : Option ArgVal} {o : ℕ} (ht : t.Returned)
    (hx : s.slot t o = some x) (hplain : ∀ q, x = some (.array (some q)) → q.Plain) :
    (rpcOutCodec E henv).Delivers .rpc t x := by
  refine ⟨?_, hplain⟩
  cases x with
  | none => trivial
  | some v =>
    have hcallee : t.type = .arrayOf → t.isCallee = true := by
      intro harray
      rcases ht with h | h | h | h | h | h | h | ⟨-, h⟩ <;>
        first | exact h | exact absurd (h.symm.trans harray) (by decide)
    refine ⟨?_, by cases v <;> trivial, hcallee⟩
    rw [Proc.slot] at hx
    split at hx
    · cases hx
    · split at hx
      · obtain ⟨v', hv, hvv⟩ := Option.map_eq_some_iff.mp hx
        cases hvv
        exact rpcReturns_of_readOut hv fun q hq => hplain q (by rw [hq])
      · cases hx

/-- The stub writes the reply. -/
theorem stubProcessMshOut_reply (hcall : ResultCall E henv b b' params s c)
    (htypes : ∀ t ∈ params, t.isOut → t.Returned) :
    ∃ s', stubProcessMshOut .rpc b' (rpcParcel E) params false
        { s with parcel := {}, args := 0, out := some 0 } = .ok (NOERROR, s') ∧
      (s'.parcel.setDataPosition 0).Holds ((rpcOutCodec E henv).reply .rpc s params 4) := by
  have hstores : s.Stores .rpc ((rpcOutCodec E henv).Yields .rpc) params 4 :=
    hcall.stores.mono fun t ht hout x o hx hplain =>
      (delivers_of_returned (htypes t ht hout) hx hplain).1
  have hroom : rpcStream.Room ((rpcOutCodec E henv).reply .rpc s params 4) := hcall.room
  obtain ⟨s', hrun, -, hcontents⟩ := mshOut_spec (b := b') (rpcOutCodec E henv) params 0 4
    (s.moved {} 0 (some 4) s.heap.events) [] (hstores.moved _ _ _ _) rfl
    (hcall.releases.moved _ _ _ _) ⟨ready_new, rfl⟩ (by rwa [reply_moved])
  rw [reply_moved, List.nil_append] at hcontents
  refine ⟨s', hrun, ?_⟩
  rw [← hcontents] at hroom ⊢
  exact holds_contents (by rw [← length_contents]; exact hroom)

/-- **The results arrive** where the two walks agree. -/
theorem results_arrive (hphase : c.phase = phase) (hcall : ResultCall E henv b b' params s c)
    (htypes : ∀ t ∈ params, t.isOut → t.Returned)
    (hwalk : outSlots (skipArg b phase) 0 params 0 = outSlots (nextArg b phase) 0 params 0) :
    ∃ s' c', stubProcessMshOut .rpc b' (rpcParcel E) params false
        { s with parcel := {}, args := 0, out := some 0 } = .ok (NOERROR, s') ∧
      proxyProcessUnmshOut b (rpcParcel E) params
        { c with parcel := s'.parcel.setDataPosition 0, args := 0 } = .ok (NOERROR, c') ∧
      ResultsArrived (resultArgs b params s c) c c' := by
  obtain ⟨s', hrun, hholds⟩ := stubProcessMshOut_reply hcall htypes
  have hstores : s.Stores .rpc ((rpcOutCodec E henv).Delivers .rpc) params 4 :=
    hcall.stores.mono fun t ht hout x o hx => delivers_of_returned (htypes t ht hout) hx
  subst hphase
  obtain ⟨c', hrun', hleft, hchanged, harrived⟩ := unmshOut_spec (b := b) (rpcOutCodec E henv) s c
    params 0 4 { c with parcel := s'.parcel.setDataPosition 0, args := 0 } []
    (resultArgs b params s c) (by rw [hwalk]; rfl) hstores hcall.fits hcall.distinct rfl rfl le_rfl
    (fun _ _ => rfl) (by rw [List.append_nil]; exact hholds)
  exact ⟨s', c', hrun, hrun', harrived,
    ⟨hchanged.stack, hchanged.phase, hchanged.grown, hchanged.others⟩, hleft.pos_eq_dataSize⟩

/-! ### Where they do not agree -/

theorem slot_of_null {t : Param} {o : ℕ} (hs : s.outAt o = MSH_NULL) : s.slot t o = some none := by
  rw [Proc.slot, if_pos hs]

/-- Where nothing is returned, the proxy succeeds only if it comes to null pointers. -/
theorem null_of_unmshOut {π τ : Type} {S : Stream π τ} {P : IParcel π} {m : Marshaller}
    (C : OutCodec S P) {s : Proc π} (hs : ∀ o, s.outAt o = MSH_NULL) (params : List Param) :
    ∀ (n o : ℕ) (c c' : Proc π), process (unmshOutStep b P) n params c = .ok (NOERROR, c') →
      S.Left (C.reply m s params o) c.parcel →
      ∀ j ∈ outSlots (skipArg b c.phase) n params c.args, c.stack j = .null := by
  induction params with
  | nil => exact fun n o c c' _ _ => List.forall_mem_nil _
  | cons t ts ih =>
    intro n o c c' hrun hleft
    rw [process, unmshOutStep] at hrun
    rw [OutCodec.reply] at hleft
    rw [outSlots]
    by_cases hout : t.isOut = true
    · rw [if_pos hout, Proc.slot, if_pos (hs o), Option.elim_some, Option.elim_some] at hleft
      rw [if_pos hout] at hrun ⊢
      have hargs : skipArg b c.phase n t c.args = c.args + 1 := by rw [skipArg, if_pos hout]
      obtain ⟨_, p, rfl, hp, hread⟩ :=
        reads_read_bind (β := Option ECode) (C.reads_word MSH_NULL) hleft
      have hnull : c.stack c.args = .null := by
        by_contra hne
        have hstep : unmshOutOut P t c = .ok (some E_INVALID_ARGUMENT, { c with parcel := p }) := by
          rw [unmshOutOut, arg_bind, Nat.add_zero, hread]
          simp only [ne_eq, hne, not_false_eq_true, if_true]
          rfl
        rw [Run.bind_ok hstep] at hrun
        cases hrun
      have hstep : unmshOutOut P t c
          = .ok (none, { c with parcel := p, args := c.args + 1 }) := by
        rw [unmshOutOut, arg_bind, Nat.add_zero, hread]
        simp only [hnull, ne_eq, not_true_eq_false, if_false]
        rfl
      rw [Run.bind_ok hstep] at hrun
      rw [hargs]
      exact List.forall_mem_cons.mpr
        ⟨hnull, ih (n + 1) _ { c with parcel := p, args := c.args + 1 } c' hrun hp⟩
    · rw [if_neg hout] at hleft hrun ⊢
      rw [Run.bind_ok (unmshOutIn_eq hout c)] at hrun
      exact ih (n + 1) o { c with args := skipArg b c.phase n t c.args } c' hrun hleft

/-- A stub whose method has been called with null pointers only. -/
def silentStub : Proc CRemoteParcel where
  parcel := {}
  args := 0
  stack _ := .null
  out := none
  outBuffer _ := .num MSH_NULL
  heap := { objs := [] }
  addr _ := 0
  phase := 0

/-- Its caller, with null pointers at the given words and nowhere else. -/
def silentCaller (phase : ℕ) (slots : List ℕ) : Proc CRemoteParcel where
  parcel := {}
  args := 0
  stack i := if i ∈ slots then .null else .num 1
  out := none
  outBuffer _ := .null
  heap := { objs := [] }
  addr _ := 0
  phase := phase

theorem outAt_silentStub (o : ℕ) : silentStub.outAt o = MSH_NULL := rfl

theorem stores_silentStub {ok : Param → Option ArgVal → Prop} (hok : ∀ t, ok t none) (o : ℕ) :
    silentStub.Stores .rpc ok params o := by
  induction params generalizing o with
  | nil => trivial
  | cons t ts ih =>
    rw [Proc.Stores]
    split
    · exact ⟨none, slot_of_null (outAt_silentStub o), hok t, ih _⟩
    · exact ih o

theorem releases_silentStub (n i : ℕ) : silentStub.Releases b n params i := by
  induction params generalizing n i with
  | nil => trivial
  | cons t ts ih =>
    refine ⟨fun _ => ?_, ih _ _⟩
    rw [Heap.Releasable]
    split <;> first | exact .inl rfl | rfl | trivial

theorem length_reply_silentStub (o : ℕ) :
    ((rpcOutCodec E henv).reply .rpc silentStub params o).length = 4 * params.countP (·.isOut) := by
  induction params generalizing o with
  | nil => rfl
  | cons t ts ih =>
    rw [OutCodec.reply, List.countP_cons]
    by_cases hout : t.isOut = true
    · rw [if_pos hout, if_pos hout, slot_of_null (outAt_silentStub o), List.length_append, ih]
      change 4 + _ = _
      omega
    · rw [if_neg hout, if_neg hout, ih, Nat.add_zero]

/-- Nothing is returned through null pointers. -/
theorem outArgs_silentStub {slots : List ℕ} {w : Word} (hw : ∀ i ∈ slots, c.stack i = w) (o : ℕ)
    (hlen : params.countP (·.isOut) = slots.length) :
    ∀ r ∈ outArgs .rpc silentStub c params slots o, r.value = none ∧ r.ptr = w := by
  induction params generalizing slots o with
  | nil => exact List.forall_mem_nil _
  | cons t ts ih =>
    rw [List.countP_cons] at hlen
    rw [outArgs]
    by_cases hout : t.isOut = true
    · rw [if_pos hout] at hlen ⊢
      obtain ⟨i, rest, rfl⟩ := List.exists_cons_of_length_eq_add_one hlen.symm
      rw [List.forall_mem_cons] at hw
      refine List.forall_mem_cons.mpr ⟨⟨?_, hw.1⟩, ih hw.2 _ (by simpa using hlen)⟩
      rw [slot_of_null (outAt_silentStub o)]
      rfl
    · rw [if_neg hout] at hlen ⊢
      exact ih hw o hlen

theorem resultCall_silent (b b' : Build) (phase : ℕ) (hlen : params.length < 256) :
    ResultCall E henv b b' params silentStub
      (silentCaller phase (outSlots (nextArg b phase) 0 params 0)) := by
  have hargs : ∀ r ∈ resultArgs b params silentStub
      (silentCaller phase (outSlots (nextArg b phase) 0 params 0)), r.value = none ∧ r.ptr = .null :=
    outArgs_silentStub (fun i hi => if_pos hi) 4 (length_outSlots _ _ _ _).symm
  refine ⟨stores_silentStub (fun _ _ h => by cases h) 4, fun r hr => ?_, ?_, releases_silentStub 0 0, ?_⟩
  · obtain ⟨hvalue, hptr⟩ := hargs r hr
    rw [OutArg.Fits, hvalue]
    exact hptr
  · have htargets : targets (resultArgs b params silentStub
        (silentCaller phase (outSlots (nextArg b phase) 0 params 0))) = [] := by
      rw [targets, List.filterMap_eq_nil_iff]
      intro r hr
      have hptr := (hargs r hr).2
      rw [OutArg.target?, hptr]
      rfl
    rw [htargets]
    exact List.nodup_nil
  · rw [length_reply_silentStub]
    have : params.countP (·.isOut) ≤ params.length := List.countP_le_length
    omega

end

/-- An `EGuid` to pass, and a number to be returned. -/
def eguidParams : List Param :=
  [{ type := .eguid, isIn := true }, { type := .puint32, isOut := true }]

/-- The method has returned seven. -/
def sevenStub : Proc CRemoteParcel :=
  { silentStub with outBuffer := fun o => if o = 4 then .num MSH_NOT_NULL else .num 7 }

/-- The `EGuid` is at the words up to 5, the pointer to the variable at word 6. -/
def eguidCaller : Proc CRemoteParcel where
  parcel := {}
  args := 0
  stack i := if i < 6 then .num 1 else .obj 0
  out := none
  outBuffer _ := .null
  heap := { objs := [.word (.num 0)] }
  addr _ := 0
  phase := 0

theorem resultCall_eguid : ResultCall plainEnv Allocator.zeros_succeeds .x86 .x86 eguidParams
    sevenStub eguidCaller where
  stores := ⟨some (.word 7), rfl, (fun _ h => by cases h), trivial⟩
  fits r hr := by
    obtain rfl := List.mem_singleton.mp hr
    exact ⟨0, .word (.num 0), rfl, rfl, .inl rfl⟩
  distinct := List.nodup_singleton 0
  releases := ⟨fun _ => trivial, nofun, trivial⟩
  room := by decide

end ElastosCar
