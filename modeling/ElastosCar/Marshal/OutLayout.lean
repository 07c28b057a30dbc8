import ElastosCar.Marshal.WalkAgreement

/-!
# The layout of the out buffer

Three functions of linux_rpc know the layout of the out buffer: `Proxy_ProcessMsh_BufferSize` sums
its size up on the client, `Stub_ProcessUnmsh_In` lays the slots out on the server, and
`Stub_ProcessMsh_Out` walks over them.

The slots are where the last of them looks for them. The sum is their size, unless the client looks
for the pointers at wrong words: behind an `[in]` `EGuid` it takes a word of another argument for
the pointer to a result, and counts no slot where that word is null.
-/

namespace ElastosCar

open CRemoteParcel Marshal

/-! ### The layout -/

/-- The memory of a caller, while its sizes are summed up. -/
def Proc.sizing {π : Type} (c : Proc π) (sizes : Sizes) (i : ℕ) : Proc Sizes :=
  ⟨sizes, i, c.stack, c.out, c.outBuffer, c.heap, c.addr, c.phase⟩

/-- `Proxy_ProcessMsh_BufferSize` looks whether the argument is null, or behind it. -/
def Param.Pointer (t : Param) : Bool := t.isOut || t.type = .string || t.type = .arrayOf

/-- The words at which a walk comes to the pointers. -/
def pointerSlots (next : ℕ → Param → ℕ → ℕ) : (n : ℕ) → List Param → (i : ℕ) → List ℕ
  | _, [], _ => []
  | n, t :: ts, i =>
    if t.Pointer then i :: pointerSlots next (n + 1) ts (next n t i)
    else pointerSlots next (n + 1) ts (next n t i)

/-- The words at which the slots of the parameters are, counted from the start of the out buffer. -/
def outPlaces {π : Type} (m : Marshaller) (b : Build) (c : Proc π) :
    (n : ℕ) → List Param → (i o : ℕ) → List ℕ
  | _, [], _, _ => []
  | n, t :: ts, i, o =>
    o :: outPlaces m b c (n + 1) ts (nextArg b c.phase n t i)
      (o + (c.sent b n t i).elim 0 (Sent.span m t))

/-- In its run over the parameters a function comes to the parameter `n` at word `o` of the out
buffer. -/
def PlacedAt {π : Type} (step : ℕ → Param → Marshal π (Option ECode)) (params : List Param)
    (s : Proc π) (n o : ℕ) : Prop :=
  ((visits step 0 params s).map Proc.out)[n]? = some (some o)

section

variable (E : RpcEnv) (b : Build) (rawLen : Word → UInt32) (params : List Param)

/-- The stub has the request `p` to read. -/
def Proc.asked (s : Proc CRemoteParcel) (p : CRemoteParcel) : Proc CRemoteParcel :=
  { s with parcel := p.setDataPosition 0, args := 0 }

/-- In the call that `c` makes of the stub `s`, the stub lays out `words` words behind the header of
the out buffer and stores nothing outside them. Whatever the method does to the slots, as long as it
leaves the tags, the results are looked for where they were placed. -/
structure LaidOut (c s c' s' : Proc CRemoteParcel) (words : ℕ) : Prop where
  mshIn : proxyProcessMshIn .rpc b (rpcParcel E) params { c with parcel := {}, args := 0 }
    = .ok (NOERROR, c')
  unmshIn : stubProcessUnmshIn .rpc b (rpcParcel E) params (s.asked c'.parcel) = .ok (NOERROR, s')
  out : s'.out = s.out.map (· + (4 + words))
  inside : ∀ o, s'.outBuffer o ≠ s.outBuffer o →
    ∃ a, s.out = some a ∧ a + 4 ≤ o ∧ o < a + 4 + words
  visited : ∀ r : Proc CRemoteParcel, r.out = s.out →
    let placed :=
      PlacedAt (unmshInStep .rpc b (rpcParcel E)) params (s.asked c'.parcel).skipHeader
    (∀ n t o, params[n]? = some t → t.isOut → placed n o → r.outBuffer o = s'.outBuffer o) →
      ∀ n o, PlacedAt (mshOutStep .rpc b (rpcParcel E) false) params r.skipHeader n o → placed n o

/-- **The layouts agree**: the words that the stub lays out are those that the client counted. -/
def LayoutAgrees (c s : Proc CRemoteParcel) : Prop :=
  ∃ z c' s' words,
    proxyProcessMshBufferSize .rpc b rawLen params (c.sizing {} 0) = .ok (NOERROR, z) ∧
      4 * words = z.parcel.outSize.toNat ∧ LaidOut E b params c s c' s' words

end

/-- No `[in]` parameter is a struct or `[in, out]`, and the words at which
`Proxy_ProcessMsh_BufferSize` looks for the pointers are those at which they are. -/
structure Placeable (b : Build) (phase : ℕ) (params : List Param) : Prop where
  decodable : ∀ t ∈ params, t.isIn = true → t.isOut = false ∧ t.type ≠ .struct ∧ t.type ≠ .pstruct
  pointers : pointerSlots (sizeArg b phase) 0 params 0 = pointerSlots (nextArg b phase) 0 params 0

/-! ### The sizes -/

section

variable {π : Type} {m : Marshaller} {b : Build} (rawLen : Word → UInt32) {c : Proc π} {n : ℕ}
  {t : Param}

/-- The two marshallers lay out slots for the same types. -/
theorem slotWords_isSome {m' : Marshaller} (m : Marshaller) (h : (slotWords m' t).isSome) :
    (slotWords m t).isSome := by
  rw [slotWords] at h ⊢
  cases ht : t.type <;> rw [ht] at h <;> first | rfl | cases h

/-- The bytes that are counted for a slot are those of its words. -/
theorem outValueSize_eq {w : ℕ} (hw : slotWords m t = some w) :
    outValueSize m t = some (UInt32.ofNat (4 * w)) := by
  rw [slotWords] at hw
  rw [outValueSize]
  cases ht : t.type <;> rw [ht] at hw <;> cases hw
  case pinterface.refl => cases m <;> rfl
  all_goals rfl

/-- The words of a slot, whether the caller wants it or not. -/
theorem span_of_sent {i w : ℕ} {x : Sent}
    (hx : c.sent b n t i = some x) (hin : t.isIn = false) (hw : slotWords m t = some w) :
    x.span m t = if c.stack i = .null then 1 else 1 + w := by
  rw [Proc.sent, if_neg (by simp [hin])] at hx
  split at hx
  · next hnull =>
    cases hx
    rw [if_pos hnull, Sent.span]
  · next hnull =>
    rw [if_neg hnull]
    split at hx
    · obtain ⟨q, -, rfl⟩ := Option.map_eq_some_iff.mp hx
      rw [Sent.span, hw, Option.getD_some]
    · cases hx
      rw [Sent.span, hw, Option.getD_some]

theorem bufferSizeOut_spec {z : Sizes} {i w : ℕ} (hw : slotWords m t = some w) :
    ∃ z', bufferSizeOut m t (c.sizing z i) = .ok ((), c.sizing z' i) ∧
      z'.outSize = z.outSize + UInt32.ofNat (4 * if c.stack i = .null then 1 else 1 + w) := by
  by_cases hnull : c.stack i = .null
  · refine ⟨{ z with outSize := z.outSize + 4 }, ?_, by rw [if_pos hnull]; rfl⟩
    rw [bufferSizeOut, outValueSize_eq hw]
    change (if c.stack i ≠ .null then addOut _ else pure () : Marshal Sizes Unit) _ = _
    rw [if_neg (not_not.mpr hnull)]
    rfl
  · refine ⟨{ z with outSize := z.outSize + 4 + UInt32.ofNat (4 * w) }, ?_, ?_⟩
    · rw [bufferSizeOut, outValueSize_eq hw]
      change (if c.stack i ≠ .null then addOut _ else pure () : Marshal Sizes Unit) _ = _
      rw [if_pos hnull]
      rfl
    · rw [if_neg hnull, Nat.mul_add, UInt32.ofNat_add, ← UInt32.add_assoc]
      rfl

/-- An `[in]` parameter takes no room in the out buffer. -/
theorem bufferSizeIn_spec {z : Sizes} {i i' : ℕ} {v : ArgVal} (hin : t.isIn = true)
    (ht : t.Encoded) (hv : c.readArg b n t i = some v) (hi : t.Pointer = true → i' = i) :
    ∃ z', bufferSizeIn m b rawLen n t (c.sizing z i')
        = .ok (none, c.sizing z' (sizeArg b c.phase n t i')) ∧ z'.outSize = z.outSize := by
  have hpointee (size : UInt32) : ∃ z', addPointee size (c.sizing z i')
      = .ok (none, c.sizing z' (i' + 1)) ∧ z'.outSize = z.outSize := ⟨_, rfl, rfl⟩
  rw [Param.Encoded] at ht
  rw [Proc.readArg] at hv
  rw [bufferSizeIn, sizeArg, if_pos hin]
  cases htype : t.type <;> simp only [htype, reduceCtorEq, or_self, or_true, or_false] at ht hv ⊢
  case uint8 | uint16 | uint32 | emuid | eguid => exact ⟨_, rfl, rfl⟩
  case uint64 =>
    split <;> exact ⟨_, rfl, rfl⟩
  case struct | pstruct | interface => exact hpointee _
  case string =>
    obtain rfl := hi (by simp [Param.Pointer, htype])
    obtain ⟨str, hstr, rfl⟩ := Option.map_eq_some_iff.mp hv
    obtain ⟨a, ha, hobj⟩ := string?_eq_some hstr
    have hword : (c.sizing z i').stack ((c.sizing z i').args + 0) = .obj a := ha
    rw [arg_bind, hword, if_pos (Word.obj_ne_null a), deref_bind (s := c.sizing z i') hobj]
    exact ⟨_, rfl, rfl⟩
  case arrayOf =>
    obtain rfl := hi (by simp [Param.Pointer, htype])
    rw [arg_bind]
    split at hv
    · next hnull =>
      have hword : (c.sizing z i').stack ((c.sizing z i').args + 0) = .null := hnull
      rw [hword, if_neg (not_not.mpr rfl)]
      exact ⟨_, rfl, rfl⟩
    · next hnull =>
      obtain ⟨q, hq, rfl⟩ := Option.map_eq_some_iff.mp hv
      obtain ⟨a, ha, hobj⟩ := array?_eq_some hq
      have hword : (c.sizing z i').stack ((c.sizing z i').args + 0) = .obj a := ha
      rw [hword, if_pos (Word.obj_ne_null a), derefArray_bind (s := c.sizing z i') hobj]
      exact ⟨_, rfl, rfl⟩

/-- **A step of `Proxy_ProcessMsh_BufferSize`** that looks at the right word counts the bytes of the
slot. -/
theorem bufferSizeStep_spec {z : Sizes} {i i' : ℕ} {x : Sent} (ht : t.Marshalled)
    (hout : t.isIn = true → t.isOut = false) (hx : c.sent b n t i = some x)
    (hi : t.Pointer = true → i' = i) :
    ∃ z', bufferSizeStep m b rawLen n t (c.sizing z i')
        = .ok (none, c.sizing z' (sizeArg b c.phase n t i')) ∧
      z'.outSize = z.outSize + UInt32.ofNat (4 * x.span m t) := by
  rw [bufferSizeStep]
  dsimp only
  by_cases hin : t.isIn = true
  · rw [if_neg (by simp [hout hin]), if_pos hin]
    rw [Proc.sent, if_pos hin] at hx
    obtain ⟨v, hv, rfl⟩ := Option.map_eq_some_iff.mp hx
    obtain ⟨z', hrun, hz'⟩ := bufferSizeIn_spec rawLen (z := z) hin (ht.encoded hin) hv hi
    refine ⟨z', hrun, hz'.trans ?_⟩
    rw [Sent.span]
    exact (UInt32.add_zero _).symm
  · have hisOut := ht.direction.resolve_left hin
    obtain ⟨w, hw⟩ := Option.isSome_iff_exists.mp (slotWords_isSome m (ht.laidOut hisOut))
    obtain rfl := hi (by simp [Param.Pointer, hisOut])
    rw [if_pos hisOut, if_neg hin, span_of_sent hx (by simpa using hin) hw, sizeArg, if_neg hin]
    obtain ⟨z', hrun, hz'⟩ := bufferSizeOut_spec (c := c) (z := z) (i := i') hw
    rw [Run.bind_ok hrun, arg_bind]
    split
    · exact ⟨{ z' with inSize := z'.inSize + 4 + 4 }, rfl, hz'⟩
    · exact ⟨{ z' with inSize := z'.inSize + 4 }, rfl, hz'⟩

/-- **The sum of `Proxy_ProcessMsh_BufferSize`** where it looks at the right words. -/
theorem bufferSize_spec {ok : Param → Sent → Prop} (params : List Param)
    (hparams : ∀ t ∈ params, t.Marshalled)
    (hout : ∀ t ∈ params, t.isIn = true → t.isOut = false) :
    ∀ (n i i' : ℕ) (z : Sizes), c.Passes b ok n params i →
      pointerSlots (sizeArg b c.phase) n params i' = pointerSlots (nextArg b c.phase) n params i →
      ∃ z' j, process (bufferSizeStep m b rawLen) n params (c.sizing z i')
          = .ok (NOERROR, c.sizing z' j) ∧
        z'.outSize = z.outSize + UInt32.ofNat (4 * c.outSpan b m n params i) := by
  induction params with
  | nil => exact fun n i i' z _ _ => ⟨z, i', rfl, (UInt32.add_zero _).symm⟩
  | cons t ts ih =>
    rintro n i i' z ⟨⟨x, hx, -⟩, hrest⟩ hslots
    rw [List.forall_mem_cons] at hparams hout
    rw [pointerSlots, pointerSlots] at hslots
    have hslots' : (t.Pointer = true → i' = i) ∧
        pointerSlots (sizeArg b c.phase) (n + 1) ts (sizeArg b c.phase n t i')
          = pointerSlots (nextArg b c.phase) (n + 1) ts (nextArg b c.phase n t i) := by
      split at hslots
      · obtain ⟨hi, htail⟩ := List.cons.inj hslots
        exact ⟨fun _ => hi, htail⟩
      · next hpointer => exact ⟨fun h => absurd h hpointer, hslots⟩
    obtain ⟨z₁, hstep, hz₁⟩ := bufferSizeStep_spec rawLen (z := z) hparams.1 hout.1 hx hslots'.1
    obtain ⟨z', j, hrun, hz'⟩ := ih hparams.2 hout.2 (n + 1) _ _ z₁ hrest hslots'.2
    refine ⟨z', j, ?_, ?_⟩
    · rw [process, Run.bind_ok hstep]
      exact hrun
    · rw [hz', hz₁, Proc.outSpan, hx, Option.elim_some, Nat.mul_add, UInt32.ofNat_add,
        UInt32.add_assoc]

/-- The slots of a method are far smaller than `2 ^ 32` bytes. -/
theorem outSpan_le (m : Marshaller) (c : Proc π) (params : List Param) :
    ∀ n i, c.outSpan b m n params i ≤ 65536 * params.length := by
  induction params with
  | nil => exact fun _ _ => Nat.zero_le _
  | cons t ts ih =>
    intro n i
    have hspan (x : Sent) : x.span m t ≤ 65536 := by
      have hwords : (slotWords m t).getD 0 ≤ 65535 := by
        have := t.size.toNat_lt
        rw [slotWords]
        cases t.type <;> simp only [Option.getD_some, Option.getD_none] <;>
          first | omega | (cases m <;> decide)
      cases x <;> simp only [Sent.span] <;> omega
    have := ih (n + 1) (nextArg b c.phase n t i)
    rw [Proc.outSpan, List.length_cons, Nat.mul_succ]
    cases c.sent b n t i with
    | none => rw [Option.elim_none]; omega
    | some x => rw [Option.elim_some]; have := hspan x; omega

end

/-! ### The slots on the stub -/

section

variable {b : Build} {c : Proc CRemoteParcel} {n : ℕ} {t : Param} {E : RpcEnv}
  {henv : E.alloc.Succeeds} {body : Itf → List UInt8}

/-- A step of the stub, wherever it stores the argument: the next slot, and the tag. -/
theorem unmshInStep_layout {s : Proc CRemoteParcel} {i : ℕ} {x : Sent} {rest : List UInt8}
    (ht : t.Marshalled)
    (hdec : t.isIn = true → t.isOut = false ∧ t.type ≠ .struct ∧ t.type ≠ .pstruct)
    (hx : c.sent b n t i = some x) (hok : RpcSends E.itfs body x) (hs : t.isOut → s.out.isSome)
    (hleft : rpcStream.Left ((rpcCodec E henv body).sent x ++ rest) s.parcel) :
    ∃ s', unmshInStep .rpc b (rpcParcel E) n t s = .ok (none, s') ∧ rpcStream.Left rest s'.parcel ∧
      s'.out = s.out.map (· + x.span .rpc t) ∧
      (∀ k, (∀ o, s.out = some o → k < o ∨ o + x.span .rpc t ≤ k) →
        s'.outBuffer k = s.outBuffer k) ∧
      ∀ o, s.out = some o → t.isOut → s'.outBuffer o = .num x.tag := by
  let C := rpcCodec E henv body
  have hof := sent_of hx
  by_cases hin : t.isIn = true
  · obtain ⟨hisOut, hne, hne'⟩ := hdec hin
    have hin' : ∃ s', unmshInStep .rpc b (rpcParcel E) n t s = .ok (none, s') ∧
        rpcStream.Left rest s'.parcel ∧ s'.out = s.out ∧ s'.outBuffer = s.outBuffer := by
      rw [Proc.sent, if_pos hin] at hx
      obtain ⟨v, hv, rfl⟩ := Option.map_eq_some_iff.mp hx
      by_cases htype : t.type = .eguid
      · rw [Proc.readArg, htype] at hv
        obtain ⟨str, -, rfl⟩ := Option.map_eq_some_iff.mp hv
        exact unmshInStep_eguid htype hin hisOut (C.reads_arg _ trivial) hleft
      · have hcarries : C.Carries v := carries_of_sends hok
          (ne_struct_of_sent (c := c) (n := n) (i := i)
            (by rw [Proc.sent, if_pos hin, hv, Option.map_some]) hne hne')
        obtain ⟨s', hrun, hleft', -, hout, hframe, -⟩ := unmshInArg_spec (m := .rpc) (b := b)
          (n := n) (o := 0) hof.2 htype hin (C.reads_arg v hcarries) hleft
        refine ⟨s', ?_, hleft', hout, funext fun k => hframe.buffer k (Nat.lt_or_ge k 0)⟩
        rw [unmshInStep, if_neg (by simp [hisOut]), if_pos hin]
        exact hrun
    obtain ⟨s', hrun, hleft', hout, hbuffer⟩ := hin'
    have hspan : x.span .rpc t = 0 := by
      rw [Proc.sent, if_pos hin] at hx
      obtain ⟨v, -, rfl⟩ := Option.map_eq_some_iff.mp hx
      rfl
    refine ⟨s', hrun, hleft', ?_, fun _ _ => by rw [hbuffer], fun _ _ h => by simp [hisOut] at h⟩
    rw [hout, hspan]
    exact (Option.map_id' (x := s.out)).symm
  · have hisOut := ht.direction.resolve_left hin
    obtain ⟨o, ho⟩ := Option.isSome_iff_exists.mp (hs hisOut)
    obtain ⟨s', hrun, hleft', -, hout, hframe, htag, -⟩ :=
      unmshInOut_spec C hof (by simpa using hin) (ht.laidOut hisOut) ho hleft
    refine ⟨s', ?_, hleft', by rw [hout, ho, Option.map_some],
      fun k hk => hframe.buffer k (hk o ho), fun o' ho' _ => ?_⟩
    · rw [unmshInStep, if_pos hisOut]
      exact hrun
    · rw [ho] at ho'
      exact Option.some.inj ho' ▸ htag

/-- **The layout of the stub**: the slots are where the words of the slots before them end, and the
tags are those of the arguments. -/
theorem unmshIn_layout (params : List Param) (hparams : ∀ t ∈ params, t.Marshalled)
    (hdec : ∀ t ∈ params, t.isIn = true → t.isOut = false ∧ t.type ≠ .struct ∧ t.type ≠ .pstruct)
    (start : Option ℕ) :
    ∀ (n i o : ℕ) (s : Proc CRemoteParcel),
      c.Passes b (fun _ x => RpcSends E.itfs body x) n params i →
      (∀ t ∈ params, t.isOut → start.isSome) → s.out = start.map (· + o) →
      rpcStream.Left ((rpcCodec E henv body).request b c n params i) s.parcel →
      ∃ s', process (unmshInStep .rpc b (rpcParcel E)) n params s = .ok (NOERROR, s') ∧
        s'.out = start.map (· + (o + c.outSpan b .rpc n params i)) ∧
        (∀ k, (∀ a, start = some a → k < a + o ∨ a + (o + c.outSpan b .rpc n params i) ≤ k) →
          s'.outBuffer k = s.outBuffer k) ∧
        (∀ a, start = some a → Laid .rpc b c s' n params i (a + o)) ∧
        (visits (unmshInStep .rpc b (rpcParcel E)) n params s).map Proc.out
          = (outPlaces .rpc b c n params i o).map fun k => start.map (· + k) := by
  induction params with
  | nil => exact fun n i o s _ _ ho _ => ⟨s, rfl, ho, fun _ _ => rfl, fun _ _ => trivial, rfl⟩
  | cons t ts ih =>
    rintro n i o s ⟨⟨x, hx, hok⟩, hrest⟩ hstart ho hleft
    rw [List.forall_mem_cons] at hparams hdec hstart
    rw [Codec.request, hx, Option.elim_some] at hleft
    obtain ⟨s₁, hstep, hleft₁, hout, hbuffer, htag⟩ := unmshInStep_layout hparams.1 hdec.1 hx hok
      (fun h => by rw [ho, Option.isSome_map]; exact hstart.1 h) hleft
    have ho₁ : s₁.out = start.map (· + (o + x.span .rpc t)) := by
      rw [hout, ho, Option.map_map]
      refine congrArg (Option.map · start) (funext fun k => ?_)
      exact Nat.add_assoc k o _
    obtain ⟨s', hrun, hout', hbuffer', hlaid, hvisits⟩ := ih hparams.2 hdec.2 (n + 1) _ _ s₁ hrest
      hstart.2 ho₁ hleft₁
    have hsum : o + c.outSpan b .rpc n (t :: ts) i
        = o + x.span .rpc t + c.outSpan b .rpc (n + 1) ts (nextArg b c.phase n t i) := by
      rw [Proc.outSpan, hx, Option.elim_some, Nat.add_assoc]
    rw [hsum]
    refine ⟨s', ?_, hout', fun k hk => ?_, fun a ha => ⟨fun y hy hisOut => ?_, ?_⟩, ?_⟩
    · rw [process, Run.bind_ok hstep]
      exact hrun
    · rw [hbuffer' k fun a ha => (hk a ha).imp_left (by omega), hbuffer k fun a ha => ?_]
      rw [ho] at ha
      obtain ⟨a, hstart', rfl⟩ := Option.map_eq_some_iff.mp ha
      have := hk a hstart'
      omega
    · -- the later slots are behind the tag
      rw [hx] at hy
      obtain rfl := Option.some.inj hy
      have hpos : 0 < x.span .rpc t := by
        cases x with
        | value v =>
          have hin := (sent_of hx).1
          rw [(hdec.1 hin).1] at hisOut
          cases hisOut
        | wanted _ | unwanted => simp [Sent.span]
      rw [hbuffer' _ fun a' ha' => .inl ?_]
      · exact htag _ (by rw [ho, ha, Option.map_some]) hisOut
      · rw [ha] at ha'
        obtain rfl := Option.some.inj ha'
        omega
    · rw [hx, Option.elim_some, Nat.add_assoc]
      exact hlaid a ha
    · rw [visits, hstep, List.map_cons, outPlaces, List.map_cons, ho, hx, Option.elim_some]
      exact congrArg (_ :: ·) hvisits

/-- Only the tags in the out buffer matter. -/
theorem Laid.congr {π : Type} {m : Marshaller} {c s s' : Proc π} {params : List Param} :
    ∀ {n i o a : ℕ}, Laid m b c s n params i (a + o) →
      (∀ (k : ℕ) (t : Param) (o' : ℕ), params[k]? = some t → t.isOut →
        (outPlaces m b c n params i o)[k]? = some o' →
          s'.outBuffer (a + o') = s.outBuffer (a + o')) →
      Laid m b c s' n params i (a + o) := by
  induction params with
  | nil => exact fun _ _ => trivial
  | cons t ts ih =>
    rintro n i o a ⟨htag, hrest⟩ hsame
    refine ⟨fun x hx hisOut => ?_, ?_⟩
    · rw [hsame 0 t o rfl hisOut rfl]
      exact htag x hx hisOut
    · rw [Nat.add_assoc] at hrest ⊢
      exact ih hrest fun k u o' hu hisOut ho' => hsame (k + 1) u o' hu hisOut ho'

/-- **The walk of `Stub_ProcessMsh_Out`** over the slots, up to where it stops. -/
theorem mshOut_layout (params : List Param) (hparams : ∀ t ∈ params, t.Marshalled)
    (hout : ∀ t ∈ params, t.isIn = true → t.isOut = false) (start : Option ℕ)
    {ok : Param → Sent → Prop} :
    ∀ (n i o : ℕ) (s : Proc CRemoteParcel), c.Passes b ok n params i →
      s.out = start.map (· + o) → (∀ a, start = some a → Laid .rpc b c s n params i (a + o)) →
      (visits (mshOutStep .rpc b (rpcParcel E) false) n params s).map Proc.out
        <+: (outPlaces .rpc b c n params i o).map fun k => start.map (· + k) := by
  induction params with
  | nil => exact fun _ _ _ _ _ _ _ => List.nil_prefix
  | cons t ts ih =>
    rintro n i o s ⟨⟨x, hx, -⟩, hrest⟩ ho hlaid
    rw [List.forall_mem_cons] at hparams hout
    rw [visits, List.map_cons, outPlaces, List.map_cons, ho, hx, Option.elim_some]
    refine List.cons_prefix_cons.mpr ⟨rfl, ?_⟩
    split
    swap
    · exact List.nil_prefix
    next s₁ hstep =>
    rw [mshOutStep] at hstep
    have hstep' : s₁.out = start.map (· + (o + x.span .rpc t)) ∧ s₁.outBuffer = s.outBuffer := by
      by_cases hisOut : t.isOut = true
      · rw [if_pos hisOut] at hstep
        obtain ⟨k, hbumped, hk⟩ := bumped_of_mshOutOut hstep
        refine ⟨?_, hbumped.outBuffer⟩
        rw [hbumped.out]
        change s.out.map _ = _
        rw [ho, Option.map_map]
        cases hstart : start with
        | none => rfl
        | some a =>
          have htag := (hlaid a hstart).1 x hx hisOut
          have hin : t.isIn = false := by
            by_contra hne
            have := hout.1 (by simpa using hne)
            rw [this] at hisOut
            cases hisOut
          obtain ⟨w, hw⟩ := Option.isSome_iff_exists.mp (hparams.1.laidOut hisOut)
          have hkspan : k = x.span .rpc t := by
            rw [hk rfl (a + o) (by rw [ho, hstart, Option.map_some]), tagSpan, Proc.outAt, htag]
            simp only [Word.bits_num, hw, Option.getD_some]
            cases x with
            | value v =>
              rw [(sent_of hx).1] at hin
              cases hin
            | wanted size => simp [Sent.tag, Sent.span, hw, MSH_NOT_NULL_ne]
            | unwanted => simp [Sent.tag, Sent.span]
          rw [hkspan]
          exact congrArg some (Nat.add_assoc a o _)
      · rw [if_neg hisOut] at hstep
        have hsame := keepsOut_mshOutIn n t s none s₁ hstep
        refine ⟨?_, hsame.outBuffer⟩
        have hin := hparams.1.direction.resolve_right hisOut
        rw [Proc.sent, if_pos hin] at hx
        obtain ⟨v, -, rfl⟩ := Option.map_eq_some_iff.mp hx
        rw [hsame.out, ho]
        rfl
    refine ih hparams.2 hout.2 (n + 1) _ _ s₁ hrest hstep'.1 fun a ha => ?_
    have htail := (hlaid a ha).2
    rw [hx, Option.elim_some, Nat.add_assoc] at htail
    exact htail.congr fun _ _ _ _ _ _ => by rw [hstep'.2]

end

/-! ### Where the layouts agree -/

section

variable {E : RpcEnv} {henv : E.alloc.Succeeds} {body : Itf → List UInt8} {b : Build}
  {rawLen : Word → UInt32} {params : List Param} {c s : Proc CRemoteParcel}

/-- **The stub** lays out the slots that the caller has asked for, wherever it stores the
arguments. -/
theorem laidOut_of_inCall (hparams : ∀ t ∈ params, t.Marshalled)
    (hdec : ∀ t ∈ params, t.isIn = true → t.isOut = false ∧ t.type ≠ .struct ∧ t.type ≠ .pstruct)
    (hcall : InCall E henv body b params c s) :
    ∃ c' s', LaidOut E b params c s c' s' (c.outSpan b .rpc 0 params 0) := by
  let C := rpcCodec E henv body
  let words := c.outSpan b .rpc 0 params 0
  obtain ⟨p, hmsh, -, hwrote⟩ := mshIn_spec (m := .rpc) (b := b) C
    (fun _ v (hv : RpcSends E.itfs body (.value v)) => writesArg_of_sends hv) (fun _ _ _ _ => rfl)
    c params 0 0 {} [] hcall.passes ⟨ready_new, rfl⟩ hcall.room
  have hcontents : p.contents = C.request b c 0 params 0 := hwrote.2
  have hholds : (p.setDataPosition 0).Holds (C.request b c 0 params 0) := by
    rw [← hcontents]
    refine holds_contents ?_
    rw [← length_contents, hcontents]
    exact hcall.room
  obtain ⟨s', hunmsh, hout, hbuffer, hlaid, hvisits⟩ := unmshIn_layout params hparams hdec s.out 0 0
    4 (s.asked p).skipHeader hcall.passes hcall.out rfl hholds
  refine ⟨_, s', hmsh, hunmsh, hout, fun o ho => ?_, fun r hr => ?_⟩
  · by_contra hno
    refine ho (hbuffer o fun a ha => ?_)
    by_contra hwithin
    exact hno ⟨a, ha, by omega, by omega⟩
  intro placed htags n o ho
  have hplaced (k : ℕ) (a o : ℕ) (ha : s.out = some a)
      (hk : (outPlaces .rpc b c 0 params 0 4)[k]? = some o) : placed k (a + o) := by
    change ((visits _ 0 params (s.asked p).skipHeader).map Proc.out)[k]? = _
    rw [hvisits, List.getElem?_map, hk, ha]
    rfl
  have hwalk := mshOut_layout (E := E) params hparams (fun t ht hin => (hdec t ht hin).1) s.out
    0 0 4 r.skipHeader hcall.passes (by rw [← hr]; rfl) fun a ha =>
      (hlaid a ha).congr fun k t o' ht hisOut ho' => htags k t _ ht hisOut (hplaced k a o' ha ho')
  change ((visits _ 0 params (s.asked p).skipHeader).map Proc.out)[n]? = _
  obtain ⟨rest, hrest⟩ := hwalk
  obtain ⟨hlt, -⟩ := List.getElem?_eq_some_iff.mp ho
  rw [hvisits, ← hrest, List.getElem?_append_left hlt]
  exact ho

/-- The layout is that of one run. -/
theorem LaidOut.words_eq {c' s' c'' s'' : Proc CRemoteParcel} {words words' : ℕ}
    (h : LaidOut E b params c s c' s' words) (h' : LaidOut E b params c s c'' s'' words')
    (hs : s.out.isSome) : words = words' := by
  obtain ⟨a, ha⟩ := Option.isSome_iff_exists.mp hs
  obtain rfl : c' = c'' := (Prod.mk.inj (Except.ok.inj (h.mshIn.symm.trans h'.mshIn))).2
  obtain rfl : s' = s'' := (Prod.mk.inj (Except.ok.inj (h.unmshIn.symm.trans h'.unmshIn))).2
  have hout := h.out.symm.trans h'.out
  rw [ha, Option.map_some, Option.map_some] at hout
  have := Option.some.inj hout
  omega

/-- **The layouts agree** in every call of a method whose pointers are looked for where they are. -/
theorem layoutAgrees_of_placeable (E : RpcEnv) (henv : E.alloc.Succeeds) (body : Itf → List UInt8)
    (b : Build) (rawLen : Word → UInt32) (params : List Param)
    (hparams : ∀ t ∈ params, t.Marshalled) (hlen : params.length < 256)
    (c s : Proc CRemoteParcel) (h : Placeable b c.phase params)
    (hcall : InCall E henv body b params c s) : LayoutAgrees E b rawLen params c s := by
  obtain ⟨z, j, hsize, hz⟩ := bufferSize_spec rawLen params hparams
    (fun t ht hin => (h.decodable t ht hin).1) 0 0 0 {} hcall.passes h.pointers
  obtain ⟨c', s', hlaid⟩ := laidOut_of_inCall hparams h.decodable hcall
  refine ⟨_, c', s', _, hsize, ?_, hlaid⟩
  have hle := outSpan_le (b := b) .rpc c params 0 0
  change _ = z.outSize.toNat
  rw [hz]
  change _ = (0 + UInt32.ofNat _).toNat
  rw [UInt32.zero_add, UInt32.toNat_ofNat_of_lt' (by simp only [UInt32.size]; omega)]

end

/-- The last word of the `EGuid` is zero, and at word 6 is the pointer to a variable. -/
def zeroCarcodeCaller : Proc CRemoteParcel where
  parcel := {}
  args := 0
  stack i := if i = 4 then .obj 0 else if i = 6 then .obj 1 else .null
  out := some 0
  outBuffer _ := .null
  heap := { objs := [.chars ⟨[], zero_notMem_nil⟩, .word .null] }
  addr _ := 0
  phase := 0

theorem inCall_zeroCarcode : InCall plainEnv Allocator.zeros_succeeds (fun _ => []) .x86 eguidParams
    zeroCarcodeCaller zeroCarcodeCaller where
  passes := ⟨⟨_, rfl, trivial⟩, ⟨_, rfl, trivial⟩, trivial⟩
  room := by decide
  phase := rfl
  out _ _ _ := rfl

/-- A number behind an `EGuid`: the client counts four bytes, the stub lays out two words. -/
theorem not_layoutAgrees_eguid : InCall plainEnv Allocator.zeros_succeeds (fun _ => []) .x86
      eguidParams zeroCarcodeCaller zeroCarcodeCaller ∧
    ¬ LayoutAgrees plainEnv .x86 (fun _ => 0) eguidParams zeroCarcodeCaller zeroCarcodeCaller := by
  refine ⟨inCall_zeroCarcode, ?_⟩
  rintro ⟨z, c', s', words, hsize, hwords, hlaid⟩
  have hparams : ∀ t ∈ eguidParams, t.Marshalled :=
    List.forall_mem_cons.mpr ⟨marshalled_eguid, List.forall_mem_singleton.mpr marshalled_puint32⟩
  obtain ⟨_, _, hlaid'⟩ := laidOut_of_inCall hparams (by decide) inCall_zeroCarcode
  have htwo : words = 2 := hlaid.words_eq hlaid' rfl
  have hfour : z.parcel.outSize = 4 := by
    cases hsize
    rfl
  rw [htwo, hfour] at hwords
  exact absurd hwords (by decide)

theorem marshalled_mixed : ∀ t ∈ mixedParams, t.Marshalled := by
  refine List.forall_mem_cons.mpr ⟨marshalled_in ?_, List.forall_mem_cons.mpr ⟨marshalled_in ?_,
    List.forall_mem_cons.mpr ⟨marshalled_puint32,
      List.forall_mem_singleton.mpr (marshalled_in ?_)⟩⟩⟩
  all_goals simp [Param.Encoded]

/-- Behind an aligned number and a string the layouts agree. -/
theorem layoutAgrees_mixed : LayoutAgrees plainEnv .arm (fun _ => 0) mixedParams mixedCaller
    { mixedCaller with out := some 0 } :=
  layoutAgrees_of_placeable plainEnv Allocator.zeros_succeeds (fun _ => []) .arm (fun _ => 0)
    mixedParams marshalled_mixed (by decide) mixedCaller { mixedCaller with out := some 0 }
    ⟨by decide, rfl⟩
    ⟨⟨⟨_, rfl, trivial⟩, ⟨_, rfl, trivial⟩, ⟨_, rfl, trivial⟩, ⟨_, rfl, fun _ h => by cases h⟩,
      trivial⟩, by decide, rfl, fun _ _ _ => rfl⟩

end ElastosCar
