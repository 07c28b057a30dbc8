import ElastosCar.Proxy.Dispatch
import ElastosCar.Proxy.Matching

/-!
# What the caller learns

`Invoke` returns a code, and `OnTransact` does not look at it. What reaches the caller is the first
word of the reply, which is there once the method has returned: a request that is rejected before
has an empty reply, and one whose results could not be marshalled has a reply that begins with the
success of the method.

`ProxyEntry_RPC` then takes the code that it has itself, a success, for that of the method. It
finds out about the failure only by accident, when `UnmarshalOut` reads an `[out]` parameter that
is not there: the tag is then what an uninitialised local holds, and if that contradicts the
pointer the caller has passed, the reply is refused.
-/

namespace ElastosCar

open CRemoteParcel Marshal

/-! ### The code in the reply -/

section

variable {E : RpcEnv} (halloc : E.alloc.Succeeds) (hitfs : Appending E.itfs) {w : List UInt8}
include halloc hitfs

/-- An `[out]` parameter begins with a tag, so the value comes far enough behind the first word. -/
theorem stamped_mshOutOut (onlyReleaseIn : Bool) (t : Param) :
    Respects (fun p q => p.Stamped w → q.Stamped w)
      (mshOutOut .rpc (rpcParcel E) onlyReleaseIn t) := by
  have htag {α : Type} (tag : UInt32) {x : Unit → Marshal CRemoteParcel α}
      (hx : ∀ u, Respects (Extends 8) (x u)) :
      Respects (fun p q => p.Stamped w → q.Stamped w)
        (do let _ ← write ((rpcParcel E).writeInt32 tag); bumpOut 1 >>= x) := by
    rintro s a s' h hs
    change x () { s with parcel := (writeInt32 E.alloc tag s.parcel).2, out := s.out.map (· + 1) }
      = .ok (a, s') at h
    have hword : (wordBytes (htonl tag)).length = 4 := by simp
    have hext := extends_writeAligned le_rfl E.alloc (by omega : (wordBytes (htonl tag)).length ≤ 8)
      s.parcel
    have hle := hext.size hs.data
    refine (hs.extends le_rfl (fun _ => hs.size) hext).extends (by decide) (fun hlt => ?_)
      (hx () _ a s' h)
    exact hs.eight_le halloc hword (by omega)
  refine (keeps_bumpArgs 1).then fun _ => ?_
  split
  · exact (keeps_pure none).respects fun _ h => h
  refine (keeps_outBits 0).then fun tag => ?_
  split
  · refine (keeps_carAssert _).then fun _ => htag _ fun _ => ?_
    exact respects_mshOutSlot (writeClosed_extends E.alloc hitfs).respects .rpc t
  · exact htag _ fun _ => (keeps_pure none).respects Extends.refl

/-- **`MarshalOut` leaves the code in the reply alone.** -/
theorem stamped_stubProcessMshOut {b : Build} {params : List Param} {onlyReleaseIn : Bool}
    {s s' : Proc CRemoteParcel} {ec : ECode} (hs : s.parcel.Stamped w)
    (h : stubProcessMshOut .rpc b (rpcParcel E) params onlyReleaseIn s = .ok (ec, s')) :
    s'.parcel.Stamped w := by
  refine respects_process (R := fun p q : CRemoteParcel => p.Stamped w → q.Stamped w)
    (fun _ h => h) (fun h h' hp => h' (h hp)) (fun n t => ?_) params 0 s.skipHeader ec s' h hs
  rw [mshOutStep]
  split
  · exact stamped_mshOutOut halloc hitfs onlyReleaseIn t
  · exact (keeps_mshOutIn b n t).respects fun _ h => h

/-- The reply once the method has returned. -/
theorem stamped_invokeOut {b : Build} {sel : Selected} {ec : ECode} {s : Proc Unit}
    {result : Invoked} {reply : CRemoteParcel}
    (h : invokeOut E b sel ec s {} = .ok (result, reply)) :
    (∃ orgec, result = .returned ec orgec) ∧ reply.Stamped (wire32 ec) := by
  have hstamped : Stamped (wire32 ec) (writeInt32 E.alloc ec {}).2 :=
    stamped_writeAligned halloc (by simp)
  rw [invokeOut] at h
  dsimp only at h
  split at h
  · obtain ⟨⟨orgec, t⟩, ht, h⟩ := Except.bind_eq_ok h
    cases h
    exact ⟨⟨orgec, rfl⟩, stamped_stubProcessMshOut halloc hitfs (s := s.call _ _) hstamped ht⟩
  · cases h
    exact ⟨⟨NOERROR, rfl⟩, hstamped⟩

/-- **The reply of `Invoke`** is empty where the request is rejected, and begins with the code of
the method where it is not. -/
theorem invoke_reply {b : Build} {stub : CObjectStub} {mem : Proc Unit} {data reply : CRemoteParcel}
    {result : Invoked} (h : stub.invoke E b mem data {} = .ok (result, reply)) :
    result = .rejected ∧ reply = {} ∨
      ∃ ec orgec, result = .returned ec orgec ∧ reply.Stamped (wire32 ec) := by
  rw [CObjectStub.invoke] at h
  obtain ⟨⟨selected, data'⟩, -, h⟩ := Except.bind_eq_ok h
  cases selected with
  | none =>
    cases h
    exact .inl ⟨rfl, rfl⟩
  | some sel =>
    obtain ⟨⟨ec, t⟩, -, h⟩ := Except.bind_eq_ok h
    dsimp only at h
    split at h
    · cases h
      exact .inl ⟨rfl, rfl⟩
    · obtain ⟨⟨ec', u⟩, -, h⟩ := Except.bind_eq_ok h
      obtain ⟨⟨orgec, hresult⟩, hstamped⟩ := stamped_invokeOut halloc hitfs h
      exact .inr ⟨ec', orgec, hresult, hstamped⟩

end

/-! ### An empty reply -/

/-- There is no data. -/
structure Blank (p : CRemoteParcel) : Prop where
  pos : p.mDataPos = 0
  size : p.mDataSize = 0

/-- A read that does not move where there is no data. -/
def Idle {α : Type} (r : ReadM α) : Prop := Run.Respects (fun p q => Blank p → q = p) r

/-- The objects that read themselves do not move where there is no data. -/
def Interfaces.Idle (itfs : Interfaces) : Prop := ∀ pack addr, ElastosCar.Idle (itfs.unmarshal pack addr)

section

variable {α β : Type}

theorem idle_pure (a : α) : Idle (pure a : ReadM α) := Run.Respects.pure (fun _ _ => rfl) a

theorem idle_throw (f : Fault) : Idle (throw f : ReadM α) := Run.Respects.throw f

theorem Idle.bind {r : ReadM α} {f : α → ReadM β} (hr : Idle r) (hf : ∀ a, Idle (f a)) :
    Idle (r >>= f) := by
  refine Run.Respects.bind (fun p q r hq hr hp => ?_) hr hf
  have heq := hq hp
  rw [heq] at hr
  exact hr hp

theorem idle_carAssert (b : Bool) : Idle (carAssert b : ReadM Unit) := by
  rw [carAssert]
  split
  · exact idle_pure ()
  · exact idle_throw _

/-- `ReadAligned` fails. -/
theorem readAligned_blank {p : CRemoteParcel} (hp : Blank p) {n : UInt32} (hn : n ≠ 0) :
    readAligned n p = .ok ((E_FAIL, none), p) := by
  have hle : ¬ p.mDataPos + n ≤ p.mDataSize := by
    rw [hp.pos, hp.size, UInt32.le_iff_toNat_le, UInt32.zero_add]
    exact fun h => hn (UInt32.toNat_inj.mp (Nat.le_zero.mp h))
  simp only [readAligned, Run.get_bind, if_neg hle]
  rfl

theorem idle_readAligned {n : UInt32} (hn : n ≠ 0) : Idle (readAligned n) := by
  intro p a q h hp
  rw [readAligned_blank hp hn] at h
  cases h
  rfl

theorem readInt32_blank {p : CRemoteParcel} (hp : Blank p) (old : UInt32) :
    readInt32 old p = .ok ((E_FAIL, old), p) := by
  rw [readInt32, Run.bind_ok (readAligned_blank hp (by decide))]
  rfl

theorem idle_readInt32 (old : UInt32) : Idle (readInt32 old) := by
  intro p a q h hp
  rw [readInt32_blank hp] at h
  cases h
  rfl

theorem idle_readInt64 (old : UInt64) : Idle (readInt64 old) := by
  refine (idle_readAligned (by decide)).bind fun r => ?_
  split <;> exact idle_pure _

theorem idle_readVia (conv : UInt32 → α) (zero : α) (junk : UInt32) :
    Idle (readVia conv zero junk) :=
  (idle_readInt32 junk).bind fun _ => idle_pure _

/-- `Read` fails, or takes no bytes. -/
theorem idle_read (len : UInt32) : Idle (CRemoteParcel.read len) := by
  intro p a q h hp
  simp only [CRemoteParcel.read, Run.get_bind] at h
  split at h
  · next hcan =>
    obtain ⟨bs, p', hpeek, h⟩ := Run.bind_eq_ok h
    rw [canRead, decide_eq_true_iff, hp.pos, hp.size, UInt32.zero_add] at hcan
    have hpad : padSize len = 0 :=
      UInt32.toNat_inj.mp (Nat.le_zero.mp (UInt32.le_iff_toNat_le.mp hcan.2))
    rw [hpad, advance_zero] at h
    cases h
    rfl
  · cases h
    rfl

theorem idle_readCStringInner : Idle readCStringInner := by
  intro p a q h hp
  have havail : ¬ p.mDataSize - p.mDataPos > 0 := by
    rw [hp.pos, hp.size]
    decide
  simp only [readCStringInner, Run.get_bind, if_neg havail] at h
  cases h
  rfl

theorem idle_readString (junk : UInt32) : Idle (readString junk) := by
  refine (idle_readInt32 junk).bind fun r => ?_
  dsimp only
  split
  · exact idle_pure _
  · exact (idle_carAssert _).bind fun _ => idle_readCStringInner.bind fun _ => idle_pure _

theorem idle_readStruct (tag₀ len₀ : UInt32) : Idle (readStruct tag₀ len₀) := by
  refine (idle_readInt32 tag₀).bind fun r => ?_
  dsimp only
  split
  · exact idle_pure _
  · refine (idle_carAssert _).bind fun _ => (idle_readInt32 len₀).bind fun r' =>
      (idle_read r'.2).bind fun r'' => ?_
    split <;> exact idle_pure _

theorem idle_readEMuid (old : EMuid) : Idle (readEMuid old) := by
  refine (idle_read 16).bind fun r => ?_
  split <;> exact idle_pure _

theorem idle_readEGuid : Idle readEGuid := by
  refine (idle_read 24).bind fun r => ?_
  split
  · exact idle_pure _
  · refine idle_readCStringInner.bind fun r' => ?_
    split
    · exact idle_pure _
    · exact idle_throw _

theorem idle_readStrings (n : ℕ) (tag : UInt32) : Idle (readStrings n tag) := by
  induction n generalizing tag with
  | zero => exact idle_pure _
  | succ n ih =>
    refine (idle_readInt32 tag).bind fun r => ?_
    dsimp only
    split
    · exact idle_readCStringInner.bind fun _ => (ih _).bind fun _ => idle_pure _
    · exact (idle_pure _).bind fun _ => (ih _).bind fun _ => idle_pure _

variable {itfs : Interfaces} (hitfs : itfs.Idle)
include hitfs

theorem idle_readInterfaces (junkPack : List UInt8) (n : ℕ) (tag : UInt32) :
    Idle (readInterfaces itfs junkPack n tag) := by
  induction n generalizing tag with
  | zero => exact idle_pure _
  | succ n ih =>
    refine (idle_readInt32 tag).bind fun r => ?_
    dsimp only
    split
    · refine (idle_readString 0).bind fun r' => (idle_read 28).bind fun r'' =>
        (hitfs _ _).bind fun x => ?_
      split
      · exact idle_pure _
      · exact (ih _).bind fun _ => idle_pure _
    · exact (ih _).bind fun _ => idle_pure _

theorem idle_readElements (junkPack : List UInt8) (type size tag : UInt32) :
    Idle (readElements itfs junkPack type size tag) := by
  rw [readElements]
  split
  · exact (idle_readStrings _ _).bind fun _ => idle_pure _
  · split
    · exact (idle_readInterfaces hitfs _ _ _).bind fun _ => idle_pure _
    · exact (idle_read size).bind fun _ => idle_pure _

theorem idle_readArrayOf (junk : ArrayJunk) : Idle (readArrayOf itfs junk) := by
  refine (idle_readInt32 junk.tag).bind fun r => ?_
  dsimp only
  split
  · refine (idle_read 20).bind fun r' => ?_
    rw [readAllocated]
    split
    · exact idle_pure _
    · split
      · exact (idle_readElements hitfs _ _ _ _).bind fun _ => idle_pure _
      · exact idle_pure _
  · exact idle_pure _

omit hitfs in
theorem idle_readInterfacePtr : Idle (readInterfacePtr itfs) := by
  intro p a q h hp
  rw [readInterfacePtr, Run.bind_ok (readAligned_blank hp (by decide))] at h
  cases h
  rfl

end

/-! ### Results that are not there -/

/-- The stack stays, and so does a parcel without data. -/
structure Settled (s s' : Proc CRemoteParcel) : Prop where
  stack : s'.stack = s.stack
  args : s'.args = s.args
  phase : s'.phase = s.phase
  parcel : Blank s.parcel → s'.parcel = s.parcel

/-- A computation that settles. -/
def Settles {α : Type} (x : Marshal CRemoteParcel α) : Prop := Run.Respects Settled x

theorem Settled.refl (s : Proc CRemoteParcel) : Settled s s := ⟨rfl, rfl, rfl, fun _ => rfl⟩

theorem Settled.trans {s t u : Proc CRemoteParcel} (h : Settled s t) (h' : Settled t u) :
    Settled s u where
  stack := h'.stack.trans h.stack
  args := h'.args.trans h.args
  phase := h'.phase.trans h.phase
  parcel hp := by
    have ht := h.parcel hp
    rw [h'.parcel (ht ▸ hp), ht]

section

variable {α β : Type}

theorem settles_pure (a : α) : Settles (pure a) := Run.Respects.pure Settled.refl a

theorem settles_throw (f : Fault) : Settles (throw f : Marshal CRemoteParcel α) :=
  Run.Respects.throw f

theorem Settles.bind {x : Marshal CRemoteParcel α} {f : α → Marshal CRemoteParcel β}
    (hx : Settles x) (hf : ∀ a, Settles (f a)) : Settles (x >>= f) :=
  Run.Respects.bind (fun _ _ _ => Settled.trans) hx hf

theorem settles_read {r : ReadM α} (hr : Idle r) : Settles (Marshal.read r) := by
  intro s a s' h
  rw [Marshal.read] at h
  split at h
  · next a p hp =>
    cases h
    exact ⟨rfl, rfl, rfl, hr _ _ _ hp⟩
  · cases h

theorem settles_deref (w : Word) : Settles (deref w) := by
  intro s a s' h
  unfold deref at h
  split at h
  · cases h
  · split at h
    · cases h
      exact .refl s
    · cases h
  · cases h

theorem settles_derefArray (w : Word) : Settles (derefArray w) := by
  refine (settles_deref w).bind fun o => ?_
  split
  · exact settles_pure _
  · exact settles_throw _

theorem settles_assign (w : Word) (o : Obj) : Settles (assign w o) := by
  intro s a s' h
  unfold assign at h
  split at h
  · cases h
    exact ⟨rfl, rfl, rfl, fun _ => rfl⟩
  · cases h

theorem settles_alloc (o : Obj) : Settles (alloc o) := by
  intro s a s' h
  cases h
  exact ⟨rfl, rfl, rfl, fun _ => rfl⟩

theorem settles_acquire (rs : List Res) : Settles (acquire rs) := by
  intro s a s' h
  cases h
  exact ⟨rfl, rfl, rfl, fun _ => rfl⟩

theorem settles_release (rs : List Res) : Settles (release rs) := by
  intro s a s' h
  cases h
  exact ⟨rfl, rfl, rfl, fun _ => rfl⟩

theorem settles_modify (w : Word) (f : Obj → Option Obj) : Settles (modify w f) := by
  refine (settles_deref w).bind fun o => ?_
  split
  · exact settles_assign w _
  · exact settles_throw _

theorem settles_copyTo (w : Word) (bs : List UInt8) : Settles (readStructTo.copyTo w bs) := by
  refine (settles_deref w).bind fun o => ?_
  split
  · split
    · exact settles_assign w _
    · exact settles_throw _
  · exact settles_throw _

theorem settles_setHandle (w w' : Word) : Settles (readArrayTo.setHandle w w') := settles_modify w _

end

section

variable {E : RpcEnv} (hitfs : E.itfs.Idle)
include hitfs

theorem settles_readArrayTo (w : Word) : Settles (readArrayTo (rpcParcel E) w) := by
  refine (settles_read (r := (rpcParcel E).readArrayOf) fun p a q h => ?_).bind fun r => ?_
  · exact idle_readArrayOf hitfs (E.arrayJunk p) p a q h
  · split
    · exact settles_pure _
    · exact settles_setHandle w _
    · exact (settles_alloc _).bind fun _ => (settles_acquire _).bind fun _ => settles_setHandle w _

theorem settles_readCallerArray (w : Word) : Settles (readCallerArray (rpcParcel E) w) := by
  refine (settles_read (r := (rpcParcel E).readArrayOf) fun p a q h => ?_).bind fun r => ?_
  · exact idle_readArrayOf hitfs (E.arrayJunk p) p a q h
  · split
    · exact settles_throw _
    · exact settles_throw _
    · refine (settles_alloc _).bind fun _ => (settles_derefArray w).bind fun q => ?_
      split
      · exact (settles_assign w _).bind fun _ => settles_release _
      · exact settles_throw _

omit hitfs in
theorem settles_readInterfaceTo (w : Word) : Settles (readInterfaceTo (rpcParcel E) w) := by
  refine (settles_read idle_readInterfacePtr).bind fun r => (settles_acquire _).bind fun _ => ?_
  split
  · exact settles_pure _
  · exact settles_setHandle w _

omit hitfs in
theorem settles_readStructTo (w : Word) : Settles (readStructTo (rpcParcel E) w) := by
  refine (settles_read (r := (rpcParcel E).readStruct) fun p a q h => ?_).bind fun r => ?_
  · exact idle_readStruct (E.junk p).word (E.junk p).len p a q h
  · split
    · exact settles_pure _
    · exact settles_copyTo w _
    · exact settles_copyTo w _

/-- A value that is not there. -/
theorem settles_unmshOutVar (t : Param) (w : Word) : Settles (unmshOutVar (rpcParcel E) t w) := by
  have hvar {α : Type} {r : ReadM α} (hr : Idle r) (f : α → Obj → Option Obj) :
      Settles (do let v ← Marshal.read r; modify w (f v); pure (none : Option ECode)) :=
    (settles_read hr).bind fun _ => (settles_modify w _).bind fun _ => settles_pure none
  rw [unmshOutVar]
  split
  · exact hvar (r := (rpcParcel E).readByte)
      (fun p => idle_readVia UInt32.toUInt8 0 (E.junk p).word p) _
  · exact hvar (r := (rpcParcel E).readInt16)
      (fun p => idle_readVia (fun i => i.toUInt16.toInt16) 0 (E.junk p).word p) _
  · exact hvar (r := (rpcParcel E).readInt32) (fun p => idle_readInt32 (E.junk p).word p) _
  · exact hvar (r := (rpcParcel E).readInt64) (fun p => idle_readInt64 (E.junk p).dword p) _
  · exact (settles_readStructTo w).bind fun _ => settles_pure none
  · exact hvar (r := (rpcParcel E).readEMuid) (fun p => idle_readEMuid (E.junk p).id p) _
  · exact hvar (r := (rpcParcel E).readEGuid) idle_readEGuid _
  · exact hvar (r := (rpcParcel E).readString) (fun p => idle_readString (E.junk p).word p) _
  iterate 3
    dsimp only
    split
    · exact (settles_readCallerArray hitfs w).bind fun _ => settles_pure none
    · exact (settles_readArrayTo hitfs w).bind fun _ => settles_pure none
  · exact (settles_readInterfaceTo w).bind fun _ => settles_pure none
  · exact settles_throw _

end

/-- `Proxy_ProcessUnmsh_Out` goes on once it has the value. -/
theorem unmshOutVar_eq_none (P : IParcel CRemoteParcel) (t : Param) (w : Word) :
    Run.Yields (· = none) (unmshOutVar P t w) := by
  rw [unmshOutVar]
  split
  iterate 4 exact .bind fun _ => .bind fun _ => .pure rfl
  · exact .bind fun _ => .pure rfl
  iterate 3 exact .bind fun _ => .bind fun _ => .pure rfl
  iterate 3
    dsimp only
    split
    · exact .bind fun _ => .pure rfl
    · exact .bind fun _ => .pure rfl
  · exact .bind fun _ => .pure rfl
  · exact .throw _

/-- The words of the caller's stack that are `[out]` pointers; the first parameter has the index
`n` and is at the word `i`. -/
def outPointers (b : Build) (phase : ℕ) (stack : ℕ → Word) : (n i : ℕ) → List Param → List Word
  | _, _, [] => []
  | n, i, t :: ts =>
    if t.isOut then stack i :: outPointers b phase stack (n + 1) (i + 1) ts
    else
      match t.type with
      | .uint64 => outPointers b phase stack (n + 1) (b.align64 phase n i + 2) ts
      | .emuid => outPointers b phase stack (n + 1) (i + 4) ts
      | .eguid => outPointers b phase stack (n + 1) (i + 5) ts
      | _ => outPointers b phase stack (n + 1) (i + 1) ts

/-- A tag says the other of the two about a pointer, or nothing. -/
def Contradicts (tag : UInt32) (w : Word) : Prop :=
  if w = .null then tag ≠ MSH_NULL else tag ≠ MSH_NOT_NULL

section

variable {E : RpcEnv} (hitfs : E.itfs.Idle)
include hitfs

/-- An `[out]` parameter that is not there is refused if and only if the uninitialised tag
contradicts the pointer. -/
theorem unmshOutOut_blank {t : Param} {s s' : Proc CRemoteParcel} {r : Option ECode}
    (hs : Blank s.parcel) (h : unmshOutOut (rpcParcel E) t s = .ok (r, s')) :
    Contradicts (E.junk s.parcel).word (s.stack s.args) ∧ r = some E_INVALID_ARGUMENT ∨
      ¬ Contradicts (E.junk s.parcel).word (s.stack s.args) ∧ r = none ∧
        s'.stack = s.stack ∧ s'.phase = s.phase ∧ s'.args = s.args + 1 ∧ s'.parcel = s.parcel := by
  have hread : (rpcParcel E).readInt32 s.parcel
      = .ok ((E_FAIL, (E.junk s.parcel).word), s.parcel) := readInt32_blank hs _
  rw [unmshOutOut, arg_bind, read_bind hread, Nat.add_zero] at h
  dsimp only at h
  by_cases hw : s.stack s.args = .null
  · rw [if_neg (not_not.mpr hw)] at h
    rw [Contradicts, if_pos hw]
    split at h
    · next htag =>
      cases h
      exact .inl ⟨htag, rfl⟩
    · next htag =>
      cases h
      exact .inr ⟨htag, rfl, rfl, rfl, rfl, rfl⟩
  · rw [if_pos hw] at h
    rw [Contradicts, if_neg hw]
    split at h
    · next htag =>
      cases h
      exact .inl ⟨htag, rfl⟩
    · next htag =>
      obtain ⟨r', t', ht, h⟩ := Run.bind_eq_ok h
      have hsettled : Settled s t' := settles_unmshOutVar hitfs t _ _ _ _ ht
      have hnone : r' = none := unmshOutVar_eq_none _ _ _ _ _ _ ht
      subst hnone
      cases h
      refine .inr ⟨htag, rfl, hsettled.stack, hsettled.phase, ?_, hsettled.parcel hs⟩
      exact congrArg (· + 1) hsettled.args

/-- **Results that are not there** are refused if and only if the uninitialised tag contradicts
one of the pointers. -/
theorem process_unmshOut_blank {b : Build} (ts : List Param) {n : ℕ} {s s' : Proc CRemoteParcel}
    {ec : ECode} (hs : Blank s.parcel)
    (h : process (unmshOutStep b (rpcParcel E)) n ts s = .ok (ec, s')) :
    failed ec = true ↔ ∃ w ∈ outPointers b s.phase s.stack n s.args ts,
      Contradicts (E.junk s.parcel).word w := by
  induction ts generalizing n s with
  | nil =>
    cases h
    simp [outPointers]
  | cons t ts ih =>
    obtain ⟨r, t', ht, h⟩ := Run.bind_eq_ok h
    rw [unmshOutStep] at ht
    rw [outPointers]
    split at ht
    · next hout =>
      rw [if_pos hout, List.exists_mem_cons_iff]
      rcases unmshOutOut_blank hitfs hs ht with ⟨hc, rfl⟩ | ⟨hc, rfl, hstack, hphase, hargs, hparcel⟩
      · cases h
        exact iff_of_true (by decide) (.inl hc)
      · have hrest := ih (hparcel ▸ hs) h
        rw [hstack, hphase, hargs, hparcel] at hrest
        rw [hrest, or_iff_right hc]
    · next hout =>
      rw [if_neg hout]
      unfold unmshOutIn at ht
      generalize t.type = type at ht ⊢
      cases type <;> cases ht <;> exact ih (by exact hs) h

end

/-- A pointer in the list belongs to an `[out]` parameter. -/
theorem methodHasOutArgs_of_mem {b : Build} {phase : ℕ} {stack : ℕ → Word} {w : Word}
    {methodInfo : CIMethodInfo} {n i : ℕ}
    (h : w ∈ outPointers b phase stack n i methodInfo.mParams) :
    CInterfaceProxy.methodHasOutArgs methodInfo = true := by
  rw [CInterfaceProxy.methodHasOutArgs]
  generalize methodInfo.mParams = ts at h
  induction ts generalizing n i with
  | nil => cases h
  | cons t ts ih =>
    rw [List.any_cons, Bool.or_eq_true]
    rw [outPointers] at h
    split at h
    · next hout => exact .inl hout
    · split at h <;> exact .inr (ih h)

/-! ### A failed method -/

theorem next_eq_none {π : Type} (k : ℕ) : Run.Yields (· = none) (next k : Marshal π (Option ECode)) :=
  .bind fun _ => .pure rfl

theorem mshOutIn_eq_none {π : Type} (b : Build) (n : ℕ) (t : Param) :
    Run.Yields (· = none) (mshOutIn b n t : Marshal π (Option ECode)) := by
  rw [mshOutIn]
  split
  · exact .bind fun _ => next_eq_none 2
  iterate 6 exact .bind fun _ => .bind fun _ => next_eq_none 1
  · exact next_eq_none 4
  · exact next_eq_none 5
  · refine .bind fun w => ?_
    split
    · exact next_eq_none 1
    · refine .bind fun o => ?_
      split
      · exact .bind fun _ => .bind fun _ => next_eq_none 1
      · exact .throw _
  · exact .bind fun _ => .bind fun _ => .bind fun _ => next_eq_none 1
  iterate 3
    refine .bind fun w => ?_
    split
    · exact next_eq_none 1
    · exact .bind fun _ => .bind fun _ => next_eq_none 1
  · exact next_eq_none 1

/-- `MarshalOut` that only releases cannot fail. -/
theorem stubProcessMshOut_onlyReleaseIn {π : Type} {m : Marshaller} {b : Build} {P : IParcel π}
    {params : List Param} {s s' : Proc π} {ec : ECode}
    (h : stubProcessMshOut m b P params true s = .ok (ec, s')) : ec = NOERROR := by
  have hstep (n : ℕ) (t : Param) : Run.Yields (· = none) (mshOutStep m b P true n t) := by
    rw [mshOutStep]
    split
    · exact .bind fun _ => .pure rfl
    · exact mshOutIn_eq_none b n t
  rw [stubProcessMshOut] at h
  generalize s.skipHeader = t at h
  generalize 0 = n at h
  induction params generalizing n t with
  | nil =>
    cases h
    rfl
  | cons p ps ih =>
    obtain ⟨r, u, hu, h⟩ := Run.bind_eq_ok h
    have hnone : r = none := hstep n p _ _ _ hu
    subst hnone
    exact ih _ _ h

/-- Where `MarshalOut` fails, the method has succeeded. -/
theorem invokeOut_failed {E : RpcEnv} {b : Build} {sel : Selected} {ec ec' orgec : ECode}
    {s : Proc Unit} {reply reply' : CRemoteParcel}
    (h : invokeOut E b sel ec s reply = .ok (.returned ec' orgec, reply'))
    (horg : failed orgec = true) : failed ec' = false := by
  rw [invokeOut] at h
  dsimp only at h
  split at h
  · next hcond =>
    obtain ⟨⟨c, t⟩, ht, h⟩ := Except.bind_eq_ok h
    cases h
    by_contra hec
    rw [Bool.not_eq_false] at hec
    -- the call is there for the references to be released, and skips the results
    have hmark : sel.methodInfo.inInterfaceMark = true := by simpa [hec] using hcond
    rw [hec, hmark] at ht
    have hnoerror := stubProcessMshOut_onlyReleaseIn ht
    rw [hnoerror] at horg
    cases horg
  · cases h
    cases horg

theorem invoke_failed {E : RpcEnv} {b : Build} {stub : CObjectStub} {mem : Proc Unit}
    {data reply reply' : CRemoteParcel} {ec orgec : ECode}
    (h : stub.invoke E b mem data reply = .ok (.returned ec orgec, reply'))
    (horg : failed orgec = true) : failed ec = false := by
  rw [CObjectStub.invoke] at h
  obtain ⟨⟨selected, data'⟩, -, h⟩ := Except.bind_eq_ok h
  cases selected with
  | none => cases h
  | some sel =>
    obtain ⟨⟨c, t⟩, -, h⟩ := Except.bind_eq_ok h
    dsimp only at h
    split at h
    · cases h
    · obtain ⟨⟨c', u⟩, -, h⟩ := Except.bind_eq_ok h
      exact invokeOut_failed h horg

/-! ### The code that the caller gets -/

/-- The caller learns how `Invoke` ended: of its two codes, the first is what it gets and the second
what `UnmarshalOut` says. -/
def Reported (result : Invoked) (r : ECode × ECode) : Prop :=
  match result with
  | .rejected => failed r.1 = true
  | .returned ec orgec =>
    if failed orgec then failed r.1 = true else failed r.2 = false → r.1 = ec

/-- `Proxy_ProcessUnmsh_Out` refuses what is behind the code in a reply. -/
def Refused (E : RpcEnv) (b : Build) (methodInfo : CIMethodInfo) (s : Proc Unit)
    (replyBuf : List UInt8) : Prop :=
  ∃ c t, proxyProcessUnmshOut b (rpcParcel E) methodInfo.mParams
    (s.call ((setData E.alloc replyBuf {}).2.advance 4) none) = .ok (c, t) ∧ failed c = true

/-- The first bytes of a reply are its first word. -/
theorem CRemoteParcel.Stamped.element_eq {w : List UInt8} {p : CRemoteParcel} (hp : p.Stamped w)
    (hlt : p.element.length < 2 ^ 31) : ∃ cs, p.element = w ++ cs := by
  rw [length_element] at hlt
  have hsize : p.mDataSize.toNat ≤ p.dataSize.toNat := by
    rw [dataSize]
    split
    · exact le_rfl
    · next hgt => exact UInt32.le_iff_toNat_le.mp (UInt32.not_lt.mp hgt)
  have hfirst := hp.first (by omega)
  have hload := load_drop_take p.block 0 p.dataSize.toNat 0 4 (by have := hp.size; omega)
  rw [List.drop_zero, Nat.zero_add, hfirst] at hload
  exact ⟨p.element.drop 4, by rw [← hload, element, List.take_append_drop]⟩

section

variable {E : RpcEnv} (halloc : E.alloc.Succeeds) {b : Build} {methodInfo : CIMethodInfo}
  {ec : ECode} {outSize : UInt32} {s : Proc Unit} {r : ECode × ECode}
include halloc

/-- From an empty reply the caller takes its own success, unless a pointer is contradicted. -/
theorem decodeReply_nil (hitfs : E.itfs.Idle) (hec : failed ec = false)
    (h : CInterfaceProxy.decodeReply E b methodInfo ec outSize s [] = .ok r) :
    failed r.1 = true ↔ outSize ≠ 0 ∧ ∃ w ∈ outPointers b s.phase s.stack 0 0 methodInfo.mParams,
      Contradicts (E.junk (setData E.alloc [] {}).2).word w := by
  obtain ⟨hrest, hpos⟩ := rest_setData halloc (show ([] : List UInt8).length < _ by decide)
  have hblank : Blank (setData E.alloc [] {}).2 := by
    refine ⟨hpos, UInt32.toNat_inj.mp ?_⟩
    have hlen := congrArg List.length hrest
    rw [length_rest, hpos] at hlen
    exact hlen
  rw [CInterfaceProxy.decodeReply, readInt32_blank hblank] at h
  change (if failed ec then _ else _) = _ at h
  rw [if_neg (by rw [hec]; decide)] at h
  split at h
  · next hout =>
    obtain ⟨⟨c, t⟩, ht, h⟩ := Except.bind_eq_ok h
    cases h
    have hiff := process_unmshOut_blank hitfs methodInfo.mParams (s := s.call _ _) hblank ht
    change failed (if failed c then c else ec) = true ↔ _
    rw [and_iff_right hout.2]
    refine Iff.trans ?_ hiff
    by_cases hc : failed c = true
    · rw [if_pos hc]
    · rw [if_neg hc, hec]
      exact iff_of_false (by decide) hc
  · next hout =>
    cases h
    change failed ec = true ↔ _
    rw [hec]
    refine iff_of_false (by decide) fun ⟨hsize, w, hw, _⟩ => hout ⟨?_, hsize⟩
    exact methodHasOutArgs_of_mem hw

/-- From a reply that begins with a code the caller takes it, unless the results are refused. -/
theorem decodeReply_wire32 {code : ECode} {cs : List UInt8}
    (hlt : (wire32 code ++ cs).length < 4294967296)
    (h : CInterfaceProxy.decodeReply E b methodInfo ec outSize s (wire32 code ++ cs) = .ok r) :
    (failed r.2 = false → r.1 = code) ∧
      (failed code = false → (failed r.1 = true ↔ outSize ≠ 0 ∧
        CInterfaceProxy.methodHasOutArgs methodInfo = true ∧
          Refused E b methodInfo s (wire32 code ++ cs))) := by
  obtain ⟨hrest, -⟩ := rest_setData halloc hlt
  obtain ⟨hread, -⟩ := readInt32_of_rest hrest ec
  rw [CInterfaceProxy.decodeReply, hread] at h
  change (if failed code then _ else _) = _ at h
  split at h
  · next hcode =>
    cases h
    exact ⟨fun _ => rfl, fun hsucc => absurd hcode (by rw [hsucc]; decide)⟩
  split at h
  · next hcode hout =>
    obtain ⟨⟨c, t⟩, ht, h⟩ := Except.bind_eq_ok h
    cases h
    refine ⟨fun hc => if_neg (by rw [hc]; decide), fun hsucc => ?_⟩
    rw [and_iff_right hout.2, and_iff_right hout.1]
    dsimp only
    constructor
    · intro hfailed
      refine ⟨c, t, ht, ?_⟩
      by_contra hc
      rw [if_neg hc, hsucc] at hfailed
      cases hfailed
    · rintro ⟨c', t', ht', hc'⟩
      rw [ht] at ht'
      cases ht'
      rw [if_pos hc']
      exact hc'
  · next hcode hout =>
    cases h
    refine ⟨fun _ => rfl, fun hsucc => ?_⟩
    rw [hsucc]
    exact iff_of_false (by decide) fun ⟨hsize, hargs, _⟩ => hout ⟨hargs, hsize⟩

end

/-- A class whose interface has no method. -/
def emptyClass : CIClassInfo := ⟨[⟨[], by decide⟩], by decide⟩

/-- An object of a class whose methods all return `ec`. -/
def constStub (cls : CIClassInfo) (ec : ECode) : CObjectStub := ⟨cls, fun _ _ => pure ec, none⟩

/-- What `Invoke` reads of the call with a number. -/
def numberData : CRemoteParcel := (setData .zeros (numberPrepared false).inParcel.element {}).2

/-- The reply to the call. -/
def numberReply (cls : CIClassInfo) (ec : ECode) : CRemoteParcel :=
  match (constStub cls ec).invoke plainEnv .x86 numberCaller numberData {} with
  | .ok (_, reply) => reply
  | .error _ => {}

/-- What the caller has received of it. -/
def numberReceived (bytes : List UInt8) : DataBuffer :=
  match proxyReceive .zeros [] [bytes] with
  | .ok (_, d) => d
  | .error _ => ⟨0, 0, fun _ => 0, 0⟩

end ElastosCar
