import ElastosCar.Marshal.RoundTrip
import ElastosCar.Stub.Invoke

/-!
# Requests from anyone

A request chooses the interface, the method and the size of the out buffer. `Invoke` compares the
method with the number of methods of the interface; the release build compares the interface with
nothing, and no build compares the out size with anything: `Stub_ProcessUnmsh_In` stores where the
signature of the method and the tags in the request tell it to.

* `SlotsFit` says when the slots of a signature fit into an out buffer whatever the tags are. The
  slots are furthest out when every value that can be asked for is asked for.
* `attack` asks for them.
-/

namespace ElastosCar

open CRemoteParcel Marshal

/-! ### Away from the out buffer -/

/-- The out buffer and the pointer into it stay. -/
structure OffOut {π : Type} (s s' : Proc π) : Prop where
  out : s'.out = s.out
  buffer : s'.outBuffer = s.outBuffer

section

variable {π α β : Type}

theorem OffOut.refl (s : Proc π) : OffOut s s := ⟨rfl, rfl⟩

theorem OffOut.trans {s t u : Proc π} (h : OffOut s t) (h' : OffOut t u) : OffOut s u :=
  ⟨h'.out.trans h.out, h'.buffer.trans h.buffer⟩

/-- A computation away from the out buffer. -/
def StaysOff (x : Marshal π α) : Prop := Run.Respects OffOut x

theorem staysOff_pure (a : α) : StaysOff (pure a : Marshal π α) := Run.Respects.pure OffOut.refl a

theorem staysOff_throw (f : Fault) : StaysOff (throw f : Marshal π α) := Run.Respects.throw f

theorem StaysOff.bind {x : Marshal π α} {f : α → Marshal π β} (hx : StaysOff x)
    (hf : ∀ a, StaysOff (f a)) : StaysOff (x >>= f) :=
  Run.Respects.bind (fun _ _ _ => OffOut.trans) hx hf

/-- An access that always succeeds. -/
theorem staysOff_of_eq {x : Marshal π α} (h : ∀ s, ∃ a t, x s = .ok (a, t) ∧ OffOut s t) :
    StaysOff x := by
  intro s a s' hs
  obtain ⟨a', t, ht, hoff⟩ := h s
  rw [ht] at hs
  cases hs
  exact hoff

theorem staysOff_arg (k : ℕ) : StaysOff (arg k : Marshal π Word) :=
  staysOff_of_eq fun s => ⟨_, _, rfl, .refl s⟩

theorem staysOff_storeArg (k : ℕ) (w : Word) : StaysOff (storeArg k w : Marshal π Unit) :=
  staysOff_of_eq fun _ => ⟨_, _, rfl, rfl, rfl⟩

theorem staysOff_align (b : Build) (n : ℕ) : StaysOff (align b n : Marshal π Unit) :=
  staysOff_of_eq fun _ => ⟨_, _, rfl, rfl, rfl⟩

theorem staysOff_alloc (o : Obj) : StaysOff (alloc o : Marshal π ℕ) :=
  staysOff_of_eq fun _ => ⟨_, _, rfl, rfl, rfl⟩

theorem staysOff_acquire (rs : List Res) : StaysOff (acquire rs : Marshal π Unit) :=
  staysOff_of_eq fun _ => ⟨_, _, rfl, rfl, rfl⟩

theorem staysOff_next (k : ℕ) : StaysOff (next k : Marshal π (Option ECode)) :=
  staysOff_of_eq fun _ => ⟨_, _, rfl, rfl, rfl⟩

theorem staysOff_read (r : Run π Fault α) : StaysOff (Marshal.read r) := by
  intro s a s' h
  rw [Marshal.read] at h
  split at h <;> cases h
  exact ⟨rfl, rfl⟩

theorem staysOff_derefChars (w : Word) : StaysOff (derefChars w : Marshal π CString) := by
  have hderef : StaysOff (deref w : Marshal π Obj) := by
    intro s a s' h
    unfold deref at h
    split at h
    · cases h
    · split at h <;> cases h
      exact .refl s
    · cases h
  refine hderef.bind fun o => ?_
  split
  · exact staysOff_pure _
  · exact staysOff_throw _

/-- An `[in]` parameter is stored to the stack and the heap only. -/
theorem staysOff_unmshInArg (m : Marshaller) (b : Build) (P : IParcel π) (n : ℕ) (t : Param) :
    StaysOff (unmshInArg m b P n t) := by
  have harray : StaysOff (readArrayArg P) := by
    refine (staysOff_read _).bind fun r => ?_
    split
    · exact staysOff_pure ()
    · exact staysOff_storeArg 0 _
    · exact (staysOff_alloc _).bind fun _ => (staysOff_acquire _).bind fun _ => staysOff_storeArg 0 _
  have hid (id : EMuid) : StaysOff (storeEMuid id : Marshal π Unit) :=
    (staysOff_storeArg 0 _).bind fun _ => (staysOff_storeArg 1 _).bind fun _ =>
      (staysOff_storeArg 2 _).bind fun _ => staysOff_storeArg 3 _
  have hnumber (k : ℕ) {x : Marshal π Unit} (hx : StaysOff x) (ec : ECode) :
      StaysOff (if failed ec = true then next k else do x; next k) := by
    split
    · exact staysOff_next k
    · exact hx.bind fun _ => staysOff_next k
  rw [unmshInArg.eq_def]
  split
  iterate 3 exact (staysOff_read _).bind fun r => hnumber 1 (staysOff_storeArg 0 _) r.1
  · refine (staysOff_align b n).bind fun _ => (staysOff_read _).bind fun r => ?_
    exact hnumber 2 ((staysOff_storeArg 0 _).bind fun _ => staysOff_storeArg 1 _) r.1
  iterate 4 exact staysOff_throw _
  · exact (staysOff_read _).bind fun r => hnumber 4 (hid _) r.1
  · refine StaysOff.bind ((staysOff_read _).bind fun r => ?_) fun _ =>
      (staysOff_arg 4).bind fun w => (staysOff_derefChars w).bind fun _ => staysOff_next _
    split
    · exact staysOff_pure ()
    · exact (staysOff_alloc _).bind fun _ => (hid _).bind fun _ =>
        (staysOff_storeArg 4 _).bind fun _ => staysOff_storeArg 5 _
  iterate 4 exact staysOff_throw _
  iterate 2
    split
    · exact staysOff_throw _
    · exact harray.bind fun _ => staysOff_next 1
  · exact harray.bind fun _ => staysOff_next 1
  · exact (staysOff_read _).bind fun _ => (staysOff_alloc _).bind fun _ =>
      (staysOff_storeArg 0 _).bind fun _ => staysOff_next 1
  · refine StaysOff.bind ((staysOff_read _).bind fun r => (staysOff_acquire _).bind fun _ => ?_)
      fun ec => ?_
    · split
      · exact staysOff_pure _
      · exact (staysOff_storeArg 0 _).bind fun _ => staysOff_pure _
    · split
      · exact staysOff_pure _
      · exact staysOff_next 1
  · exact staysOff_throw _
  iterate 2 exact staysOff_pure _

end

/-! ### The slots -/

/-- The words from the tag of an `[out]` parameter to the last one that is stored to. -/
def storedWords (t : Param) : ℕ :=
  match t.type with
  | .peguid => 6
  | .pstring => 3
  | .stringBuf | .bufferOf | .arrayOf | .pinterface => 2
  | _ => 1

/-- `Stub_ProcessUnmsh_In` of linux_rpc reads an `[in]` parameter of the type. -/
def BtType.decoded : BtType → Bool
  | .uint8 | .uint16 | .uint32 | .uint64 | .emuid | .eguid | .stringBuf | .bufferOf | .arrayOf
  | .string | .interface => true
  | _ => false

/-- From the word `o` of an out buffer of `limit` bytes on, the slots of the parameters fit into it
as far as they are stored to. The parameters behind one that is not decoded are not reached. -/
def SlotsFit (limit : ℕ) : (o : ℕ) → List Param → Prop
  | _, [] => True
  | o, t :: ts =>
    if t.isOut then
      4 * (o + storedWords t) ≤ limit ∧ SlotsFit limit (o + 1 + (slotWords .rpc t).getD 0) ts
    else if t.isIn ∧ t.type.decoded then SlotsFit limit o ts
    else True

theorem SlotsFit.mono {limit o o' : ℕ} {ts : List Param} (h : SlotsFit limit o' ts) (hle : o ≤ o') :
    SlotsFit limit o ts := by
  induction ts generalizing o o' with
  | nil => trivial
  | cons t ts ih =>
    rw [SlotsFit] at h ⊢
    split at h
    · next hout =>
      rw [if_pos hout]
      exact ⟨by omega, ih h.2 (by omega)⟩
    · next hout =>
      rw [if_neg hout]
      split at h
      · next hin =>
        rw [if_pos hin]
        exact ih h hle
      · next hin => rw [if_neg hin]; trivial

/-- The words outside the slot from `o` on are as before, and the next slot is behind it. -/
structure SlotOnly {π : Type} (t : Param) (o : ℕ) (s s' : Proc π) (r : Option ECode) : Prop where
  buffer : ∀ w, w < o ∨ o + storedWords t ≤ w → s'.outBuffer w = s.outBuffer w
  out : r = none → ∃ o', s'.out = some o' ∧ o' ≤ o + 1 + (slotWords .rpc t).getD 0

theorem one_le_storedWords (t : Param) : 1 ≤ storedWords t := by
  rw [storedWords]
  split <;> decide

/-- The part of a slot behind its tag. -/
theorem slotOnly_layOut {π : Type} {P : IParcel π} {t : Param} {s s' : Proc π} {r : Option ECode}
    {o : ℕ} (ho : s.out = some (o + 1)) (h : layOut .rpc P t s = .ok (r, s')) :
    SlotOnly t o s s' r := by
  obtain ⟨parcel, args, stack, out, buffer, heap, addr, phase⟩ := s
  dsimp only at ho
  subst ho
  cases ht : t.type <;> simp only [layOut, ht] at h
  case puint8 | puint16 | puint32 | puint64 | pemuid | pstruct =>
    cases h
    exact ⟨fun _ _ => rfl, fun _ => ⟨_, rfl, by simp [slotWords, ht]⟩⟩
  case peguid =>
    cases h
    refine ⟨fun w hw => ?_, fun _ => ⟨_, rfl, by simp [slotWords, ht]⟩⟩
    simp only [storedWords, ht] at hw
    exact Function.update_of_ne (show w ≠ o + 5 by omega) _ _
  case pstring =>
    cases h
    refine ⟨fun w hw => ?_, fun _ => ⟨_, rfl, by simp [slotWords, ht]⟩⟩
    simp only [storedWords, ht] at hw
    exact (Function.update_of_ne (by omega) _ _).trans (Function.update_of_ne (by omega) _ _)
  case pinterface =>
    cases h
    refine ⟨fun w hw => ?_, fun _ => ⟨_, rfl, by simp [slotWords, ht]⟩⟩
    simp only [storedWords, ht] at hw
    exact Function.update_of_ne (by omega) _ _
  case stringBuf | bufferOf | arrayOf =>
    split at h
    · obtain ⟨⟨ec, size⟩, s₁, hread, h⟩ := Run.bind_eq_ok h
      rw [Marshal.read] at hread
      split at hread <;> cases hread
      cases h
      refine ⟨fun w hw => ?_, fun _ => ⟨_, rfl, by simp [slotWords, ht]⟩⟩
      simp only [storedWords, ht] at hw
      exact Function.update_of_ne (by omega) _ _
    · cases h
      refine ⟨fun w hw => ?_, fun _ => ⟨_, rfl, by simp [slotWords, ht]⟩⟩
      simp only [storedWords, ht] at hw
      exact Function.update_of_ne (by omega) _ _
  all_goals
    cases h
    exact ⟨fun _ _ => rfl, fun h => by cases h⟩

/-- **An `[out]` parameter** is stored to its slot. -/
theorem slotOnly_unmshInOut {π : Type} {P : IParcel π} {t : Param} {s s' : Proc π}
    {r : Option ECode} {o : ℕ} (ho : s.out = some o) (h : unmshInOut .rpc P t s = .ok (r, s')) :
    SlotOnly t o s s' r := by
  have hpos := one_le_storedWords t
  obtain ⟨parcel, args, stack, out, buffer, heap, addr, phase⟩ := s
  dsimp only at ho
  subst ho
  rw [unmshInOut, Run.get_bind, Run.bind_ok rfl] at h
  obtain ⟨⟨ec, v⟩, s₁, hread, h⟩ := Run.bind_eq_ok h
  rw [Marshal.read] at hread
  split at hread
  swap
  · cases hread
  next p hp =>
  cases hread
  dsimp only at h
  split at h
  · rw [Run.bind_ok rfl, Run.bind_ok rfl] at h
    obtain ⟨r', s₂, hlay, h⟩ := Run.bind_eq_ok h
    obtain ⟨hbuffer, hout⟩ := slotOnly_layOut (o := o) rfl hlay
    have hbuffer' (w : ℕ) (hw : w < o ∨ o + storedWords t ≤ w) : s₂.outBuffer w = buffer w :=
      (hbuffer w hw).trans (Function.update_of_ne (by omega) _ _)
    cases r' with
    | some ec =>
      cases h
      exact ⟨hbuffer', fun h => by cases h⟩
    | none =>
      cases h
      exact ⟨hbuffer', fun _ => hout rfl⟩
  split at h
  · cases h
    refine ⟨fun w hw => ?_, fun _ => ⟨o + 1, rfl, by omega⟩⟩
    exact Function.update_of_ne (by omega) _ _
  · cases h
    exact ⟨fun _ _ => rfl, fun h => by cases h⟩

theorem SlotsFit.take {limit o : ℕ} {ts : List Param} (h : SlotsFit limit o ts) (k : ℕ) :
    SlotsFit limit o (ts.take k) := by
  induction ts generalizing o k with
  | nil => rwa [List.take_nil]
  | cons t ts ih =>
    cases k with
    | zero => trivial
    | succ k =>
      rw [List.take_succ_cons]
      rw [SlotsFit] at h ⊢
      split at h
      · next hout =>
        rw [if_pos hout]
        exact ⟨h.1, ih h.2 k⟩
      · next hout =>
        rw [if_neg hout]
        split at h
        · next hin =>
          rw [if_pos hin]
          exact ih h k
        · next hin => rw [if_neg hin]; trivial

section

variable {π : Type} {P : IParcel π} {b : Build}

/-- The walk ends at a parameter that is not decoded. -/
theorem unmshInArg_ne_none {n : ℕ} {t : Param} (ht : t.type.decoded = false) {s s' : Proc π}
    {r : Option ECode} (h : unmshInArg .rpc b P n t s = .ok (r, s')) : r ≠ none := by
  unfold unmshInArg at h
  generalize t.type = type at ht h
  cases type <;> cases ht <;> cases h <;> nofun

/-- A step on a parameter that is not `[out]` leaves the out buffer alone, and goes on only behind
one that is decoded. -/
theorem unmshInStep_of_not_out {n : ℕ} {t : Param} (hout : ¬ t.isOut = true) {s s' : Proc π}
    {r : Option ECode} (h : unmshInStep .rpc b P n t s = .ok (r, s')) :
    OffOut s s' ∧ (r = none → t.isIn = true ∧ t.type.decoded = true) := by
  rw [unmshInStep, if_neg hout] at h
  split at h
  · next hin =>
    refine ⟨staysOff_unmshInArg .rpc b P n t s r s' h, fun hr => ⟨hin, ?_⟩⟩
    by_contra hdecoded
    exact unmshInArg_ne_none (Bool.eq_false_iff.mpr hdecoded) h hr
  · cases h
    exact ⟨.refl s, fun h => by cases h⟩

/-- **The stores stay inside** an out buffer into which the slots fit. -/
theorem process_inside {limit : ℕ} (ts : List Param) {n o : ℕ} {s s' : Proc π} {ec : ECode}
    (hfit : SlotsFit limit o ts) (ho : s.out = some o)
    (h : process (unmshInStep .rpc b P) n ts s = .ok (ec, s')) {w : ℕ} (hw : limit < 4 * (w + 1)) :
    s'.outBuffer w = s.outBuffer w := by
  induction ts generalizing n o s with
  | nil =>
    cases h
    rfl
  | cons t ts ih =>
    obtain ⟨r, s₁, hstep, h⟩ := Run.bind_eq_ok h
    rw [SlotsFit] at hfit
    by_cases hout : t.isOut = true
    · rw [if_pos hout] at hfit
      rw [unmshInStep, if_pos hout] at hstep
      obtain ⟨hbuffer, hnext⟩ := slotOnly_unmshInOut ho hstep
      have hw' : s₁.outBuffer w = s.outBuffer w := hbuffer w (.inr (by omega))
      cases r with
      | some ec =>
        cases h
        exact hw'
      | none =>
        obtain ⟨o', ho', hle⟩ := hnext rfl
        exact (ih (hfit.2.mono hle) ho' h).trans hw'
    · rw [if_neg hout] at hfit
      obtain ⟨hoff, hnext⟩ := unmshInStep_of_not_out hout hstep
      have hw' : s₁.outBuffer w = s.outBuffer w := congrFun hoff.buffer w
      cases r with
      | some ec =>
        cases h
        exact hw'
      | none =>
        rw [if_pos (hnext rfl)] at hfit
        exact (ih hfit (hoff.out.trans ho) h).trans hw'

/-- Without an out buffer nothing is stored: an `[out]` parameter is an assertion that fails. -/
theorem process_of_out_none (ts : List Param) {n : ℕ} {s s' : Proc π} {ec : ECode}
    (ho : s.out = none) (h : process (unmshInStep .rpc b P) n ts s = .ok (ec, s')) :
    s'.outBuffer = s.outBuffer := by
  induction ts generalizing n s with
  | nil =>
    cases h
    rfl
  | cons t ts ih =>
    obtain ⟨r, s₁, hstep, h⟩ := Run.bind_eq_ok h
    by_cases hout : t.isOut = true
    · rw [unmshInStep, if_pos hout, unmshInOut, Run.get_bind, ho] at hstep
      cases hstep
    · obtain ⟨hoff, -⟩ := unmshInStep_of_not_out hout hstep
      cases r with
      | some ec =>
        cases h
        exact hoff.buffer
      | none => exact (ih (hoff.out.trans ho) h).trans hoff.buffer

end

/-! ### Asking for everything -/

/-- An `[in]` argument that takes few bytes. -/
def plainArg (t : Param) : ArgVal :=
  match t.type with
  | .uint64 => .dword 0
  | .emuid => .emuid ⟨0, 0, 0, 0⟩
  | .eguid => .eguid ⟨⟨0, 0, 0, 0⟩, ⟨[], zero_notMem_nil⟩, 0⟩ 0
  | .stringBuf | .bufferOf | .arrayOf => .array none
  | .string => .string none
  | .interface => .interface none
  | _ => .word 0

/-- An `[out]` parameter that is asked for, if there is a slot for it. -/
def askedFor (t : Param) : List UInt8 :=
  if (slotWords .rpc t).isSome then
    wire32 MSH_NOT_NULL ++ if t.isArray ∧ ¬ t.isCallee then wire32 0 else []
  else wire32 MSH_NULL

/-- The arguments of a request that asks for everything. -/
def attack : List Param → List UInt8
  | [] => []
  | t :: ts =>
    (if t.isOut then askedFor t else wireArg noInterfaces (fun _ => []) (plainArg t)) ++ attack ts

theorem length_attack_le (ts : List Param) : (attack ts).length ≤ 28 * ts.length := by
  induction ts with
  | nil => exact le_rfl
  | cons t ts ih =>
    have hout : (askedFor t).length ≤ 28 := by
      rw [askedFor]
      split_ifs <;> simp
    have hin : (wireArg noInterfaces (fun _ => []) (plainArg t)).length ≤ 28 := by
      rw [plainArg]
      split <;> decide
    rw [attack, List.length_append, List.length_cons]
    split_ifs <;> omega

section

variable {E : RpcEnv} (henv : E.alloc.Succeeds) {b : Build}
include henv

/-- A plain argument is read. -/
theorem unmshInArg_plainArg {n : ℕ} {t : Param} (hin : t.isIn = true)
    (ht : t.type.decoded = true) {s : Proc CRemoteParcel} {rest : List UInt8}
    (hs : s.parcel.Holds (wireArg noInterfaces (fun _ => []) (plainArg t) ++ rest)) :
    ∃ s', unmshInArg .rpc b (rpcParcel E) n t s = .ok (none, s') ∧ s'.parcel.Holds rest := by
  have hread {v : ArgVal} {t' : Param} (hv : v.Of t') (hne : t'.type ≠ .eguid)
      (hin' : t'.isIn = true) (hcarries : RpcCarries E.itfs (fun _ => []) v)
      (hs : s.parcel.Holds (wireArg E.itfs (fun _ => []) v ++ rest)) :
      ∃ s', unmshInArg .rpc b (rpcParcel E) n t' s = .ok (none, s') ∧ s'.parcel.Holds rest := by
    obtain ⟨s', hrun, hleft, -⟩ := unmshInArg_spec (m := .rpc) (b := b) (n := n) (o := 0) hv hne hin'
      ((rpcCodec E henv fun _ => []).reads_arg v hcarries) hs
    exact ⟨s', hrun, hleft⟩
  have harray {t' : Param} (ht' : t'.type = .arrayOf) (hin' : t'.isIn = true)
      (hs : s.parcel.Holds (wire32 MSH_NULL ++ rest)) :
      ∃ s', unmshInArg .rpc b (rpcParcel E) n t' s = .ok (none, s') ∧ s'.parcel.Holds rest :=
    hread (v := .array none) ht' (by rw [ht']; decide) hin' trivial hs
  rw [plainArg] at hs
  cases htype : t.type <;> rw [htype] at ht <;> cases ht <;> simp only [htype] at hs
  case uint8 | uint16 | uint32 =>
    exact hread (v := .word 0) (by simp [ArgVal.Of, htype]) (by simp [htype]) hin trivial hs
  case uint64 => exact hread (v := .dword 0) htype (by simp [htype]) hin trivial hs
  case emuid => exact hread (v := .emuid _) htype (by simp [htype]) hin trivial hs
  case string => exact hread (v := .string none) htype (by simp [htype]) hin trivial hs
  case interface => exact hread (v := .interface none) htype (by simp [htype]) hin (fun _ h => by cases h) hs
  case arrayOf => exact harray htype hin hs
  case stringBuf | bufferOf =>
    have heq : unmshInArg .rpc b (rpcParcel E) n t
        = unmshInArg .rpc b (rpcParcel E) n { t with type := .arrayOf } := by
      simp only [unmshInArg, htype]
    rw [heq]
    exact harray rfl hin hs
  case eguid =>
    obtain ⟨a, p, rfl, hp, hrun⟩ := reads_read_bind (β := Unit)
      ((rpcCodec E henv fun _ => []).reads_arg (.eguid ⟨⟨0, 0, 0, 0⟩, ⟨[], by decide⟩, 0⟩ 0) trivial) hs
    obtain ⟨s₁, hs₁, hparcel, hptr, hobj⟩ : ∃ s₁, readEGuidArg (rpcParcel E) s = .ok ((), s₁) ∧
        s₁.parcel = p ∧ s₁.stack (s₁.args + 4) = .obj s.heap.objs.length ∧
        s₁.heap.objs[s.heap.objs.length]? = some (.chars ⟨[], by decide⟩) := by
      refine ⟨_, (hrun _).trans rfl, rfl, ?_, List.getElem?_concat_length⟩
      change Function.update (Function.update _ (s.args + 4) _) (s.args + 5) _ (s.args + 4) = _
      rw [Function.update_of_ne (by omega), Function.update_self]
    simp only [unmshInArg, htype]
    rw [Run.bind_ok hs₁, arg_bind, hptr, derefChars_bind hobj]
    exact ⟨_, rfl, hparcel ▸ hp⟩

/-- The part of the slot behind its tag is there, and the last word of it that is stored to has
changed. -/
theorem layOut_askedFor {t : Param} {s : Proc CRemoteParcel} {o w : ℕ} {rest : List UInt8}
    (hw : slotWords .rpc t = some w) (ho : s.out = some (o + 1)) (htag : s.outBuffer o ≠ .slot 0)
    (hs : s.parcel.Holds ((if t.isArray ∧ ¬ t.isCallee then wire32 0 else []) ++ rest)) :
    ∃ s', layOut .rpc (rpcParcel E) t s = .ok (none, s') ∧ s'.parcel.Holds rest ∧
      s'.out = some (o + 1 + w) ∧ s'.outBuffer (o + storedWords t - 1) ≠ .slot 0 := by
  have hrest (harr : ¬ (t.isArray = true ∧ ¬ t.isCallee = true)) : s.parcel.Holds rest := by
    rwa [if_neg harr] at hs
  obtain ⟨parcel, args, stack, out, buffer, heap, addr, phase⟩ := s
  dsimp only at ho htag hs hrest
  subst ho
  cases ht : t.type <;> simp only [slotWords, ht, Option.some.injEq, reduceCtorEq] at hw <;>
    subst hw <;> simp only [layOut, ht, storedWords]
  case puint8 | puint16 | puint32 | puint64 | pemuid | pstruct =>
    exact ⟨_, rfl, hrest (by simp [Param.isArray, ht]), rfl, htag⟩
  case peguid =>
    refine ⟨_, rfl, hrest (by simp [Param.isArray, ht]), rfl, ?_⟩
    change Function.update buffer (o + 5) (.slot (o + 6)) (o + 5) ≠ .slot 0
    simp
  case pstring =>
    refine ⟨_, rfl, hrest (by simp [Param.isArray, ht]), rfl, ?_⟩
    change Function.update (Function.update buffer (o + 1) .null) (o + 2) (.num 0) (o + 2) ≠ .slot 0
    simp
  case pinterface =>
    refine ⟨_, rfl, hrest (by simp [Param.isArray, ht]), rfl, ?_⟩
    change Function.update buffer (o + 1) (.num 0) (o + 1) ≠ .slot 0
    simp
  case stringBuf | bufferOf | arrayOf =>
    by_cases hcallee : t.isCallee = true
    · simp only [hcallee, not_true_eq_false, if_false]
      refine ⟨_, rfl, hrest (by simp [hcallee]), rfl, ?_⟩
      change Function.update buffer (o + 1) (.num 0) (o + 1) ≠ .slot 0
      simp
    · rw [if_pos ⟨by simp [Param.isArray, ht], hcallee⟩] at hs
      obtain ⟨_, p, rfl, hp, hrun⟩ := reads_read_bind (β := Option ECode)
        (s := ⟨parcel, args, stack, some (o + 1), buffer, heap, addr, phase⟩)
        ((rpcCodec E henv fun _ => []).reads_word 0) hs
      simp only [hcallee, Bool.false_eq_true, not_false_eq_true, if_true]
      rw [hrun]
      refine ⟨_, rfl, hp, rfl, ?_⟩
      change Function.update buffer (o + 1) (.obj heap.objs.length) (o + 1) ≠ .slot 0
      simp

/-- **A step of the attack** on an `[out]` parameter. -/
theorem unmshInOut_askedFor {t : Param} {s : Proc CRemoteParcel} {o : ℕ} {rest : List UInt8}
    (ho : s.out = some o) (hs : s.parcel.Holds (askedFor t ++ rest)) :
    ∃ s', unmshInOut .rpc (rpcParcel E) t s = .ok (none, s') ∧ s'.parcel.Holds rest ∧
      s'.out = some (o + 1 + (slotWords .rpc t).getD 0) ∧
      s'.outBuffer (o + storedWords t - 1) ≠ .slot 0 := by
  obtain ⟨parcel, args, stack, out, buffer, heap, addr, phase⟩ := s
  dsimp only at ho hs
  subst ho
  rw [unmshInOut, Run.get_bind, Run.bind_ok rfl]
  rw [askedFor] at hs
  split at hs
  · next hslot =>
    obtain ⟨w, hw⟩ := Option.isSome_iff_exists.mp hslot
    rw [List.append_assoc] at hs
    obtain ⟨_, p, rfl, hp, hrun⟩ := reads_read_bind (β := Option ECode)
      (s := ⟨parcel, args, stack, some o, buffer, heap, addr, phase⟩)
      ((rpcCodec E henv fun _ => []).reads_word MSH_NOT_NULL) hs
    obtain ⟨s', hlay, hrest, hout, hstored⟩ := layOut_askedFor henv (o := o)
      (s := ⟨p, args, stack, some (o + 1), Function.update buffer o (.num MSH_NOT_NULL), heap, addr,
        phase⟩) hw rfl (by simp) hp
    rw [hrun]
    dsimp only
    rw [if_pos rfl, Run.bind_ok rfl, Run.bind_ok rfl]
    refine ⟨_, (Run.bind_ok hlay).trans rfl, hrest, ?_, hstored⟩
    rw [hw]
    exact hout
  · next hslot =>
    rw [Option.not_isSome_iff_eq_none] at hslot
    obtain ⟨_, p, rfl, hp, hrun⟩ := reads_read_bind (β := Option ECode)
      (s := ⟨parcel, args, stack, some o, buffer, heap, addr, phase⟩)
      ((rpcCodec E henv fun _ => []).reads_word MSH_NULL) hs
    have hstored : storedWords t = 1 := by
      rw [slotWords] at hslot
      rw [storedWords]
      cases htype : t.type <;> rw [htype] at hslot <;> first | rfl | cases hslot
    rw [hrun, hslot, hstored]
    dsimp only
    rw [if_neg MSH_NOT_NULL_ne.symm, if_pos rfl]
    refine ⟨_, rfl, hp, rfl, ?_⟩
    change Function.update buffer o (.num MSH_NULL) o ≠ .slot 0
    simp

/-- **The attack** stores outside an out buffer into which the slots do not fit. -/
theorem process_attack {limit : ℕ} (ts : List Param) {n o : ℕ} {s : Proc CRemoteParcel}
    (hfit : ¬ SlotsFit limit o ts) (ho : s.out = some o) (hs : s.parcel.Holds (attack ts)) :
    ∃ k ec s' w, process (unmshInStep .rpc b (rpcParcel E)) n (ts.take k) s = .ok (ec, s') ∧
      limit < 4 * (w + 1) ∧ s'.outBuffer w ≠ .slot 0 := by
  induction ts generalizing n o s with
  | nil => exact absurd trivial hfit
  | cons t ts ih =>
    rw [SlotsFit] at hfit
    rw [attack] at hs
    split at hfit
    · next hout =>
      rw [if_pos hout] at hs
      obtain ⟨s₁, hrun, hrest, ho₁, hstored⟩ := unmshInOut_askedFor henv ho hs
      have hstep : unmshInStep .rpc b (rpcParcel E) n t s = .ok (none, s₁) := by
        rw [unmshInStep, if_pos hout, hrun]
      by_cases hin : 4 * (o + storedWords t) ≤ limit
      · obtain ⟨k, ec, s', w, hrun', hw, hne⟩ := ih (n := n + 1) (fun h => hfit ⟨hin, h⟩) ho₁ hrest
        exact ⟨k + 1, ec, s', w, (Run.bind_ok hstep).trans hrun', hw, hne⟩
      · have hpos := one_le_storedWords t
        exact ⟨1, NOERROR, s₁, o + storedWords t - 1, (Run.bind_ok hstep).trans rfl, by omega, hstored⟩
    · next hout =>
      rw [if_neg hout] at hs
      split at hfit
      · next hin =>
        obtain ⟨s₁, hrun, hrest⟩ := unmshInArg_plainArg henv (n := n) hin.1 hin.2 hs
        have hstep : unmshInStep .rpc b (rpcParcel E) n t s = .ok (none, s₁) := by
          rw [unmshInStep, if_neg hout, if_pos hin.1, hrun]
        have ho₁ : s₁.out = some o := (staysOff_unmshInArg _ _ _ _ _ _ _ _ hrun).out.trans ho
        obtain ⟨k, ec, s', w, hrun', hw, hne⟩ := ih (n := n + 1) hfit ho₁ hrest
        exact ⟨k + 1, ec, s', w, (Run.bind_ok hstep).trans hrun', hw, hne⟩
      · exact absurd trivial hfit

end

/-! ### The header -/

/-- The class and the size of the out buffer cover what a header can make `Invoke` do. -/
def MarshalHeader.Covered (cls : CIClassInfo) (h : MarshalHeader) : Prop :=
  h.mMagic ≠ MARSHAL_MAGIC ∨ h.mMethodIndex.toInt < 4 ∨
    ∃ info, cls.interfaceAt h.mInterfaceIndex = some info ∧
      ∀ methodInfo, info.mMethods[h.mMethodIndex.toInt.toNat - 4]? = some methodInfo →
        h.mOutSize = 0 ∨ SlotsFit h.mOutSize.toNat 4 methodInfo.mParams

/-- What is selected is in the class information. -/
theorem CIClassInfo.select_eq_some {cls : CIClassInfo} {h : MarshalHeader} {sel : Selected}
    (hsel : cls.select h = .ok (some sel)) :
    h.mMagic = MARSHAL_MAGIC ∧ 4 ≤ h.mMethodIndex.toInt ∧ sel.inHeader = h ∧
      ∃ info, cls.interfaceAt h.mInterfaceIndex = some info ∧
        cls.mInterfaces[sel.interfaceIndex]? = some info ∧
        info.mMethods[h.mMethodIndex.toInt.toNat - 4]? = some sel.methodInfo ∧
        sel.methodIndex = h.mMethodIndex.toInt.toNat - 4 := by
  rw [CIClassInfo.select] at hsel
  split at hsel
  · cases hsel
  next hmagic =>
  split at hsel
  swap
  · cases hsel
  next hindex =>
  split at hsel
  · cases hsel
  next info hinfo =>
  obtain ⟨methodInfo, hmethod, rfl⟩ := Option.map_eq_some_iff.mp (Except.ok.inj hsel)
  refine ⟨not_not.mp hmagic, hindex, rfl, info, hinfo, ?_, hmethod, rfl⟩
  rw [CIClassInfo.interfaceAt] at hinfo
  split at hinfo
  · exact hinfo
  · cases hinfo

/-- A header that is covered selects something or nothing. -/
theorem MarshalHeader.Covered.select_ok {cls : CIClassInfo} {h : MarshalHeader}
    (hcov : h.Covered cls) : ∃ selected, cls.select h = .ok selected := by
  rw [CIClassInfo.select]
  rcases hcov with hmagic | hindex | ⟨info, hinfo, -⟩
  · exact ⟨none, if_pos hmagic⟩
  · split
    · exact ⟨none, rfl⟩
    · exact ⟨none, if_neg (by omega)⟩
  · split
    · exact ⟨none, rfl⟩
    split
    · rw [hinfo]
      exact ⟨_, rfl⟩
    · exact ⟨none, rfl⟩

/-- A request without a header selects nothing. -/
theorem selectMethod_of_short {p : CRemoteParcel} (hp : p.rest.length < 16) (cls : CIClassInfo) :
    selectMethod cls p = .ok (none, p) := by
  rw [length_rest] at hp
  have hcan : ¬ p.canRead 16 = true := by
    rw [canRead, decide_eq_true_iff]
    rintro ⟨hge, hle⟩
    have hpad : padSize 16 = 16 := by decide
    rw [ge_iff_le, UInt32.le_iff_toNat_le, hpad, UInt32.toNat_add] at hge
    rw [UInt32.le_iff_toNat_le, hpad, UInt32.toNat_add] at hle
    simp only [UInt32.reduceToNat] at hge hle
    have := p.mDataPos.toNat_lt
    omega
  have hread : readInplace 16 p = .ok (none, p) := by
    rw [readInplace, Run.get_bind, if_neg hcan]
    rfl
  rw [selectMethod, Run.bind_ok hread]
  rfl

/-! ### Requests -/

/-- However far `Stub_ProcessUnmsh_In` comes, it stores to the first `limit` bytes of the out buffer
only. -/
def StoresInside (E : RpcEnv) (b : Build) (limit : ℕ) (params : List Param)
    (s : Proc CRemoteParcel) : Prop :=
  ∀ k ec s', stubProcessUnmshIn .rpc b (rpcParcel E) (params.take k) s = .ok (ec, s') →
    ∀ w, limit < 4 * (w + 1) → s'.outBuffer w = s.outBuffer w

/-- `Invoke` keeps to the class information and to the out buffer. -/
structure Robust (E : RpcEnv) (b : Build) (cls : CIClassInfo) (mem : Proc Unit)
    (data : CRemoteParcel) : Prop where
  interfaces : ∃ selected data', selectMethod cls data = .ok (selected, data')
  methods : ∀ sel data', selectMethod cls data = .ok (some sel, data') →
    ∃ info, cls.mInterfaces[sel.interfaceIndex]? = some info ∧
      sel.methodIndex < info.mMethods.length
  stores : ∀ sel data', selectMethod cls data = .ok (some sel, data') →
    StoresInside E b sel.inHeader.mOutSize.toNat sel.methodInfo.mParams
      (mem.call data' sel.inHeader.outHeader)

section

variable {E : RpcEnv} {b : Build} {cls : CIClassInfo} {header : MarshalHeader}

/-- The slots begin behind the header of the out buffer. -/
theorem out_skipHeader (hsize : header.mOutSize ≠ 0) (mem : Proc Unit) (data : CRemoteParcel) :
    (mem.call data header.outHeader).skipHeader.out = some 4 := by
  simp [Proc.skipHeader, Proc.call, MarshalHeader.outHeader, hsize]

/-- A request whose header is covered. -/
theorem MarshalHeader.Covered.robust (hcov : header.Covered cls) {data : CRemoteParcel}
    {body : List UInt8} (hdata : data.rest = header.bytes ++ body) (mem : Proc Unit) :
    Robust E b cls mem data := by
  obtain ⟨hselect, -⟩ := selectMethod_of_rest hdata cls
  obtain ⟨selected, hok⟩ := hcov.select_ok
  rw [hok] at hselect
  refine ⟨⟨_, _, hselect⟩, fun sel data' hsel => ?_, fun sel data' hsel => ?_⟩
  · rw [hselect] at hsel
    cases hsel
    obtain ⟨-, -, -, info, -, hinfo, hmethod, hindex⟩ := CIClassInfo.select_eq_some hok
    refine ⟨info, hinfo, ?_⟩
    rw [hindex]
    exact (List.getElem?_eq_some_iff.mp hmethod).1
  · rw [hselect] at hsel
    cases hsel
    obtain ⟨hmagic, hindex, rfl, info, hinfo, -, hmethod, -⟩ := CIClassInfo.select_eq_some hok
    rcases hcov with hmagic' | hindex' | ⟨info', hinfo', hfit⟩
    · exact absurd hmagic hmagic'
    · omega
    rw [hinfo] at hinfo'
    cases hinfo'
    intro k ec s' hrun w hw
    rw [stubProcessUnmshIn] at hrun
    by_cases hzero : sel.inHeader.mOutSize = 0
    · have hout : (mem.call (data.advance 16) sel.inHeader.outHeader).skipHeader.out = none := by
        simp [Proc.skipHeader, Proc.call, MarshalHeader.outHeader, hzero]
      exact congrFun (process_of_out_none _ hout hrun) w
    · have hfit' := ((hfit _ hmethod).resolve_left hzero).take k
      exact process_inside _ hfit' (out_skipHeader hzero mem _) hrun hw

/-- What `SetData` installs is held from the first byte on. -/
theorem holds_setData {env : Allocator} (henv : env.Succeeds) {buffer : List UInt8}
    (hlt : buffer.length < 2 ^ 30) : (setData env buffer {}).2.Holds buffer := by
  obtain ⟨hrest, hpos⟩ := rest_setData henv (show buffer.length < _ by omega)
  have hlen := congrArg List.length hrest
  rw [length_rest, hpos] at hlen
  have hsize : (setData env buffer {}).2.mDataSize.toNat = buffer.length := hlen
  refine ⟨by rw [hpos, hsize]; exact Nat.zero_add _, by rw [hsize]; exact hlt, ?_⟩
  rw [rest, hsize, hpos] at hrest
  rw [hpos]
  exact hrest

/-- A header that is not covered comes with a request that is not handled. -/
theorem not_robust_of_not_covered (henv : E.alloc.Succeeds)
    (hparams : ∀ info ∈ cls.mInterfaces, ∀ methodInfo ∈ info.mMethods,
      methodInfo.mParams.length < 256)
    (hcov : ¬ header.Covered cls) :
    ∃ (mem : Proc Unit) (data : CRemoteParcel) (body : List UInt8),
      data.rest = header.bytes ++ body ∧ ¬ Robust E b cls mem data := by
  let mem : Proc Unit := ⟨(), 0, fun _ => .null, none, fun _ => .slot 0, {}, fun _ => 0, 0⟩
  rw [MarshalHeader.Covered] at hcov
  push Not at hcov
  obtain ⟨hmagic, hindex, hcov⟩ := hcov
  have hlen := header.length_bytes
  cases hinfo : cls.interfaceAt header.mInterfaceIndex with
  | none =>
    -- the interface is outside the array, whatever follows
    have hlt : (header.bytes ++ []).length < 4294967296 := by
      rw [List.append_nil]
      omega
    obtain ⟨hrest, -⟩ := rest_setData henv hlt
    refine ⟨mem, _, [], hrest, fun hrobust => ?_⟩
    obtain ⟨selected, data', hsel⟩ := hrobust.interfaces
    have hselect : cls.select header = .error .outOfBounds := by
      rw [CIClassInfo.select, if_neg (not_not.mpr hmagic), if_pos hindex, hinfo]
    rw [(selectMethod_of_rest hrest cls).1, hselect] at hsel
    cases hsel
  | some info =>
    obtain ⟨methodInfo, hmethod, hsize, hfit⟩ := hcov info hinfo
    have hmem : info ∈ cls.mInterfaces := by
      rw [CIClassInfo.interfaceAt] at hinfo
      split at hinfo
      · exact List.mem_of_getElem? hinfo
      · cases hinfo
    have hshort := hparams info hmem methodInfo (List.mem_of_getElem? hmethod)
    have hattack := length_attack_le methodInfo.mParams
    have hlt : (header.bytes ++ attack methodInfo.mParams).length < 2 ^ 30 := by
      rw [List.length_append]
      omega
    obtain ⟨hrest, -⟩ := rest_setData henv (hlt.trans (by decide))
    refine ⟨mem, _, _, hrest, fun hrobust => ?_⟩
    have hselect : cls.select header = .ok (some ⟨header, header.mInterfaceIndex.toInt.toNat,
        header.mMethodIndex.toInt.toNat - 4, methodInfo⟩) := by
      rw [CIClassInfo.select, if_neg (not_not.mpr hmagic), if_pos hindex, hinfo]
      dsimp only
      rw [hmethod]
      rfl
    have hsel := (selectMethod_of_rest hrest cls).1
    rw [hselect] at hsel
    have hholds := (holds_setData henv hlt).advance
    have hsixteen : sizeOf32 header.bytes = 16 := by
      rw [sizeOf32, hlen]
      rfl
    rw [hsixteen] at hholds
    obtain ⟨k, ec, s', w, hrun, hw, hne⟩ := process_attack (b := b) (n := 0) henv
      methodInfo.mParams hfit (out_skipHeader hsize mem _) hholds
    exact hne (hrobust.stores _ _ hsel k ec s' hrun w hw)

end

/-- The method. -/
def wordMethod : CIMethodInfo := { mParams := [{ type := .puint32, isOut := true }] }

/-- Its class. -/
def wordClass : CIClassInfo := ⟨[⟨[wordMethod], by simp⟩], by simp⟩

/-- The header of a call of the method. -/
def wordHeader (mInterfaceIndex : Int16) (mOutSize : UInt32) : MarshalHeader :=
  ⟨MARSHAL_MAGIC, mInterfaceIndex, 4, 20, mOutSize⟩

/-- A request that asks for the number. -/
def wordRequest (header : MarshalHeader) : CRemoteParcel :=
  (setData .zeros (header.bytes ++ wire32 MSH_NOT_NULL) {}).2

/-- A process whose memory holds addresses. -/
def wordMemory : Proc Unit := ⟨(), 0, fun _ => .null, none, fun _ => .slot 0, {}, fun _ => 0, 0⟩

/-- What the out buffer holds once the number has been asked for. -/
def wordStored (header : MarshalHeader) (w : ℕ) : Word :=
  match stubProcessUnmshIn .rpc .x86 (rpcParcel plainEnv) wordMethod.mParams
    (wordMemory.call ((wordRequest header).advance 16) header.outHeader) with
  | .ok (_, s') => s'.outBuffer w
  | .error _ => .null

end ElastosCar
