import ElastosCar.Marshal.Rpc
import ElastosCar.Parcel.Extend

/-!
# What marshalling does to the parcel

The two marshalling functions that write, `Proxy_ProcessMsh_In` and `Stub_ProcessMsh_Out`, touch
the parcel only through its write operations. A relation that all of these keep to is kept by a
whole run, whatever the arguments are and wherever the run stops.
-/

namespace ElastosCar

open CRemoteParcel

namespace Marshal

variable {π α β : Type} {R : π → π → Prop}

/-- `R` holds between the parcel before and after. -/
def Respects (R : π → π → Prop) (x : Marshal π α) : Prop :=
  Run.Respects (fun s s' => R s.parcel s'.parcel) x

/-- The parcel is not touched. -/
def Keeps (x : Marshal π α) : Prop := Respects (· = ·) x

theorem Keeps.respects {x : Marshal π α} (h : Keeps x) (hrefl : ∀ p, R p p) : Respects R x := by
  intro s a s' hs
  have heq : s.parcel = s'.parcel := h s a s' hs
  change R s.parcel s'.parcel
  rw [heq]
  exact hrefl _

theorem Respects.bind {x : Marshal π α} {f : α → Marshal π β}
    (htrans : ∀ {p q r}, R p q → R q r → R p r) (hx : Respects R x)
    (hf : ∀ a, Respects R (f a)) : Respects R (x >>= f) :=
  Run.Respects.bind (fun _ _ _ => htrans) hx hf

/-- A sequence that first does something else. -/
theorem Keeps.then {x : Marshal π α} {f : α → Marshal π β} (hx : Keeps x)
    (hf : ∀ a, Respects R (f a)) : Respects R (x >>= f) := by
  intro s b u h
  obtain ⟨a, t, ht, hu⟩ := Run.bind_eq_ok h
  have heq : s.parcel = t.parcel := hx s a t ht
  have hr : R t.parcel u.parcel := hf a t b u hu
  change R s.parcel u.parcel
  rw [heq]
  exact hr

theorem Keeps.bind {x : Marshal π α} {f : α → Marshal π β} (hx : Keeps x)
    (hf : ∀ a, Keeps (f a)) : Keeps (x >>= f) := hx.then hf

theorem Keeps.ite {P : Prop} [Decidable P] {x y : Marshal π α} (hx : Keeps x) (hy : Keeps y) :
    Keeps (if P then x else y) := by
  split
  · exact hx
  · exact hy

theorem Respects.write {f : π → ECode × π} (h : ∀ p, R p (f p).2) : Respects R (write f) := by
  rintro s ec s' hs
  cases hs
  exact h s.parcel

/-! ### What does not touch the parcel -/

theorem keeps_of_eq {x : Marshal π α} (h : ∀ s, ∃ a t, x s = .ok (a, t) ∧ s.parcel = t.parcel) :
    Keeps x := by
  intro s a s' hs
  obtain ⟨b, t, ht, hp⟩ := h s
  rw [hs] at ht
  cases ht
  exact hp

theorem keeps_pure (a : α) : Keeps (pure a : Marshal π α) := keeps_of_eq fun s => ⟨a, s, rfl, rfl⟩

theorem keeps_throw (f : Fault) : Keeps (throw f : Marshal π α) := nofun

theorem keeps_arg (k : ℕ) : Keeps (arg k : Marshal π Word) := keeps_of_eq fun _ => ⟨_, _, rfl, rfl⟩

theorem keeps_argBits (k : ℕ) : Keeps (argBits k : Marshal π UInt32) :=
  keeps_of_eq fun _ => ⟨_, _, rfl, rfl⟩

theorem keeps_bumpArgs (k : ℕ) : Keeps (bumpArgs k : Marshal π Unit) :=
  keeps_of_eq fun _ => ⟨_, _, rfl, rfl⟩

theorem keeps_bumpOut (k : ℕ) : Keeps (bumpOut k : Marshal π Unit) :=
  keeps_of_eq fun _ => ⟨_, _, rfl, rfl⟩

theorem keeps_align (b : Build) (n : ℕ) : Keeps (align b n : Marshal π Unit) :=
  keeps_of_eq fun _ => ⟨_, _, rfl, rfl⟩

theorem keeps_release (rs : List Res) : Keeps (release rs : Marshal π Unit) :=
  keeps_of_eq fun _ => ⟨_, _, rfl, rfl⟩

theorem keeps_next (k : ℕ) : Keeps (next k : Marshal π (Option ECode)) :=
  (keeps_bumpArgs k).bind fun _ => keeps_pure none

theorem keeps_carAssert (b : Bool) : Keeps (carAssert b : Marshal π Unit) :=
  (keeps_pure ()).ite (keeps_throw _)

theorem keeps_outPos : Keeps (outPos : Marshal π ℕ) := by
  intro s a s' h
  rw [outPos] at h
  split at h
  · cases h
    rfl
  · cases h

theorem keeps_out (k : ℕ) : Keeps (out k : Marshal π Word) :=
  keeps_outPos.bind fun _ => keeps_of_eq fun _ => ⟨_, _, rfl, rfl⟩

theorem keeps_outBits (k : ℕ) : Keeps (outBits k : Marshal π UInt32) :=
  keeps_outPos.bind fun _ => keeps_of_eq fun _ => ⟨_, _, rfl, rfl⟩

theorem keeps_deref (w : Word) : Keeps (deref w : Marshal π Obj) := by
  intro s a s' h
  unfold deref at h
  split at h
  · cases h
  · split at h
    · cases h
      rfl
    · cases h
  · cases h

theorem keeps_derefString (w : Word) : Keeps (derefString w : Marshal π CarString) := by
  refine (keeps_deref w).bind fun o => ?_
  split
  · exact keeps_pure _
  · exact keeps_throw _

theorem keeps_derefArray (w : Word) : Keeps (derefArray w : Marshal π CarQuintet) := by
  refine (keeps_deref w).bind fun o => ?_
  split
  · exact keeps_pure _
  · exact keeps_throw _

theorem keeps_derefChars (w : Word) : Keeps (derefChars w : Marshal π CString) := by
  refine (keeps_deref w).bind fun o => ?_
  split
  · exact keeps_pure _
  · exact keeps_throw _

theorem keeps_derefBlock (w : Word) (n : ℕ) : Keeps (derefBlock w n : Marshal π (List UInt8)) := by
  refine (keeps_deref w).bind fun o => ?_
  split
  · exact (keeps_pure _).ite (keeps_throw _)
  · exact keeps_throw _

theorem keeps_asInterface (w : Word) : Keeps (asInterface w : Marshal π (Option Itf)) := by
  unfold asInterface
  split
  · exact keeps_pure _
  · exact keeps_pure _
  · exact keeps_throw _

theorem keeps_free (w : Word) : Keeps (free w : Marshal π Unit) := by
  unfold free
  split
  · exact keeps_pure _
  · exact keeps_release _
  · exact keeps_throw _

theorem keeps_argEMuid : Keeps (argEMuid : Marshal π EMuid) :=
  (keeps_argBits 0).bind fun _ => (keeps_argBits 1).bind fun _ => (keeps_argBits 2).bind fun _ =>
    (keeps_argBits 3).bind fun _ => keeps_pure _

theorem keeps_outEMuid : Keeps (outEMuid : Marshal π EMuid) :=
  (keeps_outBits 0).bind fun _ => (keeps_outBits 1).bind fun _ => (keeps_outBits 2).bind fun _ =>
    (keeps_outBits 3).bind fun _ => keeps_pure _

theorem keeps_outBlock (k n : ℕ) : Keeps (outBlock k n : Marshal π (List UInt8)) := by
  induction n generalizing k with
  | zero => exact keeps_pure _
  | succ n ih => exact (keeps_outBits k).bind fun _ => (ih (k + 1)).bind fun _ => keeps_pure _

theorem keeps_derefOutChars (i : ℕ) : Keeps (derefOutChars i : Marshal π CString) := by
  intro s a s' h
  rw [derefOutChars] at h
  split at h
  · cases h
    rfl
  · cases h

theorem keeps_outEGuid : Keeps (outEGuid : Marshal π (EGuid × UInt32)) := by
  refine keeps_outEMuid.bind fun id => (keeps_out 4).bind fun w => ?_
  have hrest (s : CString) : Keeps (do
      let ptr ← outBits 4
      let mCarcode ← outBits 5
      pure (⟨id, s, mCarcode⟩, ptr) : Marshal π (EGuid × UInt32)) :=
    (keeps_outBits 4).bind fun _ => (keeps_outBits 5).bind fun _ => keeps_pure _
  dsimp only
  split
  · exact (keeps_derefOutChars _).bind hrest
  · exact (keeps_derefChars _).bind hrest

theorem keeps_releaseCallerArray (m : Marshaller) (w : Word) :
    Keeps (releaseCallerArray m w : Marshal π Unit) := by
  unfold releaseCallerArray
  split
  · split
    · exact keeps_throw _
    · exact keeps_release _
    · exact keeps_throw _
  · refine (keeps_derefArray w).bind fun p => ?_
    split
    · exact (keeps_arg 0).bind fun w' => (keeps_derefArray w').bind fun _ =>
        (keeps_release _).bind fun _ => keeps_release _
    · exact keeps_release _

theorem keeps_releaseCalleeArray (m : Marshaller) (w : Word) :
    Keeps (releaseCalleeArray m w : Marshal π Unit) := by
  unfold releaseCalleeArray
  split
  · exact keeps_pure _
  · exact (keeps_derefArray w).bind fun p => (keeps_release _).ite (keeps_pure _)

/-- `Stub_ProcessMsh_Out` writes nothing for an `[in]` parameter. -/
theorem keeps_mshOutIn (b : Build) (n : ℕ) (t : Param) :
    Keeps (mshOutIn b n t : Marshal π (Option ECode)) := by
  rw [mshOutIn]
  split
  · exact (keeps_align b n).bind fun _ => keeps_next 2
  iterate 6 exact (keeps_arg 0).bind fun w => (keeps_free w).bind fun _ => keeps_next 1
  · exact keeps_next 4
  · exact keeps_next 5
  · refine (keeps_arg 0).bind fun w => (keeps_next 1).ite ((keeps_deref w).bind fun o => ?_)
    split
    · exact (keeps_asInterface _).bind fun _ => (keeps_release _).bind fun _ => keeps_next 1
    · exact keeps_throw _
  · exact (keeps_arg 0).bind fun w => (keeps_asInterface w).bind fun _ =>
      (keeps_release _).bind fun _ => keeps_next 1
  iterate 3
    exact (keeps_arg 0).bind fun w => (keeps_next 1).ite
      ((keeps_derefArray w).bind fun _ => (keeps_release _).bind fun _ => keeps_next 1)
  · exact keeps_next 1

end Marshal

/-! ### The loop -/

section

open Marshal

variable {π : Type} {R : π → π → Prop} {step : ℕ → Param → Marshal π (Option ECode)}

/-- **What every step respects, the loop does.** -/
theorem respects_process (hrefl : ∀ p, R p p) (htrans : ∀ {p q r}, R p q → R q r → R p r)
    (hstep : ∀ n t, Respects R (step n t)) (ts : List Param) :
    ∀ n, Respects R (process step n ts) := by
  induction ts with
  | nil => exact fun _ => (keeps_pure NOERROR).respects hrefl
  | cons t ts ih =>
    intro n
    refine (hstep n t).bind htrans fun r => ?_
    cases r with
    | some ec => exact (keeps_pure ec).respects hrefl
    | none => exact ih (n + 1)

end

/-! ### The marshalling functions -/

/-- The write operations of a parcel keep to a relation. -/
structure IParcel.Respects {π : Type} (P : IParcel π) (R : π → π → Prop) : Prop where
  refl : ∀ p, R p p
  trans : ∀ {p q r}, R p q → R q r → R p r
  writeInt32 : ∀ v p, R p (P.writeInt32 v p).2
  writeInt64 : ∀ v p, R p (P.writeInt64 v p).2
  writeStruct : ∀ v n p, R p (P.writeStruct v n p).2
  writeEMuid : ∀ v p, R p (P.writeEMuid v p).2
  writeEGuid : ∀ v ptr p, R p (P.writeEGuid v ptr p).2
  writeString : ∀ v p, R p (P.writeString v p).2
  writeArrayOf : ∀ v p, R p (P.writeArrayOf v p).2
  writeInterfacePtr : ∀ v p, R p (P.writeInterfacePtr v p).2

/-- The parcel of linux_rpc. -/
theorem CRemoteParcel.WriteClosed.respects {E : RpcEnv} {R : CRemoteParcel → CRemoteParcel → Prop}
    (h : WriteClosed E.alloc E.itfs R) : (rpcParcel E).Respects R where
  refl := h.refl
  trans := h.trans
  writeInt32 := h.writeInt32
  writeInt64 := h.writeInt64
  writeStruct := h.writeStruct
  writeEMuid := h.writeEMuid
  writeEGuid := h.writeEGuid
  writeString := h.writeString
  writeArrayOf := h.writeArrayOf
  writeInterfacePtr := h.writeInterfacePtr

section

open Marshal

variable {π : Type} {P : IParcel π} {R : π → π → Prop} (h : P.Respects R)
include h

/-- A write and the way to the next parameter. -/
theorem respects_write_next {w : π → ECode × π} (hw : ∀ p, R p (w p).2) (k : ℕ) :
    Respects R (do let _ ← write w; next k) :=
  (Respects.write hw).bind h.trans fun _ => (keeps_next k).respects h.refl

theorem respects_mshInArg (m : Marshaller) (b : Build) (n : ℕ) (t : Param) :
    Respects R (mshInArg m b P n t) := by
  rw [mshInArg]
  split
  iterate 3 exact (keeps_argBits 0).then fun v => respects_write_next h (h.writeInt32 v) 1
  · exact (keeps_align b n).then fun _ => (keeps_argBits 0).then fun _ => (keeps_argBits 1).then
      fun _ => respects_write_next h (h.writeInt64 _) 2
  iterate 2
    refine (keeps_arg 0).then fun w => ?_
    dsimp only
    split
    · exact respects_write_next h (h.writeStruct none _) 1
    · exact (keeps_derefBlock w _).then fun bs => respects_write_next h (h.writeStruct _ _) 1
  · exact keeps_argEMuid.then fun id => respects_write_next h (h.writeEMuid id) 4
  · exact keeps_argEMuid.then fun id => (keeps_arg 4).then fun w => (keeps_derefChars w).then
      fun s => (keeps_argBits 4).then fun ptr => (keeps_argBits 5).then fun c =>
        respects_write_next h (h.writeEGuid _ ptr) 6
  · refine (keeps_arg 0).then fun w => ?_
    split
    · exact respects_write_next h (h.writeArrayOf none) 1
    · exact (keeps_derefArray w).then fun q => respects_write_next h (h.writeArrayOf (some q)) 1
  · exact (keeps_arg 0).then fun w => (keeps_derefString w).then fun s =>
      respects_write_next h (h.writeString s) 1
  · refine (keeps_arg 0).then fun w => (keeps_asInterface w).then fun x => ?_
    refine (Respects.write (h.writeInterfacePtr x)).bind h.trans fun ec => ?_
    exact ((keeps_pure _).ite (keeps_next 1)).respects h.refl
  all_goals exact (keeps_throw _).respects h.refl

theorem respects_mshInOut (t : Param) : Respects R (mshInOut P t) := by
  refine (keeps_arg 0).then fun w => (Respects.write (h.writeInt32 _)).bind h.trans fun _ => ?_
  split
  · exact (keeps_derefArray w).then fun q => respects_write_next h (h.writeInt32 q.mSize) 1
  · exact (keeps_next 1).respects h.refl

/-- **`Proxy_ProcessMsh_In` touches the parcel only by its writes.** -/
theorem respects_proxyProcessMshIn (m : Marshaller) (b : Build) (params : List Param) :
    Respects R (proxyProcessMshIn m b P params) := by
  refine respects_process h.refl h.trans (fun n t => ?_) params 0
  rw [mshInStep]
  split
  · exact respects_mshInArg h m b n t
  · exact respects_mshInOut h t

theorem respects_writeArrayAt (w : Word) : Respects R (writeArrayAt P w) := by
  rw [writeArrayAt]
  split
  · exact (Respects.write (h.writeArrayOf none)).bind h.trans fun _ =>
      (keeps_pure ()).respects h.refl
  · exact (keeps_derefArray w).then fun q => (Respects.write (h.writeArrayOf (some q))).bind h.trans
      fun _ => (keeps_pure ()).respects h.refl

/-- The value of an `[out]` parameter is written. -/
theorem respects_mshOutSlot (m : Marshaller) (t : Param) : Respects R (mshOutSlot m P t) := by
  have hdone (k : ℕ) : Respects R (do bumpOut k; pure none : Marshal π (Option ECode)) :=
    ((keeps_bumpOut k).bind fun _ => keeps_pure none).respects h.refl
  have hwrite {w : π → ECode × π} (hw : ∀ p, R p (w p).2) (k : ℕ) :
      Respects R (do let _ ← write w; bumpOut k; pure none : Marshal π (Option ECode)) :=
    (Respects.write hw).bind h.trans fun _ => hdone k
  rw [mshOutSlot]
  split
  · exact (keeps_outBits 0).then fun _ => (keeps_outBits 1).then fun _ => hwrite (h.writeInt64 _) 2
  · refine (keeps_out 0).then fun w => ?_
    dsimp only
    split
    · exact (keeps_derefChars w).then fun s => (Respects.write (h.writeString (some s))).bind h.trans
        fun _ => (keeps_release _).then fun _ => hdone 2
    · exact hwrite (h.writeInt32 MSH_NULL) 2
  iterate 2 exact (keeps_throw _).respects h.refl
  · refine (keeps_out 0).then fun w => (respects_writeArrayAt h w).bind h.trans fun _ => ?_
    dsimp only
    split
    · exact (keeps_releaseCallerArray m w).then fun _ => hdone 1
    · exact (keeps_releaseCalleeArray m w).then fun _ => hdone 1
  · exact keeps_outEMuid.then fun id => hwrite (h.writeEMuid id) 4
  · exact (keeps_outBlock 0 _).then fun bs => hwrite (h.writeStruct (some bs) _) t.size.toNat
  · exact keeps_outEGuid.then fun r => hwrite (h.writeEGuid r.1 r.2) 25
  · refine (keeps_out 0).then fun w => (keeps_asInterface w).then fun x => ?_
    refine (Respects.write (h.writeInterfacePtr x)).bind h.trans fun ec => ?_
    split
    · exact (keeps_pure _).respects h.refl
    · exact (keeps_release _).then fun _ => hdone m.packWords
  · exact (keeps_outBits 0).then fun v => hwrite (h.writeInt32 v) 1

end

end ElastosCar
