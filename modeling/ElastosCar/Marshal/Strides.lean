import ElastosCar.Marshal.OutArgs
import ElastosCar.Marshal.Respects

/-!
# The strides

Each of the five marshalling functions moves `args` on by a stride of its own for every type. Here
these are read off the code, in whatever state it is: where a step goes on to the next parameter,
`Walks` says at which word that is, and that nothing outside the words before it was stored.

Over the strides, `visits_prefix`: a function whose strides are those of a layout comes to the
parameters where the layout has them, up to where it stops.
-/

namespace ElastosCar

namespace Marshal

variable {π α β : Type} {w k : ℕ}

/-- Of the two states only the parcel and the heap differ. -/
structure Calm (s s' : Proc π) : Prop where
  args : s'.args = s.args
  phase : s'.phase = s.phase
  stack : s'.stack = s.stack
  out : s'.out = s.out
  outBuffer : s'.outBuffer = s.outBuffer
  addr : s'.addr = s.addr

theorem Calm.trans {s t u : Proc π} (h : Calm s t) (h' : Calm t u) : Calm s u :=
  ⟨h'.args.trans h.args, h'.phase.trans h.phase, h'.stack.trans h.stack, h'.out.trans h.out,
    h'.outBuffer.trans h.outBuffer, h'.addr.trans h.addr⟩

/-- The computation moves no pointer, and stores nothing on the stack or in the out buffer. -/
def Quiet (x : Marshal π α) : Prop := Run.Respects Calm x

theorem Quiet.bind {x : Marshal π α} {f : α → Marshal π β} (hx : Quiet x)
    (hf : ∀ a, Quiet (f a)) : Quiet (x >>= f) :=
  Run.Respects.bind (fun _ _ _ => Calm.trans) hx hf

theorem Quiet.ite {P : Prop} [Decidable P] {x y : Marshal π α} (hx : Quiet x) (hy : Quiet y) :
    Quiet (if P then x else y) := by
  split
  · exact hx
  · exact hy

theorem quiet_pure (a : α) : Quiet (pure a : Marshal π α) :=
  Run.Respects.pure (fun _ => ⟨rfl, rfl, rfl, rfl, rfl, rfl⟩) a

theorem quiet_throw (f : Fault) : Quiet (throw f : Marshal π α) := Run.Respects.throw f

/-- A computation that always succeeds. -/
theorem quiet_of_ok {x : Marshal π α} {f : Proc π → α} {g : Proc π → Proc π}
    (h : ∀ s, x s = .ok (f s, g s)) (hg : ∀ s, Calm s (g s)) : Quiet x := by
  intro s a s' hs
  rw [h] at hs
  cases hs
  exact hg s

/-- The walk has not moved, and of the stack only the `w` words from `args` on may have changed. -/
structure Stays (w : ℕ) (s s' : Proc π) : Prop where
  args : s'.args = s.args
  phase : s'.phase = s.phase
  stack : ∀ k, k < s.args ∨ s.args + w ≤ k → s'.stack k = s.stack k

theorem Stays.trans {s t u : Proc π} (h : Stays w s t) (h' : Stays w t u) : Stays w s u where
  args := h'.args.trans h.args
  phase := h'.phase.trans h.phase
  stack k hk := by rw [h'.stack k (by rw [h.args]; exact hk), h.stack k hk]

/-- The computation keeps to the `w` words from `args` on. -/
def Within (w : ℕ) (x : Marshal π α) : Prop := Run.Respects (Stays w) x

theorem Within.bind {x : Marshal π α} {f : α → Marshal π β} (hx : Within w x)
    (hf : ∀ a, Within w (f a)) : Within w (x >>= f) :=
  Run.Respects.bind (fun _ _ _ => Stays.trans) hx hf

theorem Quiet.within {x : Marshal π α} (hx : Quiet x) : Within w x := by
  intro s a s' hs
  have h := hx s a s' hs
  exact ⟨h.args, h.phase, fun _ _ => by rw [h.stack]⟩

/-- A quiet computation, and then one that stores. -/
theorem Quiet.store {x : Marshal π α} {f : α → Marshal π β} (hx : Quiet x)
    (hf : ∀ a, Within w (f a)) : Within w (x >>= f) := hx.within.bind hf

/-! ### Accesses -/

theorem quiet_arg (k : ℕ) : Quiet (arg k : Marshal π Word) :=
  quiet_of_ok (fun _ => rfl) fun _ => ⟨rfl, rfl, rfl, rfl, rfl, rfl⟩

theorem quiet_argBits (k : ℕ) : Quiet (argBits k : Marshal π UInt32) :=
  quiet_of_ok (fun _ => rfl) fun _ => ⟨rfl, rfl, rfl, rfl, rfl, rfl⟩

theorem quiet_get : Quiet (get : Marshal π (Proc π)) :=
  quiet_of_ok (fun _ => rfl) fun _ => ⟨rfl, rfl, rfl, rfl, rfl, rfl⟩

theorem quiet_alloc (o : Obj) : Quiet (alloc o : Marshal π ℕ) :=
  quiet_of_ok (fun _ => rfl) fun _ => ⟨rfl, rfl, rfl, rfl, rfl, rfl⟩

theorem quiet_acquire (rs : List Res) : Quiet (acquire rs : Marshal π Unit) :=
  quiet_of_ok (fun _ => rfl) fun _ => ⟨rfl, rfl, rfl, rfl, rfl, rfl⟩

theorem quiet_release (rs : List Res) : Quiet (release rs : Marshal π Unit) :=
  quiet_of_ok (fun _ => rfl) fun _ => ⟨rfl, rfl, rfl, rfl, rfl, rfl⟩

theorem quiet_write (f : π → ECode × π) : Quiet (write f) :=
  quiet_of_ok (fun _ => rfl) fun _ => ⟨rfl, rfl, rfl, rfl, rfl, rfl⟩

theorem quiet_addIn (n : UInt32) : Quiet (addIn n) :=
  quiet_of_ok (fun _ => rfl) fun _ => ⟨rfl, rfl, rfl, rfl, rfl, rfl⟩

theorem quiet_addOut (n : UInt32) : Quiet (addOut n) :=
  quiet_of_ok (fun _ => rfl) fun _ => ⟨rfl, rfl, rfl, rfl, rfl, rfl⟩

theorem quiet_read (r : Run π Fault α) : Quiet (read r) := by
  intro s a s' h
  rw [read] at h
  split at h
  · cases h
    exact ⟨rfl, rfl, rfl, rfl, rfl, rfl⟩
  · cases h

theorem quiet_outPos : Quiet (outPos : Marshal π ℕ) := by
  intro s a s' h
  rw [outPos] at h
  split at h
  · cases h
    exact ⟨rfl, rfl, rfl, rfl, rfl, rfl⟩
  · cases h

theorem quiet_out (k : ℕ) : Quiet (out k : Marshal π Word) :=
  quiet_outPos.bind fun _ => quiet_of_ok (fun _ => rfl) fun _ => ⟨rfl, rfl, rfl, rfl, rfl, rfl⟩

theorem quiet_outBits (k : ℕ) : Quiet (outBits k : Marshal π UInt32) :=
  quiet_outPos.bind fun _ => quiet_of_ok (fun _ => rfl) fun _ => ⟨rfl, rfl, rfl, rfl, rfl, rfl⟩

theorem quiet_deref (v : Word) : Quiet (deref v : Marshal π Obj) := by
  intro s a s' h
  unfold deref at h
  split at h
  · cases h
  · split at h
    · cases h
      exact ⟨rfl, rfl, rfl, rfl, rfl, rfl⟩
    · cases h
  · cases h

theorem quiet_assign (v : Word) (o : Obj) : Quiet (assign v o : Marshal π Unit) := by
  intro s a s' h
  unfold assign at h
  split at h
  · cases h
    exact ⟨rfl, rfl, rfl, rfl, rfl, rfl⟩
  · cases h

theorem quiet_derefString (v : Word) : Quiet (derefString v : Marshal π CarString) := by
  refine (quiet_deref v).bind fun o => ?_
  split
  · exact quiet_pure _
  · exact quiet_throw _

theorem quiet_derefArray (v : Word) : Quiet (derefArray v : Marshal π CarQuintet) := by
  refine (quiet_deref v).bind fun o => ?_
  split
  · exact quiet_pure _
  · exact quiet_throw _

theorem quiet_derefChars (v : Word) : Quiet (derefChars v : Marshal π CString) := by
  refine (quiet_deref v).bind fun o => ?_
  split
  · exact quiet_pure _
  · exact quiet_throw _

theorem quiet_derefBlock (v : Word) (n : ℕ) :
    Quiet (derefBlock v n : Marshal π (List UInt8)) := by
  refine (quiet_deref v).bind fun o => ?_
  split
  · exact (quiet_pure _).ite (quiet_throw _)
  · exact quiet_throw _

theorem quiet_asInterface (v : Word) : Quiet (asInterface v : Marshal π (Option Itf)) := by
  unfold asInterface
  split
  · exact quiet_pure _
  · exact quiet_pure _
  · exact quiet_throw _

theorem quiet_free (v : Word) : Quiet (free v : Marshal π Unit) := by
  unfold free
  split
  · exact quiet_pure _
  · exact quiet_release _
  · exact quiet_throw _

theorem quiet_carAssert (b : Bool) : Quiet (carAssert b : Marshal π Unit) :=
  (quiet_pure ()).ite (quiet_throw _)

theorem quiet_modify (v : Word) (f : Obj → Option Obj) :
    Quiet (modify v f : Marshal π Unit) := by
  refine (quiet_deref v).bind fun o => ?_
  split
  · exact quiet_assign _ _
  · exact quiet_throw _

theorem quiet_argEMuid : Quiet (argEMuid : Marshal π EMuid) :=
  (quiet_argBits 0).bind fun _ => (quiet_argBits 1).bind fun _ => (quiet_argBits 2).bind fun _ =>
    (quiet_argBits 3).bind fun _ => quiet_pure _

/-! ### Stores -/

theorem within_pure (a : α) : Within w (pure a : Marshal π α) := (quiet_pure a).within

theorem within_storeArg (hk : k < w) (v : Word) : Within w (storeArg k v : Marshal π Unit) := by
  intro s a s' h
  cases h
  exact ⟨rfl, rfl, fun l hl => Function.update_of_ne (by omega) _ _⟩

theorem within_bumpOut (k : ℕ) : Within w (bumpOut k : Marshal π Unit) := by
  intro s a s' h
  cases h
  exact ⟨rfl, rfl, fun _ _ => rfl⟩

theorem within_storeOut (k : ℕ) (v : Word) : Within w (storeOut k v : Marshal π Unit) := by
  refine quiet_outPos.store fun o => ?_
  intro s a s' h
  cases h
  exact ⟨rfl, rfl, fun _ _ => rfl⟩

/-! ### The next parameter -/

/-- Where the computation goes on to the next parameter, that is at a word which is right by `R`,
and nothing outside the words before it was stored. -/
def Walks (R : (phase i j : ℕ) → Prop) (x : Marshal π (Option ECode)) : Prop :=
  ∀ s s', x s = .ok (none, s') → s'.phase = s.phase ∧ R s.phase s.args s'.args ∧
    ∀ k, k < s.args ∨ s'.args ≤ k → s'.stack k = s.stack k

variable {R : ℕ → ℕ → ℕ → Prop} {x y : Marshal π (Option ECode)}

theorem Walks.mono {R' : ℕ → ℕ → ℕ → Prop} (h : Walks R x)
    (hR : ∀ phase i j, R phase i j → R' phase i j) : Walks R' x := by
  intro s s' hs
  obtain ⟨hphase, hargs, hstack⟩ := h s s' hs
  exact ⟨hphase, hR _ _ _ hargs, hstack⟩

theorem walks_next (k : ℕ) :
    Walks (fun _ i j => j = i + k) (next k : Marshal π (Option ECode)) := by
  intro s s' hs
  cases hs
  exact ⟨rfl, rfl, fun _ _ => rfl⟩

theorem walks_throw (f : Fault) : Walks R (throw f : Marshal π (Option ECode)) := by
  intro s s' hs
  cases hs

theorem walks_stop (ec : ECode) : Walks R (pure (some ec) : Marshal π (Option ECode)) := by
  intro s s' hs
  cases hs

theorem Walks.ite {P : Prop} [Decidable P] (hx : Walks R x) (hy : Walks R y) :
    Walks R (if P then x else y) := by
  split
  · exact hx
  · exact hy

/-- What is stored before the step goes on must be in the words before the next parameter. -/
theorem Within.walks {z : Marshal π α} {f : α → Marshal π (Option ECode)} (hz : Within w z)
    (hw : ∀ phase i j, R phase i j → i + w ≤ j) (hf : ∀ a, Walks R (f a)) : Walks R (z >>= f) := by
  intro s s' hs
  obtain ⟨a, t, ht, hs'⟩ := Run.bind_eq_ok hs
  obtain ⟨hargs, hphase, hstack⟩ := hz s a t ht
  obtain ⟨hphase', hR, hstack'⟩ := hf a t s' hs'
  rw [hargs, hphase] at hR
  have hle := hw _ _ _ hR
  refine ⟨hphase'.trans hphase, hR, fun k hk => ?_⟩
  rw [hstack' k (by omega), hstack k (by omega)]

/-- A sequence that first stores nothing on the stack. -/
theorem Within.then {z : Marshal π α} {f : α → Marshal π (Option ECode)} (hz : Within 0 z)
    (hf : ∀ a, Walks R (f a)) : Walks R (z >>= f) := by
  intro s s' hs
  obtain ⟨a, t, ht, hs'⟩ := Run.bind_eq_ok hs
  obtain ⟨hargs, hphase, hstack⟩ := hz s a t ht
  obtain ⟨hphase', hR, hstack'⟩ := hf a t s' hs'
  rw [hargs, hphase] at hR
  refine ⟨hphase'.trans hphase, hR, fun k hk => ?_⟩
  rw [hstack' k (by omega), hstack k (by omega)]

theorem Quiet.then {z : Marshal π α} {f : α → Marshal π (Option ECode)} (hz : Quiet z)
    (hf : ∀ a, Walks R (f a)) : Walks R (z >>= f) := hz.within.then hf

/-- After the adjustment for a 64-bit argument. -/
theorem walks_align (b : Build) (n k : ℕ) {f : Unit → Marshal π (Option ECode)}
    (hf : ∀ a, Walks (fun _ i j => j = i + k) (f a)) :
    Walks (fun phase i j => j = b.align64 phase n i + k) (align b n >>= f) := by
  intro s s' hs
  obtain ⟨hphase, hargs, hstack⟩ := hf () _ s' hs
  have hle := le_align64 (b := b) s.phase n s.args
  dsimp only at hargs hstack hphase
  exact ⟨hphase, hargs, fun l hl => hstack l (by omega)⟩

/-! ### The next slot -/

/-- `outBuffer` has been moved on by `k` words, and nothing was stored. -/
structure Bumped (k : ℕ) (s s' : Proc π) : Prop where
  args : s'.args = s.args
  phase : s'.phase = s.phase
  stack : s'.stack = s.stack
  out : s'.out = s.out.map (· + k)
  outBuffer : s'.outBuffer = s.outBuffer
  addr : s'.addr = s.addr

/-- The out buffer and the place in it are as before. -/
structure SameOut (s s' : Proc π) : Prop where
  out : s'.out = s.out
  outBuffer : s'.outBuffer = s.outBuffer
  addr : s'.addr = s.addr

/-- The computation leaves the out buffer alone. -/
def KeepsOut (x : Marshal π α) : Prop := Run.Respects SameOut x

theorem keepsOut_next (k : ℕ) : KeepsOut (next k : Marshal π (Option ECode)) := by
  intro s a s' hs
  cases hs
  exact ⟨rfl, rfl, rfl⟩

theorem Quiet.keepsOut {z : Marshal π α} {f : α → Marshal π β} (hz : Quiet z)
    (hf : ∀ a, KeepsOut (f a)) : KeepsOut (z >>= f) := by
  refine Run.Respects.bind (fun _ _ _ h h' => ⟨h'.out.trans h.out, h'.outBuffer.trans h.outBuffer,
    h'.addr.trans h.addr⟩) (fun s a s' hs => ?_) hf
  have h := hz s a s' hs
  exact ⟨h.out, h.outBuffer, h.addr⟩

theorem KeepsOut.ite {P : Prop} [Decidable P] {x y : Marshal π α} (hx : KeepsOut x)
    (hy : KeepsOut y) : KeepsOut (if P then x else y) := by
  split
  · exact hx
  · exact hy

/-- `outBuffer` has been moved on, where the computation goes on to the next parameter. -/
def Bumps (k : ℕ) (x : Marshal π (Option ECode)) : Prop :=
  ∀ s s', x s = .ok (none, s') → Bumped k s s'

theorem bumps_bumpOut (k : ℕ) : Bumps k (do bumpOut k; pure none : Marshal π (Option ECode)) := by
  intro s s' hs
  cases hs
  exact ⟨rfl, rfl, rfl, rfl, rfl, rfl⟩

theorem bumps_throw (f : Fault) : Bumps k (throw f : Marshal π (Option ECode)) := by
  intro s s' hs
  cases hs

theorem bumps_stop (ec : ECode) : Bumps k (pure (some ec) : Marshal π (Option ECode)) := by
  intro s s' hs
  cases hs

theorem Quiet.bumps {z : Marshal π α} {f : α → Marshal π (Option ECode)} (hz : Quiet z)
    (hf : ∀ a, Bumps k (f a)) : Bumps k (z >>= f) := by
  intro s s' hs
  obtain ⟨a, t, ht, hs'⟩ := Run.bind_eq_ok hs
  have hcalm := hz s a t ht
  have h := hf a t s' hs'
  exact ⟨h.args.trans hcalm.args, h.phase.trans hcalm.phase, h.stack.trans hcalm.stack,
    by rw [h.out, hcalm.out], h.outBuffer.trans hcalm.outBuffer, h.addr.trans hcalm.addr⟩

end Marshal

/-! ### The five strides -/

/-- The word after the argument `n`, which is at word `i`, for `Proxy_ProcessMsh_BufferSize`. -/
def sizeArg (b : Build) (phase n : ℕ) (t : Param) (i : ℕ) : ℕ :=
  if t.isIn then
    match t.type with
    | .uint64 => b.align64 phase n i + 2
    | .emuid => i + 4
    | .eguid => i + 5
    | _ => i + 1
  else i + 1

/-- The words after the argument `n`, which is at word `i`, for `Stub_ProcessUnmsh_In`: behind an
`EGuid` it depends on the name. -/
def StubArg (b : Build) (n : ℕ) (t : Param) (phase i j : ℕ) : Prop :=
  if t.isOut then j = i + 1 else if t.type = .eguid then i + 7 ≤ j else j = nextArg b phase n t i

section

open Marshal

variable {π : Type} {P : IParcel π} {m : Marshaller} {b : Build}

/-- **`Proxy_ProcessMsh_BufferSize`.** -/
theorem walks_bufferSizeStep (rawLen : Word → UInt32) (n : ℕ) (t : Param) :
    Walks (fun phase i j => j = sizeArg b phase n t i) (bufferSizeStep m b rawLen n t) := by
  have hpointee (size : UInt32) : Walks (fun _ i j => j = i + 1) (addPointee size) :=
    (quiet_arg 0).then fun _ => (quiet_addIn _).then fun _ => walks_next 1
  have harray : Walks (fun _ i j => j = i + 1) (do
      let w ← arg 0
      if w ≠ .null then
        let q ← derefArray w
        addIn (arraySize m q)
      else addIn 4
      next 1) := by
    refine (quiet_arg 0).then fun w => ?_
    dsimp only
    split
    · exact (quiet_derefArray w).then fun q => (quiet_addIn _).then fun _ => walks_next 1
    · exact (quiet_addIn _).then fun _ => walks_next 1
  have hin : t.isIn = true →
      Walks (fun phase i j => j = sizeArg b phase n t i) (bufferSizeIn m b rawLen n t) := by
    intro hisIn
    rw [bufferSizeIn]
    simp only [sizeArg, if_pos hisIn]
    cases ht : t.type <;> dsimp only
    case uint8 | uint16 | uint32 => exact (quiet_addIn _).then fun _ => walks_next 1
    case puint8 | puint16 | puint32 | puint64 | pstruct | struct | peguid | pemuid | interface =>
      exact hpointee _
    case uint64 =>
      have hrest : Walks (fun phase i j => j = b.align64 phase n i + 2) (do
          align b n
          addIn (8 + 1)
          next 2) :=
        walks_align b n 2 fun _ => (quiet_addIn _).then fun _ => walks_next 2
      split
      · exact (quiet_addIn 4).then fun _ => hrest
      · exact hrest
    case eguid => exact (quiet_addIn _).then fun _ => walks_next 5
    case emuid => exact (quiet_addIn _).then fun _ => walks_next 4
    case string =>
      refine (quiet_arg 0).then fun w => ?_
      split
      · exact (quiet_deref w).then fun _ => (quiet_addIn _).then fun _ => walks_next 1
      · exact (quiet_addIn _).then fun _ => walks_next 1
    case pinterface =>
      refine (quiet_arg 0).then fun w => ?_
      split
      · refine (quiet_deref w).then fun o => ?_
        split
        · exact (quiet_addIn _).then fun _ => (quiet_addIn 4).then fun _ => walks_next 1
        · exact (quiet_throw _).then fun _ => (quiet_addIn 4).then fun _ => walks_next 1
      · exact (quiet_addIn 4).then fun _ => walks_next 1
    case stringBuf | bufferOf | arrayOf => exact harray
    case pstring | other => exact walks_throw _
  have hout : Quiet (bufferSizeOut m t) := by
    refine (quiet_addOut 4).bind fun _ => ?_
    split
    · exact quiet_throw _
    · exact (quiet_arg 0).bind fun w => (quiet_addOut _).ite (quiet_pure ())
  have hskip : Walks (fun _ i j => j = i + 1) (do bumpArgs 1; addIn 4; pure none) := by
    intro s s' hs
    cases hs
    exact ⟨rfl, rfl, fun _ _ => rfl⟩
  have hrest : Walks (fun phase i j => j = sizeArg b phase n t i) (do
      if t.isIn then bufferSizeIn m b rawLen n t
      else
        let w ← arg 0
        if t.isArray ∧ w ≠ .null then addIn 4
        bumpArgs 1
        addIn 4
        pure none) := by
    split
    · next h => exact hin h
    · next h =>
      simp only [sizeArg, if_neg h]
      refine (quiet_arg 0).then fun w => ?_
      split
      · exact (quiet_addIn 4).then fun _ => hskip
      · exact hskip
  rw [bufferSizeStep]
  dsimp only
  split
  · exact hout.then fun _ => hrest
  · exact hrest

/-- A value that is written. -/
theorem walks_write_next (w : π → ECode × π) (k : ℕ) :
    Walks (fun _ i j => j = i + k) (do let _ ← write w; next k) :=
  (quiet_write w).then fun _ => walks_next k

/-- **`Proxy_ProcessMsh_In`.** -/
theorem walks_mshInStep (n : ℕ) (t : Param) :
    Walks (fun phase i j => j = nextArg b phase n t i) (mshInStep m b P n t) := by
  rw [mshInStep]
  split
  · next hin =>
    simp only [nextArg, if_pos hin]
    rw [mshInArg]
    cases ht : t.type
    case uint8 | uint16 | uint32 => exact (quiet_argBits 0).then fun v => walks_write_next _ 1
    case uint64 =>
      exact walks_align b n 2 fun _ => (quiet_argBits 0).then fun _ => (quiet_argBits 1).then
        fun _ => walks_write_next _ 2
    case struct | pstruct =>
      refine (quiet_arg 0).then fun w => ?_
      dsimp only
      split
      · exact walks_write_next _ 1
      · exact (quiet_derefBlock w _).then fun bs => walks_write_next _ 1
    case emuid => exact quiet_argEMuid.then fun id => walks_write_next _ 4
    case eguid =>
      exact quiet_argEMuid.then fun id => (quiet_arg 4).then fun w => (quiet_derefChars w).then
        fun str => (quiet_argBits 4).then fun ptr => (quiet_argBits 5).then fun c =>
          walks_write_next _ 6
    case arrayOf =>
      refine (quiet_arg 0).then fun w => ?_
      dsimp only
      split
      · exact walks_write_next _ 1
      · exact (quiet_derefArray w).then fun q => walks_write_next _ 1
    case string =>
      exact (quiet_arg 0).then fun w => (quiet_derefString w).then fun str => walks_write_next _ 1
    case interface =>
      exact (quiet_arg 0).then fun w => (quiet_asInterface w).then fun x =>
        (quiet_write _).then fun ec => (walks_stop ec).ite (walks_next 1)
    all_goals exact walks_throw _
  · next hin =>
    simp only [nextArg, if_neg hin]
    refine (quiet_arg 0).then fun w => (quiet_write _).then fun _ => ?_
    split
    · exact (quiet_derefArray w).then fun q => walks_write_next _ 1
    · exact walks_next 1

theorem within_readArrayArg : Within 1 (readArrayArg P) := by
  refine (quiet_read _).store fun r => ?_
  split
  · exact within_pure ()
  · exact within_storeArg Nat.one_pos _
  · exact (quiet_alloc _).store fun a => (quiet_acquire _).store fun _ =>
      within_storeArg Nat.one_pos _

theorem within_readInterfaceArg : Within 1 (readInterfaceArg P) := by
  refine (quiet_read _).store fun r => (quiet_acquire _).store fun _ => ?_
  split
  · exact within_pure _
  · exact (within_storeArg Nat.one_pos _).bind fun _ => within_pure _

theorem within_storeEMuid {w : ℕ} (hw : 4 ≤ w) (id : EMuid) :
    Within w (storeEMuid id : Marshal π Unit) :=
  (within_storeArg (by omega) _).bind fun _ => (within_storeArg (by omega) _).bind fun _ =>
    (within_storeArg (by omega) _).bind fun _ => within_storeArg (by omega) _

theorem within_readEGuidArg : Within 6 (readEGuidArg P) := by
  refine (quiet_read _).store fun r => ?_
  split
  · exact within_pure ()
  · exact (quiet_alloc _).store fun a => (within_storeEMuid (by decide) _).bind fun _ =>
      (within_storeArg (by decide) _).bind fun _ => within_storeArg (by decide) _

theorem within_pointToOut : Within 1 (pointToOut : Marshal π Unit) :=
  quiet_outPos.store fun _ => within_storeArg Nat.one_pos _

theorem within_layOut (t : Param) : Within 1 (layOut m P t) := by
  have hbump (k : ℕ) : Within 1 (do bumpOut k; pure none : Marshal π (Option ECode)) :=
    (within_bumpOut k).bind fun _ => within_pure none
  rw [layOut]
  cases ht : t.type
  case puint8 | puint16 | puint32 => exact within_pointToOut.bind fun _ => hbump 1
  case puint64 => exact within_pointToOut.bind fun _ => hbump 2
  case peguid =>
    exact within_pointToOut.bind fun _ => (within_bumpOut 4).bind fun _ =>
      quiet_outPos.store fun o => (within_storeOut 0 _).bind fun _ => hbump 21
  case pemuid => exact within_pointToOut.bind fun _ => hbump 4
  case pstruct => exact within_pointToOut.bind fun _ => hbump _
  case pstring =>
    exact within_pointToOut.bind fun _ => (within_storeOut 0 _).bind fun _ =>
      (within_storeOut 1 _).bind fun _ => hbump 2
  case pinterface =>
    exact (within_storeOut 0 _).bind fun _ => within_pointToOut.bind fun _ => hbump _
  case stringBuf | bufferOf | arrayOf =>
    dsimp only
    split
    · exact (quiet_read _).store fun r => (quiet_alloc _).store fun a =>
        (quiet_acquire _).store fun _ => (within_storeOut 0 _).bind fun _ =>
          (within_storeArg Nat.one_pos _).bind fun _ => hbump 1
    · exact (within_storeOut 0 _).bind fun _ => within_pointToOut.bind fun _ => hbump 1
  all_goals exact within_pure _

theorem walks_unmshInOut (t : Param) :
    Walks (fun _ i j => j = i + 1) (unmshInOut m P t) := by
  refine quiet_get.then fun s => (quiet_carAssert _).then fun _ => (quiet_read _).then fun r => ?_
  dsimp only
  split
  · refine (within_storeOut 0 _).then fun _ => (within_bumpOut 1).then fun _ =>
      (within_layOut t).walks (fun _ _ _ h => h.ge) fun ec => ?_
    cases ec with
    | some ec => exact walks_stop ec
    | none => exact walks_next 1
  · split
    · exact (within_storeOut 0 _).then fun _ => (within_bumpOut 1).then fun _ =>
        (within_storeArg Nat.one_pos _).walks (fun _ _ _ h => h.ge) fun _ => walks_next 1
    · exact walks_stop _

/-- An `[in]` argument of another type than `EGuid`. -/
theorem walks_unmshInArg (n : ℕ) {t : Param} (hin : t.isIn = true) (hne : t.type ≠ .eguid) :
    Walks (fun phase i j => j = nextArg b phase n t i) (unmshInArg m b P n t) := by
  rw [unmshInArg.eq_def]
  simp only [nextArg, if_pos hin]
  cases ht : t.type
  case uint8 | uint16 | uint32 =>
    exact (quiet_read _).then fun r => (walks_next 1).ite
      ((within_storeArg Nat.one_pos _).walks (fun _ _ _ h => h.ge) fun _ => walks_next 1)
  case uint64 =>
    have hstore (lo hi : Word) : Walks (fun _ i j => j = i + 2) (do
        storeArg 0 lo
        storeArg 1 hi
        next 2 : Marshal π (Option ECode)) :=
      (within_storeArg Nat.two_pos lo).walks (fun _ _ _ h => h.ge) fun _ =>
        (within_storeArg Nat.one_lt_two hi).walks (fun _ _ _ h => h.ge) fun _ => walks_next 2
    exact walks_align b n 2 fun _ => (quiet_read _).then fun r => (walks_next 2).ite (hstore _ _)
  case emuid =>
    exact (quiet_read _).then fun r => (walks_next 4).ite
      ((within_storeEMuid le_rfl _).walks (fun _ _ _ h => h.ge) fun _ => walks_next 4)
  case eguid => exact absurd ht hne
  case stringBuf | bufferOf =>
    cases m with
    | ipc => exact walks_throw _
    | rpc => exact within_readArrayArg.walks (fun _ _ _ h => h.ge) fun _ => walks_next 1
  case arrayOf => exact within_readArrayArg.walks (fun _ _ _ h => h.ge) fun _ => walks_next 1
  case string =>
    exact (quiet_read _).then fun r => (quiet_alloc _).then fun a =>
      (within_storeArg Nat.one_pos _).walks (fun _ _ _ h => h.ge) fun _ => walks_next 1
  case interface =>
    exact within_readInterfaceArg.walks (fun _ _ _ h => h.ge) fun ec =>
      (walks_stop ec).ite (walks_next 1)
  case pstring | other => exact walks_stop _
  all_goals exact walks_throw _

/-- An `EGuid` is stored in six words, and the walk goes on behind its name. -/
theorem walks_unmshInArg_eguid (n : ℕ) {t : Param} (ht : t.type = .eguid) :
    Walks (fun _ i j => i + 7 ≤ j) (unmshInArg m b P n t) := by
  rw [unmshInArg.eq_def]
  simp only [ht]
  refine within_readEGuidArg.walks (fun _ _ _ h => by omega) fun _ =>
    (quiet_arg 4).then fun w => (quiet_derefChars w).then fun str => (walks_next _).mono ?_
  rintro phase i j rfl
  have h4 : 4 ≤ pad4 (str.chars.length + 1) := by
    rw [pad4]
    omega
  omega

/-- **`Stub_ProcessUnmsh_In`.** -/
theorem walks_unmshInStep (n : ℕ) (t : Param) :
    Walks (StubArg b n t) (unmshInStep m b P n t) := by
  rw [unmshInStep]
  split
  · next hout => exact (walks_unmshInOut t).mono fun _ _ _ h => by rwa [StubArg, if_pos hout]
  next hout =>
  split
  swap
  · exact walks_stop _
  next hin =>
  by_cases ht : t.type = .eguid
  · exact (walks_unmshInArg_eguid n ht).mono fun _ _ _ h => by
      rwa [StubArg, if_neg hout, if_pos ht]
  · exact (walks_unmshInArg n hin ht).mono fun _ _ _ h => by rwa [StubArg, if_neg hout, if_neg ht]

theorem quiet_outEMuid : Quiet (outEMuid : Marshal π EMuid) :=
  (quiet_outBits 0).bind fun _ => (quiet_outBits 1).bind fun _ => (quiet_outBits 2).bind fun _ =>
    (quiet_outBits 3).bind fun _ => quiet_pure _

theorem quiet_outBlock (k n : ℕ) : Quiet (outBlock k n : Marshal π (List UInt8)) := by
  induction n generalizing k with
  | zero => exact quiet_pure _
  | succ n ih => exact (quiet_outBits k).bind fun _ => (ih (k + 1)).bind fun _ => quiet_pure _

theorem quiet_outEGuid : Quiet (outEGuid : Marshal π (EGuid × UInt32)) := by
  refine quiet_outEMuid.bind fun id => (quiet_out 4).bind fun v => ?_
  have hrest (str : CString) : Quiet (do
      let ptr ← outBits 4
      let mCarcode ← outBits 5
      pure (⟨id, str, mCarcode⟩, ptr) : Marshal π (EGuid × UInt32)) :=
    (quiet_outBits 4).bind fun _ => (quiet_outBits 5).bind fun _ => quiet_pure _
  have hchars (i : ℕ) : Quiet (derefOutChars i : Marshal π CString) := by
    intro s a s' h
    rw [derefOutChars] at h
    split at h
    · cases h
      exact ⟨rfl, rfl, rfl, rfl, rfl, rfl⟩
    · cases h
  dsimp only
  split
  · exact (hchars _).bind hrest
  · exact (quiet_derefChars _).bind hrest

theorem quiet_releaseCallerArray (v : Word) :
    Quiet (releaseCallerArray m v : Marshal π Unit) := by
  unfold releaseCallerArray
  split
  · split
    · exact quiet_throw _
    · exact quiet_release _
    · exact quiet_throw _
  · refine (quiet_derefArray v).bind fun p => ?_
    split
    · exact (quiet_arg 0).bind fun v' => (quiet_derefArray v').bind fun _ =>
        (quiet_release _).bind fun _ => quiet_release _
    · exact quiet_release _

theorem quiet_releaseCalleeArray (v : Word) :
    Quiet (releaseCalleeArray m v : Marshal π Unit) := by
  unfold releaseCalleeArray
  split
  · exact quiet_pure _
  · exact (quiet_derefArray v).bind fun p => (quiet_release _).ite (quiet_pure _)

theorem quiet_writeArrayAt (v : Word) : Quiet (writeArrayAt P v) := by
  rw [writeArrayAt]
  split
  · exact (quiet_write _).bind fun _ => quiet_pure ()
  · exact (quiet_derefArray v).bind fun q => (quiet_write _).bind fun _ => quiet_pure ()

/-- The value of a slot. -/
theorem bumps_mshOutSlot (t : Param) : Bumps ((slotWords m t).getD 1) (mshOutSlot m P t) := by
  have hwrite (w : π → ECode × π) (k : ℕ) :
      Bumps k (do let _ ← write w; bumpOut k; pure none : Marshal π (Option ECode)) :=
    (quiet_write w).bumps fun _ => bumps_bumpOut k
  rw [mshOutSlot]
  cases ht : t.type <;> simp only [slotWords, ht, Option.getD_some, Option.getD_none]
  case puint64 => exact (quiet_outBits 0).bumps fun _ => (quiet_outBits 1).bumps fun _ => hwrite _ 2
  case pstring =>
    refine (quiet_out 0).bumps fun v => ?_
    split
    · exact (quiet_derefChars v).bumps fun str => (quiet_write _).bumps fun _ =>
        (quiet_release _).bumps fun _ => bumps_bumpOut 2
    · exact hwrite _ 2
  case stringBuf | bufferOf => exact bumps_throw _
  case arrayOf =>
    refine (quiet_out 0).bumps fun v => (quiet_writeArrayAt v).bumps fun _ => ?_
    split
    · exact (quiet_releaseCallerArray v).bumps fun _ => bumps_bumpOut 1
    · exact (quiet_releaseCalleeArray v).bumps fun _ => bumps_bumpOut 1
  case pemuid => exact quiet_outEMuid.bumps fun id => hwrite _ 4
  case pstruct => exact (quiet_outBlock 0 _).bumps fun bs => hwrite _ t.size.toNat
  case peguid => exact quiet_outEGuid.bumps fun r => hwrite _ 25
  case pinterface =>
    refine (quiet_out 0).bumps fun v => (quiet_asInterface v).bumps fun x =>
      (quiet_write _).bumps fun ec => ?_
    split
    · exact bumps_stop ec
    · exact (quiet_release _).bumps fun _ => bumps_bumpOut m.packWords
  all_goals exact (quiet_outBits 0).bumps fun v => hwrite _ 1

/-- The words of the out buffer that `Stub_ProcessMsh_Out` steps over for an `[out]` parameter with
the given tag. -/
def tagSpan (m : Marshaller) (t : Param) (tag : UInt32) : ℕ :=
  if tag = MSH_NULL then 1 else 1 + (slotWords m t).getD 1

/-- An `[out]` parameter is stepped over, and its slot where the results are returned. -/
theorem bumped_of_mshOutOut {onlyReleaseIn : Bool} {t : Param} {s s' : Proc π}
    (hs : mshOutOut m P onlyReleaseIn t s = .ok (none, s')) :
    ∃ k, Bumped k { s with args := s.args + 1 } s' ∧
      (onlyReleaseIn = false → ∀ o, s.out = some o → k = tagSpan m t (s.outAt o)) := by
  obtain ⟨parcel, args, stack, out, buffer, heap, addr, phase⟩ := s
  rw [mshOutOut, bumpArgs_bind] at hs
  split at hs
  · next htrue =>
    cases hs
    refine ⟨0, ⟨rfl, rfl, rfl, (Option.map_id' (x := out)).symm, rfl, rfl⟩, fun hfalse => ?_⟩
    rw [hfalse] at htrue
    cases htrue
  cases out with
  | none => cases hs
  | some o =>
    have hwritten {p : π} {t : Proc π} {k : ℕ}
        (h : Bumped k ⟨p, args + 1, stack, some (o + 1), buffer, heap, addr, phase⟩ t) :
        Bumped (1 + k) ⟨parcel, args + 1, stack, some o, buffer, heap, addr, phase⟩ t := by
      refine ⟨h.args, h.phase, h.stack, ?_, h.outBuffer, h.addr⟩
      rw [h.out, Option.map_some, Option.map_some, Nat.add_assoc]
    rw [outBits_bind rfl, Nat.add_zero] at hs
    split at hs
    · next hne =>
      obtain ⟨_, t₁, hassert, hs⟩ := Run.bind_eq_ok hs
      rw [carAssert] at hassert
      split at hassert
      swap
      · cases hassert
      cases hassert
      rw [write_bind, bumpOut_bind] at hs
      refine ⟨_, hwritten (bumps_mshOutSlot t _ s' hs), fun _ o' ho' => ?_⟩
      obtain rfl := Option.some.inj ho'
      exact (if_neg hne).symm
    · next heq =>
      rw [write_bind, bumpOut_bind] at hs
      cases hs
      refine ⟨_, hwritten (k := 0) ⟨rfl, rfl, rfl, rfl, rfl, rfl⟩, fun _ o' ho' => ?_⟩
      obtain rfl := Option.some.inj ho'
      exact (if_pos (not_not.mp heq)).symm

theorem walks_mshOutOut (onlyReleaseIn : Bool) (t : Param) :
    Walks (fun _ i j => j = i + 1) (mshOutOut m P onlyReleaseIn t) := by
  intro s s' hs
  obtain ⟨k, h, -⟩ := bumped_of_mshOutOut hs
  exact ⟨h.phase, h.args, fun l _ => by rw [h.stack]⟩

/-- For an `[in]` parameter the out buffer is left alone. -/
theorem keepsOut_mshOutIn (n : ℕ) (t : Param) :
    KeepsOut (mshOutIn b n t : Marshal π (Option ECode)) := by
  have hreference (v : Word) : KeepsOut (do
      let x ← asInterface v
      release (x.toList.map .itf)
      next 1 : Marshal π (Option ECode)) :=
    (quiet_asInterface v).keepsOut fun x => (quiet_release _).keepsOut fun _ => keepsOut_next 1
  rw [mshOutIn]
  cases ht : t.type
  case uint64 =>
    intro s a s' hs
    cases hs
    exact ⟨rfl, rfl, rfl⟩
  case puint8 | puint16 | puint32 | puint64 | string | peguid =>
    exact (quiet_arg 0).keepsOut fun v => (quiet_free v).keepsOut fun _ => keepsOut_next 1
  case emuid => exact keepsOut_next 4
  case eguid => exact keepsOut_next 5
  case pinterface =>
    refine (quiet_arg 0).keepsOut fun v => (keepsOut_next 1).ite
      ((quiet_deref v).keepsOut fun o => ?_)
    split
    · exact hreference _
    · exact Run.Respects.throw _
  case interface => exact (quiet_arg 0).keepsOut hreference
  case stringBuf | bufferOf | arrayOf =>
    exact (quiet_arg 0).keepsOut fun v => (keepsOut_next 1).ite
      ((quiet_derefArray v).keepsOut fun q => (quiet_release _).keepsOut fun _ => keepsOut_next 1)
  all_goals exact keepsOut_next 1

/-- **`Stub_ProcessMsh_Out`.** -/
theorem walks_mshOutStep (onlyReleaseIn : Bool) (n : ℕ) (t : Param) :
    Walks (fun phase i j => j = skipArg b phase n t i) (mshOutStep m b P onlyReleaseIn n t) := by
  have hfree : Walks (fun _ i j => j = i + 1)
      (do free (← arg 0); next 1 : Marshal π (Option ECode)) :=
    (quiet_arg 0).then fun v => (quiet_free v).then fun _ => walks_next 1
  have hreference (v : Word) : Walks (fun _ i j => j = i + 1) (do
      let x ← asInterface v
      release (x.toList.map .itf)
      next 1 : Marshal π (Option ECode)) :=
    (quiet_asInterface v).then fun x => (quiet_release _).then fun _ => walks_next 1
  have harray : Walks (fun _ i j => j = i + 1) (do
      let v ← arg 0
      if v = .null then next 1
      else
        let q ← derefArray v
        release (releasedElements v.address q ++ [.obj v.address])
        next 1 : Marshal π (Option ECode)) :=
    (quiet_arg 0).then fun v => (walks_next 1).ite
      ((quiet_derefArray v).then fun q => (quiet_release _).then fun _ => walks_next 1)
  rw [mshOutStep]
  split
  · next hout =>
    simp only [skipArg, if_pos hout]
    exact walks_mshOutOut onlyReleaseIn t
  next hout =>
  simp only [skipArg, if_neg hout]
  rw [mshOutIn]
  cases ht : t.type
  case uint64 => exact walks_align b n 2 fun _ => walks_next 2
  case puint8 | puint16 | puint32 | puint64 | string | peguid => exact hfree
  case emuid => exact walks_next 4
  case eguid => exact walks_next 5
  case pinterface =>
    refine (quiet_arg 0).then fun v => (walks_next 1).ite ((quiet_deref v).then fun o => ?_)
    split
    · exact hreference _
    · exact walks_throw _
  case interface => exact (quiet_arg 0).then hreference
  case stringBuf | bufferOf | arrayOf => exact harray
  all_goals exact walks_next 1

theorem quiet_readStructTo (v : Word) : Quiet (readStructTo P v) := by
  have hcopy (bs : List UInt8) : Quiet (readStructTo.copyTo v bs : Marshal π Unit) := by
    refine (quiet_deref v).bind fun o => ?_
    split
    · exact (quiet_assign _ _).ite (quiet_throw _)
    · exact quiet_throw _
  refine (quiet_read _).bind fun r => ?_
  split
  · exact quiet_pure ()
  · exact hcopy _
  · exact hcopy _

theorem quiet_setHandle (v v' : Word) : Quiet (readArrayTo.setHandle v v' : Marshal π Unit) :=
  quiet_modify _ _

theorem quiet_readArrayTo (v : Word) : Quiet (readArrayTo P v) := by
  refine (quiet_read _).bind fun r => ?_
  split
  · exact quiet_pure ()
  · exact quiet_setHandle _ _
  · exact (quiet_alloc _).bind fun a => (quiet_acquire _).bind fun _ => quiet_setHandle _ _

theorem quiet_readCallerArray (v : Word) : Quiet (readCallerArray P v) := by
  refine (quiet_read _).bind fun r => ?_
  split
  · exact quiet_throw _
  · exact quiet_throw _
  · exact (quiet_alloc _).bind fun a => (quiet_derefArray v).bind fun q =>
      ((quiet_assign _ _).bind fun _ => quiet_release _).ite (quiet_throw _)

theorem quiet_readInterfaceTo (v : Word) : Quiet (readInterfaceTo P v) := by
  refine (quiet_read _).bind fun r => (quiet_acquire _).bind fun _ => ?_
  split
  · exact quiet_pure ()
  · exact quiet_setHandle _ _

theorem quiet_unmshOutVar (t : Param) (v : Word) : Quiet (unmshOutVar P t v) := by
  have hread {α : Type} (r : Run π Fault α) (f : α → Obj → Option Obj) :
      Quiet (do
        let x ← read r
        modify v (f x)
        pure none : Marshal π (Option ECode)) :=
    (quiet_read r).bind fun x => (quiet_modify _ _).bind fun _ => quiet_pure none
  rw [unmshOutVar]
  cases ht : t.type
  case puint8 | puint16 | puint32 | puint64 | pemuid | peguid | pstring => exact hread _ _
  case pstruct => exact (quiet_readStructTo v).bind fun _ => quiet_pure none
  case stringBuf | bufferOf | arrayOf =>
    dsimp only
    split
    · exact (quiet_readCallerArray v).bind fun _ => quiet_pure none
    · exact (quiet_readArrayTo v).bind fun _ => quiet_pure none
  case pinterface => exact (quiet_readInterfaceTo v).bind fun _ => quiet_pure none
  all_goals exact quiet_throw _

/-- **`Proxy_ProcessUnmsh_Out`.** -/
theorem walks_unmshOutStep (n : ℕ) (t : Param) :
    Walks (fun phase i j => j = skipArg b phase n t i) (unmshOutStep b P n t) := by
  rw [unmshOutStep]
  split
  · next hout =>
    simp only [skipArg, if_pos hout]
    refine (quiet_arg 0).then fun v => (quiet_read _).then fun r => ?_
    dsimp only
    split
    · refine (walks_stop _).ite ((quiet_unmshOutVar t v).then fun ec => ?_)
      cases ec with
      | some ec => exact walks_stop ec
      | none => exact walks_next 1
    · exact (walks_stop _).ite (walks_next 1)
  · next hout =>
    intro s s' hs
    rw [unmshOutIn_eq hout] at hs
    cases hs
    exact ⟨rfl, rfl, fun _ _ => rfl⟩

/-! ### Whole runs -/

variable {step : ℕ → Param → Marshal π (Option ECode)}

/-- **The walk of a run**: where all strides but the last are those of the arguments, it comes to
the parameters where they are, up to where it stops. -/
theorem visits_prefix (params : List Param) :
    ∀ (n : ℕ) (s : Proc π), (∀ k t, params[k]? = some t → k + 1 < params.length →
      Walks (fun phase i j => j = nextArg b phase (n + k) t i) (step (n + k) t)) →
      (visits step n params s).map Proc.args <+: argSlots b s.phase n params s.args := by
  induction params with
  | nil => exact fun _ _ _ => List.nil_prefix
  | cons t ts ih =>
    intro n s h
    rw [visits, List.map_cons, argSlots]
    refine List.cons_prefix_cons.mpr ⟨rfl, ?_⟩
    split
    swap
    · exact List.nil_prefix
    next s' hs =>
    rcases ts with _ | ⟨u, us⟩
    · exact List.nil_prefix
    obtain ⟨hphase, hargs, -⟩ := h 0 t rfl (by simp) s s' hs
    rw [Nat.add_zero] at hargs
    rw [← hargs, ← hphase]
    refine ih (n + 1) s' fun k v hv hk => ?_
    have hwalks := h (k + 1) v hv (by simpa using hk)
    rwa [Nat.add_right_comm, Nat.add_assoc]

/-- It comes to the parameter `k` at the word of the argument. -/
theorem getElem?_argSlots {params : List Param} {s : Proc π}
    (h : ∀ k t, params[k]? = some t → k + 1 < params.length →
      Walks (fun phase i j => j = nextArg b phase k t i) (step k t)) {k i : ℕ}
    (hi : ((visits step 0 params s).map Proc.args)[k]? = some i) :
    (argSlots b s.phase 0 params s.args)[k]? = some i := by
  obtain ⟨rest, hrest⟩ := visits_prefix (b := b) params 0 s fun k t ht hk => by
    rw [Nat.zero_add]
    exact h k t ht hk
  obtain ⟨hlt, -⟩ := List.getElem?_eq_some_iff.mp hi
  rw [← hrest, List.getElem?_append_left hlt, hi]

end

end ElastosCar
