import ElastosCar.Marshal.InArgs

/-!
# The way back

`Stub_ProcessMsh_Out` and `Proxy_ProcessUnmsh_Out`, for any parcel with a wire format: what the
method left in the slots of the out buffer is written to the reply, and read from there to the
variables that the caller's `[out]` arguments point to.

* `Proc.readOut` is the value in a slot, and `Proc.slot` what there is at the place of an `[out]`
  parameter: a value, or the tag for a null pointer.
* Both functions step over an `[in]` `EGuid` as if it took five words; `skipArg` gives the words at
  which they look.
* The caller's variables are objects of its heap, one for each `[out]` pointer that is not null.
-/

namespace ElastosCar

open Marshal

/-- The word after the argument `n`, which is at word `i`, for the functions that return results. -/
def skipArg (b : Build) (phase n : ℕ) (t : Param) (i : ℕ) : ℕ :=
  if t.isOut then i + 1
  else
    match t.type with
    | .uint64 => b.align64 phase n i + 2
    | .emuid => i + 4
    | .eguid => i + 5
    | _ => i + 1

/-! ### Slots -/

namespace Proc

variable {π : Type} (s : Proc π)

/-- The word `o` of the out buffer as a number. -/
def outAt (o : ℕ) : UInt32 := (s.outBuffer o).bits s.addr

def outEMuidAt (o : ℕ) : EMuid := ⟨s.outAt o, s.outAt (o + 1), s.outAt (o + 2), s.outAt (o + 3)⟩

/-- The bytes of the `n` words of the out buffer from `o` on. -/
def outBytes (o n : ℕ) : List UInt8 := (List.range n).flatMap fun k => wordBytes (s.outAt (o + k))

/-- The value in the slot at word `o` of the out buffer, of the types that arrive. -/
def readOut (t : Param) (o : ℕ) : Option ArgVal :=
  match t.type with
  | .puint8 | .puint16 | .puint32 => some (.word (s.outAt o))
  | .puint64 => some (.dword (dwordOfWords (s.outAt o) (s.outAt (o + 1))))
  | .pemuid => some (.emuid (s.outEMuidAt o))
  | .pstruct => some (.struct (some (s.outBytes o t.size.toNat)) (t.size.toUInt32 * 4))
  | .pstring =>
    if s.outBuffer o = .null then some (.string none)
    else (s.heap.chars? (s.outBuffer o)).map fun str => .string (some str)
  | .arrayOf =>
    if s.outBuffer o = .null then some (.array none)
    else (s.heap.array? (s.outBuffer o)).map fun q => .array (some q)
  | _ => none

/-- What there is for an `[out]` parameter at word `o` of the out buffer: `some none` where the
caller passed null. -/
def slot (t : Param) (o : ℕ) : Option (Option ArgVal) :=
  if s.outAt o = MSH_NULL then some none
  else if s.outAt o = MSH_NOT_NULL then (s.readOut t (o + 1)).map some
  else none

end Proc

/-- The words of the out buffer that are taken. -/
def slotSpan (m : Marshaller) (t : Param) (x : Option ArgVal) : ℕ :=
  if x.isSome then 1 + (slotWords m t).getD 0 else 1

/-- The slots from word `o` on hold something that is `ok`. -/
def Proc.Stores {π : Type} (m : Marshaller) (s : Proc π) (ok : Param → Option ArgVal → Prop) :
    List Param → (o : ℕ) → Prop
  | [], _ => True
  | t :: ts, o =>
    if t.isOut then ∃ x, s.slot t o = some x ∧ ok t x ∧ Stores m s ok ts (o + slotSpan m t x)
    else Stores m s ok ts o

/-! ### On the wire -/

section

variable {π τ : Type} (S : Stream π τ) (P : IParcel π) (ts : List τ)

/-- The operation that the stub writes the result with appends `ts`. A null string is written as
its tag. -/
def WritesOut : ArgVal → Prop
  | .string none => S.Appends NOERROR (P.writeInt32 MSH_NULL) ts
  | v => WritesArg S P ts v

/-- The operation that the proxy reads the result with consumes `ts`. -/
def ReadsOut : ArgVal → Prop
  | .word v => S.Reads P.readByte ts (·.2 = v.toUInt8) ∧
      S.Reads P.readInt16 ts (·.2 = v.toUInt16.toInt16) ∧ S.Reads P.readInt32 ts (· = (NOERROR, v))
  | .struct (some bs) _ => S.Reads P.readStruct ts (·.2 = .block bs)
  | v => ReadsArg S P ts v

end

/-- A wire format in which results are returned too. -/
structure OutCodec {π τ : Type} (S : Stream π τ) (P : IParcel π) extends Codec S P where
  CarriesOut : ArgVal → Prop
  writes_out : ∀ v, CarriesOut v → WritesOut S P (arg v) v
  reads_out : ∀ v, CarriesOut v → ReadsOut S P (arg v) v

namespace OutCodec

variable {π τ : Type} {S : Stream π τ} {P : IParcel π} (C : OutCodec S P)

/-- What is returned for a parameter. -/
def returned : Option ArgVal → List τ
  | none => C.word MSH_NULL
  | some v => C.word MSH_NOT_NULL ++ C.arg v

/-- What is returned for the parameters whose slots are from word `o` on. -/
def reply (m : Marshaller) (s : Proc π) : List Param → (o : ℕ) → List τ
  | [], _ => []
  | t :: ts, o =>
    if t.isOut then
      (s.slot t o).elim [] C.returned
        ++ reply m s ts (o + (s.slot t o).elim 0 (slotSpan m t))
    else reply m s ts o

end OutCodec

/-! ### The stub -/

section

variable {π τ : Type} {S : Stream π τ} {P : IParcel π} {m : Marshaller} {b : Build}

/-- The stub on its way: only its parcel, its two pointers and what it has released change. -/
def Proc.moved (s : Proc π) (p : π) (args : ℕ) (out : Option ℕ) (events : List Event) : Proc π :=
  ⟨p, args, s.stack, out, s.outBuffer, ⟨s.heap.objs, events⟩, s.addr, s.phase⟩

/-- What the marshaller can return: android_linux reads four bytes behind a struct and dereferences
a null array. -/
def Marshaller.Returns : Marshaller → ArgVal → Prop
  | .ipc, .struct _ _ | .ipc, .array none => False
  | _, _ => True

theorem outBlock_eq {s : Proc π} {o : ℕ} (ho : s.out = some o) (k n : ℕ) :
    outBlock k n s = .ok (s.outBytes (o + k) n, s) := by
  induction n generalizing k with
  | zero => rfl
  | succ n ih =>
    have hsucc : s.outBytes (o + k) (n + 1)
        = wordBytes (s.outAt (o + k)) ++ s.outBytes (o + (k + 1)) n := by
      rw [Proc.outBytes, List.range_succ_eq_map, List.flatMap_cons, List.flatMap_map]
      simp only [Nat.add_zero, Nat.succ_eq_add_one, Proc.outBytes, Nat.add_assoc, Nat.add_comm 1]
    rw [outBlock, outBits_bind ho, Run.bind_ok (ih (k + 1)), hsucc]
    rfl

/-- The end of a case that writes one value. -/
theorem write_bumpOut {wr : π → ECode × π} {s : Proc π} {ec : ECode} {p : π} {o : ℕ}
    (h : wr s.parcel = (ec, p)) (ho : s.out = some o) (k : ℕ) :
    (do let _ ← write wr; bumpOut k; pure (none : Option ECode)) s
      = .ok (none, s.moved p s.args (some (o + k)) s.heap.events) := by
  rw [write_bind, h, bumpOut_bind, ho]
  rfl

/-- The way out of a case that writes one value and then releases something. -/
theorem moved_of_release {s : Proc π} {p : π} {o : ℕ} (ho : s.out = some o) (rs : List Res) (k : ℕ) :
    ∃ ev, (do release rs; bumpOut k; pure (none : Option ECode)) { s with parcel := p }
      = .ok (none, s.moved p s.args (some (o + k)) ev) := by
  refine ⟨s.heap.events ++ rs.map .release, ?_⟩
  rw [release_bind, bumpOut_bind, ho]
  rfl

/-- **The value of a slot** is written. -/
theorem mshOutSlot_spec {t : Param} {s : Proc π} {v : ArgVal} {ts ss : List τ} {o w : ℕ}
    (hv : s.readOut t o = some v) (hw : slotWords m t = some w)
    (hcallee : t.type = .arrayOf → t.isCallee = true) (hm : m.Returns v) (ho : s.out = some o)
    (hwrites : WritesOut S P ts v) (hs : S.Wrote ss s.parcel) (hroom : S.Room (ss ++ ts)) :
    ∃ p ev, mshOutSlot m P t s = .ok (none, s.moved p s.args (some (o + w)) ev) ∧
      S.Wrote (ss ++ ts) p := by
  rw [Proc.readOut] at hv
  cases ht : t.type <;> simp only [mshOutSlot, ht, slotWords, Option.some.injEq, reduceCtorEq]
    at hv hw ⊢
  case puint8 | puint16 | puint32 =>
    subst hv hw
    obtain ⟨p, hp, hwrote⟩ := hwrites _ _ hs hroom
    refine ⟨p, s.heap.events, ?_, hwrote⟩
    rw [outBits_bind ho]
    exact write_bumpOut hp ho 1
  case puint64 =>
    subst hv hw
    obtain ⟨p, hp, hwrote⟩ := hwrites _ _ hs hroom
    refine ⟨p, s.heap.events, ?_, hwrote⟩
    rw [outBits_bind ho, outBits_bind ho]
    exact write_bumpOut hp ho 2
  case pemuid =>
    subst hv hw
    obtain ⟨p, hp, hwrote⟩ := hwrites _ _ hs hroom
    refine ⟨p, s.heap.events, ?_, hwrote⟩
    have hid : outEMuid s = .ok (s.outEMuidAt o, s) := by
      rw [outEMuid, outBits_bind ho, outBits_bind ho, outBits_bind ho, outBits_bind ho]
      rfl
    rw [Run.bind_ok hid]
    exact write_bumpOut hp ho 4
  case pstruct =>
    subst hv hw
    cases m with
    | ipc => exact hm.elim
    | rpc =>
      obtain ⟨p, hp, hwrote⟩ := hwrites _ _ hs hroom
      refine ⟨p, s.heap.events, ?_, hwrote⟩
      rw [Run.bind_ok (outBlock_eq ho 0 _)]
      exact write_bumpOut hp ho _
  case pstring =>
    subst hw
    rw [out_bind ho, Nat.add_zero]
    split at hv
    · next hnull =>
      cases hv
      obtain ⟨p, hp, hwrote⟩ := hwrites _ _ hs hroom
      refine ⟨p, s.heap.events, ?_, hwrote⟩
      rw [if_neg (not_not.mpr hnull)]
      exact write_bumpOut hp ho 2
    · next hnull =>
      obtain ⟨str, hstr, rfl⟩ := Option.map_eq_some_iff.mp hv
      obtain ⟨a, ha, hobj⟩ := chars?_eq_some hstr
      obtain ⟨p, hp, hwrote⟩ := hwrites _ _ hs hroom
      obtain ⟨ev, hrun⟩ := moved_of_release (p := p) ho [.obj a] 2
      refine ⟨p, ev, ?_, hwrote⟩
      rw [if_pos hnull, ha]
      rw [derefChars_bind hobj, write_bind, hp]
      exact hrun
  case arrayOf =>
    subst hw
    rw [out_bind ho, Nat.add_zero]
    simp only [hcallee ht, not_true_eq_false, if_false]
    split at hv
    · next hnull =>
      cases hv
      cases m with
      | ipc => exact hm.elim
      | rpc =>
        obtain ⟨p, hp, hwrote⟩ := hwrites _ _ hs hroom
        refine ⟨p, s.heap.events, ?_, hwrote⟩
        have harray : writeArrayAt P (s.outBuffer o) s = .ok ((), { s with parcel := p }) := by
          rw [writeArrayAt, if_pos hnull, write_bind, hp]
          rfl
        rw [Run.bind_ok harray, releaseCalleeArray, Run.pure_bind_apply, bumpOut_bind, ho]
        rfl
    · next hnull =>
      obtain ⟨q, hq, rfl⟩ := Option.map_eq_some_iff.mp hv
      obtain ⟨a, ha, hobj⟩ := array?_eq_some hq
      obtain ⟨p, hp, hwrote⟩ := hwrites _ _ hs hroom
      have harray : writeArrayAt P (s.outBuffer o) s = .ok ((), { s with parcel := p }) := by
        rw [writeArrayAt, if_neg hnull, ha, derefArray_bind hobj, write_bind, hp]
        rfl
      rw [Run.bind_ok harray, ha]
      cases m with
      | rpc =>
        refine ⟨p, s.heap.events, ?_, hwrote⟩
        rw [releaseCalleeArray, Run.pure_bind_apply, bumpOut_bind, ho]
        rfl
      | ipc =>
        rw [releaseCalleeArray]
        simp only [bind_assoc]
        rw [derefArray_bind (s := { s with parcel := p }) hobj]
        split
        · obtain ⟨ev, hrun⟩ := moved_of_release (p := p) ho
            (q.payload.owned a ++ [.obj a]) 1
          exact ⟨p, ev, hrun, hwrote⟩
        · refine ⟨p, s.heap.events, ?_, hwrote⟩
          rw [Run.pure_bind_apply, bumpOut_bind, ho]
          rfl

/-- What can be returned for a parameter: nothing, or a value of a type that is returned. -/
def OutCodec.Yields (C : OutCodec S P) (m : Marshaller) (t : Param) : Option ArgVal → Prop
  | none => True
  | some v => C.CarriesOut v ∧ m.Returns v ∧ (t.type = .arrayOf → t.isCallee = true)

theorem slotWords_of_readOut {s : Proc π} {t : Param} {o : ℕ} {v : ArgVal}
    (hv : s.readOut t o = some v) : ∃ w, slotWords m t = some w := by
  rw [Proc.readOut] at hv
  rw [slotWords]
  cases ht : t.type <;> rw [ht] at hv <;> first | exact ⟨_, rfl⟩ | cases hv

/-- **An `[out]` parameter** is returned. -/
theorem mshOutOut_spec (C : OutCodec S P) {t : Param} {s : Proc π} {x : Option ArgVal}
    {ss : List τ} {o : ℕ} (hx : s.slot t o = some x) (hok : C.Yields m t x) (ho : s.out = some o)
    (hs : S.Wrote ss s.parcel) (hroom : S.Room (ss ++ C.returned x)) :
    ∃ p ev, mshOutOut m P false t s
        = .ok (none, s.moved p (s.args + 1) (some (o + slotSpan m t x)) ev) ∧
      S.Wrote (ss ++ C.returned x) p := by
  rw [Proc.slot] at hx
  rw [mshOutOut, bumpArgs_bind]
  simp only [Bool.false_eq_true, if_false]
  have hbits (f : UInt32 → Marshal π (Option ECode)) :
      (outBits 0 >>= f) { s with args := s.args + 1 } = f (s.outAt o) { s with args := s.args + 1 } :=
    outBits_bind (s := { s with args := s.args + 1 }) ho 0 f
  rw [hbits]
  split at hx
  · next htag =>
    cases hx
    obtain ⟨p, hp, hwrote⟩ := C.appends_word MSH_NULL _ _ hs hroom
    refine ⟨p, s.heap.events, ?_, hwrote⟩
    rw [if_neg (not_not.mpr htag)]
    exact write_bumpOut (s := { s with args := s.args + 1 }) hp ho 1
  next htag =>
  split at hx
  swap
  · cases hx
  next hnot =>
  obtain ⟨v, hv, rfl⟩ := Option.map_eq_some_iff.mp hx
  obtain ⟨w, hw⟩ := slotWords_of_readOut (m := m) hv
  rw [OutCodec.returned, ← List.append_assoc] at hroom ⊢
  obtain ⟨p, hp, hwrote⟩ := C.appends_word MSH_NOT_NULL _ _ hs (S.room_of_append hroom)
  have hv' : Proc.readOut { s with args := s.args + 1, parcel := p, out := some (o + 1) } t (o + 1)
      = some v := hv
  obtain ⟨p', ev, hrun, hwrote'⟩ := mshOutSlot_spec hv' hw hok.2.2 hok.2.1 rfl
    (C.writes_out v hok.1) hwrote hroom
  refine ⟨p', ev, ?_, hwrote'⟩
  rw [if_pos htag, hnot, carAssert, if_pos (by simp), Run.pure_bind_apply, write_bind, hp,
    bumpOut_bind, ho]
  refine hrun.trans ?_
  simp only [slotSpan, hw, Option.isSome_some, if_true, Option.getD_some, Nat.add_assoc]
  rfl

/-- The argument can be released: it is null, or what `Stub_ProcessUnmsh_In` makes for a parameter of
the type. -/
def Heap.Releasable (h : Heap) (t : Param) (w : Word) : Prop :=
  match t.type with
  | .puint8 | .puint16 | .puint32 | .puint64 | .string | .peguid => w = .null ∨ ∃ a, w = .obj a
  | .interface => w.interface?.isSome
  | .pinterface => w = .null ∨ ∃ w', h.obj? w = some (.word w') ∧ w'.interface?.isSome
  | .stringBuf | .bufferOf | .arrayOf => w = .null ∨ (h.array? w).isSome
  | _ => True

/-- The `[in]` arguments at the words from `i` on, as the stub comes to them, can be released. -/
def Proc.Releases (b : Build) (s : Proc π) : (n : ℕ) → List Param → (i : ℕ) → Prop
  | _, [], _ => True
  | n, t :: ts, i =>
    (t.isOut = false → s.heap.Releasable t (s.stack i)) ∧
      Releases b s (n + 1) ts (skipArg b s.phase n t i)

/-- **An `[in]` parameter** is released. -/
theorem mshOutIn_spec {n : ℕ} {t : Param} {s : Proc π} (hout : t.isOut = false)
    (hrel : s.heap.Releasable t (s.stack s.args)) :
    ∃ ev, mshOutIn b n t s
      = .ok (none, s.moved s.parcel (skipArg b s.phase n t s.args) s.out ev) := by
  rw [skipArg, if_neg (by simp [hout])]
  rw [Heap.Releasable] at hrel
  have hfree (hw : s.stack s.args = .null ∨ ∃ a, s.stack s.args = .obj a) :
      ∃ ev, (do free (← arg 0); next 1 : Marshal π (Option ECode)) s
        = .ok (none, s.moved s.parcel (s.args + 1) s.out ev) := by
    rw [arg_bind, Nat.add_zero]
    rcases hw with hw | ⟨a, hw⟩ <;> rw [hw]
    · exact ⟨s.heap.events, rfl⟩
    · exact ⟨s.heap.events ++ [.release (.obj a)], rfl⟩
  have harray (hw : s.stack s.args = .null ∨ (s.heap.array? (s.stack s.args)).isSome) :
      ∃ ev, (do
        let w ← arg 0
        if w = .null then next 1
        else
          let q ← derefArray w
          release (releasedElements w.address q ++ [.obj w.address])
          next 1 : Marshal π (Option ECode)) s = .ok (none, s.moved s.parcel (s.args + 1) s.out ev) := by
    rw [arg_bind, Nat.add_zero]
    rcases hw with hw | hw
    · rw [if_pos hw]
      exact ⟨s.heap.events, rfl⟩
    · obtain ⟨q, hq⟩ := Option.isSome_iff_exists.mp hw
      obtain ⟨a, ha, hobj⟩ := array?_eq_some hq
      rw [ha, if_neg (Word.obj_ne_null a), derefArray_bind hobj]
      exact ⟨_, rfl⟩
  cases ht : t.type <;> simp only [mshOutIn, ht] at hrel ⊢
  case puint8 | puint16 | puint32 | puint64 | string | peguid => exact hfree hrel
  case stringBuf | bufferOf | arrayOf => exact harray hrel
  case interface =>
    obtain ⟨x, hx⟩ := Option.isSome_iff_exists.mp hrel
    refine ⟨s.heap.events ++ (x.toList.map Res.itf).map .release, ?_⟩
    rw [arg_bind, Nat.add_zero, asInterface_bind hx, release_bind]
    rfl
  case pinterface =>
    rw [arg_bind, Nat.add_zero]
    rcases hrel with hw | ⟨w', hobj, hw'⟩
    · rw [if_pos hw]
      exact ⟨s.heap.events, rfl⟩
    · obtain ⟨x, hx⟩ := Option.isSome_iff_exists.mp hw'
      obtain ⟨a, ha, hobj⟩ := obj?_eq_some hobj
      refine ⟨s.heap.events ++ (x.toList.map Res.itf).map .release, ?_⟩
      rw [ha, if_neg (Word.obj_ne_null a), deref_bind hobj]
      simp only
      rw [asInterface_bind hx, release_bind]
      rfl
  all_goals exact ⟨s.heap.events, rfl⟩

/-! What the stub has released does not matter to what follows. -/

theorem reply_moved (C : OutCodec S P) (s : Proc π) (p : π) (i : ℕ) (out : Option ℕ)
    (ev : List Event) (params : List Param) (o : ℕ) :
    C.reply m (s.moved p i out ev) params o = C.reply m s params o := by
  induction params generalizing o with
  | nil => rfl
  | cons t ts ih =>
    rw [OutCodec.reply, OutCodec.reply, ih, ih]
    rfl

theorem Proc.Stores.moved {s : Proc π} {ok : Param → Option ArgVal → Prop} {params : List Param}
    {o : ℕ} (h : s.Stores m ok params o) (p : π) (i : ℕ) (out : Option ℕ) (ev : List Event) :
    (s.moved p i out ev).Stores m ok params o := by
  induction params generalizing o with
  | nil => trivial
  | cons t ts ih =>
    rw [Proc.Stores] at h ⊢
    split at h
    · next hout =>
      rw [if_pos hout]
      obtain ⟨x, hx, hok, hrest⟩ := h
      exact ⟨x, hx, hok, ih hrest⟩
    · next hout =>
      rw [if_neg hout]
      exact ih h

theorem Proc.Releases.moved {s : Proc π} {n : ℕ} {params : List Param} {i : ℕ}
    (h : s.Releases b n params i) (p : π) (j : ℕ) (out : Option ℕ) (ev : List Event) :
    (s.moved p j out ev).Releases b n params i := by
  induction params generalizing n i with
  | nil => trivial
  | cons t ts ih => exact ⟨h.1, ih h.2⟩

/-- **The reply is written**: the results, in the order of the parameters. -/
theorem mshOut_spec (C : OutCodec S P) (params : List Param) :
    ∀ (n o : ℕ) (s : Proc π) (ss : List τ), s.Stores m (C.Yields m) params o → s.out = some o →
      s.Releases b n params s.args → S.Wrote ss s.parcel → S.Room (ss ++ C.reply m s params o) →
      ∃ s', process (mshOutStep m b P false) n params s = .ok (NOERROR, s') ∧
        S.Wrote (ss ++ C.reply m s params o) s'.parcel := by
  induction params with
  | nil =>
    intro n o s ss _ _ _ hs _
    exact ⟨s, rfl, by simpa [OutCodec.reply] using hs⟩
  | cons t ts ih =>
    intro n o s ss hstores ho hrel hs hroom
    rw [Proc.Stores] at hstores
    by_cases hout : t.isOut = true
    · rw [if_pos hout] at hstores
      obtain ⟨x, hx, hok, hrest⟩ := hstores
      have hreply : C.reply m s (t :: ts) o
          = C.returned x ++ C.reply m s ts (o + slotSpan m t x) := by
        rw [OutCodec.reply, if_pos hout, hx]
        rfl
      rw [hreply, ← List.append_assoc] at hroom ⊢
      obtain ⟨p, ev, hrun, hwrote⟩ := mshOutOut_spec C hx hok ho hs (S.room_of_append hroom)
      have hargs : skipArg b s.phase n t s.args = s.args + 1 := by rw [skipArg, if_pos hout]
      obtain ⟨s', hrun', hwrote'⟩ := ih (n + 1) (o + slotSpan m t x)
        (s.moved p (s.args + 1) (some (o + slotSpan m t x)) ev) (ss ++ C.returned x)
        (hrest.moved _ _ _ _) rfl (by rw [← hargs]; exact hrel.2.moved _ _ _ _) hwrote
        (by rwa [reply_moved])
      rw [reply_moved] at hwrote'
      refine ⟨s', ?_, hwrote'⟩
      rw [process, mshOutStep, if_pos hout, Run.bind_ok hrun]
      exact hrun'
    · rw [if_neg hout] at hstores
      have hout' : t.isOut = false := by simpa using hout
      have hreply : C.reply m s (t :: ts) o = C.reply m s ts o := by
        rw [OutCodec.reply, if_neg hout]
      rw [hreply] at hroom ⊢
      obtain ⟨ev, hrun⟩ := mshOutIn_spec (b := b) (n := n) hout' (hrel.1 hout')
      obtain ⟨s', hrun', hwrote'⟩ := ih (n + 1) o
        (s.moved s.parcel (skipArg b s.phase n t s.args) s.out ev) ss (hstores.moved _ _ _ _) ho
        (hrel.2.moved _ _ _ _) hs (by rwa [reply_moved])
      rw [reply_moved] at hwrote'
      refine ⟨s', ?_, hwrote'⟩
      rw [process, mshOutStep, if_neg hout, Run.bind_ok hrun]
      exact hrun'

end

/-! ### The caller's variables -/

/-- The words at which the `[out]` arguments are, where `next` leads from an argument to the next
one. -/
def outSlots (next : ℕ → Param → ℕ → ℕ) : (n : ℕ) → List Param → (i : ℕ) → List ℕ
  | _, [], _ => []
  | n, t :: ts, i =>
    if t.isOut then i :: outSlots next (n + 1) ts (next n t i)
    else outSlots next (n + 1) ts (next n t i)

/-- An `[out]` parameter, what the stub has for it, and the pointer that the caller passed. -/
structure OutArg where
  param : Param
  value : Option ArgVal
  ptr : Word

/-- The `[out]` parameters, with the slots of the stub from word `o` on and the caller's pointers at
the given words. -/
def outArgs {π ρ : Type} (m : Marshaller) (s : Proc π) (c : Proc ρ) :
    List Param → (slots : List ℕ) → (o : ℕ) → List OutArg
  | [], _, _ => []
  | t :: ts, slots, o =>
    if t.isOut then
      let x := (s.slot t o).join
      ⟨t, x, c.stack (slots.headD 0)⟩ :: outArgs m s c ts slots.tail (o + slotSpan m t x)
    else outArgs m s c ts slots o

/-- The variable can take a result for the parameter; that for an array is null. -/
def Obj.Takes (t : Param) : Obj → Prop
  | .byte _ => t.type = .puint8
  | .short _ => t.type = .puint16
  | .word w => t.type = .puint32 ∨ t.type = .arrayOf ∧ w = .null
  | .dword _ => t.type = .puint64
  | .emuid _ => t.type = .pemuid
  | .block bs => t.type = .pstruct ∧ bs.length = t.size.toNat * 4
  | .string _ => t.type = .pstring
  | _ => False

/-- The variable holds the value that was returned for the parameter. An array is a new one, with the
contents of the one returned. -/
def Heap.Holds (h : Heap) (old : ℕ) (t : Param) (o : Obj) : ArgVal → Prop
  | .word v => t.type = .puint8 ∧ o = .byte v.toUInt8 ∨
      t.type = .puint16 ∧ o = .short v.toUInt16.toInt16 ∨ t.type = .puint32 ∧ o = .word (.num v)
  | .dword v => o = .dword v
  | .emuid id => o = .emuid id
  | .struct (some bs) _ => o = .block bs
  | .string str => o = .string str
  | .array none => o = .word .null
  | .array (some q) => ∃ a q', old ≤ a ∧ o = .word (.obj a) ∧ h.objs[a]? = some (.array q') ∧
      q'.SameContents q
  | _ => False

namespace OutArg

/-- The caller passed null, and nothing is returned, or it passed a variable that takes what is. -/
def Fits (h : Heap) (r : OutArg) : Prop :=
  match r.value with
  | none => r.ptr = .null
  | some _ => ∃ a o, r.ptr = .obj a ∧ h.objs[a]? = some o ∧ o.Takes r.param

/-- The variable holds what was returned. -/
def Arrived (h h' : Heap) (r : OutArg) : Prop :=
  ∀ v, r.value = some v →
    ∃ a o, r.ptr = .obj a ∧ h'.objs[a]? = some o ∧ h'.Holds h.objs.length r.param o v

/-- The variable that the pointer points to. -/
def target? (r : OutArg) : Option ℕ :=
  match r.ptr with
  | .obj a => some a
  | _ => none

end OutArg

/-- The variables. -/
def targets (rs : List OutArg) : List ℕ := rs.filterMap OutArg.target?

/-! ### The proxy -/

/-- The value is one of the `[out]` parameter's type. -/
def ArgVal.OutOf (t : Param) : ArgVal → Prop
  | .word _ => t.type = .puint8 ∨ t.type = .puint16 ∨ t.type = .puint32
  | .dword _ => t.type = .puint64
  | .emuid _ => t.type = .pemuid
  | .struct (some bs) _ => t.type = .pstruct ∧ bs.length = t.size.toNat * 4
  | .string _ => t.type = .pstring
  | .array _ => t.type = .arrayOf
  | _ => False

section

variable {π τ : Type} {S : Stream π τ} {P : IParcel π} {m : Marshaller} {b : Build}

theorem length_outBytes (s : Proc π) (o n : ℕ) : (s.outBytes o n).length = n * 4 := by
  simp [Proc.outBytes, List.length_flatMap]

theorem readOut_outOf {s : Proc π} {t : Param} {o : ℕ} {v : ArgVal}
    (h : s.readOut t o = some v) : v.OutOf t := by
  rw [Proc.readOut] at h
  cases ht : t.type <;> simp only [ht] at h
  case puint8 | puint16 | puint32 | puint64 | pemuid =>
    cases h
    simp [ArgVal.OutOf, ht]
  case pstruct =>
    cases h
    exact ⟨ht, length_outBytes s o _⟩
  case pstring | arrayOf =>
    split at h
    · cases h
      exact ht
    · obtain ⟨_, -, rfl⟩ := Option.map_eq_some_iff.mp h
      exact ht
  all_goals cases h

/-- The stack stays, and of the objects only those at the addresses `xs` change. -/
structure Proc.Changed (c c' : Proc π) (xs : List ℕ) : Prop where
  stack : c'.stack = c.stack
  phase : c'.phase = c.phase
  grown : c.heap.objs.length ≤ c'.heap.objs.length
  others : ∀ x, x < c.heap.objs.length → x ∉ xs → c'.heap.objs[x]? = c.heap.objs[x]?

theorem Proc.Changed.trans {c c' c'' : Proc π} {xs ys : List ℕ} (h : c.Changed c' xs)
    (h' : c'.Changed c'' ys) : c.Changed c'' (xs ++ ys) where
  stack := h'.stack.trans h.stack
  phase := h'.phase.trans h.phase
  grown := h.grown.trans h'.grown
  others x hx hxs := by
    rw [List.mem_append, not_or] at hxs
    rw [h'.others x (hx.trans_le h.grown) hxs.2, h.others x hx hxs.1]

/-- The variable at `a` is assigned. -/
theorem modify_eq {c : Proc π} {a : ℕ} {o o' : Obj} {f : Obj → Option Obj}
    (h : c.heap.objs[a]? = some o) (hf : f o = some o') :
    modify (.obj a) f c
      = .ok ((), { c with heap := { c.heap with objs := c.heap.objs.set a o' } }) := by
  rw [Marshal.modify, deref_bind h]
  simp only [hf]
  rfl

theorem changed_set {c : Proc π} (p : π) (i a : ℕ) (o : Obj) :
    c.Changed { c with
      parcel := p, args := i, heap := { c.heap with objs := c.heap.objs.set a o } } [a] where
  stack := rfl
  phase := rfl
  grown := by simp
  others x _ hx := by
    rw [List.mem_singleton] at hx
    exact List.getElem?_set_ne (Ne.symm hx)

/-- **The value of an `[out]` parameter** is read to the caller's variable. -/
theorem unmshOutVar_spec {t : Param} {c : Proc π} {v : ArgVal} {a : ℕ} {o : Obj}
    {ts rest : List τ} (hv : v.OutOf t) (hplain : ∀ q, v = .array (some q) → q.Plain)
    (hcallee : t.type = .arrayOf → t.isCallee = true) (ho : c.heap.objs[a]? = some o)
    (htakes : o.Takes t) (hr : ReadsOut S P ts v) (hc : S.Left (ts ++ rest) c.parcel) :
    ∃ c', unmshOutVar P t (.obj a) c = .ok (none, c') ∧ S.Left rest c'.parcel ∧
      c'.args = c.args ∧ c.Changed c' [a] ∧
      ∃ o', c'.heap.objs[a]? = some o' ∧ c'.heap.Holds c.heap.objs.length t o' v := by
  have hlt : a < c.heap.objs.length := (List.getElem?_eq_some_iff.mp ho).1
  -- a case that reads a value and assigns it
  have hassign {α : Type} {r : Run π Fault α} {x : α} {p : π} {f : α → Obj → Option Obj} {o' : Obj}
      (hrun : ∀ g : α → Marshal π (Option ECode), (read r >>= g) c = g x { c with parcel := p })
      (hf : f x o = some o') (hp : S.Left rest p)
      (hholds : (⟨c.heap.objs.set a o', c.heap.events⟩ : Heap).Holds c.heap.objs.length t o' v) :
      ∃ c', (do let y ← read r; modify (.obj a) (f y); pure (none : Option ECode)) c
          = .ok (none, c') ∧ S.Left rest c'.parcel ∧ c'.args = c.args ∧ c.Changed c' [a] ∧
        ∃ o', c'.heap.objs[a]? = some o' ∧ c'.heap.Holds c.heap.objs.length t o' v := by
    refine ⟨{ c with parcel := p, heap := { c.heap with objs := c.heap.objs.set a o' } }, ?_, hp,
      rfl, changed_set p _ a o', o', List.getElem?_set_self hlt, hholds⟩
    rw [hrun, Run.bind_ok (modify_eq (c := { c with parcel := p }) ho hf)]
    rfl
  cases v with
  | word v =>
    obtain ⟨hbyte, hshort, hword⟩ := hr
    rcases hv with ht | ht | ht <;> simp only [unmshOutVar, ht]
    · obtain ⟨x, p, hx, hp, hrun⟩ := reads_read_bind (β := Option ECode) hbyte hc
      obtain ⟨u, rfl⟩ : ∃ u, o = .byte u := by
        cases o <;> simp [Obj.Takes, ht] at htakes
        exact ⟨_, rfl⟩
      exact hassign hrun rfl hp (.inl ⟨ht, by rw [hx]⟩)
    · obtain ⟨x, p, hx, hp, hrun⟩ := reads_read_bind (β := Option ECode) hshort hc
      obtain ⟨u, rfl⟩ : ∃ u, o = .short u := by
        cases o <;> simp [Obj.Takes, ht] at htakes
        exact ⟨_, rfl⟩
      exact hassign hrun rfl hp (.inr (.inl ⟨ht, by rw [hx]⟩))
    · obtain ⟨x, p, rfl, hp, hrun⟩ := reads_read_bind (β := Option ECode) hword hc
      obtain ⟨u, rfl⟩ : ∃ u, o = .word u := by
        cases o <;> simp [Obj.Takes, ht] at htakes
        exact ⟨_, rfl⟩
      exact hassign hrun rfl hp (.inr (.inr ⟨ht, rfl⟩))
  | dword v =>
    have ht : t.type = .puint64 := hv
    obtain ⟨x, p, rfl, hp, hrun⟩ := reads_read_bind (β := Option ECode) hr hc
    obtain ⟨u, rfl⟩ : ∃ u, o = .dword u := by
      cases o <;> simp [Obj.Takes, ht] at htakes
      exact ⟨_, rfl⟩
    simp only [unmshOutVar, ht]
    exact hassign hrun rfl hp rfl
  | emuid id =>
    have ht : t.type = .pemuid := hv
    obtain ⟨x, p, rfl, hp, hrun⟩ := reads_read_bind (β := Option ECode) hr hc
    obtain ⟨u, rfl⟩ : ∃ u, o = .emuid u := by
      cases o <;> simp [Obj.Takes, ht] at htakes
      exact ⟨_, rfl⟩
    simp only [unmshOutVar, ht]
    exact hassign hrun rfl hp rfl
  | string str =>
    have ht : t.type = .pstring := hv
    obtain ⟨x, p, rfl, hp, hrun⟩ := reads_read_bind (β := Option ECode) hr hc
    obtain ⟨u, rfl⟩ : ∃ u, o = .string u := by
      cases o <;> simp [Obj.Takes, ht] at htakes
      exact ⟨_, rfl⟩
    simp only [unmshOutVar, ht]
    exact hassign hrun rfl hp rfl
  | struct bs size =>
    cases bs with
    | none => exact hv.elim
    | some bs =>
      obtain ⟨ht, hlen⟩ := hv
      obtain ⟨⟨ec, x⟩, p, hx, hp, hrun⟩ := reads_read_bind (β := Unit) hr hc
      obtain ⟨old, rfl, hold⟩ : ∃ old, o = .block old ∧ old.length = t.size.toNat * 4 := by
        cases o <;> simp [Obj.Takes, ht] at htakes
        exact ⟨_, rfl, htakes⟩
      dsimp only at hx
      subst hx
      have hcopy : readStructTo P (.obj a) c = .ok ((), { c with
          parcel := p, heap := { c.heap with objs := c.heap.objs.set a (.block bs) } }) := by
        rw [readStructTo, hrun]
        dsimp only
        rw [readStructTo.copyTo, deref_bind (s := { c with parcel := p }) ho]
        dsimp only
        rw [if_pos (by omega), List.drop_eq_nil_of_le (by omega), List.append_nil]
        rfl
      refine ⟨{ c with parcel := p, heap := { c.heap with objs := c.heap.objs.set a (.block bs) } },
        ?_, hp, rfl, changed_set p _ a _, _, List.getElem?_set_self hlt, rfl⟩
      simp only [unmshOutVar, ht]
      rw [Run.bind_ok hcopy]
      rfl
  | array q =>
    have ht : t.type = .arrayOf := hv
    have hnull : o = .word .null := by
      cases o <;> simp [Obj.Takes, ht] at htakes
      rw [htakes]
    subst hnull
    simp only [unmshOutVar, ht, hcallee ht, not_true_eq_false, if_false]
    cases q with
    | none =>
      obtain ⟨⟨ec, x⟩, p, hx, hp, hrun⟩ := reads_read_bind (β := Unit) hr hc
      dsimp only at hx
      rcases hx with rfl | rfl
      · -- the variable is left alone
        have hread : readArrayTo P (.obj a) c = .ok ((), { c with parcel := p }) := by
          rw [readArrayTo, hrun]
          rfl
        refine ⟨{ c with parcel := p }, ?_, hp, rfl,
          ⟨rfl, rfl, le_rfl, fun _ _ _ => rfl⟩, _, ho, rfl⟩
        rw [Run.bind_ok hread]
        rfl
      · have hread : readArrayTo P (.obj a) c = .ok ((), { c with
            parcel := p, heap := { c.heap with objs := c.heap.objs.set a (.word .null) } }) := by
          rw [readArrayTo, hrun]
          exact modify_eq (c := { c with parcel := p }) ho rfl
        refine ⟨{ c with
            parcel := p, heap := { c.heap with objs := c.heap.objs.set a (.word .null) } },
          ?_, hp, rfl, changed_set p _ a _, _, List.getElem?_set_self hlt, rfl⟩
        rw [Run.bind_ok hread]
        rfl
    | some q =>
      obtain ⟨⟨ec, x⟩, p, ⟨q', hx, hsame⟩, hp, hrun⟩ := reads_read_bind (β := Unit) hr hc
      dsimp only at hx
      subst hx
      -- the new array is behind all the objects
      let h : Heap := ⟨c.heap.objs ++ [.array q'], c.heap.events
        ++ [.acquire (.obj c.heap.objs.length)] ++ (q'.payload.owned c.heap.objs.length).map .acquire⟩
      have ho' : h.objs[a]? = some (.word .null) := by
        rw [List.getElem?_append_left hlt, ho]
      have hlt' : a < h.objs.length := (List.getElem?_eq_some_iff.mp ho').1
      have hread : readArrayTo P (.obj a) c = .ok ((), { c with
          parcel := p
          heap := { h with objs := h.objs.set a (.word (.obj c.heap.objs.length)) } }) := by
        rw [readArrayTo, hrun]
        simp only [alloc_bind, acquire_bind]
        exact modify_eq (c := { c with parcel := p, heap := h }) ho' rfl
      refine ⟨{ c with
          parcel := p
          heap := { h with objs := h.objs.set a (.word (.obj c.heap.objs.length)) } },
        ?_, hp, rfl, ⟨rfl, rfl, by simp [h], fun x hxlt hxa => ?_⟩, _, List.getElem?_set_self hlt',
        c.heap.objs.length, q', le_rfl, rfl, ?_, hsame (hplain q rfl)⟩
      · rw [Run.bind_ok hread]
        rfl
      · rw [List.mem_singleton] at hxa
        rw [List.getElem?_set_ne (Ne.symm hxa), List.getElem?_append_left hxlt]
      · rw [List.getElem?_set_ne hlt.ne, List.getElem?_concat_length]
  | eguid id ptr => exact hv.elim
  | interface x => exact hv.elim

/-- What can be returned for a parameter: nothing, or a value of a type that is returned. -/
def OutCodec.Delivers (C : OutCodec S P) (m : Marshaller) (t : Param) (x : Option ArgVal) : Prop :=
  C.Yields m t x ∧ ∀ q, x = some (.array (some q)) → q.Plain

theorem slot_outOf {s : Proc π} {t : Param} {o : ℕ} {v : ArgVal}
    (h : s.slot t o = some (some v)) : v.OutOf t := by
  rw [Proc.slot] at h
  split at h
  · cases h
  · split at h
    · obtain ⟨v', hv, hvv⟩ := Option.map_eq_some_iff.mp h
      cases hvv
      exact readOut_outOf hv
    · cases h

/-- **An `[out]` parameter** is read back. -/
theorem unmshOutOut_spec (C : OutCodec S P) {t : Param} {x : Option ArgVal} {c : Proc π} {h : Heap}
    {rest : List τ} (hof : ∀ v, x = some v → v.OutOf t) (hok : C.Delivers m t x)
    (hfits : OutArg.Fits h ⟨t, x, c.stack c.args⟩)
    (hheap : ∀ a, c.stack c.args = .obj a → c.heap.objs[a]? = h.objs[a]?)
    (hc : S.Left (C.returned x ++ rest) c.parcel) :
    ∃ c', unmshOutOut P t c = .ok (none, c') ∧ S.Left rest c'.parcel ∧ c'.args = c.args + 1 ∧
      c.Changed c' (OutArg.target? ⟨t, x, c.stack c.args⟩).toList ∧
      OutArg.Arrived c.heap c'.heap ⟨t, x, c.stack c.args⟩ := by
  rw [unmshOutOut, arg_bind, Nat.add_zero]
  cases x with
  | none =>
    have hnull : c.stack c.args = .null := hfits
    obtain ⟨_, p, rfl, hp, hrun⟩ := reads_read_bind (β := Option ECode) (C.reads_word MSH_NULL) hc
    refine ⟨{ c with parcel := p, args := c.args + 1 }, ?_, hp, rfl,
      ⟨rfl, rfl, le_rfl, fun _ _ _ => rfl⟩, nofun⟩
    rw [hrun]
    simp only [hnull, ne_eq, not_true_eq_false, if_false]
    rfl
  | some v =>
    obtain ⟨a, o, ha, ho, htakes⟩ := hfits
    dsimp only at ha ho htakes
    rw [OutCodec.returned, List.append_assoc] at hc
    obtain ⟨_, p, rfl, hp, hrun⟩ :=
      reads_read_bind (β := Option ECode) (C.reads_word MSH_NOT_NULL) hc
    obtain ⟨c', hvar, hleft, hargs, hchanged, o', ho', hholds⟩ := unmshOutVar_spec
      (c := { c with parcel := p }) (hof v rfl) (fun q hq => hok.2 q (by rw [hq])) hok.1.2.2
      ((hheap a ha).trans ho) htakes (C.reads_out v hok.1.1) hp
    refine ⟨{ c' with args := c'.args + 1 }, ?_, hleft, congrArg (· + 1) hargs, ?_, ?_⟩
    · rw [hrun, ha]
      simp only [ne_eq, Word.obj_ne_null, not_false_eq_true, if_true, not_true_eq_false, if_false]
      rw [Run.bind_ok hvar]
      rfl
    · rw [ha]
      exact ⟨hchanged.stack, hchanged.phase, hchanged.grown, hchanged.others⟩
    · intro v' hv'
      cases hv'
      exact ⟨a, o', ha, ho', hholds⟩

theorem unmshOutIn_eq {n : ℕ} {t : Param} (hout : ¬ t.isOut = true) (c : Proc π) :
    unmshOutIn b n t c = .ok (none, { c with args := skipArg b c.phase n t c.args }) := by
  rw [skipArg, if_neg hout]
  cases ht : t.type <;> simp only [unmshOutIn, ht] <;> rfl

/-- Objects that are left alone are held as before. -/
theorem Heap.Holds.mono {h h' : Heap} {old old' : ℕ} {t : Param} {o : Obj} {v : ArgVal}
    (hv : h.Holds old t o v) (hle : old' ≤ old)
    (hkept : ∀ x, old ≤ x → x < h.objs.length → h'.objs[x]? = h.objs[x]?) :
    h'.Holds old' t o v := by
  cases v with
  | array q =>
    cases q with
    | none => exact hv
    | some q =>
      obtain ⟨a, q', ha, ho, hq, hsame⟩ := hv
      have hlt := (List.getElem?_eq_some_iff.mp hq).1
      exact ⟨a, q', hle.trans ha, ho, (hkept a ha hlt).trans hq, hsame⟩
  | struct bs size =>
    cases bs with
    | none => exact hv
    | some bs => exact hv
  | word _ | dword _ | emuid _ | string _ | eguid _ _ | interface _ => exact hv

theorem lt_of_mem_targets {h : Heap} {rs : List OutArg} (hfits : ∀ r ∈ rs, r.Fits h) {a : ℕ}
    (ha : a ∈ targets rs) : a < h.objs.length := by
  obtain ⟨r, hr, hra⟩ := List.mem_filterMap.mp ha
  have hfit := hfits r hr
  rw [OutArg.Fits] at hfit
  rw [OutArg.target?] at hra
  split at hfit
  · rw [hfit] at hra
    cases hra
  · obtain ⟨a', o, hptr, ho, -⟩ := hfit
    rw [hptr] at hra
    cases hra
    exact (List.getElem?_eq_some_iff.mp ho).1

theorem Proc.Changed.refl (c : Proc π) (xs : List ℕ) : c.Changed c xs :=
  ⟨rfl, rfl, le_rfl, fun _ _ _ => rfl⟩

theorem targets_cons (r : OutArg) (rs : List OutArg) :
    targets (r :: rs) = r.target?.toList ++ targets rs := by
  rw [targets, List.filterMap_cons]
  cases r.target? <;> rfl

/-- **The reply is read**: every result arrives in the variable that is there for it. -/
theorem unmshOut_spec (C : OutCodec S P) (s c : Proc π) (params : List Param) :
    ∀ (n o : ℕ) (c₁ : Proc π) (rest : List τ) (rs : List OutArg),
      outArgs m s c params (outSlots (skipArg b c.phase) n params c₁.args) o = rs →
      s.Stores m (C.Delivers m) params o → (∀ r ∈ rs, r.Fits c.heap) → (targets rs).Nodup →
      c₁.stack = c.stack → c₁.phase = c.phase → c.heap.objs.length ≤ c₁.heap.objs.length →
      (∀ a ∈ targets rs, c₁.heap.objs[a]? = c.heap.objs[a]?) →
      S.Left (C.reply m s params o ++ rest) c₁.parcel →
      ∃ c', process (unmshOutStep b P) n params c₁ = .ok (NOERROR, c') ∧ S.Left rest c'.parcel ∧
        c₁.Changed c' (targets rs) ∧ ∀ r ∈ rs, r.Arrived c.heap c'.heap := by
  induction params with
  | nil =>
    rintro n o c₁ rest rs rfl - - - - - - - hc
    exact ⟨c₁, rfl, hc, .refl c₁ _, List.forall_mem_nil _⟩
  | cons t ts ih =>
    intro n o c₁ rest rs hrs hstores hfits hnodup hstack hphase hgrown hheap hc
    rw [Proc.Stores] at hstores
    rw [outArgs, outSlots] at hrs
    rw [OutCodec.reply] at hc
    rw [process, unmshOutStep]
    by_cases hout : t.isOut = true
    · rw [if_pos hout] at hstores hrs hc
      obtain ⟨x, hx, hok, hrest⟩ := hstores
      have hargs : skipArg b c.phase n t c₁.args = c₁.args + 1 := by rw [skipArg, if_pos hout]
      rw [if_pos hout, hx, hargs, ← hstack] at hrs
      rw [hx, Option.elim_some, Option.elim_some, List.append_assoc] at hc
      change ⟨t, x, c₁.stack c₁.args⟩ :: outArgs m s c ts
        (outSlots (skipArg b c.phase) (n + 1) ts (c₁.args + 1)) (o + slotSpan m t x) = rs at hrs
      generalize hrs' : outArgs m s c ts _ _ = rs' at hrs
      subst hrs
      rw [List.forall_mem_cons] at hfits
      obtain ⟨hfit, hfits⟩ := hfits
      rw [targets_cons] at hnodup hheap ⊢
      obtain ⟨-, hnodup, hdisjoint⟩ := List.nodup_append.mp hnodup
      obtain ⟨c₂, hstep, hleft, hargs₂, hchanged, harr⟩ := unmshOutOut_spec C (c := c₁) (h := c.heap)
        (fun v hv => slot_outOf (hv ▸ hx)) hok hfit
        (fun a ha => hheap a (List.mem_append_left _ (by simp [OutArg.target?, ha]))) hc
      -- the variables that are still to come have been left alone
      have hlt {a : ℕ} (ha : a ∈ targets rs') : a < c.heap.objs.length :=
        lt_of_mem_targets hfits ha
      have hheap' : ∀ a ∈ targets rs', c₂.heap.objs[a]? = c.heap.objs[a]? := fun a ha => by
        rw [hchanged.others a ((hlt ha).trans_le hgrown) fun h => hdisjoint a h a ha rfl,
          hheap a (List.mem_append_right _ ha)]
      rw [← hargs₂] at hrs'
      obtain ⟨c', hrun, hleft', hchanged', harr'⟩ := ih (n + 1) _ c₂ rest rs' hrs' hrest hfits hnodup
        (hchanged.stack.trans hstack) (hchanged.phase.trans hphase) (hgrown.trans hchanged.grown)
        hheap' hleft
      refine ⟨c', ?_, hleft', hchanged.trans hchanged', List.forall_mem_cons.mpr ⟨?_, harr'⟩⟩
      · rw [if_pos hout, Run.bind_ok hstep]
        exact hrun
      · intro v hv
        obtain ⟨a, o', hptr, ho', hholds⟩ := harr v hv
        have hkept {y : ℕ} (hy : y ∉ targets rs') (hylt : y < c₂.heap.objs.length) :
            c'.heap.objs[y]? = c₂.heap.objs[y]? := hchanged'.others y hylt hy
        have ha : a ∉ targets rs' := fun h =>
          hdisjoint a (by rw [OutArg.target?, hptr]; exact List.mem_singleton_self a) a h rfl
        refine ⟨a, o', hptr, (hkept ha (List.getElem?_eq_some_iff.mp ho').1).trans ho', ?_⟩
        exact hholds.mono hgrown fun y hle hylt =>
          hkept (fun h => absurd (hlt h) (by omega)) hylt
    · rw [if_neg hout] at hstores hrs hc
      rw [if_neg hout] at hrs
      have hstep : unmshOutIn b n t c₁
          = .ok (none, { c₁ with args := skipArg b c.phase n t c₁.args }) := by
        rw [← hphase]
        exact unmshOutIn_eq hout c₁
      obtain ⟨c', hrun, hleft, hchanged, harrived⟩ := ih (n + 1) o
        { c₁ with args := skipArg b c.phase n t c₁.args } rest rs hrs hstores hfits hnodup hstack
        hphase hgrown hheap hc
      refine ⟨c', ?_, hleft, ⟨hchanged.stack, hchanged.phase, hchanged.grown, hchanged.others⟩,
        harrived⟩
      rw [if_neg hout, Run.bind_ok hstep]
      exact hrun

end

end ElastosCar
