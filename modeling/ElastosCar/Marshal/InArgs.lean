import ElastosCar.Marshal.Values

/-!
# The way in

`Proxy_ProcessMsh_In` and `Stub_ProcessUnmsh_In`, for any parcel with a wire format.
-/

namespace ElastosCar

/-! ### Lookups -/

section

variable {h : Heap} {w : Word}

theorem obj?_eq_some {o : Obj} (hw : h.obj? w = some o) :
    ∃ a, w = .obj a ∧ h.objs[a]? = some o := by
  cases w with
  | obj a => exact ⟨a, rfl, hw⟩
  | num v | slot i | itf x => cases hw

theorem string?_eq_some {s : CarString} (hw : h.string? w = some s) :
    ∃ a, w = .obj a ∧ h.objs[a]? = some (.string s) := by
  rw [Heap.string?] at hw
  split at hw
  · next s' ho => exact obj?_eq_some (by rw [ho, Option.some.inj hw])
  · cases hw

theorem array?_eq_some {q : CarQuintet} (hw : h.array? w = some q) :
    ∃ a, w = .obj a ∧ h.objs[a]? = some (.array q) := by
  rw [Heap.array?] at hw
  split at hw
  · next q' ho => exact obj?_eq_some (by rw [ho, Option.some.inj hw])
  · cases hw

theorem chars?_eq_some {s : CString} (hw : h.chars? w = some s) :
    ∃ a, w = .obj a ∧ h.objs[a]? = some (.chars s) := by
  rw [Heap.chars?] at hw
  split at hw
  · next s' ho => exact obj?_eq_some (by rw [ho, Option.some.inj hw])
  · cases hw

theorem block?_eq_some {bs : List UInt8} (hw : h.block? w = some bs) :
    ∃ a, w = .obj a ∧ h.objs[a]? = some (.block bs) := by
  rw [Heap.block?] at hw
  split at hw
  · next bs' ho => exact obj?_eq_some (by rw [ho, Option.some.inj hw])
  · cases hw

end

/-! ### The proxy -/

section

open Marshal

variable {π τ : Type} {S : Stream π τ} {P : IParcel π} {m : Marshaller} {b : Build}

/-- The end of a case that writes one value. -/
theorem write_next {w : π → ECode × π} {s : Proc π} {ec : ECode} {p : π}
    (h : w s.parcel = (ec, p)) (k : ℕ) :
    (write w >>= fun _ => next k) s = .ok (none, { s with parcel := p, args := s.args + k }) := by
  rw [write_bind, h]
  rfl

@[simp]
theorem align_bind {β : Type} {s : Proc π} (n : ℕ) (f : Unit → Marshal π β) :
    (align b n >>= f) s = f () { s with args := b.align64 s.phase n s.args } := rfl

theorem argEMuid_bind {β : Type} {s : Proc π} (f : EMuid → Marshal π β) :
    (argEMuid >>= f) s = f (s.emuidAt s.args) s := rfl

theorem asInterface_bind {β : Type} {w : Word} {x : Option Itf} (h : w.interface? = some x)
    (s : Proc π) (f : Option Itf → Marshal π β) : (asInterface w >>= f) s = f x s := by
  refine Run.bind_ok ?_
  rw [Word.interface?.eq_def] at h
  split at h <;> cases h <;> rfl

theorem derefBlock_bind {β : Type} {s : Proc π} {a : ℕ} {bs : List UInt8} {n : ℕ}
    (h : s.heap.objs[a]? = some (.block bs)) (hn : bs.length = n) (f : List UInt8 → Marshal π β) :
    (derefBlock (.obj a) n >>= f) s = f bs s := by
  refine Run.bind_ok ?_
  rw [derefBlock, deref_bind h]
  simp only [if_pos hn]
  rfl

theorem toNat_size_mul_four (size : UInt16) : (size.toUInt32 * 4).toNat = size.toNat * 4 := by
  have := size.toNat_lt
  simp only [UInt32.toNat_mul, UInt16.toNat_toUInt32, UInt32.reduceToNat]
  omega

/-- An `[in]` argument that has a value. -/
theorem mshInArg_spec {n : ℕ} {t : Param} {s : Proc π} {v : ArgVal} {ts ss : List τ}
    (hv : s.readArg b n t s.args = some v) (hin : t.isIn) (hw : WritesArg S P ts v)
    (hm : ∀ bs k, v = .struct (some bs) k → m = .rpc) (hs : S.Wrote ss s.parcel)
    (hroom : S.Room (ss ++ ts)) :
    ∃ p, mshInArg m b P n t s
        = .ok (none, { s with parcel := p, args := nextArg b s.phase n t s.args }) ∧
      S.Wrote (ss ++ ts) p := by
  rw [Proc.readArg] at hv
  rw [nextArg, if_pos hin]
  cases ht : t.type <;> simp only [mshInArg, ht] at hv ⊢
  case uint8 | uint16 | uint32 =>
    cases hv
    obtain ⟨p, hp, hwrote⟩ := hw _ _ hs hroom
    exact ⟨p, by simp only [argBits_bind]; exact write_next hp 1, hwrote⟩
  case uint64 =>
    cases hv
    obtain ⟨p, hp, hwrote⟩ := hw _ _ hs hroom
    refine ⟨p, ?_, hwrote⟩
    simp only [align_bind, argBits_bind]
    exact write_next (s := { s with args := b.align64 s.phase n s.args }) hp 2
  case emuid =>
    cases hv
    obtain ⟨p, hp, hwrote⟩ := hw _ _ hs hroom
    exact ⟨p, by rw [argEMuid_bind]; exact write_next hp 4, hwrote⟩
  case eguid =>
    obtain ⟨str, hstr, rfl⟩ := Option.map_eq_some_iff.mp hv
    obtain ⟨a, ha, hobj⟩ := chars?_eq_some hstr
    obtain ⟨p, hp, hwrote⟩ := hw _ _ hs hroom
    refine ⟨p, ?_, hwrote⟩
    rw [argEMuid_bind]
    simp only [arg_bind, ha]
    rw [derefChars_bind hobj]
    simp only [argBits_bind]
    exact write_next hp 6
  case string =>
    obtain ⟨str, hstr, rfl⟩ := Option.map_eq_some_iff.mp hv
    obtain ⟨a, ha, hobj⟩ := string?_eq_some hstr
    obtain ⟨p, hp, hwrote⟩ := hw _ _ hs hroom
    refine ⟨p, ?_, hwrote⟩
    simp only [arg_bind, add_zero, ha]
    rw [derefString_bind hobj]
    exact write_next hp 1
  case arrayOf =>
    split at hv
    · next hnull =>
      cases hv
      obtain ⟨p, hp, hwrote⟩ := hw _ _ hs hroom
      refine ⟨p, ?_, hwrote⟩
      simp only [arg_bind, add_zero, if_pos hnull]
      exact write_next hp 1
    · next hnull =>
      obtain ⟨q, hq, rfl⟩ := Option.map_eq_some_iff.mp hv
      obtain ⟨a, ha, hobj⟩ := array?_eq_some hq
      obtain ⟨p, hp, hwrote⟩ := hw _ _ hs hroom
      refine ⟨p, ?_, hwrote⟩
      simp only [arg_bind, add_zero, ha, Word.obj_ne_null, if_false]
      rw [derefArray_bind hobj]
      exact write_next hp 1
  case struct | pstruct =>
    split at hv
    · next hnull =>
      cases hv
      obtain ⟨p, hp, hwrote⟩ := hw _ _ hs hroom
      refine ⟨p, ?_, hwrote⟩
      simp only [arg_bind, add_zero, if_pos hnull]
      exact write_next hp 1
    · next hnull =>
      obtain ⟨bs, hbs, hv⟩ := Option.bind_eq_some_iff.mp hv
      obtain ⟨a, ha, hobj⟩ := block?_eq_some hbs
      split at hv
      · next hlen =>
        cases hv
        obtain rfl := hm bs _ rfl
        obtain ⟨p, hp, hwrote⟩ := hw _ _ hs hroom
        refine ⟨p, ?_, hwrote⟩
        simp only [arg_bind, add_zero, ha, Word.obj_ne_null, if_false]
        rw [derefBlock_bind hobj (by rw [hlen, toNat_size_mul_four]; rfl)]
        exact write_next hp 1
      · cases hv
  case interface =>
    obtain ⟨x, hx, rfl⟩ := Option.map_eq_some_iff.mp hv
    obtain ⟨p, hp, hwrote⟩ := hw _ _ hs hroom
    refine ⟨p, ?_, hwrote⟩
    simp only [arg_bind, add_zero]
    rw [asInterface_bind hx, write_bind, hp]
    rfl
  all_goals cases hv

/-- **A step of the proxy** sends what there is to tell about the parameter. -/
theorem mshInStep_spec (C : Codec S P) {n : ℕ} {t : Param} {s : Proc π} {x : Sent} {ss : List τ}
    (hx : s.sent b n t s.args = some x) (hw : ∀ v, x = .value v → WritesArg S P (C.arg v) v)
    (hm : ∀ bs k, x = .value (.struct (some bs) k) → m = .rpc) (hs : S.Wrote ss s.parcel)
    (hroom : S.Room (ss ++ C.sent x)) :
    ∃ p, mshInStep m b P n t s
        = .ok (none, { s with parcel := p, args := nextArg b s.phase n t s.args }) ∧
      S.Wrote (ss ++ C.sent x) p := by
  rw [Proc.sent] at hx
  rw [mshInStep]
  split at hx
  · next hin =>
    obtain ⟨v, hv, rfl⟩ := Option.map_eq_some_iff.mp hx
    rw [if_pos hin]
    exact mshInArg_spec hv hin (hw v rfl) (fun bs k h => hm bs k (by rw [h])) hs hroom
  · next hin =>
    rw [if_neg hin, nextArg, if_neg hin, mshInOut]
    simp only [arg_bind, add_zero]
    split at hx
    · next hnull =>
      cases hx
      obtain ⟨p, hp, hwrote⟩ := C.appends_word MSH_NULL _ _ hs hroom
      refine ⟨p, ?_, hwrote⟩
      simp only [hnull, if_true, write_bind, hp, ne_eq, not_true_eq_false, and_false, if_false]
      rfl
    · next hnull =>
      simp only [if_neg hnull]
      split at hx
      · next harr =>
        obtain ⟨q, hq, rfl⟩ := Option.map_eq_some_iff.mp hx
        obtain ⟨a, ha, hobj⟩ := array?_eq_some hq
        rw [Codec.sent, ← List.append_assoc] at hroom ⊢
        obtain ⟨p, hp, hwrote⟩ := C.appends_word MSH_NOT_NULL _ _ hs (S.room_of_append hroom)
        obtain ⟨p', hp', hwrote'⟩ := C.appends_word q.mSize _ _ hwrote hroom
        refine ⟨p', ?_, hwrote'⟩
        simp only [write_bind, hp]
        rw [if_pos ⟨harr.1, harr.2, hnull⟩, ha, derefArray_bind (s := { s with parcel := p }) hobj]
        exact write_next (s := { s with parcel := p }) hp' 1
      · next harr =>
        cases hx
        obtain ⟨p, hp, hwrote⟩ := C.appends_word MSH_NOT_NULL _ _ hs hroom
        refine ⟨p, ?_, hwrote⟩
        simp only [write_bind, hp]
        rw [if_neg (fun h => harr ⟨h.1, h.2.1⟩)]
        rfl

/-! ### The stub -/

/-- Outside the words from `i` to `j` of the stack and from `o` to `o'` of the out buffer all is
as before, and the heap has only grown. -/
structure Proc.Frame (s s' : Proc π) (i j o o' : ℕ) : Prop where
  stack : ∀ k, k < i ∨ j ≤ k → s'.stack k = s.stack k
  buffer : ∀ k, k < o ∨ o' ≤ k → s'.outBuffer k = s.outBuffer k
  objs : s.heap.objs <+: s'.heap.objs
  addr : s'.addr = s.addr
  phase : s'.phase = s.phase

theorem Proc.Frame.trans {s s' s'' : Proc π} {i j k o o' o'' : ℕ} (h : s.Frame s' i j o o')
    (h' : s'.Frame s'' j k o' o'') (hij : i ≤ j) (hjk : j ≤ k) (ho : o ≤ o') (ho' : o' ≤ o'') :
    s.Frame s'' i k o o'' where
  stack l hl := by
    rw [h'.stack l (by omega), h.stack l (by omega)]
  buffer l hl := by
    rw [h'.buffer l (by omega), h.buffer l (by omega)]
  objs := h.objs.trans h'.objs
  addr := h'.addr.trans h.addr
  phase := h'.phase.trans h.phase

/-- The stub stores a value that is the same. -/
def ArgVal.Exact : ArgVal → Prop
  | .array none | .interface _ | .struct _ _ => False
  | .array (some q) => q.Plain
  | _ => True

theorem readArg_of {s : Proc π} {n : ℕ} {t : Param} {i : ℕ} {v : ArgVal}
    (h : s.readArg b n t i = some v) : v.Of t := by
  rw [Proc.readArg] at h
  cases ht : t.type <;> simp only [ht] at h
  case uint8 | uint16 | uint32 | uint64 | emuid =>
    cases h
    simp [ArgVal.Of, ht]
  case eguid | string | interface =>
    obtain ⟨_, -, rfl⟩ := Option.map_eq_some_iff.mp h
    exact ht
  case arrayOf =>
    split at h
    · cases h
      exact ht
    · obtain ⟨_, -, rfl⟩ := Option.map_eq_some_iff.mp h
      exact ht
  case struct | pstruct =>
    split at h
    · cases h
      simp [ArgVal.Of, ht]
    · obtain ⟨bs, -, h⟩ := Option.bind_eq_some_iff.mp h
      split at h <;> cases h
      simp [ArgVal.Of, ht]
  all_goals cases h

theorem sent_of {s : Proc π} {n : ℕ} {t : Param} {i : ℕ} {x : Sent}
    (h : s.sent b n t i = some x) : x.Of t := by
  rw [Proc.sent] at h
  split at h
  · next hin =>
    obtain ⟨v, hv, rfl⟩ := Option.map_eq_some_iff.mp h
    exact ⟨hin, readArg_of hv⟩
  · next hin =>
    have hin : t.isIn = false := by simpa using hin
    split at h
    · cases h
      exact hin
    · split at h
      · next harr =>
        obtain ⟨q, -, rfl⟩ := Option.map_eq_some_iff.mp h
        exact ⟨hin, by simp [harr]⟩
      · next harr =>
        cases h
        exact ⟨hin, by simpa using harr⟩

/-- What is left to read after a value. -/
theorem reads_read_bind {α β : Type} {r : Run π Fault α} {ts rest : List τ} {Q : α → Prop}
    {s : Proc π} (hr : S.Reads r ts Q) (hs : S.Left (ts ++ rest) s.parcel) :
    ∃ a p, Q a ∧ S.Left rest p ∧
      ∀ f : α → Marshal π β, (read r >>= f) s = f a { s with parcel := p } := by
  obtain ⟨a, p, ha, hQ, hp⟩ := hr _ _ hs
  exact ⟨a, p, hQ, hp, fun f => read_bind ha f⟩

theorem le_align64 (phase n i : ℕ) : i ≤ b.align64 phase n i := by
  cases b with
  | x86 => exact le_rfl
  | arm => exact Nat.le_add_right _ _
  | mips =>
    rw [Build.align64]
    split <;> omega

theorem lt_nextArg (phase n : ℕ) (t : Param) (i : ℕ) : i < nextArg b phase n t i := by
  have := le_align64 (b := b) phase n i
  rw [nextArg]
  split
  · split <;> omega
  · omega

/-- A step that stores words from `i` to `j` of the stack, and perhaps allocates. -/
theorem frame_of_stored {s : Proc π} {p : π} {i j o : ℕ} {stack : ℕ → Word} {heap : Heap}
    (hstack : ∀ l, l < i ∨ j ≤ l → stack l = s.stack l) (hobjs : s.heap.objs <+: heap.objs) :
    s.Frame { s with parcel := p, stack := stack, heap := heap, args := j } i j o o :=
  ⟨hstack, fun _ _ => rfl, hobjs, rfl, rfl⟩

/-- The arguments that the stub reads back, other than an `EGuid`. -/
theorem unmshInArg_spec {n : ℕ} {t : Param} {s : Proc π} {v : ArgVal} {ts rest : List τ} {o : ℕ}
    (hv : v.Of t) (hne : t.type ≠ .eguid) (hin : t.isIn) (hr : ReadsArg S P ts v)
    (hs : S.Left (ts ++ rest) s.parcel) :
    ∃ s', unmshInArg m b P n t s = .ok (none, s') ∧ S.Left rest s'.parcel ∧
      s'.args = nextArg b s.phase n t s.args ∧ s'.out = s.out ∧
      s.Frame s' s.args s'.args o o ∧
      (v.Exact → ∃ v', s'.readArg b n t s.args = some v' ∧ v'.Same v) := by
  cases v with
  | word v =>
    obtain ⟨_, p, rfl, hp, hrun⟩ := reads_read_bind (β := Option ECode) hr hs
    have hstep : unmshInArg m b P n t s = .ok (none, { s with
        parcel := p, stack := Function.update s.stack s.args (.num v), args := s.args + 1 }) := by
      rcases hv with ht | ht | ht <;>
        simp only [unmshInArg, ht, hrun, failed_NOERROR, Bool.false_eq_true, if_false] <;> rfl
    have hnext : nextArg b s.phase n t s.args = s.args + 1 := by
      rcases hv with ht | ht | ht <;> simp [nextArg, hin, ht]
    refine ⟨_, hstep, hp, hnext.symm, rfl,
      frame_of_stored (fun l hl => Function.update_of_ne (by omega) _ _) List.prefix_rfl,
      fun _ => ⟨.word v, ?_, rfl⟩⟩
    rcases hv with ht | ht | ht <;> simp [Proc.readArg, ht, Proc.bitsAt]
  | dword v =>
    have ht : t.type = .uint64 := hv
    have hle := le_align64 (b := b) s.phase n s.args
    obtain ⟨_, p, rfl, hp, hrun⟩ := reads_read_bind (β := Option ECode)
      (s := { s with args := b.align64 s.phase n s.args }) hr hs
    have hstep : unmshInArg m b P n t s = .ok (none, { s with
        parcel := p
        stack := Function.update (Function.update s.stack (b.align64 s.phase n s.args)
          (.num (lowWord v))) (b.align64 s.phase n s.args + 1) (.num (highWord v))
        args := b.align64 s.phase n s.args + 2 }) := by
      simp only [unmshInArg, ht, align_bind, hrun, failed_NOERROR, Bool.false_eq_true, if_false]
      rfl
    refine ⟨_, hstep, hp, by simp [nextArg, hin, ht], rfl,
      frame_of_stored (fun l hl => ?_) List.prefix_rfl, fun _ => ⟨.dword v, ?_, rfl⟩⟩
    · rw [Function.update_of_ne (by omega), Function.update_of_ne (by omega)]
    · simp [Proc.readArg, ht, Proc.bitsAt]
  | emuid id =>
    have ht : t.type = .emuid := hv
    obtain ⟨_, p, rfl, hp, hrun⟩ := reads_read_bind (β := Option ECode) hr hs
    have hstep : unmshInArg m b P n t s = .ok (none, { s with
        parcel := p
        stack := Function.update (Function.update (Function.update (Function.update s.stack
          s.args (.num id.w0)) (s.args + 1) (.num id.w1)) (s.args + 2) (.num id.w2)) (s.args + 3)
          (.num id.w3)
        args := s.args + 4 }) := by
      simp only [unmshInArg, ht, hrun, failed_NOERROR, Bool.false_eq_true, if_false]
      rfl
    refine ⟨_, hstep, hp, by simp [nextArg, hin, ht], rfl,
      frame_of_stored (fun l hl => ?_) List.prefix_rfl, fun _ => ⟨.emuid id, ?_, rfl⟩⟩
    · rw [Function.update_of_ne (by omega), Function.update_of_ne (by omega),
        Function.update_of_ne (by omega), Function.update_of_ne (by omega)]
    · simp [Proc.readArg, ht, Proc.emuidAt, Proc.bitsAt]
  | eguid id ptr => exact absurd hv hne
  | string str =>
    have ht : t.type = .string := hv
    obtain ⟨_, p, rfl, hp, hrun⟩ := reads_read_bind (β := Option ECode) hr hs
    have hstep : unmshInArg m b P n t s = .ok (none, { s with
        parcel := p
        heap := ⟨s.heap.objs ++ [.string str],
          s.heap.events ++ [.acquire (.obj s.heap.objs.length)]⟩
        stack := Function.update s.stack s.args (.obj s.heap.objs.length)
        args := s.args + 1 }) := by
      simp only [unmshInArg, ht, hrun]
      rfl
    refine ⟨_, hstep, hp, by simp [nextArg, hin, ht], rfl,
      frame_of_stored (fun l hl => Function.update_of_ne (by omega) _ _) (List.prefix_append _ _),
      fun _ => ⟨.string str, ?_, rfl⟩⟩
    simp [Proc.readArg, ht, Heap.string?, Heap.obj?]
  | array q =>
    have ht : t.type = .arrayOf := hv
    have hnext : nextArg b s.phase n t s.args = s.args + 1 := by simp [nextArg, hin, ht]
    cases q with
    | none =>
      obtain ⟨⟨ec, slot⟩, p, hslot, hp, hrun⟩ := reads_read_bind (β := Unit) hr hs
      have hstored : ∃ stack : ℕ → Word, (∀ l, l < s.args ∨ s.args + 1 ≤ l → stack l = s.stack l) ∧
          readArrayArg P s = .ok ((), { s with parcel := p, stack := stack }) := by
        rcases hslot with rfl | rfl
        · exact ⟨s.stack, fun _ _ => rfl, by rw [readArrayArg, hrun]; rfl⟩
        · exact ⟨Function.update s.stack s.args .null,
            fun l hl => Function.update_of_ne (by omega) _ _, by rw [readArrayArg, hrun]; rfl⟩
      obtain ⟨stack, hstack, hrd⟩ := hstored
      refine ⟨{ s with parcel := p, stack := stack, args := s.args + 1 }, ?_, hp, hnext.symm, rfl,
        frame_of_stored hstack List.prefix_rfl, fun h => h.elim⟩
      simp only [unmshInArg, ht]
      rw [Run.bind_ok hrd]
      rfl
    | some q =>
      obtain ⟨⟨ec, slot⟩, p, ⟨q', rfl, hsame⟩, hp, hrun⟩ := reads_read_bind (β := Unit) hr hs
      have hstep : unmshInArg m b P n t s = .ok (none, { s with
          parcel := p
          heap := ⟨s.heap.objs ++ [.array q'],
            s.heap.events ++ [.acquire (.obj s.heap.objs.length)]
              ++ (q'.payload.owned s.heap.objs.length).map .acquire⟩
          stack := Function.update s.stack s.args (.obj s.heap.objs.length)
          args := s.args + 1 }) := by
        simp only [unmshInArg, ht]
        rw [Run.bind_ok (by rw [readArrayArg, hrun]; rfl)]
        rfl
      refine ⟨_, hstep, hp, hnext.symm, rfl,
        frame_of_stored (fun l hl => Function.update_of_ne (by omega) _ _)
          (List.prefix_append _ _), fun h => ⟨.array (some q'), ?_, hsame h⟩⟩
      simp [Proc.readArg, ht, Heap.array?, Heap.obj?]
  | struct bs size => exact hr.elim
  | interface x =>
    have ht : t.type = .interface := hv
    obtain ⟨⟨ec, slot⟩, p, ⟨hec, hstored⟩, hp, hrun⟩ := reads_read_bind (β := ECode) hr hs
    obtain ⟨y, hy⟩ := Option.isSome_iff_exists.mp hstored
    dsimp only at hec hy
    subst hec
    have hread : readInterfaceArg P s = .ok (NOERROR, { s with
        parcel := p
        heap := { s.heap with events := s.heap.events ++ (slot.taken.toList.map .itf).map .acquire }
        stack := Function.update s.stack s.args (.ofInterface y) }) := by
      rw [readInterfaceArg, hrun]
      simp only [acquire_bind, hy]
      rfl
    refine ⟨{ s with
        parcel := p
        heap := { s.heap with events := s.heap.events ++ (slot.taken.toList.map .itf).map .acquire }
        stack := Function.update s.stack s.args (.ofInterface y)
        args := s.args + 1 }, ?_, hp, by simp [nextArg, hin, ht], rfl,
      frame_of_stored (fun l hl => Function.update_of_ne (by omega) _ _) List.prefix_rfl,
      fun h => h.elim⟩
    simp only [unmshInArg, ht]
    rw [Run.bind_ok hread]
    rfl

/-- A slot that was laid out: a pointer that is not null was stored, and words of the slot. -/
theorem frame_of_laid {s : Proc π} {p : π} {o w : ℕ} {ptr : Word} {buffer : ℕ → Word} {heap : Heap}
    (hbuffer : ∀ l, l < o ∨ o + w ≤ l → buffer l = s.outBuffer l)
    (hobjs : s.heap.objs <+: heap.objs) :
    s.Frame { s with
      parcel := p, stack := Function.update s.stack s.args ptr, out := some (o + w)
      outBuffer := buffer, heap := heap } s.args (s.args + 1) o (o + w) :=
  ⟨fun l hl => Function.update_of_ne (by omega) _ _, hbuffer, hobjs, rfl, rfl⟩

/-- The slot of an `[out]` parameter that the caller wants. -/
theorem layOut_spec (C : Codec S P) {t : Param} {s : Proc π} {size : Option UInt32} {w o : ℕ}
    {rest : List τ} (hw : slotWords m t = some w) (ho : s.out = some o)
    (hsize : size.isSome ↔ t.isArray = true ∧ ¬ t.isCallee = true)
    (hs : S.Left (size.elim [] C.word ++ rest) s.parcel) :
    ∃ s', layOut m P t s = .ok (none, s') ∧ S.Left rest s'.parcel ∧ s'.args = s.args ∧
      s'.out = some (o + w) ∧ s.Frame s' s.args (s.args + 1) o (o + w) ∧
      s'.stack s.args ≠ .null := by
  have hnone (harr : ¬ (t.isArray = true ∧ ¬ t.isCallee = true)) : S.Left rest s.parcel := by
    rw [← hsize, Option.not_isSome_iff_eq_none] at harr
    rwa [harr] at hs
  -- with the position of the buffer in place, the cases compute
  obtain ⟨parcel, args, stack, out, buffer, heap, addr, phase⟩ := s
  dsimp only at ho hs hnone
  subst ho
  cases ht : t.type <;> simp only [slotWords, ht, Option.some.injEq, reduceCtorEq] at hw <;>
    subst hw <;> simp only [layOut, ht]
  case puint8 | puint16 | puint32 | puint64 | pemuid | pstruct =>
    exact ⟨_, rfl, hnone (by simp [Param.isArray, ht]), rfl, rfl,
      frame_of_laid (fun _ _ => rfl) List.prefix_rfl, by simp⟩
  case pstring =>
    refine ⟨⟨parcel, args, Function.update stack args (.slot o), some (o + 2),
        Function.update (Function.update buffer o .null) (o + 1) (.num 0), heap, addr, phase⟩,
      rfl, hnone (by simp [Param.isArray, ht]), rfl, rfl,
      frame_of_laid (fun l hl => ?_) List.prefix_rfl, by simp⟩
    rw [Function.update_of_ne (by omega), Function.update_of_ne (by omega)]
  case peguid =>
    exact ⟨⟨parcel, args, Function.update stack args (.slot o), some (o + 25),
        Function.update buffer (o + 4) (.slot (o + 5)), heap, addr, phase⟩,
      rfl, hnone (by simp [Param.isArray, ht]), rfl, rfl,
      frame_of_laid (fun l hl => Function.update_of_ne (by omega) _ _) List.prefix_rfl, by simp⟩
  case pinterface =>
    have hpos : 0 < m.packWords := by cases m <;> decide
    exact ⟨⟨parcel, args, Function.update stack args (.slot o), some (o + m.packWords),
        Function.update buffer o .null, heap, addr, phase⟩, rfl, hnone (by simp [Param.isArray, ht]), rfl, rfl,
      frame_of_laid (fun l hl => Function.update_of_ne (by omega) _ _) List.prefix_rfl, by simp⟩
  case stringBuf | bufferOf | arrayOf =>
    by_cases hcallee : t.isCallee = true
    · simp only [hcallee, not_true_eq_false, if_false]
      exact ⟨⟨parcel, args, Function.update stack args (.slot o), some (o + 1),
          Function.update buffer o .null, heap, addr, phase⟩, rfl, hnone (by simp [hcallee]), rfl, rfl,
        frame_of_laid (fun l hl => Function.update_of_ne (by omega) _ _) List.prefix_rfl, by simp⟩
    · simp only [hcallee, Bool.false_eq_true, not_false_eq_true, if_true]
      obtain ⟨size, rfl⟩ := Option.isSome_iff_exists.mp
        (hsize.mpr ⟨by simp [Param.isArray, ht], hcallee⟩)
      obtain ⟨_, p, rfl, hp, hrun⟩ := reads_read_bind (β := Option ECode)
        (s := ⟨parcel, args, stack, some o, buffer, heap, addr, phase⟩) (C.reads_word size) hs
      rw [hrun]
      exact ⟨⟨p, args, Function.update stack args (.obj heap.objs.length), some (o + 1),
          Function.update buffer o (.obj heap.objs.length),
          ⟨heap.objs ++ [.rawArray size], heap.events ++ [.acquire (.obj heap.objs.length)]
            ++ [.acquire (.buf heap.objs.length)]⟩, addr, phase⟩, rfl, hp, rfl, rfl,
        frame_of_laid (fun l hl => Function.update_of_ne (by omega) _ _)
          (List.prefix_append _ _), by simp⟩

/-- An `[out]` parameter, wanted or not. -/
theorem unmshInOut_spec (C : Codec S P) {t : Param} {s : Proc π} {x : Sent} {o : ℕ}
    {rest : List τ} (hx : x.Of t) (hin : t.isIn = false) (hw : (slotWords m t).isSome)
    (ho : s.out = some o) (hs : S.Left (C.sent x ++ rest) s.parcel) :
    ∃ s', unmshInOut m P t s = .ok (none, s') ∧ S.Left rest s'.parcel ∧ s'.args = s.args + 1 ∧
      s'.out = some (o + x.span m t) ∧ s.Frame s' s.args (s.args + 1) o (o + x.span m t) ∧
      s'.outBuffer o = .num x.tag ∧ (s'.stack s.args = .null ↔ x.tag = MSH_NULL) := by
  obtain ⟨w, hw⟩ := Option.isSome_iff_exists.mp hw
  cases x with
  | value v => exact absurd hx.1 (by simp [hin])
  | unwanted =>
    obtain ⟨_, p, rfl, hp, hrun⟩ := reads_read_bind (β := Option ECode) (C.reads_word MSH_NULL) hs
    obtain ⟨parcel, args, stack, out, buffer, heap, addr, phase⟩ := s
    dsimp only at ho
    subst ho
    have hstep : unmshInOut m P t ⟨parcel, args, stack, some o, buffer, heap, addr, phase⟩
        = .ok (none, ⟨p, args + 1, Function.update stack args .null, some (o + 1),
            Function.update buffer o (.num MSH_NULL), heap, addr, phase⟩) := by
      rw [unmshInOut, Run.get_bind, Run.bind_ok rfl, hrun]
      simp only [MSH_NOT_NULL_ne.symm, if_false, if_true]
      rfl
    refine ⟨_, hstep, hp, rfl, rfl, ⟨fun l hl => ?_, fun l hl => ?_, List.prefix_rfl, rfl, rfl⟩,
      by simp [Sent.tag], by simp [Sent.tag]⟩ <;> simp only [Sent.span] at hl
    · exact Function.update_of_ne (by omega) _ _
    · exact Function.update_of_ne (by omega) _ _
  | wanted size =>
    have hleft : S.Left (C.word MSH_NOT_NULL ++ (size.elim [] C.word ++ rest)) s.parcel := by
      cases size with
      | none => exact hs
      | some n => simpa [Codec.sent] using hs
    obtain ⟨_, p, rfl, hp, hrun⟩ :=
      reads_read_bind (β := Option ECode) (C.reads_word MSH_NOT_NULL) hleft
    obtain ⟨parcel, args, stack, out, buffer, heap, addr, phase⟩ := s
    dsimp only at ho
    subst ho
    obtain ⟨s', hrun', hleft', hargs, hout, hframe, hne⟩ := layOut_spec C (o := o + 1)
      (s := ⟨p, args, stack, some (o + 1), Function.update buffer o (.num MSH_NOT_NULL), heap, addr,
        phase⟩) hw rfl hx.2 hp
    have hspan : o + Sent.span m t (.wanted size) = o + 1 + w := by
      simp [Sent.span, hw]
      omega
    refine ⟨{ s' with args := s'.args + 1 }, ?_, hleft', by simp [hargs], by rw [hspan, ← hout],
      ⟨hframe.stack, fun l hl => ?_, hframe.objs, hframe.addr, hframe.phase⟩, ?_, ?_⟩
    · rw [unmshInOut, Run.get_bind, Run.bind_ok rfl, hrun]
      simp only [if_true]
      rw [Run.bind_ok rfl, Run.bind_ok rfl]
      exact (Run.bind_ok hrun').trans rfl
    · exact (hframe.buffer l (by omega)).trans (Function.update_of_ne (by omega) _ _)
    · exact (hframe.buffer o (by omega)).trans (by simp [Sent.tag])
    · simp only [Sent.tag, MSH_NOT_NULL_ne, iff_false]
      exact hne

/-- What the stub can read back: an `[in]` argument that the parcel carries, other than an
`EGuid`, or a pure `[out]` one of a type that has a slot. -/
def Codec.Accepts (C : Codec S P) (m : Marshaller) (t : Param) : Sent → Prop
  | .value v => t.isOut = false ∧ C.Carries v ∧ t.type ≠ .eguid
  | _ => t.isOut = true ∧ (slotWords m t).isSome

/-- What arrives in the argument `n` at word `i`: the value that the caller `c` passed, or a
null pointer for a null pointer. -/
def Arrived (b : Build) (c s : Proc π) (n : ℕ) (t : Param) (i : ℕ) : Prop :=
  if t.isIn then
    ∀ v, c.readArg b n t i = some v → v.Exact → ∃ v', s.readArg b n t i = some v' ∧ v'.Same v
  else (s.stack i = .null ↔ c.stack i = .null)

theorem sent_tag_eq_null {c : Proc π} {n : ℕ} {t : Param} {i : ℕ} {x : Sent}
    (hx : c.sent b n t i = some x) (hin : t.isIn = false) :
    x.tag = MSH_NULL ↔ c.stack i = .null := by
  rw [Proc.sent, if_neg (by simp [hin])] at hx
  split at hx
  · next hnull =>
    cases hx
    simp [Sent.tag, hnull]
  · next hnull =>
    have hne : ∀ size, (Sent.wanted size).tag ≠ MSH_NULL := fun _ => MSH_NOT_NULL_ne
    split at hx
    · obtain ⟨q, -, rfl⟩ := Option.map_eq_some_iff.mp hx
      simp only [hnull, iff_false]
      exact hne _
    · cases hx
      simp only [hnull, iff_false]
      exact hne _

/-- **A step of the stub** on what the proxy sent about the parameter. -/
theorem unmshInStep_spec (C : Codec S P) {c s : Proc π} {n : ℕ} {t : Param} {x : Sent}
    {rest : List τ} (hx : c.sent b n t s.args = some x) (hok : C.Accepts m t x)
    (ho : t.isOut → s.out.isSome) (hphase : s.phase = c.phase)
    (hs : S.Left (C.sent x ++ rest) s.parcel) :
    ∃ s', unmshInStep m b P n t s = .ok (none, s') ∧ S.Left rest s'.parcel ∧
      s'.args = nextArg b c.phase n t s.args ∧ s'.out = s.out.map (· + x.span m t) ∧
      s.Frame s' s.args s'.args (s.out.getD 0) (s.out.getD 0 + x.span m t) ∧
      Arrived b c s' n t s.args ∧
      (∀ o, s.out = some o → t.isOut → s'.outBuffer o = .num x.tag) := by
  have hof := sent_of hx
  cases x with
  | value v =>
    obtain ⟨hout, hcarries, hne⟩ := hok
    obtain ⟨s', hrun, hleft, hargs, hout', hframe, harr⟩ :=
      unmshInArg_spec (m := m) (b := b) (n := n) (o := s.out.getD 0) hof.2 hne hof.1
        (C.reads_arg v hcarries) hs
    refine ⟨s', ?_, hleft, hphase ▸ hargs, by simp [hout', Sent.span], hframe, ?_, by simp [hout]⟩
    · rw [unmshInStep, if_neg (by simp [hout]), if_pos hof.1]
      exact hrun
    · rw [Arrived, if_pos hof.1]
      intro v' hv' hexact
      have hvv : v' = v := by
        rw [Proc.sent, if_pos hof.1, hv'] at hx
        simpa using hx
      subst hvv
      exact harr hexact
  | wanted _ | unwanted =>
    obtain ⟨hout, hslot⟩ := hok
    have hin : t.isIn = false := by
      first | exact hof | exact hof.1
    obtain ⟨o, ho⟩ := Option.isSome_iff_exists.mp (ho hout)
    obtain ⟨s', hrun, hleft, hargs, hout', hframe, htag, hnull⟩ :=
      unmshInOut_spec C hof hin hslot ho hs
    refine ⟨s', ?_, hleft, by simp [nextArg, hin, hargs], by simp [hout', ho], ?_, ?_, ?_⟩
    · rw [unmshInStep, if_pos hout]
      exact hrun
    · rw [hargs, ho]
      exact hframe
    · rw [Arrived, if_neg (by simp [hin]), hnull]
      exact sent_tag_eq_null hx hin
    · intro o' ho' _
      rw [ho] at ho'
      exact Option.some.inj ho' ▸ htag

/-! ### What later steps leave alone -/

theorem Proc.Frame.obj? {s s' : Proc π} {i j o o' : ℕ} (h : s.Frame s' i j o o') {w : Word}
    {x : Obj} (hw : s.heap.obj? w = some x) : s'.heap.obj? w = some x := by
  obtain ⟨a, rfl, ha⟩ := obj?_eq_some hw
  obtain ⟨l, hl⟩ := h.objs
  obtain ⟨hlt, -⟩ := List.getElem?_eq_some_iff.mp ha
  rw [Heap.obj?, ← hl, List.getElem?_append_left hlt, ha]

theorem Proc.Frame.string? {s s' : Proc π} {i j o o' : ℕ} (h : s.Frame s' i j o o') {w : Word}
    {x : CarString} (hw : s.heap.string? w = some x) : s'.heap.string? w = some x := by
  obtain ⟨a, rfl, ha⟩ := string?_eq_some hw
  rw [Heap.string?, h.obj? (show s.heap.obj? (.obj a) = _ from ha)]

theorem Proc.Frame.array? {s s' : Proc π} {i j o o' : ℕ} (h : s.Frame s' i j o o') {w : Word}
    {x : CarQuintet} (hw : s.heap.array? w = some x) : s'.heap.array? w = some x := by
  obtain ⟨a, rfl, ha⟩ := array?_eq_some hw
  rw [Heap.array?, h.obj? (show s.heap.obj? (.obj a) = _ from ha)]

theorem Proc.Frame.chars? {s s' : Proc π} {i j o o' : ℕ} (h : s.Frame s' i j o o') {w : Word}
    {x : CString} (hw : s.heap.chars? w = some x) : s'.heap.chars? w = some x := by
  obtain ⟨a, rfl, ha⟩ := chars?_eq_some hw
  rw [Heap.chars?, h.obj? (show s.heap.obj? (.obj a) = _ from ha)]

theorem Proc.Frame.block? {s s' : Proc π} {i j o o' : ℕ} (h : s.Frame s' i j o o') {w : Word}
    {x : List UInt8} (hw : s.heap.block? w = some x) : s'.heap.block? w = some x := by
  obtain ⟨a, rfl, ha⟩ := block?_eq_some hw
  rw [Heap.block?, h.obj? (show s.heap.obj? (.obj a) = _ from ha)]

/-- The value of an argument depends on its own words and on what they point to. -/
theorem Proc.Frame.readArg {s s' : Proc π} {i j k o o' n : ℕ} {t : Param} {v : ArgVal}
    (h : s.Frame s' j k o o') (hin : t.isIn) (hj : nextArg b s.phase n t i ≤ j)
    (hv : s.readArg b n t i = some v) : s'.readArg b n t i = some v := by
  have hword {l : ℕ} (hl : l < j) : s'.stack l = s.stack l := h.stack l (Or.inl hl)
  have hbits {l : ℕ} (hl : l < j) : s'.bitsAt l = s.bitsAt l := by
    rw [Proc.bitsAt, Proc.bitsAt, hword hl, h.addr]
  have hlt := lt_nextArg (b := b) s.phase n t i
  have hle := le_align64 (b := b) s.phase n i
  rw [nextArg, if_pos hin] at hj
  rw [Proc.readArg] at hv ⊢
  cases ht : t.type <;> simp only [ht] at hv hj ⊢
  case uint8 | uint16 | uint32 => rw [hbits (by omega), hv]
  case uint64 => rw [h.phase, hbits (by omega), hbits (by omega), hv]
  case emuid =>
    simp only [Proc.emuidAt] at hv ⊢
    rw [hbits (by omega), hbits (by omega), hbits (by omega), hbits (by omega), hv]
  case eguid =>
    obtain ⟨str, hstr, rfl⟩ := Option.map_eq_some_iff.mp hv
    simp only [Proc.emuidAt]
    rw [hword (l := i + 4) (by omega), h.chars? hstr, hbits (by omega), hbits (by omega),
      hbits (by omega), hbits (by omega), hbits (by omega), hbits (by omega)]
    rfl
  case string =>
    obtain ⟨str, hstr, rfl⟩ := Option.map_eq_some_iff.mp hv
    rw [hword (by omega), h.string? hstr]
    rfl
  case arrayOf =>
    rw [hword (by omega)]
    split at hv
    · next hnull => rw [if_pos hnull, hv]
    · next hnull =>
      obtain ⟨q, hq, rfl⟩ := Option.map_eq_some_iff.mp hv
      rw [if_neg hnull, h.array? hq]
      rfl
  case struct | pstruct =>
    rw [hword (by omega)]
    split at hv
    · next hnull => rw [if_pos hnull, hv]
    · next hnull =>
      obtain ⟨bs, hbs, hv⟩ := Option.bind_eq_some_iff.mp hv
      rw [if_neg hnull, h.block? hbs]
      exact hv
  case interface => rw [hword (by omega), hv]
  all_goals cases hv

theorem Proc.Frame.arrived {c s s' : Proc π} {i j k o o' n : ℕ} {t : Param}
    (h : s.Frame s' j k o o') (hj : nextArg b s.phase n t i ≤ j)
    (harr : Arrived b c s n t i) : Arrived b c s' n t i := by
  rw [Arrived] at harr ⊢
  split at harr
  · next hin =>
    rw [if_pos hin]
    intro v hv hexact
    obtain ⟨v', hv', hsame⟩ := harr v hv hexact
    exact ⟨v', h.readArg hin hj hv', hsame⟩
  · next hin =>
    rw [if_neg hin, h.stack i (Or.inl (lt_of_lt_of_le (lt_nextArg s.phase n t i) hj)), harr]

/-! ### Whole requests -/

/-- The arguments from word `i` on, the first with the index `n`, have arrived. -/
def AllArrived (b : Build) (c s : Proc π) : (n : ℕ) → List Param → (i : ℕ) → Prop
  | _, [], _ => True
  | n, t :: ts, i => Arrived b c s n t i ∧ AllArrived b c s (n + 1) ts (nextArg b c.phase n t i)

/-- The null tags in the out buffer from word `o` on. -/
def Laid (m : Marshaller) (b : Build) (c s : Proc π) : (n : ℕ) → List Param → (i o : ℕ) → Prop
  | _, [], _, _ => True
  | n, t :: ts, i, o =>
    (∀ x, c.sent b n t i = some x → t.isOut → s.outBuffer o = .num x.tag) ∧
      Laid m b c s (n + 1) ts (nextArg b c.phase n t i)
        (o + (c.sent b n t i).elim 0 (Sent.span m t))

theorem le_endArg (phase n : ℕ) (params : List Param) (i : ℕ) : i ≤ endArg b phase n params i := by
  induction params generalizing n i with
  | nil => exact le_rfl
  | cons t ts ih => exact (lt_nextArg phase n t i).le.trans (ih _ _)

/-- **The stub reads a request** of the caller `c`. -/
theorem unmshIn_spec (C : Codec S P) (c : Proc π) (params : List Param) :
    ∀ (n i : ℕ) (s : Proc π) (rest : List τ), c.Passes b (C.Accepts m) n params i → s.args = i →
      (∀ t ∈ params, t.isOut → s.out.isSome) → s.phase = c.phase →
      S.Left (C.request b c n params i ++ rest) s.parcel →
      ∃ s', process (unmshInStep m b P) n params s = .ok (NOERROR, s') ∧ S.Left rest s'.parcel ∧
        s'.args = endArg b c.phase n params i ∧
        s'.out = s.out.map (· + c.outSpan b m n params i) ∧
        s.Frame s' i (endArg b c.phase n params i) (s.out.getD 0)
          (s.out.getD 0 + c.outSpan b m n params i) ∧
        AllArrived b c s' n params i ∧
        (∀ o, s.out = some o → Laid m b c s' n params i o) := by
  induction params with
  | nil =>
    rintro n i s rest - rfl - - hs
    exact ⟨s, rfl, by simpa [Codec.request] using hs, rfl, by simp [Proc.outSpan],
      ⟨fun _ _ => rfl, fun _ _ => rfl, List.prefix_rfl, rfl, rfl⟩, trivial, fun _ _ => trivial⟩
  | cons t ts ih =>
    rintro n i s rest ⟨⟨x, hx, hok⟩, hrest⟩ rfl ho hphase hs
    rw [Codec.request, hx, Option.elim_some, List.append_assoc] at hs
    obtain ⟨s', hrun, hleft, hargs, hout, hframe, harr, htag⟩ :=
      unmshInStep_spec C hx hok (ho t List.mem_cons_self) hphase hs
    have hphase' : s'.phase = c.phase := hframe.phase.trans hphase
    obtain ⟨s'', hrun', hleft', hargs', hout', hframe', harr', hlaid⟩ :=
      ih (n + 1) _ s' rest hrest hargs
        (fun t' ht' hout' => by simpa [hout] using ho t' (List.mem_cons_of_mem _ ht') hout')
        hphase' hleft
    have hspan : s'.out.getD 0 = s.out.getD 0 + x.span m t := by
      cases hs0 : s.out with
      | some o => simp [hout, hs0]
      | none =>
        cases x with
        | value v => simp [hout, hs0, Sent.span]
        | wanted _ | unwanted => exact absurd (ho t List.mem_cons_self hok.1) (by simp [hs0])
    have hsum : c.outSpan b m n (t :: ts) s.args
        = x.span m t + c.outSpan b m (n + 1) ts (nextArg b c.phase n t s.args) := by
      simp [Proc.outSpan, hx]
    have hlt := lt_nextArg (b := b) c.phase n t s.args
    have hle := le_endArg (b := b) c.phase (n + 1) ts (nextArg b c.phase n t s.args)
    rw [hspan] at hframe'
    rw [hargs] at hframe
    refine ⟨s'', ?_, hleft', hargs', ?_, ?_, ⟨?_, harr'⟩, fun o ho' => ⟨fun y hy hisOut => ?_, ?_⟩⟩
    · rw [process, Run.bind_ok hrun]
      exact hrun'
    · rw [hout', hout, Option.map_map, hsum]
      congr 1
      funext o
      exact Nat.add_assoc _ _ _
    · rw [hsum, ← Nat.add_assoc]
      exact hframe.trans hframe' hlt.le hle (Nat.le_add_right _ _) (Nat.le_add_right _ _)
    · exact hframe'.arrived (by rw [hphase']) harr
    · rw [hx] at hy
      cases hy
      have hgt : o < s.out.getD 0 + x.span m t := by
        rw [ho', Option.getD_some]
        cases x with
        | value v => exact absurd hisOut (by simp [hok.1])
        | wanted _ | unwanted => simp [Sent.span]
      rw [hframe'.buffer o (Or.inl hgt)]
      exact htag o ho' hisOut
    · rw [hx, Option.elim_some]
      exact hlaid _ (by rw [hout, ho', Option.map_some])

/-- **The proxy sends its request**: for every parameter what there is to tell about it, from the
words that `argSlots` gives. -/
theorem mshIn_spec (C : Codec S P) {ok : Param → Sent → Prop}
    (hw : ∀ t v, ok t (.value v) → WritesArg S P (C.arg v) v)
    (hm : ∀ t bs k, ok t (.value (.struct (some bs) k)) → m = .rpc) (c : Proc π)
    (params : List Param) :
    ∀ (n i : ℕ) (p : π) (ss : List τ), c.Passes b ok n params i → S.Wrote ss p →
      S.Room (ss ++ C.request b c n params i) →
      ∃ p', process (mshInStep m b P) n params { c with parcel := p, args := i }
          = .ok (NOERROR, { c with parcel := p', args := endArg b c.phase n params i }) ∧
        (visits (mshInStep m b P) n params { c with parcel := p, args := i }).map Proc.args
          = argSlots b c.phase n params i ∧
        S.Wrote (ss ++ C.request b c n params i) p' := by
  induction params with
  | nil =>
    intro n i p ss _ hs _
    exact ⟨p, rfl, rfl, by simpa [Codec.request] using hs⟩
  | cons t ts ih =>
    rintro n i p ss ⟨⟨x, hx, hok⟩, hrest⟩ hs hroom
    rw [Codec.request, hx, Option.elim_some, ← List.append_assoc] at hroom ⊢
    obtain ⟨p', hp', hwrote⟩ := mshInStep_spec (m := m) (s := { c with parcel := p, args := i }) C hx
      (fun v hv => hw t v (hv ▸ hok)) (fun bs k hv => hm t bs k (hv ▸ hok)) hs
      (S.room_of_append hroom)
    obtain ⟨p'', hp'', hvisits, hwrote'⟩ :=
      ih (n + 1) (nextArg b c.phase n t i) p' _ hrest hwrote hroom
    refine ⟨p'', by rw [process, Run.bind_ok hp']; exact hp'', ?_, hwrote'⟩
    rw [visits, hp', List.map_cons, argSlots]
    exact congrArg (i :: ·) hvisits

theorem allArrived_iff {c s : Proc π} {n : ℕ} {params : List Param} {i : ℕ} :
    AllArrived b c s n params i ↔
      ∀ (k : ℕ) (t : Param) (j : ℕ), params[k]? = some t →
        (argSlots b c.phase n params i)[k]? = some j → Arrived b c s (n + k) t j := by
  induction params generalizing n i with
  | nil => simp [AllArrived]
  | cons t ts ih =>
    rw [AllArrived, ih]
    constructor
    · rintro ⟨h0, h⟩ k t' j ht hj
      cases k with
      | zero =>
        cases ht
        cases hj
        exact h0
      | succ k =>
        have := h k t' j ht hj
        rwa [Nat.add_assoc, Nat.add_comm 1 k] at this
    · intro h
      refine ⟨h 0 t i rfl rfl, fun k t' j ht hj => ?_⟩
      have := h (k + 1) t' j ht hj
      rwa [← Nat.add_assoc, Nat.add_right_comm] at this

theorem length_argSlots (phase n : ℕ) (params : List Param) (i : ℕ) :
    (argSlots b phase n params i).length = params.length := by
  induction params generalizing n i with
  | nil => rfl
  | cons t ts ih => rw [argSlots, List.length_cons, ih, List.length_cons]

end

end ElastosCar
