import ElastosCar.Marshal.Rpc

/-!
# The way in and back

What the caller passes arrives at the stub, and what the method stores arrives at the caller.
-/

namespace ElastosCar

open CRemoteParcel Marshal

/-! ### In -/

/-- The arguments that are delivered: numbers, ids, strings and arrays that are not null and
have no interfaces in them, and pure `[out]` pointers of the types that have a slot. -/
def Deliverable (t : Param) : Sent → Prop
  | .value (.word _) | .value (.dword _) | .value (.emuid _) | .value (.string _) =>
    t.isOut = false
  | .value (.array (some q)) => t.isOut = false ∧ q.Plain
  | .value _ => False
  | .wanted _ | .unwanted => t.isOut = true ∧ (slotWords .rpc t).isSome

/-- The argument `n` at word `i` has been delivered from `c` to `s`: the value is the same, or
the pointer is null on both sides or on none. -/
def Proc.Delivered {π : Type} (b : Build) (c s : Proc π) (n : ℕ) (t : Param) (i : ℕ) : Prop :=
  if t.isIn then ∃ v v', c.readArg b n t i = some v ∧ s.readArg b n t i = some v' ∧ v'.Same v
  else (s.stack i = .null ↔ c.stack i = .null)

theorem Deliverable.exact {t : Param} {v : ArgVal} (h : Deliverable t (.value v)) :
    t.isOut = false ∧ v.Exact := by
  cases v with
  | word _ | dword _ | emuid _ | string _ => exact ⟨h, trivial⟩
  | array q =>
    cases q with
    | none => exact h.elim
    | some q => exact h
  | eguid _ _ | struct _ _ | interface _ => exact h.elim

theorem Deliverable.accepts {E : RpcEnv} (henv : E.alloc.Succeeds) (body : Itf → List UInt8)
    {t : Param} {x : Sent} (h : Deliverable t x) (hof : x.Of t) :
    (rpcCodec E henv body).Accepts .rpc t x := by
  cases x with
  | wanted _ | unwanted => exact h
  | value v =>
    refine ⟨h.exact.1, ?_, ?_⟩
    · cases v with
      | word _ | dword _ | emuid _ | string _ => trivial
      | array q =>
        cases q with
        | none => exact h.elim
        | some q =>
          intro xs hxs
          have hfits := q.fits
          rw [hxs] at hfits
          exact absurd hfits.1 h.2
      | eguid _ _ | struct _ _ | interface _ => exact h.elim
    · cases v with
      | word _ => rcases hof.2 with ht | ht | ht <;> simp [ht]
      | dword _ | emuid _ | string _ | array _ => rw [show t.type = _ from hof.2]; decide
      | eguid _ _ | struct _ _ | interface _ => exact h.elim

/-- What passes one test passes a weaker one. -/
theorem Proc.Passes.mono {π : Type} {b : Build} {c : Proc π} {ok ok' : Param → Sent → Prop}
    (hok : ∀ t x, x.Of t → ok t x → ok' t x) {params : List Param} {n i : ℕ}
    (h : c.Passes b ok n params i) : c.Passes b ok' n params i := by
  induction params generalizing n i with
  | nil => trivial
  | cons t ts ih =>
    obtain ⟨⟨x, hx, hx'⟩, hrest⟩ := h
    exact ⟨⟨x, hx, hok t x (sent_of hx) hx'⟩, ih hrest⟩

theorem Proc.Passes.getElem? {π : Type} {b : Build} {c : Proc π} {ok : Param → Sent → Prop}
    {params : List Param} {n i k j : ℕ} {t : Param} (h : c.Passes b ok n params i)
    (ht : params[k]? = some t) (hj : (argSlots b c.phase n params i)[k]? = some j) :
    ∃ x, c.sent b (n + k) t j = some x ∧ ok t x := by
  induction params generalizing n i k with
  | nil => simp at ht
  | cons u us ih =>
    cases k with
    | zero =>
      cases ht
      cases hj
      exact h.1
    | succ k =>
      obtain ⟨x, hx, hok⟩ := ih h.2 ht hj
      exact ⟨x, by rwa [← Nat.add_assoc, Nat.add_right_comm], hok⟩

/-- A parcel with nothing left is at its end. -/
theorem CRemoteParcel.Holds.pos_eq_dataSize {p : CRemoteParcel}
    (h : Holds p []) : p.mDataPos = p.dataSize := by
  have hpos : p.mDataPos = p.mDataSize := UInt32.toNat_inj.mp h.size
  simp [dataSize, hpos]

/-- **The in-argument round trip.** A request written to an empty parcel of linux_rpc and read
by the stub, on a stack with the same alignment, puts every `[in]` argument at the word that
the proxy read it from, gives an `[out]` argument a null pointer exactly for a null pointer,
and leaves nothing in the parcel. -/
theorem stubProcessUnmshIn_proxyProcessMshIn (E : RpcEnv) (henv : E.alloc.Succeeds) (b : Build)
    (params : List Param) (c s : Proc CRemoteParcel) (hargs : c.Passes b Deliverable 0 params 0)
    (hlt : ((rpcCodec E henv fun _ => []).request b c 0 params 0).length < 2 ^ 30)
    (hphase : s.phase = c.phase) (hout : ∀ t ∈ params, t.isOut → s.out.isSome) :
    ∃ c' s' : Proc CRemoteParcel,
      proxyProcessMshIn .rpc b (rpcParcel E) params { c with parcel := {}, args := 0 }
        = .ok (NOERROR, c') ∧
      stubProcessUnmshIn .rpc b (rpcParcel E) params
          { s with parcel := c'.parcel.setDataPosition 0, args := 0 } = .ok (NOERROR, s') ∧
      (∀ (n : ℕ) (t : Param), params[n]? = some t → ∃ v : Proc CRemoteParcel,
        (visits (mshInStep .rpc b (rpcParcel E)) 0 params { c with parcel := {}, args := 0 })[n]?
            = some v ∧
          Proc.Delivered b c s' n t v.args) ∧
      s'.parcel.mDataPos = s'.parcel.dataSize := by
  let C := rpcCodec E henv fun _ => []
  have haccepts : c.Passes b (C.Accepts .rpc) 0 params 0 :=
    hargs.mono fun t x hof h => h.accepts henv _ hof
  obtain ⟨p, hrun, hvisits, hready, hcontents⟩ := mshIn_spec (m := .rpc) (b := b) C
    (fun t v (h : C.Accepts .rpc t (.value v)) => C.writes_arg v h.2.1) (fun _ _ _ _ => rfl) c params
    0 0 {} [] haccepts ⟨ready_new, rfl⟩ hlt
  rw [List.nil_append] at hcontents
  have hleft : Holds (p.setDataPosition 0) (C.request b c 0 params 0 ++ []) := by
    rw [List.append_nil, ← hcontents]
    refine holds_contents ?_
    rw [← length_contents, hcontents]
    exact hlt
  obtain ⟨s', hrun', hend, -, -, -, harrived, -⟩ := unmshIn_spec (m := .rpc) (b := b) C c params 0 0
    (Proc.skipHeader { s with parcel := p.setDataPosition 0, args := 0 }) [] haccepts rfl
    (fun t ht ho => by simpa [Proc.skipHeader] using hout t ht ho) hphase hleft
  refine ⟨_, s', hrun, hrun', fun n t ht => ?_, hend.pos_eq_dataSize⟩
  obtain ⟨j, hj⟩ : ∃ j, (argSlots b c.phase 0 params 0)[n]? = some j := by
    obtain ⟨hlt, -⟩ := List.getElem?_eq_some_iff.mp ht
    rw [← length_argSlots (b := b) c.phase 0 params 0] at hlt
    exact ⟨_, List.getElem?_eq_getElem hlt⟩
  have hvisit := hj
  rw [← hvisits, List.getElem?_map] at hvisit
  obtain ⟨v, hv, rfl⟩ := Option.map_eq_some_iff.mp hvisit
  refine ⟨v, hv, ?_⟩
  have harr := allArrived_iff.mp harrived n t v.args ht hj
  obtain ⟨x, hx, hok⟩ := hargs.getElem? ht hj
  rw [Nat.zero_add] at harr hx
  rw [Proc.Delivered]
  rw [Arrived] at harr
  split
  · next hin =>
    rw [if_pos hin] at harr
    rw [Proc.sent, if_pos hin] at hx
    obtain ⟨w, hw, rfl⟩ := Option.map_eq_some_iff.mp hx
    obtain ⟨w', hw', hsame⟩ := harr w hw hok.exact.2
    exact ⟨w, w', hw, hw', hsame⟩
  · next hin =>
    rwa [if_neg hin] at harr

/-- A runtime without interfaces. -/
def noInterfaces : Interfaces where
  marshal _ := ⟨E_FAIL, List.replicate 28 0, rfl⟩
  netAddress _ := none
  elementPack _ := ⟨List.replicate 28 0, rfl⟩
  writeToParcel _ := id
  unmarshal _ _ := pure (.error E_FAIL)
  unmarshalPtr _ := pure (.error E_FAIL)

/-- Memory is granted and cleared. -/
def plainEnv : RpcEnv where
  alloc := .zeros
  itfs := noInterfaces
  junk _ := ⟨0, 0, 0, ⟨0, 0, 0, 0⟩⟩
  arrayJunk _ := ⟨0, [], [], 0⟩

/-- A 64-bit number, a string, a number to be returned, and an array of two strings. -/
def mixedParams : List Param :=
  [{ type := .uint64, isIn := true }, { type := .string, isIn := true },
    { type := .puint32, isOut := true }, { type := .arrayOf, isIn := true }]

/-- The array: a string and a null string. -/
def mixedArray : CarQuintet :=
  ⟨Type_String, 0, 16, 16, 0, .strings [some ⟨[0x61], zero_notMem_a⟩, none], by decide⟩

/-- Its caller, on a stack that starts four bytes after a multiple of eight. -/
def mixedCaller : Proc CRemoteParcel where
  parcel := {}
  args := 0
  stack i := if i < 3 then .num 7 else .obj (i - 3)
  out := none
  outBuffer _ := .null
  heap := { objs := [.string (some ⟨[0x62, 0x63], by decide⟩), .word .null, .array mixedArray] }
  addr _ := 0
  phase := 1

theorem mixedCaller_passes : mixedCaller.Passes .arm Deliverable 0 mixedParams 0 :=
  ⟨⟨_, rfl, rfl⟩, ⟨_, rfl, rfl⟩, ⟨_, rfl, rfl, rfl⟩, ⟨_, rfl, rfl,
    (by decide : mixedArray.type ≠ Type_IObject)⟩, trivial⟩

theorem stubProcessUnmshIn_proxyProcessMshIn_mixed :
    ∃ c' s' : Proc CRemoteParcel,
      proxyProcessMshIn .rpc .arm (rpcParcel plainEnv) mixedParams
          { mixedCaller with parcel := {}, args := 0 } = .ok (NOERROR, c') ∧
      stubProcessUnmshIn .rpc .arm (rpcParcel plainEnv) mixedParams
          { mixedCaller with parcel := c'.parcel.setDataPosition 0, args := 0, out := some 0 }
        = .ok (NOERROR, s') ∧
      (∀ (n : ℕ) (t : Param), mixedParams[n]? = some t → ∃ v : Proc CRemoteParcel,
        (visits (mshInStep .rpc .arm (rpcParcel plainEnv)) 0 mixedParams
            { mixedCaller with parcel := {}, args := 0 })[n]? = some v ∧
          Proc.Delivered .arm mixedCaller s' n t v.args) ∧
      s'.parcel.mDataPos = s'.parcel.dataSize :=
  stubProcessUnmshIn_proxyProcessMshIn plainEnv Allocator.zeros_succeeds .arm mixedParams mixedCaller
    { mixedCaller with out := some 0 } mixedCaller_passes (by decide) rfl (fun _ _ _ => rfl)

end ElastosCar
