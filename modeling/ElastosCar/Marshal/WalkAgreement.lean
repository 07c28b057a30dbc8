import ElastosCar.Marshal.Results
import ElastosCar.Marshal.Strides

/-!
# The walks of a call

The five functions of linux_rpc walk the same arguments, each on its own. They agree on a signature
when they come to a parameter at one word, when the stub stores a parameter in the words before the
next one, and when it decodes for each parameter what the proxy has encoded for it.

They do if and only if no `[in]` parameter is a struct or `[in, out]`, and behind an `[in]` `EGuid`
there is no parameter: the proxy steps over an `EGuid` as six words, the functions of the results as
five, and the stub as seven or more.
-/

namespace ElastosCar

open CRemoteParcel Marshal

/-! ### Agreement -/

/-- The types that `Proxy_ProcessMsh_In` encodes. -/
def Param.Encoded (t : Param) : Prop :=
  t.type = .uint8 ∨ t.type = .uint16 ∨ t.type = .uint32 ∨ t.type = .uint64 ∨ t.type = .struct ∨
    t.type = .pstruct ∨ t.type = .emuid ∨ t.type = .eguid ∨ t.type = .arrayOf ∨ t.type = .string ∨
      t.type = .interface

/-- An `[in]` parameter of a type that the proxy encodes, or an `[out]` one of a type that the stub
lays out, or both. -/
structure Param.Marshalled (t : Param) : Prop where
  encoded : t.isIn = true → t.Encoded
  laidOut : t.isOut = true → (slotWords .rpc t).isSome
  direction : t.isIn = true ∨ t.isOut = true

section

variable (E : RpcEnv) (henv : E.alloc.Succeeds) (body : Itf → List UInt8) (b : Build) (phase : ℕ)
  (params : List Param)

/-- One of the five functions, on a stack that starts `phase` words after a multiple of eight, comes
to the parameter `n` at word `i`. -/
inductive ComesTo (n i : ℕ) : Prop
  | bufferSize (rawLen : Word → UInt32) (s : Proc Sizes) (hphase : s.phase = phase) :
    ((visits (bufferSizeStep .rpc b rawLen) 0 params { s with args := 0 }).map Proc.args)[n]?
      = some i → ComesTo n i
  | mshIn (s : Proc CRemoteParcel) (hphase : s.phase = phase) :
    ((visits (mshInStep .rpc b (rpcParcel E)) 0 params { s with args := 0 }).map Proc.args)[n]?
      = some i → ComesTo n i
  | unmshIn (s : Proc CRemoteParcel) (hphase : s.phase = phase) :
    ((visits (unmshInStep .rpc b (rpcParcel E)) 0 params { s with args := 0 }).map Proc.args)[n]?
      = some i → ComesTo n i
  | mshOut (onlyReleaseIn : Bool) (s : Proc CRemoteParcel) (hphase : s.phase = phase) :
    ((visits (mshOutStep .rpc b (rpcParcel E) onlyReleaseIn) 0 params { s with args := 0 }).map
      Proc.args)[n]? = some i → ComesTo n i
  | unmshOut (s : Proc CRemoteParcel) (hphase : s.phase = phase) :
    ((visits (unmshOutStep b (rpcParcel E)) 0 params { s with args := 0 }).map Proc.args)[n]?
      = some i → ComesTo n i

/-- What a caller can pass: interfaces that can be marshalled, and structs of their size. -/
def RpcSends (itfs : Interfaces) (body : Itf → List UInt8) : Sent → Prop
  | .value (.array (some q)) => LawfulArray itfs body q
  | .value (.interface x) => ∀ y, x = some y → itfs.Lawful y (body y)
  | .value (.struct (some bs) size) => size = sizeOf32 bs
  | _ => True

/-- A caller `c` with its arguments on the stack, and the stub `s` that will read its request, which
is shorter than `2 ^ 30` bytes. -/
structure InCall (c s : Proc CRemoteParcel) : Prop where
  passes : c.Passes b (fun _ x => RpcSends E.itfs body x) 0 params 0
  room : ((rpcCodec E henv body).request b c 0 params 0).length < 2 ^ 30
  phase : s.phase = c.phase
  out : ∀ t ∈ params, t.isOut → s.out.isSome

/-- The proxy and the stub side by side, over the parameters from index `n` on: what the one encodes
for a parameter the other decodes, and leaves nothing of it. -/
def Decodes : (n : ℕ) → List Param → (c s : Proc CRemoteParcel) → Prop
  | _, [], _, s => s.parcel.Holds []
  | n, t :: ts, c, s => ∃ c' s' bytes rest,
    mshInStep .rpc b (rpcParcel E) n t c = .ok (none, c') ∧
      unmshInStep .rpc b (rpcParcel E) n t s = .ok (none, s') ∧
      c'.parcel.contents = c.parcel.contents ++ bytes ∧ s.parcel.Holds (bytes ++ rest) ∧
      s'.parcel.Holds rest ∧ Decodes (n + 1) ts c' s'

/-- The walks over the arguments agree. -/
structure WalksAgree : Prop where
  same : ∀ n i j, ComesTo E b phase params n i → ComesTo E b phase params n j → i = j
  inside : ∀ n t (s s' : Proc CRemoteParcel), t ∈ params →
    unmshInStep .rpc b (rpcParcel E) n t s = .ok (none, s') →
      ∀ k, s'.stack k ≠ s.stack k → s.args ≤ k ∧ k < s'.args
  decoded : ∀ c s, c.phase = phase → InCall E henv body b params c s →
    ∃ c', proxyProcessMshIn .rpc b (rpcParcel E) params { c with parcel := {}, args := 0 }
        = .ok (NOERROR, c') ∧
      Decodes E b 0 params { c with parcel := {}, args := 0 }
        (Proc.skipHeader { s with parcel := c'.parcel.setDataPosition 0, args := 0 })

end

/-- No `[in]` parameter is a struct or `[in, out]`, and no parameter is behind an `[in]` `EGuid`. -/
structure Walkable (params : List Param) : Prop where
  decodable : ∀ t ∈ params, t.isIn = true → t.isOut = false ∧ t.type ≠ .struct ∧ t.type ≠ .pstruct
  eguid : ∀ t ∈ params.dropLast, t.isIn = true → t.type ≠ .eguid

/-! ### Where the strides agree -/

section

variable {b : Build} {phase n i j : ℕ} {t : Param}

theorem sizeArg_eq_nextArg (hne : t.isIn = true → t.type ≠ .eguid) :
    sizeArg b phase n t i = nextArg b phase n t i := by
  rw [sizeArg, nextArg]
  by_cases hin : t.isIn = true
  · rw [if_pos hin, if_pos hin]
    cases ht : t.type <;> first | rfl | exact absurd ht (hne hin)
  · rw [if_neg hin, if_neg hin]

theorem skipArg_eq_nextArg (hne : t.isIn = true → t.type ≠ .eguid)
    (hout : t.isIn = true → t.isOut = false) (hdir : t.isIn = true ∨ t.isOut = true) :
    skipArg b phase n t i = nextArg b phase n t i := by
  rw [skipArg, nextArg]
  by_cases hin : t.isIn = true
  · rw [if_pos hin, if_neg (by simp [hout hin])]
    cases ht : t.type <;> first | rfl | exact absurd ht (hne hin)
  · rw [if_neg hin, if_pos (hdir.resolve_left hin)]

theorem eq_nextArg_of_stubArg (hne : t.isIn = true → t.type ≠ .eguid)
    (hout : t.isIn = true → t.isOut = false) (hdir : t.isIn = true ∨ t.isOut = true)
    (h : StubArg b n t phase i j) : j = nextArg b phase n t i := by
  rw [StubArg] at h
  by_cases hin : t.isIn = true
  · rwa [if_neg (by simp [hout hin]), if_neg (hne hin)] at h
  · rw [if_pos (hdir.resolve_left hin)] at h
    rwa [nextArg, if_neg hin]

end

/-! ### Where the walks agree -/

section

variable {E : RpcEnv} {henv : E.alloc.Succeeds} {body : Itf → List UInt8} {b : Build} {phase : ℕ}
  {params : List Param}

/-- What is known of a parameter that is not the last. -/
theorem Walkable.of_getElem? (h : Walkable params) {k : ℕ} {t : Param} (ht : params[k]? = some t)
    (hk : k + 1 < params.length) : t.isIn = true → t.type ≠ .eguid := by
  refine h.eguid t (List.mem_iff_getElem?.mpr ⟨k, ?_⟩)
  rw [List.getElem?_dropLast, if_pos (by omega), ht]

/-- **Every function** comes to the parameters where the arguments are. -/
theorem ComesTo.getElem? (hparams : ∀ t ∈ params, t.Marshalled) (h : Walkable params) {n i : ℕ}
    (hi : ComesTo E b phase params n i) : (argSlots b phase 0 params 0)[n]? = some i := by
  have hdir {k : ℕ} {t : Param} (ht : params[k]? = some t) :=
    (hparams t (List.mem_of_getElem? ht)).direction
  have hout {k : ℕ} {t : Param} (ht : params[k]? = some t) (hin : t.isIn = true) :=
    (h.decodable t (List.mem_of_getElem? ht) hin).1
  have hskip {k : ℕ} {t : Param} (ht : params[k]? = some t) (hk : k + 1 < params.length)
      (phase i : ℕ) : skipArg b phase k t i = nextArg b phase k t i :=
    skipArg_eq_nextArg (h.of_getElem? ht hk) (hout ht) (hdir ht)
  cases hi with
  | bufferSize rawLen s hphase hi =>
    subst hphase
    exact getElem?_argSlots (fun k t ht hk => (walks_bufferSizeStep rawLen k t).mono
      fun _ _ _ heq => heq.trans (sizeArg_eq_nextArg (h.of_getElem? ht hk))) hi
  | mshIn s hphase hi =>
    subst hphase
    exact getElem?_argSlots (fun k t _ _ => walks_mshInStep k t) hi
  | unmshIn s hphase hi =>
    subst hphase
    exact getElem?_argSlots (fun k t ht hk => (walks_unmshInStep k t).mono fun _ _ _ hstub =>
      eq_nextArg_of_stubArg (h.of_getElem? ht hk) (hout ht) (hdir ht) hstub) hi
  | mshOut onlyReleaseIn s hphase hi =>
    subst hphase
    exact getElem?_argSlots (fun k t ht hk => (walks_mshOutStep onlyReleaseIn k t).mono
      fun _ _ _ heq => heq.trans (hskip ht hk _ _)) hi
  | unmshOut s hphase hi =>
    subst hphase
    exact getElem?_argSlots (fun k t ht hk => (walks_unmshOutStep k t).mono fun _ _ _ heq =>
      heq.trans (hskip ht hk _ _)) hi

/-- The stub stores a parameter in the words before the next one. -/
theorem inside_of_unmshInStep {n : ℕ} {t : Param} {s s' : Proc CRemoteParcel}
    (hs : unmshInStep .rpc b (rpcParcel E) n t s = .ok (none, s')) {k : ℕ}
    (hk : s'.stack k ≠ s.stack k) : s.args ≤ k ∧ k < s'.args := by
  obtain ⟨-, -, hstack⟩ := walks_unmshInStep n t s s' hs
  by_contra hout
  exact hk (hstack k (by omega))

/-- The proxy writes what a caller can pass. -/
theorem writesArg_of_sends {v : ArgVal} (hv : RpcSends E.itfs body (.value v)) :
    WritesArg rpcStream (rpcParcel E) ((rpcCodec E henv body).arg v) v := by
  cases v with
  | struct bs size =>
    cases bs with
    | none => exact appends_of_appends (appends_writeInt32 henv MSH_NULL)
    | some bs =>
      have hsize : size = sizeOf32 bs := hv
      subst hsize
      exact appends_of_appends (appends_writeStruct henv bs)
  | array q =>
    cases q with
    | none => exact (rpcCodec E henv body).writes_arg (.array none) trivial
    | some q => exact (rpcCodec E henv body).writes_arg (.array (some q)) hv
  | interface x => exact (rpcCodec E henv body).writes_arg (.interface x) hv
  | word v => exact (rpcCodec E henv body).writes_arg (.word v) trivial
  | dword v => exact (rpcCodec E henv body).writes_arg (.dword v) trivial
  | emuid id => exact (rpcCodec E henv body).writes_arg (.emuid id) trivial
  | eguid id ptr => exact (rpcCodec E henv body).writes_arg (.eguid id ptr) trivial
  | string str => exact (rpcCodec E henv body).writes_arg (.string str) trivial

/-- What a caller can pass, other than a struct, the parcel carries. -/
theorem carries_of_sends {v : ArgVal} (hv : RpcSends E.itfs body (.value v))
    (hstruct : ∀ bs size, v ≠ .struct bs size) : (rpcCodec E henv body).Carries v := by
  cases v with
  | struct bs size => exact absurd rfl (hstruct bs size)
  | array q =>
    cases q with
    | none => trivial
    | some q => exact hv
  | interface x => exact hv
  | word v | dword v | emuid id | eguid id ptr | string str => trivial

/-- **An `EGuid`** is decoded, too. -/
theorem unmshInStep_eguid {π τ : Type} {S : Stream π τ} {P : IParcel π} {m : Marshaller} {n : ℕ}
    {t : Param} {s : Proc π} {id : EGuid} {ptr : UInt32} {ts rest : List τ} (ht : t.type = .eguid)
    (hin : t.isIn = true) (hout : t.isOut = false) (hr : ReadsArg S P ts (.eguid id ptr))
    (hs : S.Left (ts ++ rest) s.parcel) :
    ∃ s', unmshInStep m b P n t s = .ok (none, s') ∧ S.Left rest s'.parcel ∧
      s'.out = s.out ∧ s'.outBuffer = s.outBuffer := by
  obtain ⟨_, p, rfl, hp, hrun⟩ := reads_read_bind (β := Unit) hr hs
  let s₁ : Proc π := { s with
    parcel := p
    heap := ⟨s.heap.objs ++ [.chars id.mUunm],
      s.heap.events ++ [.acquire (.obj s.heap.objs.length)]⟩
    stack := Function.update (Function.update (Function.update (Function.update (Function.update
      (Function.update s.stack s.args (.num id.mClsid.w0)) (s.args + 1) (.num id.mClsid.w1))
        (s.args + 2) (.num id.mClsid.w2)) (s.args + 3) (.num id.mClsid.w3)) (s.args + 4)
          (.obj s.heap.objs.length)) (s.args + 5) (.num id.mCarcode) }
  have hread : readEGuidArg P s = .ok ((), s₁) := by
    rw [readEGuidArg, hrun]
    rfl
  have hname : s₁.stack (s₁.args + 4) = .obj s.heap.objs.length := by
    change Function.update _ (s.args + 5) _ (s.args + 4) = _
    rw [Function.update_of_ne (by omega), Function.update_self]
  have hobj : s₁.heap.objs[s.heap.objs.length]? = some (.chars id.mUunm) := by
    change (s.heap.objs ++ [Obj.chars id.mUunm])[s.heap.objs.length]? = _
    rw [List.getElem?_append_right le_rfl, Nat.sub_self]
    rfl
  refine ⟨{ s₁ with args := s₁.args + (24 + pad4 (id.mUunm.chars.length + 1)) / 4 }, ?_, hp, rfl,
    rfl⟩
  rw [unmshInStep, if_neg (by simp [hout]), if_pos hin]
  simp only [unmshInArg, ht]
  rw [Run.bind_ok hread, arg_bind, hname, derefChars_bind hobj]
  rfl

/-- What was sent about an argument that is not a struct is no struct. -/
theorem ne_struct_of_sent {c : Proc CRemoteParcel} {n : ℕ} {t : Param} {i : ℕ} {v : ArgVal}
    (hx : c.sent b n t i = some (.value v)) (hne : t.type ≠ .struct) (hne' : t.type ≠ .pstruct)
    (bs : Option (List UInt8)) (size : UInt32) : v ≠ .struct bs size := by
  rintro rfl
  rcases (sent_of hx).2 with h | h
  · exact hne h
  · exact hne' h

/-- **The stub decodes a request** of the caller `c`. -/
theorem decodes_of_passes (c : Proc CRemoteParcel) (params : List Param)
    (hparams : ∀ t ∈ params, t.Marshalled) (h : Walkable params) :
    ∀ (n i : ℕ) (p : CRemoteParcel) (ss : List UInt8) (s : Proc CRemoteParcel),
      c.Passes b (fun _ x => RpcSends E.itfs body x) n params i → rpcStream.Wrote ss p →
      rpcStream.Room (ss ++ (rpcCodec E henv body).request b c n params i) → s.args = i →
      s.phase = c.phase → (∀ t ∈ params, t.isOut → s.out.isSome) →
      rpcStream.Left ((rpcCodec E henv body).request b c n params i) s.parcel →
      Decodes E b n params { c with parcel := p, args := i } s := by
  let C := rpcCodec E henv body
  induction params with
  | nil => exact fun n i p ss s _ _ _ _ _ _ hleft => hleft
  | cons t ts ih =>
    rintro n _ p ss s ⟨⟨x, hx, hok⟩, hrest⟩ hwrote hroom rfl hphase hout hleft
    have ht := hparams t List.mem_cons_self
    rw [Codec.request, hx, Option.elim_some] at hleft hroom
    rw [← List.append_assoc] at hroom
    obtain ⟨p', hencode, hwrote'⟩ := mshInStep_spec (m := .rpc)
      (s := { c with parcel := p, args := s.args }) C hx
      (fun v hv => writesArg_of_sends (hv ▸ hok)) (fun _ _ _ => rfl) hwrote
      (rpcStream.room_of_append hroom)
    have hcontents : p'.contents = p.contents ++ C.sent x := by rw [hwrote'.2, hwrote.2]
    by_cases heguid : t.isIn = true ∧ t.type = .eguid
    · -- nothing is behind an `EGuid`, whose stride on the stub is its own
      obtain ⟨hin, htype⟩ := heguid
      obtain rfl : ts = [] := by
        by_contra hne
        obtain ⟨u, us, rfl⟩ := List.exists_cons_of_ne_nil hne
        exact h.eguid t List.mem_cons_self hin htype
      have hout' := (h.decodable t List.mem_cons_self hin).1
      rw [Proc.sent, if_pos hin, Proc.readArg, htype] at hx
      obtain ⟨v, hv, rfl⟩ := Option.map_eq_some_iff.mp hx
      obtain ⟨str, -, rfl⟩ := Option.map_eq_some_iff.mp hv
      obtain ⟨s', hdecode, hleft', -⟩ := unmshInStep_eguid (m := .rpc) (b := b) (n := n) htype hin
        hout' (C.reads_arg _ trivial) hleft
      exact ⟨_, s', _, _, hencode, hdecode, hcontents, hleft, hleft', hleft'⟩
    · have haccepts : C.Accepts .rpc t x := by
        cases x with
        | value v =>
          have hin := (sent_of hx).1
          obtain ⟨hout', hne, hne'⟩ := h.decodable t List.mem_cons_self hin
          exact ⟨hout', carries_of_sends hok (ne_struct_of_sent hx hne hne'),
            fun htype => heguid ⟨hin, htype⟩⟩
        | wanted size =>
          have hisOut := ht.direction.resolve_left (by rw [(sent_of hx).1]; decide)
          exact ⟨hisOut, ht.laidOut hisOut⟩
        | unwanted =>
          have hin : t.isIn = false := sent_of hx
          have hisOut := ht.direction.resolve_left (by rw [hin]; decide)
          exact ⟨hisOut, ht.laidOut hisOut⟩
      obtain ⟨s', hdecode, hleft', hargs, hout', hframe, -, -⟩ := unmshInStep_spec C hx haccepts
        (hout t List.mem_cons_self) hphase hleft
      refine ⟨_, s', _, _, hencode, hdecode, hcontents, hleft, hleft', ?_⟩
      refine ih (fun u hu => hparams u (List.mem_cons_of_mem _ hu)) ⟨fun u hu =>
        h.decodable u (List.mem_cons_of_mem _ hu), fun u hu => h.eguid u ?_⟩ (n + 1) _ p' _ s' hrest
        hwrote' hroom hargs (hframe.phase.trans hphase) (fun u hu hisOut => ?_) hleft'
      · rcases ts with _ | ⟨v, vs⟩
        · cases hu
        · exact List.mem_cons_of_mem _ hu
      · rw [hout', Option.isSome_map]
        exact hout u (List.mem_cons_of_mem _ hu) hisOut

/-! ### Where they do not agree -/

/-- An `[in, out]` parameter is encoded as its tag, a word and more; the stub takes it for an
`[out]` one and reads the tag, and the word for the size of an array. -/
def Leaves (E : RpcEnv) (henv : E.alloc.Succeeds) (body : Itf → List UInt8) (t : Param) (x : Sent) :
    Prop :=
  ∃ size rest, (rpcCodec E henv body).sent x = wire32 MSH_NOT_NULL ++ (wire32 size ++ rest) ∧
    (t.isArray = true → rest ≠ [])

theorem length_eq_of_holds {p : CRemoteParcel} {bs bs' : List UInt8} (h : p.Holds bs)
    (h' : p.Holds bs') : bs.length = bs'.length := by
  have := h.size
  have := h'.size
  omega

theorem out_isSome_of_unmshInOut {π : Type} {P : IParcel π} {m : Marshaller} {t : Param}
    {s : Proc π} {r : Option ECode × Proc π} (h : unmshInOut m P t s = .ok r) : s.out.isSome := by
  by_contra hnone
  rw [unmshInOut, Run.get_bind, carAssert, if_neg hnone] at h
  cases h

/-- The stub leaves something of an `[in, out]` parameter. -/
theorem not_decodes_inOut {n : ℕ} {t : Param} {s s' : Proc CRemoteParcel} {x : Sent}
    {rest : List UInt8} (hout : t.isOut = true) (hslot : (slotWords .rpc t).isSome)
    (hx : Leaves E henv body t x)
    (hs : unmshInStep .rpc b (rpcParcel E) n t s = .ok (none, s'))
    (hleft : s.parcel.Holds ((rpcCodec E henv body).sent x ++ rest)) : ¬ s'.parcel.Holds rest := by
  intro hleft'
  obtain ⟨size, more, hbytes, hmore⟩ := hx
  rw [unmshInStep, if_pos hout] at hs
  obtain ⟨o, ho⟩ := Option.isSome_iff_exists.mp (out_isSome_of_unmshInOut hs)
  let C := rpcCodec E henv body
  -- for the stub it is an `[out]` parameter
  let t' : Param := { t with isIn := false }
  let wanted : Option UInt32 := if t.isArray = true ∧ ¬ t.isCallee = true then some size else none
  obtain ⟨extra, hextra, hne⟩ : ∃ extra,
      C.sent x = C.sent (.wanted wanted) ++ extra ∧ extra ≠ [] := by
    by_cases harray : t.isArray = true ∧ ¬ t.isCallee = true
    · refine ⟨more, ?_, hmore harray.1⟩
      rw [hbytes, show wanted = some size from if_pos harray]
      exact (List.append_assoc _ _ _).symm
    · refine ⟨wire32 size ++ more, ?_, fun hnil => ?_⟩
      · rw [hbytes, show wanted = none from if_neg harray]
        rfl
      · have := congrArg List.length hnil
        simp at this
  have hof : Sent.Of t' (.wanted wanted) := by
    refine ⟨rfl, ?_⟩
    change wanted.isSome = true ↔ t.isArray = true ∧ ¬ t.isCallee = true
    by_cases harray : t.isArray = true ∧ ¬ t.isCallee = true
    · rw [show wanted = some size from if_pos harray]
      exact iff_of_true rfl harray
    · rw [show wanted = none from if_neg harray]
      exact iff_of_false (by decide) harray
  rw [hextra, List.append_assoc] at hleft
  obtain ⟨s₁, hrun, hleft₁, -⟩ := unmshInOut_spec (m := .rpc) (t := t') (x := .wanted wanted) C hof
    rfl hslot ho hleft
  have hrun' : unmshInOut .rpc (rpcParcel E) t s = .ok (none, s₁) := hrun
  rw [hs] at hrun'
  cases hrun'
  have hlength := length_eq_of_holds hleft' hleft₁
  rw [List.length_append] at hlength
  exact hne (List.eq_nil_of_length_eq_zero (by omega))

/-- The stub has no case for a struct. -/
theorem ne_struct_of_unmshInStep {n : ℕ} {t : Param} {s s' : Proc CRemoteParcel}
    (hin : t.isIn = true) (hout : t.isOut = false)
    (hs : unmshInStep .rpc b (rpcParcel E) n t s = .ok (none, s')) :
    t.type ≠ .struct ∧ t.type ≠ .pstruct := by
  rw [unmshInStep, if_neg (by simp [hout]), if_pos hin] at hs
  constructor <;>
  · intro ht
    simp only [unmshInArg, ht] at hs
    cases hs

/-- **What the stub decodes**: no structs, and no `[in, out]` parameters. -/
theorem decodable_of_decodes (c : Proc CRemoteParcel) (params : List Param)
    (hparams : ∀ t ∈ params, t.Marshalled) :
    ∀ (n i : ℕ) (p : CRemoteParcel) (ss : List UInt8) (s : Proc CRemoteParcel),
      c.Passes b (fun t x => RpcSends E.itfs body x ∧
        (t.isIn = true → t.isOut = true → Leaves E henv body t x)) n params i →
      rpcStream.Wrote ss p → rpcStream.Room (ss ++ (rpcCodec E henv body).request b c n params i) →
      Decodes E b n params { c with parcel := p, args := i } s →
      ∀ t ∈ params, t.isIn = true → t.isOut = false ∧ t.type ≠ .struct ∧ t.type ≠ .pstruct := by
  let C := rpcCodec E henv body
  induction params with
  | nil => exact fun n i p ss s _ _ _ _ => List.forall_mem_nil _
  | cons t ts ih =>
    rintro n i p ss s ⟨⟨x, hx, hok, hleaves⟩, hrest⟩ hwrote hroom
      ⟨c', s', bytes, rest, hencode, hdecode, hcontents, hleft, hleft', hdecodes⟩
    have ht := hparams t List.mem_cons_self
    rw [Codec.request, hx, Option.elim_some, ← List.append_assoc] at hroom
    obtain ⟨p', hencode', hwrote'⟩ := mshInStep_spec (m := .rpc)
      (s := { c with parcel := p, args := i }) C hx
      (fun v hv => writesArg_of_sends (hv ▸ hok)) (fun _ _ _ => rfl) hwrote
      (rpcStream.room_of_append hroom)
    rw [hencode] at hencode'
    cases hencode'
    refine List.forall_mem_cons.mpr ⟨fun hin => ?_, ih (fun u hu =>
      hparams u (List.mem_cons_of_mem _ hu)) (n + 1) _ p' _ s' hrest hwrote' hroom hdecodes⟩
    have hbytes : bytes = C.sent x := by
      have heq : ss ++ C.sent x = ss ++ bytes := by
        rw [← hwrote'.2, ← hwrote.2]
        exact hcontents
      exact (List.append_cancel_left heq).symm
    subst hbytes
    by_cases hout : t.isOut = true
    · exact absurd hleft'
        (not_decodes_inOut hout (ht.laidOut hout) (hleaves hin hout) hdecode hleft)
    · have hout' : t.isOut = false := by simpa using hout
      exact ⟨hout', ne_struct_of_unmshInStep hin hout' hdecode⟩

/-- With null pointers only, `Stub_ProcessMsh_Out` goes over all parameters of a failed call. -/
theorem mshOutStep_null {π : Type} {P : IParcel π} {m : Marshaller} (n : ℕ) (t : Param) {s : Proc π}
    (hs : ∀ k, s.stack k = .null) :
    ∃ s', mshOutStep m b P true n t s = .ok (none, s') ∧ ∀ k, s'.stack k = .null := by
  rw [mshOutStep]
  by_cases hout : t.isOut = true
  · rw [if_pos hout]
    exact ⟨{ s with args := s.args + 1 }, rfl, hs⟩
  · rw [if_neg hout]
    have hrel : s.heap.Releasable t (s.stack s.args) := by
      rw [hs, Heap.Releasable]
      split <;> first | exact .inl rfl | rfl | trivial
    obtain ⟨ev, hrun⟩ := mshOutIn_spec (b := b) (n := n) (by simpa using hout) hrel
    exact ⟨_, hrun, hs⟩

/-- **What is behind an `EGuid`** is at another word for the proxy than for the stub that returns
the results. -/
theorem eguid_of_decodes (params : List Param)
    (hdec : ∀ t ∈ params, t.isIn = true → t.isOut = false) :
    ∀ (n : ℕ) (c s d : Proc CRemoteParcel), Decodes E b n params c s → (∀ k, d.stack k = .null) →
      d.phase = c.phase → d.args = c.args →
      (∀ k i j : ℕ,
        ((visits (mshInStep .rpc b (rpcParcel E)) n params c).map Proc.args)[k]? = some i →
        ((visits (mshOutStep .rpc b (rpcParcel E) true) n params d).map Proc.args)[k]? = some j →
          i = j) →
      ∀ t ∈ params.dropLast, t.isIn = true → t.type ≠ .eguid := by
  induction params with
  | nil => exact fun n c s d _ _ _ _ _ => List.forall_mem_nil _
  | cons t ts ih =>
    rintro n c s d ⟨c', s', bytes, rest, hencode, -, -, -, -, hdecodes⟩ hd hphase hargs hsame
    rcases ts with _ | ⟨u, us⟩
    · exact List.forall_mem_nil _
    obtain ⟨d', hrelease, hd'⟩ := mshOutStep_null (m := .rpc) (b := b) (P := rpcParcel E) n t hd
    obtain ⟨hphaseIn, hargsIn, -⟩ := walks_mshInStep n t c c' hencode
    obtain ⟨hphaseOut, hargsOut, -⟩ := walks_mshOutStep true n t d d' hrelease
    simp only [visits, hencode, hrelease] at hsame
    have hnext : c'.args = d'.args := hsame 1 _ _ rfl rfl
    have htail := ih (fun v hv => hdec v (List.mem_cons_of_mem _ hv)) (n + 1) c' s' d' hdecodes hd'
      (hphaseOut.trans (hphase.trans hphaseIn.symm)) hnext.symm fun k i j hi hj =>
        hsame (k + 1) i j hi hj
    refine List.forall_mem_cons.mpr ⟨fun hin htype => ?_, htail⟩
    rw [hargsIn, hargsOut, hargs, nextArg, skipArg, if_pos hin,
      if_neg (by simp [hdec t List.mem_cons_self hin])] at hnext
    simp only [htype] at hnext
    omega

end

/-! ### A caller for every signature -/

theorem fits_noBytes : (Payload.bytes []).Fits (0 &&& TypeMask) 0 := ⟨by decide, by decide, rfl⟩

/-- An array without elements. -/
def emptyArray : CarQuintet := ⟨0, 0, 0, 0, 0, .bytes [], fits_noBytes⟩

/-- The word `j` of the `[in]` argument `n`. -/
def sampleWord (n : ℕ) (t : Param) (j : ℕ) : Word :=
  match t.type with
  | .string => .obj 0
  | .arrayOf => .obj 1
  | .eguid => if j = 4 then .obj 2 else .null
  | .struct | .pstruct => .obj (3 + n)
  | _ => .null

/-- The words from `i` on, for the parameters from index `n` on. -/
def sampleStack (b : Build) (phase : ℕ) : (n : ℕ) → List Param → (i : ℕ) → ℕ → Word
  | _, [], _, _ => .null
  | n, t :: ts, i, k =>
    if k < nextArg b phase n t i then if t.isIn then sampleWord n t (k - i) else .null
    else sampleStack b phase (n + 1) ts (nextArg b phase n t i) k

/-- It passes empty strings, arrays and names, zeros, null interfaces and structs, and wants no
results. -/
def sampleCaller (b : Build) (phase : ℕ) (params : List Param) : Proc CRemoteParcel where
  parcel := {}
  args := 0
  stack := sampleStack b phase 0 params 0
  out := some 0
  outBuffer _ := .null
  heap := { objs := [.string none, .array emptyArray, .chars ⟨[], zero_notMem_nil⟩] ++
    params.map fun t => .block (List.replicate (t.size.toNat * 4) 0) }
  addr _ := 0
  phase := phase

/-- What the sample sends about a parameter. -/
structure Sampled (E : RpcEnv) (henv : E.alloc.Succeeds) (body : Itf → List UInt8) (t : Param)
    (x : Sent) : Prop where
  sends : RpcSends E.itfs body x
  leaves : t.isIn = true → t.isOut = true → Leaves E henv body t x
  length_le : ((rpcCodec E henv body).sent x).length ≤ 262208

section

variable {E : RpcEnv} {henv : E.alloc.Succeeds} {body : Itf → List UInt8} {b : Build} {phase : ℕ}
  {params : List Param}

theorem length_request_le {c : Proc CRemoteParcel} {n i : ℕ}
    (h : c.Passes b (Sampled E henv body) n params i) :
    ((rpcCodec E henv body).request b c n params i).length ≤ 262208 * params.length := by
  induction params generalizing n i with
  | nil => exact Nat.zero_le _
  | cons t ts ih =>
    obtain ⟨⟨x, hx, hok⟩, hrest⟩ := h
    rw [Codec.request, hx, Option.elim_some, List.length_append, List.length_cons, Nat.mul_succ]
    have := ih hrest
    have := hok.length_le
    omega

/-- What is sent about an `[in]` parameter that cannot be `[out]` as well. -/
theorem sampled_of_slotWords {t : Param} {x : Sent} (ht : t.Marshalled)
    (hslot : slotWords .rpc t = none) (hsends : RpcSends E.itfs body x)
    (hlength : ((rpcCodec E henv body).sent x).length ≤ 262208) : Sampled E henv body t x where
  sends := hsends
  leaves _ hout := by
    have := ht.laidOut hout
    rw [hslot] at this
    cases this
  length_le := hlength

theorem sampled_array (t : Param) : Sampled E henv body t (.value (.array (some emptyArray))) where
  sends xs hxs := by cases hxs
  leaves _ _ := ⟨0, List.replicate 16 0 ++ (Payload.bytes []).wire, rfl, fun _ hnil => by
    have := congrArg List.length hnil
    simp at this⟩
  length_le := by
    change (wireArray emptyArray).length ≤ _
    rw [wireArray, List.length_append, List.length_append, CarQuintet.length_bytes, length_wire32]
    decide

theorem sampled_struct {t : Param} (ht : t.type = .struct ∨ t.type = .pstruct) :
    Sampled E henv body t
      (.value (.struct (some (List.replicate (t.size.toNat * 4) 0)) (t.size.toUInt32 * 4))) where
  sends := by
    change t.size.toUInt32 * 4 = sizeOf32 _
    rw [sizeOf32, List.length_replicate]
    apply UInt32.toNat_inj.mp
    have := t.size.toNat_lt
    rw [toNat_size_mul_four, UInt32.toNat_ofNat_of_lt' (by simp only [UInt32.size]; omega)]
  leaves _ _ := ⟨t.size.toUInt32 * 4, padded (List.replicate (t.size.toNat * 4) 0),
    List.append_assoc _ _ _, fun harray => by
      rcases ht with ht | ht <;> simp [Param.isArray, ht] at harray⟩
  length_le := by
    change (wire32 MSH_NOT_NULL ++ wire32 _ ++ padded _).length ≤ _
    have := t.size.toNat_lt
    rw [List.length_append, List.length_append, length_wire32, length_wire32, length_padded,
      List.length_replicate, pad4]
    omega

/-- What the sample tells about one parameter. -/
theorem exists_sampled {n : ℕ} {t : Param} (ht : t.Marshalled) (hn : params[n]? = some t) {i : ℕ}
    (hstack : ∀ j, i + j < nextArg b phase n t i →
      (sampleCaller b phase params).stack (i + j) = if t.isIn then sampleWord n t j else .null) :
    ∃ x, (sampleCaller b phase params).sent b n t i = some x ∧ Sampled E henv body t x := by
  have hfirst := hstack 0 (lt_nextArg phase n t i)
  rw [Nat.add_zero] at hfirst
  rw [Proc.sent]
  by_cases hin : t.isIn = true
  swap
  · rw [if_neg hin] at hfirst ⊢
    rw [if_pos hfirst]
    exact ⟨.unwanted, rfl, trivial, fun h => absurd h hin, by change 4 ≤ _; decide⟩
  rw [if_pos hin]
  simp only [if_pos hin] at hstack hfirst
  rw [Proc.readArg]
  have hencoded := ht.encoded hin
  rw [Param.Encoded] at hencoded
  cases htype : t.type <;> simp only [htype, reduceCtorEq, or_self, or_true, or_false] at hencoded
  case uint8 | uint16 | uint32 =>
    exact ⟨_, rfl, sampled_of_slotWords ht (by simp only [slotWords, htype]) trivial
      (by change 4 ≤ _; decide)⟩
  case uint64 =>
    refine ⟨_, rfl, sampled_of_slotWords ht (by simp only [slotWords, htype]) trivial ?_⟩
    change (dwordBytes _).length ≤ _
    rw [length_dwordBytes]
    decide
  case emuid =>
    refine ⟨_, rfl, sampled_of_slotWords ht (by simp only [slotWords, htype]) trivial ?_⟩
    change (EMuid.bytes _).length ≤ _
    rw [EMuid.length_bytes]
    decide
  case eguid =>
    have hname := hstack 4 (by simp only [nextArg, if_pos hin, htype]; omega)
    simp only [sampleWord, htype, if_true] at hname
    let c := sampleCaller b phase params
    let id : EGuid := ⟨c.emuidAt i, ⟨[], zero_notMem_nil⟩, c.bitsAt (i + 5)⟩
    refine ⟨.value (.eguid id (c.bitsAt (i + 4))), ?_,
      sampled_of_slotWords ht (by simp only [slotWords, htype]) trivial ?_⟩
    · rw [hname]
      rfl
    · change (EGuid.bytes _ _ ++ padded _).length ≤ _
      rw [List.length_append, EGuid.length_bytes, length_padded, pad4]
      exact (by decide : 24 + (1 + 3) / 4 * 4 ≤ 262208)
  case string =>
    simp only [sampleWord, htype] at hfirst
    refine ⟨.value (.string none), ?_, sampled_of_slotWords ht (by simp only [slotWords, htype])
      trivial (by change 4 ≤ _; decide)⟩
    rw [hfirst]
    rfl
  case arrayOf =>
    simp only [sampleWord, htype] at hfirst
    refine ⟨_, ?_, sampled_array t⟩
    rw [hfirst]
    rfl
  case struct | pstruct =>
    simp only [sampleWord, htype] at hfirst
    have hobj : (sampleCaller b phase params).heap.block? (.obj (3 + n))
        = some (List.replicate (t.size.toNat * 4) 0) := by
      have hget : (sampleCaller b phase params).heap.obj? (.obj (3 + n))
          = some (.block (List.replicate (t.size.toNat * 4) 0)) := by
        change (_ ++ params.map _)[3 + n]? = _
        rw [List.getElem?_append_right (Nat.le_add_right 3 n), List.getElem?_map]
        change (params[3 + n - 3]?).map _ = _
        rw [Nat.add_sub_cancel_left, hn]
        rfl
      rw [Heap.block?, hget]
    refine ⟨_, ?_, sampled_struct (by simp [htype])⟩
    rw [hfirst]
    simp only [Word.obj_ne_null, if_false]
    rw [hobj, Option.bind_some, if_pos (by rw [List.length_replicate, toNat_size_mul_four])]
    rfl
  case interface =>
    simp only [sampleWord, htype] at hfirst
    refine ⟨.value (.interface none), ?_, sampled_of_slotWords ht
      (by simp only [slotWords, htype]) (fun _ h => by cases h) (by change 4 ≤ _; decide)⟩
    rw [hfirst]
    rfl

/-- **The sample** can be passed. -/
theorem passes_sampleCaller (hparams : ∀ t ∈ params, t.Marshalled) :
    (sampleCaller b phase params).Passes b (Sampled E henv body) 0 params 0 := by
  have hpasses : ∀ (ts : List Param) (n i : ℕ), params.drop n = ts →
      (∀ k, i ≤ k → (sampleCaller b phase params).stack k = sampleStack b phase n ts i k) →
      (sampleCaller b phase params).Passes b (Sampled E henv body) n ts i := by
    intro ts
    induction ts with
    | nil => exact fun _ _ _ _ => trivial
    | cons t ts ih =>
      intro n i hdrop hstack
      have hn : params[n]? = some t := by
        rw [← List.head?_drop, hdrop, List.head?_cons]
      refine ⟨exists_sampled (hparams t (List.mem_of_getElem? hn)) hn fun j hj => ?_,
        ih (n + 1) _ ?_ fun k hk => ?_⟩
      · rw [hstack _ (Nat.le_add_right i j), sampleStack, if_pos hj, Nat.add_sub_cancel_left]
      · rw [← List.tail_drop, hdrop, List.tail_cons]
      · have hle : nextArg b phase n t i ≤ k := hk
        rw [hstack k (by have := lt_nextArg (b := b) phase n t i; omega), sampleStack,
          if_neg (Nat.not_lt.mpr hle)]
        rfl
  exact hpasses params 0 0 rfl fun _ _ => rfl

end

/-! ### Exactly where they agree -/

section

variable {E : RpcEnv} {henv : E.alloc.Succeeds} {body : Itf → List UInt8} {b : Build} {phase : ℕ}
  {params : List Param}

theorem inCall_sampleCaller (hparams : ∀ t ∈ params, t.Marshalled) (hlen : params.length < 256) :
    InCall E henv body b params (sampleCaller b phase params) (sampleCaller b phase params) := by
  have hpasses : (sampleCaller b phase params).Passes b (Sampled E henv body) 0 params 0 :=
    passes_sampleCaller hparams
  refine ⟨hpasses.mono fun _ _ _ h => h.sends, ?_, rfl, fun _ _ _ => rfl⟩
  have := length_request_le hpasses
  omega

/-- **Only there** the walks agree. -/
theorem walkable_of_walksAgree (hparams : ∀ t ∈ params, t.Marshalled) (hlen : params.length < 256)
    (h : WalksAgree E henv body b phase params) : Walkable params := by
  let c := sampleCaller b phase params
  have hcall : InCall E henv body b params c c := inCall_sampleCaller hparams hlen
  have hpasses : c.Passes b (Sampled E henv body) 0 params 0 := passes_sampleCaller hparams
  obtain ⟨c', -, hdecodes⟩ := h.decoded c c rfl hcall
  have hdecodable := decodable_of_decodes c params hparams 0 0 {} [] _
    (hpasses.mono fun _ _ _ h => ⟨h.sends, h.leaves⟩) ⟨ready_new, rfl⟩ hcall.room hdecodes
  refine ⟨hdecodable, eguid_of_decodes params (fun t ht hin => (hdecodable t ht hin).1) 0 _ _
    { silentStub with phase := phase } hdecodes (fun _ => rfl) rfl rfl fun k i j hi hj => ?_⟩
  exact h.same k i j (.mshIn { c with parcel := {} } rfl hi)
    (.mshOut true { silentStub with phase := phase } rfl hj)

/-- **The five walks agree** on a signature if and only if no `[in]` parameter is a struct or
`[in, out]` and no parameter is behind an `[in]` `EGuid`. -/
theorem walksAgree_iff (E : RpcEnv) (henv : E.alloc.Succeeds) (body : Itf → List UInt8) (b : Build)
    (phase : ℕ) (params : List Param) (hparams : ∀ t ∈ params, t.Marshalled)
    (hlen : params.length < 256) : WalksAgree E henv body b phase params ↔ Walkable params := by
  refine ⟨walkable_of_walksAgree hparams hlen, fun h => ⟨fun n i j hi hj => ?_,
    fun n t s s' _ hs k hk => inside_of_unmshInStep hs hk, fun c s _ hcall => ?_⟩⟩
  · exact Option.some.inj ((hi.getElem? hparams h).symm.trans (hj.getElem? hparams h))
  · obtain ⟨p, hrun, -, hwrote⟩ := mshIn_spec (m := .rpc) (b := b) (rpcCodec E henv body)
      (fun _ v (hv : RpcSends E.itfs body (.value v)) => writesArg_of_sends hv) (fun _ _ _ _ => rfl)
      c params 0 0 {} [] hcall.passes ⟨ready_new, rfl⟩ hcall.room
    have hcontents : p.contents = (rpcCodec E henv body).request b c 0 params 0 := hwrote.2
    refine ⟨_, hrun, decodes_of_passes c params hparams h 0 0 {} [] _ hcall.passes ⟨ready_new, rfl⟩
      hcall.room rfl hcall.phase (fun t ht hout => ?_) ?_⟩
    · simpa [Proc.skipHeader] using hcall.out t ht hout
    · rw [← hcontents]
      refine holds_contents ?_
      rw [← length_contents, hcontents]
      exact hcall.room

end

theorem marshalled_in {type : BtType} (h : ({ type := type, isIn := true } : Param).Encoded) :
    ({ type := type, isIn := true } : Param).Marshalled where
  encoded _ := h
  laidOut h' := by cases h'
  direction := .inl rfl

theorem marshalled_eguid : ({ type := .eguid, isIn := true } : Param).Marshalled :=
  marshalled_in (by simp [Param.Encoded])

theorem marshalled_puint32 : ({ type := .puint32, isOut := true } : Param).Marshalled where
  encoded h := by cases h
  laidOut _ := rfl
  direction := .inr rfl

/-- With a number behind an `EGuid` the walks do not agree. -/
theorem not_walksAgree_eguid : ¬ WalksAgree plainEnv Allocator.zeros_succeeds (fun _ => []) .x86 0
    eguidParams := by
  intro h
  have hparams : ∀ t ∈ eguidParams, t.Marshalled :=
    List.forall_mem_cons.mpr ⟨marshalled_eguid, List.forall_mem_singleton.mpr
      marshalled_puint32⟩
  exact (walkable_of_walksAgree hparams (by decide) h).eguid _ List.mem_cons_self rfl rfl

/-- With the `EGuid` as the last parameter they do. -/
theorem walksAgree_eguid_last : WalksAgree plainEnv Allocator.zeros_succeeds (fun _ => []) .arm 1
    [{ type := .puint32, isOut := true }, { type := .eguid, isIn := true }] :=
  (walksAgree_iff plainEnv Allocator.zeros_succeeds (fun _ => []) .arm 1
    [{ type := .puint32, isOut := true }, { type := .eguid, isIn := true }]
    (List.forall_mem_cons.mpr ⟨marshalled_puint32, List.forall_mem_singleton.mpr
      marshalled_eguid⟩) (by decide)).mpr ⟨by simp, by simp⟩

end ElastosCar
