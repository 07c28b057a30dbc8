import ElastosCar.Parcel.Bounds

/-!
# The bytes of a parcel are determined by its values

Fresh memory holds anything, and a write that is not a multiple of four bytes first masks what was
there. Still, after writes at the end of a parcel its data depends on nothing but the values:
`Shape` is the part of a parcel that decides what the next write does, its data and its capacity,
and the writers act on it without looking at the allocator (`shape_write`, `shape_writeAligned`).

The exception is the arithmetic of `GrowData`. Its product is computed in 32 bits, and what it is
compared with is the size of the data and not what the write needs; where it wraps, the new block is
too small for the data that is then stored, and the next `realloc` keeps only the part that is
inside.
-/

namespace ElastosCar

namespace CRemoteParcel

/-- What a write at the end of the data goes by. -/
structure Shape where
  contents : List UInt8
  capacity : UInt32
deriving DecidableEq, Repr

namespace Shape

/-- The data size. -/
def size (s : Shape) : UInt32 := sizeOf32 s.contents

/-- The capacity once there is room for `n` more bytes; `none` when `GrowData` refuses. -/
def room (n : UInt32) (s : Shape) : Option UInt32 :=
  if s.size + n ≤ s.capacity then some s.capacity
  else
    let newSize := (s.size + n) * 3 / 2
    if newSize ≤ s.size then none else some newSize

/-- Append bytes that take `n` bytes of the capacity. -/
def append (n : UInt32) (bs : List UInt8) (s : Shape) : Shape :=
  match s.room n with
  | some capacity => ⟨s.contents ++ bs, capacity⟩
  | none => s

/-- `Write`. -/
def write (data : List UInt8) (len : UInt32) (s : Shape) : Shape :=
  if s.size + padSize len < s.size then s
  else s.append (padSize len) (padded (data.take len.toNat))

/-- `WriteAligned`. -/
def writeAligned (value : List UInt8) (s : Shape) : Shape := s.append (sizeOf32 value) value

end Shape

/-- The shape of a parcel. -/
def shape (p : CRemoteParcel) : Shape := ⟨p.contents, p.mDataCapacity⟩

section

variable {env : Allocator} {p q : CRemoteParcel}

@[simp]
theorem size_shape (p : CRemoteParcel) : p.shape.size = p.mDataSize := by
  rw [Shape.size, sizeOf32, shape, length_contents, UInt32.ofNat_toNat]

/-! ### Making room -/

/-- What making room for `n` bytes comes to. -/
inductive Made (env : Allocator) (p : CRemoteParcel) (n : UInt32) : Prop
  /-- There is room, though perhaps no block yet. -/
  | enough (h : p.mDataPos + n ≤ p.mDataCapacity)
      (hroom : p.mDataSize.toNat + n.toNat ≤ p.mDataCapacity.toNat)
      (hshape : p.shape.room n = some p.mDataCapacity)
  | refused (h : ¬ p.mDataPos + n ≤ p.mDataCapacity)
      (hgrow : p.growData env n = (E_OUT_OF_MEMORY, p)) (hshape : p.shape.room n = none)
  | grown (q : CRemoteParcel) (h : ¬ p.mDataPos + n ≤ p.mDataCapacity)
      (hgrow : p.growData env n = (NOERROR, q)) (hready : q.Ready) (hdata : q.mData.isSome)
      (hcontents : q.contents = p.contents)
      (hroom : q.mDataSize.toNat + n.toNat ≤ q.mDataCapacity.toNat)
      (hshape : p.shape.room n = some q.mDataCapacity)

/-- **Making room** does not depend on the allocator beyond its answering. -/
theorem made (henv : env.Succeeds) (hp : p.Ready) {n : UInt32}
    (hlt : p.mDataSize.toNat + n.toNat < 4294967296)
    (hgrow : p.mDataCapacity.toNat < p.mDataSize.toNat + n.toNat → p.Growable n.toNat n.toNat) :
    Made env p n := by
  have hsum : (p.mDataSize + n).toNat = p.mDataSize.toNat + n.toNat := by
    rw [UInt32.toNat_add, Nat.mod_eq_of_lt hlt]
  have hnew : ((p.mDataSize + n) * 3 / 2).toNat
      = 3 * (p.mDataSize.toNat + n.toNat) % 4294967296 / 2 := by
    simp only [UInt32.toNat_div, UInt32.toNat_mul, hsum, UInt32.reduceToNat]
    omega
  by_cases hcap : p.mDataSize + n ≤ p.mDataCapacity
  · refine .enough (by rwa [hp.pos_eq]) ?_ ?_
    · rwa [UInt32.le_iff_toNat_le, hsum] at hcap
    · rw [Shape.room, size_shape, if_pos (by exact hcap)]
      rfl
  have hcap' := hcap
  rw [UInt32.le_iff_toNat_le, hsum, not_le] at hcap'
  by_cases hrefused : (p.mDataSize + n) * 3 / 2 ≤ p.mDataSize
  · refine .refused (by rwa [hp.pos_eq]) (by rw [growData, if_pos hrefused]) ?_
    rw [Shape.room, size_shape, if_neg (by exact hcap)]
    exact if_pos hrefused
  have hroom : p.mDataSize.toNat + n.toNat ≤ ((p.mDataSize + n) * 3 / 2).toNat := by
    rw [UInt32.le_iff_toNat_le, hnew, not_le] at hrefused
    rw [hnew]
    rcases hgrow hcap' with h | h
    · omega
    · rwa [hp.pos_eq] at h
  have hshape : p.shape.room n = some ((p.mDataSize + n) * 3 / 2) := by
    rw [Shape.room, size_shape, if_neg (by exact hcap)]
    exact if_neg hrefused
  obtain ⟨fresh, hfresh⟩ :=
    Option.isSome_iff_exists.mp (henv p.requests ((p.mDataSize + n) * 3 / 2).toNat)
  have hsize := hp.size_le
  cases hd : p.mData with
  | some d =>
    have hgt : (p.mDataSize + n) * 3 / 2 > p.mDataCapacity := by
      rw [gt_iff_lt, UInt32.lt_iff_toNat_lt]
      omega
    have hgrown : p.growData env n = (NOERROR, { p with
        mData := some fun i => if i < p.mDataCapacity.toNat then d i else fresh i
        mDataCapacity := (p.mDataSize + n) * 3 / 2
        requests := p.requests + 1 }) := by
      rw [growData, if_neg hrefused, continueWrite, hd]
      simp only [if_pos hgt, hfresh]
    refine .grown _ (by rwa [hp.pos_eq]) hgrown ⟨⟨(fun h => by cases h), ?_, hp.pos_le⟩, hp.pos_eq, hp.error⟩ rfl ?_
      hroom hshape
    · dsimp only
      omega
    · refine load_congr fun i _ hi => ?_
      simp only [block, hd, Option.getD_some]
      rw [if_pos (by dsimp only at hi; omega)]
  | none =>
    obtain ⟨hs0, hp0⟩ := hp.eq_zero_of_null hd
    have hgrown : p.growData env n = (NOERROR, { p with
        mData := some fresh
        mDataSize := 0
        mDataPos := 0
        mDataCapacity := (p.mDataSize + n) * 3 / 2
        requests := p.requests + 1 }) := by
      rw [growData, if_neg hrefused, continueWrite, hd]
      simp only [hfresh]
    refine .grown _ (by rwa [hp.pos_eq]) hgrown
      ⟨⟨(fun h => by cases h), Nat.zero_le _, le_rfl⟩, rfl, hp.error⟩ rfl ?_ ?_ hshape
    · simp [contents, hs0]
    · rw [hs0] at hroom ⊢
      exact hroom

/-! ### The writers -/

/-- `WriteAligned` appends the value, if it is granted the room. -/
theorem shape_writeAligned (henv : env.Succeeds) (hp : p.Ready) {value : List UInt8}
    (hpos : 0 < value.length) (h : p.NoWrap (.writeAligned value)) :
    (p.writeAligned env value).2.Ready ∧
      (p.writeAligned env value).2.shape = p.shape.writeAligned value := by
  obtain ⟨hlt, hgrow⟩ := h
  rw [hp.pos_eq] at hlt hgrow
  have hn : (sizeOf32 value).toNat = value.length := toNat_sizeOf32 (by omega)
  have hat {q : CRemoteParcel} (hready : q.Ready) (hdata : q.mData.isSome)
      (hroom : q.mDataSize.toNat + (sizeOf32 value).toNat ≤ q.mDataCapacity.toNat) :
      (q.writeAlignedAt value).Ready ∧
        (q.writeAlignedAt value).shape = ⟨q.contents ++ value, q.mDataCapacity⟩ := by
    have happ := appended_writeAlignedAt (reserved_self hready hdata (hn ▸ hroom))
    exact ⟨happ.ready, congrArg (Shape.mk · q.mDataCapacity) happ.contents_eq⟩
  rw [writeAligned, Shape.writeAligned, Shape.append]
  cases made henv hp (n := sizeOf32 value) (by rwa [hn]) (by rwa [hn]) with
  | enough hcap hroom hshape =>
    have hdata : p.mData.isSome := by
      rw [← Option.ne_none_iff_isSome]
      intro hd
      rw [hp.null hd] at hroom
      simp at hroom
      omega
    rw [if_pos hcap, hshape]
    exact hat hp hdata hroom
  | refused hcap hgrow hshape =>
    rw [if_neg hcap, hgrow, hshape]
    exact ⟨hp, rfl⟩
  | grown q hcap hgrow hready hdata hcontents hroom hshape =>
    rw [if_neg hcap, hgrow, hshape]
    obtain ⟨hready', hshape'⟩ := hat hready hdata hroom
    exact ⟨hready', by rw [hcontents] at hshape'; exact hshape'⟩

/-- `Write` appends the bytes and their padding, if it is granted the room. It reports no error in
any case. -/
theorem shape_write (henv : env.Succeeds) (hp : p.Ready) {data : List UInt8} {len : UInt32}
    (hdata : len.toNat ≤ data.length) (h : p.NoWrap (.write data len)) :
    (p.write env data len).1 = NOERROR ∧ (p.write env data len).2.Ready ∧
      (p.write env data len).2.shape = p.shape.write data len := by
  obtain ⟨hlen, hgrow⟩ := h
  have hpad := toNat_padSize_of_le hlen
  have htake : (data.take len.toNat).length = len.toNat := List.length_take_of_le hdata
  have hlength : (padded (data.take len.toNat)).length = (padSize len).toNat := by
    rw [length_padded, htake, hpad]
  rw [hp.pos_eq, ← hpad] at hgrow
  rw [Shape.write, size_shape, ← hp.pos_eq]
  by_cases hwrap : p.mDataPos + padSize len < p.mDataPos
  · rw [if_pos hwrap, write, writeInplace]
    simp only [if_pos hwrap]
    exact ⟨hp.error, hp, trivial⟩
  rw [if_neg hwrap]
  have hlt : p.mDataSize.toNat + (padSize len).toNat < 4294967296 := by
    have hpos := p.mDataPos.toNat_lt
    have hlt := (padSize len).toNat_lt
    rw [UInt32.lt_iff_toNat_lt, UInt32.toNat_add, hp.pos_eq] at hwrap
    rw [hp.pos_eq] at hpos
    omega
  have hat {q : CRemoteParcel} (hready : q.Ready) (hd : q.mData.isSome)
      (hroom : q.mDataSize.toNat + (padSize len).toNat ≤ q.mDataCapacity.toNat) :
      ∃ r, q.writeInplaceAt len (padSize len) = (some q.mDataPos.toNat, r) ∧
        (r.memcpy q.mDataPos.toNat (data.take len.toNat)).Ready ∧
        (r.memcpy q.mDataPos.toNat (data.take len.toNat)).shape
          = ⟨q.contents ++ padded (data.take len.toNat), q.mDataCapacity⟩ := by
    obtain ⟨r, hr, happ⟩ := appended_writeInplaceAt htake.symm hpad
      (reserved_self hready hd (hlength ▸ hroom))
    refine ⟨r, hr, happ.ready, ?_⟩
    have hcap := happ.cap
    rw [roomyCapacity, if_pos (hlength ▸ hroom)] at hcap
    rw [shape, happ.contents_eq, UInt32.toNat_inj.mp hcap]
  rw [Shape.append]
  have hinplace : p.writeInplace env len
      = if p.mDataPos + padSize len ≤ p.mDataCapacity then p.writeInplaceAt len (padSize len)
        else if (p.growData env (padSize len)).1 = NOERROR then
          (p.growData env (padSize len)).2.writeInplaceAt len (padSize len)
        else (none, (p.growData env (padSize len)).2) :=
    if_neg hwrap
  rw [write, hinplace]
  cases made henv hp hlt (fun hcap => hgrow hcap hlt) with
  | enough hcap hroom hshape =>
    rw [if_pos hcap, hshape]
    by_cases hd : p.mData.isSome
    · obtain ⟨r, hr, hready, hr'⟩ := hat hp hd hroom
      rw [hr]
      exact ⟨rfl, hready, hr'⟩
    · -- nothing was written yet, and nothing is
      have hnull : p.mData = none := Option.not_isSome_iff_eq_none.mp hd
      have hlen0 : len = 0 := by
        rw [hp.null hnull, hpad, pad4, UInt32.toNat_zero] at hroom
        apply UInt32.toNat_inj.mp
        rw [UInt32.toNat_zero]
        omega
      subst hlen0
      have hnil : p.write env [] 0 = (NOERROR, p) := write_nil_of_null hp hnull
      rw [write, hinplace, if_pos hcap] at hnil
      have hnone : (p.writeInplaceAt 0 (padSize 0)).1 = none := by simp [writeInplaceAt, hnull]
      rcases hat0 : p.writeInplaceAt 0 (padSize 0) with ⟨off, r⟩
      rw [hat0] at hnil hnone
      obtain rfl : off = none := hnone
      obtain ⟨herr, rfl⟩ := Prod.mk.inj hnil
      exact ⟨herr, hp, by simp [shape, padded, pad4]⟩
  | refused hcap hgrow hshape =>
    rw [if_neg hcap, hgrow, hshape]
    exact ⟨hp.error, hp, rfl⟩
  | grown q hcap hgrow hready hd hcontents hroom hshape =>
    rw [if_neg hcap, hgrow, hshape]
    obtain ⟨r, hr, hready', hr'⟩ := hat hready hd hroom
    simp only [if_true, hr]
    exact ⟨trivial, hready', by rw [hcontents] at hr'; exact hr'⟩

end

/-! ### Two runs -/

/-- Two parcels at the end of the same data, with the same capacity. -/
structure Twin (p q : CRemoteParcel) : Prop where
  left : p.Ready
  right : q.Ready
  shape : p.shape = q.shape

/-- The calls that are considered: a write is given as many bytes as it asks for. -/
def Sized : WriteCall → Prop
  | .write data len => len.toNat ≤ data.length
  | .writeAligned value => 0 < value.length
  | .writeInplace _ | .writeInterfacePtr _ _ | .setDataSize _ | .setDataCapacity _
  | .setDataPosition _ => False

section

variable {p q : CRemoteParcel} (h : Twin p q)
include h

theorem Twin.contents : p.contents = q.contents := congrArg Shape.contents h.shape

theorem Twin.size : p.mDataSize = q.mDataSize := by
  rw [← size_shape, h.shape, size_shape]

theorem Twin.pos : p.mDataPos = q.mDataPos := by rw [h.left.pos_eq, h.right.pos_eq, h.size]

theorem Twin.capacity : p.mDataCapacity = q.mDataCapacity := congrArg Shape.capacity h.shape

theorem Twin.noWrap {c : WriteCall} (hc : p.NoWrap c) : q.NoWrap c := by
  have hsize := h.size
  have hpos := h.pos
  have hcapacity := h.capacity
  cases c with
  | setDataSize size | setDataCapacity size | setDataPosition pos => trivial
  | writeInplace len | write data len | writeAligned value | writeInterfacePtr value nested =>
    simpa only [NoWrap, Growable, hsize, hpos, hcapacity] using hc

variable {env env' : Allocator} (henv : env.Succeeds) (henv' : env'.Succeeds)
include henv henv'

/-- **One call** on both parcels. -/
theorem Twin.perform {c : WriteCall} (hc : Sized c) (hwrap : p.NoWrap c) :
    Twin (perform env c p).2 (perform env' c q).2 := by
  cases c with
  | write data len =>
    obtain ⟨-, hready, hshape⟩ := shape_write henv h.left hc hwrap
    obtain ⟨-, hready', hshape'⟩ := shape_write henv' h.right hc (h.noWrap hwrap)
    rw [CRemoteParcel.perform, CRemoteParcel.perform]
    exact ⟨hready, hready', by rw [hshape, hshape', h.shape]⟩
  | writeAligned value =>
    obtain ⟨hready, hshape⟩ := shape_writeAligned henv h.left hc hwrap
    obtain ⟨hready', hshape'⟩ := shape_writeAligned henv' h.right hc (h.noWrap hwrap)
    rw [CRemoteParcel.perform, CRemoteParcel.perform]
    exact ⟨hready, hready', by rw [hshape, hshape', h.shape]⟩
  | writeInplace len => exact hc.elim
  | writeInterfacePtr value nested => exact hc.elim
  | setDataSize size => exact hc.elim
  | setDataCapacity size => exact hc.elim
  | setDataPosition pos => exact hc.elim

end

theorem writeVisits_append (env : Allocator) (cs ds : List WriteCall) (p : CRemoteParcel) :
    writeVisits env (cs ++ ds) p
      = writeVisits env cs p ++ writeVisits env ds (performAll env cs p) := by
  induction cs generalizing p with
  | nil => simp [writeVisits, performAll]
  | cons c cs ih => simp only [List.cons_append, writeVisits, performAll, ih, List.append_assoc]

theorem mem_callVisits_self (env : Allocator) (c : WriteCall) (p : CRemoteParcel) :
    (p, c) ∈ callVisits env c p := by
  cases c <;> simp [callVisits]

section

variable {env env' : Allocator} (henv : env.Succeeds) (henv' : env'.Succeeds)
include henv henv'

theorem twin_performAll (cs : List WriteCall) (hcs : ∀ c ∈ cs, Sized c) :
    ∀ p q : CRemoteParcel, Twin p q → (∀ x ∈ writeVisits env cs p, x.1.NoWrap x.2) →
      Twin (performAll env cs p) (performAll env' cs q) := by
  induction cs with
  | nil =>
    intro p q h _
    rw [performAll, performAll]
    exact h
  | cons c cs ih =>
    intro p q h hwrap
    rw [writeVisits] at hwrap
    rw [performAll, performAll]
    refine ih (fun d hd => hcs d (List.mem_cons_of_mem _ hd)) _ _ ?_
      fun x hx => hwrap x (List.mem_append_right _ hx)
    exact h.perform henv henv' (hcs c List.mem_cons_self)
      (hwrap _ (List.mem_append_left _ (mem_callVisits_self env c p)))

end

/-- A write of a value or of bytes. -/
inductive PlainWrite
  | value (ptr : UInt32) (v : Value)
  | bytes (data : List UInt8)

/-- The operation: a typed writer, or `Write` of all the bytes. -/
def PlainWrite.op : PlainWrite → WriteOp
  | .value ptr v => .value ptr v
  | .bytes data => .call (.write data (sizeOf32 data))

theorem sizeOf32_le (bs : List UInt8) : (sizeOf32 bs).toNat ≤ bs.length := by
  rw [sizeOf32, UInt32.toNat_ofNat']
  exact Nat.mod_le _ _

theorem sized_terminated (s : CString) :
    Sized (.write s.terminated (UInt32.ofNat s.chars.length + 1)) := by
  have hone : UInt32.ofNat s.chars.length + 1 = sizeOf32 s.terminated := by
    rw [sizeOf32, s.length_terminated, UInt32.ofNat_add]
    rfl
  rw [hone]
  exact sizeOf32_le _

theorem sized_stringCalls (s : CarString) : ∀ c ∈ stringCalls s, Sized c := by
  cases s with
  | none => simp [stringCalls, Sized]
  | some s =>
    simp only [stringCalls, List.forall_mem_cons]
    exact ⟨by simp [Sized], sized_terminated s, nofun⟩

/-- The calls of plain writes are sized. -/
theorem sized_opCalls (env : Allocator) (p : CRemoteParcel) (w : PlainWrite) :
    ∀ c ∈ opCalls env p w.op, Sized c := by
  cases w with
  | value ptr v =>
    cases v with
    | string v => exact sized_stringCalls v
    | eguid v =>
      simp only [PlainWrite.op, opCalls, valueCalls, List.forall_mem_cons]
      refine ⟨by simp [Sized], ?_⟩
      split
      · simp
      · simp only [List.forall_mem_cons]
        exact ⟨sized_terminated v.mUunm, List.forall_mem_nil _⟩
    | struct v =>
      cases v with
      | none => simp [PlainWrite.op, opCalls, valueCalls, Sized]
      | some bs =>
        simp only [PlainWrite.op, opCalls, valueCalls, List.forall_mem_cons]
        exact ⟨by simp [Sized], by simp [Sized], sizeOf32_le bs, List.forall_mem_nil _⟩
    | _ => simp [PlainWrite.op, opCalls, valueCalls, Sized]
  | bytes data =>
    simp only [PlainWrite.op, opCalls, List.forall_mem_cons]
    exact ⟨sizeOf32_le data, List.forall_mem_nil _⟩

section

variable {env env' : Allocator} (henv : env.Succeeds) (henv' : env'.Succeeds)
include henv henv'

/-- Both parcels get the same calls: `WriteEGuid` does not stop early in either. -/
theorem opCalls_eq {p q : CRemoteParcel} (h : Twin p q) (w : PlainWrite)
    (hwrap : ∀ x ∈ writeVisits env (opCalls env p w.op) p, x.1.NoWrap x.2) :
    opCalls env' q w.op = opCalls env p w.op := by
  rcases w with ⟨ptr, v⟩ | data
  · cases v with
    | eguid v =>
      have hfirst : p.NoWrap (.write (v.bytes ptr) 24) := by
        refine hwrap (p, .write (v.bytes ptr) 24) ?_
        change _ ∈ writeVisits env (.write (v.bytes ptr) 24 :: _) p
        rw [writeVisits]
        exact List.mem_append_left _ (mem_callVisits_self env _ p)
      have hp := (shape_write henv h.left (by simp) hfirst).1
      have hq := (shape_write henv' h.right (by simp) (h.noWrap hfirst)).1
      simp only [PlainWrite.op, opCalls, valueCalls, hp, hq]
    | struct v => cases v <;> rfl
    | _ => rfl
  · rfl

/-- **Plain writes on both parcels**, step by step. -/
theorem twin_runOps (ws : List PlainWrite) :
    ∀ p q : CRemoteParcel, Twin p q →
      (∀ x ∈ writeVisits env (opsCalls env (ws.map PlainWrite.op) p) p, x.1.NoWrap x.2) →
      Twin (runOps env (ws.map PlainWrite.op) p) (runOps env' (ws.map PlainWrite.op) q) := by
  induction ws with
  | nil => exact fun p q h _ => h
  | cons w ws ih =>
    intro p q h hwrap
    rw [List.map_cons, opsCalls] at hwrap
    rw [List.map_cons, runOps, runOps]
    rw [writeVisits_append, performAll_opCalls] at hwrap
    have hfirst : ∀ x ∈ writeVisits env (opCalls env p w.op) p, x.1.NoWrap x.2 :=
      fun x hx => hwrap x (List.mem_append_left _ hx)
    refine ih _ _ ?_ fun x hx => hwrap x (List.mem_append_right _ hx)
    rw [← performAll_opCalls env, ← performAll_opCalls env', opCalls_eq henv henv' h w hfirst]
    exact twin_performAll henv henv' _ (sized_opCalls env p w) p q h hfirst

end

theorem twin_new : Twin {} {} := ⟨ready_new, ready_new, rfl⟩

/-- **The same values, the same bytes.** In two runs of the same writes on new parcels, whatever the
fresh memory holds in each, the data is the same in size and content, as long as no growth step of
the first run leaves less room than it was asked for. -/
theorem same_bytes (env env' : { env : Allocator // env.Succeeds }) (ws : List PlainWrite)
    (h : ∀ x ∈ writeVisits env.1 (opsCalls env.1 (ws.map PlainWrite.op) {}) {}, x.1.NoWrap x.2) :
    (runOps env.1 (ws.map PlainWrite.op) {}).mDataSize
        = (runOps env'.1 (ws.map PlainWrite.op) {}).mDataSize ∧
      (runOps env.1 (ws.map PlainWrite.op) {}).contents
        = (runOps env'.1 (ws.map PlainWrite.op) {}).contents := by
  have htwin := twin_runOps env.2 env'.2 ws {} {} twin_new h
  exact ⟨htwin.size, htwin.contents⟩

/-- Memory that is full of a byte. -/
def filled (b : UInt8) : Allocator := fun _ _ => some fun _ => b

theorem filled_succeeds (b : UInt8) : (filled b).Succeeds := fun _ _ => rfl

/-- A byte, a string of three characters, an identifier with a name, and five bytes. -/
def mixedWrites : List PlainWrite :=
  [.value 0 (.byte 1), .value 0 (.string (some ⟨[0x61, 0x62, 0x63], by decide⟩)),
    .value 7 (.eguid ⟨⟨1, 2, 3, 4⟩, ⟨[0x61], zero_notMem_a⟩, 5⟩), .bytes [1, 2, 3, 4, 5]]

theorem same_bytes_mixed :
    (∀ x ∈ writeVisits (filled 0) (opsCalls (filled 0) (mixedWrites.map PlainWrite.op) {}) {},
      x.1.NoWrap x.2) ∧
    (runOps (filled 0) (mixedWrites.map PlainWrite.op) {}).contents
      = (runOps (filled 1) (mixedWrites.map PlainWrite.op) {}).contents := by
  have hwrap : ∀ x ∈ writeVisits (filled 0)
      (opsCalls (filled 0) (mixedWrites.map PlainWrite.op) {}) {}, x.1.NoWrap x.2 := by
    decide +kernel
  exact ⟨hwrap,
    (same_bytes ⟨filled 0, filled_succeeds 0⟩ ⟨filled 1, filled_succeeds 1⟩ mixedWrites hwrap).2⟩

/-! ### Where the product wraps -/

/-- The growth step for `0x60000000` bytes makes a block of `0x10000000`. -/
theorem write_huge (b : UInt8) (data : List UInt8) :
    write (filled b) data 0x60000000 {} = (NOERROR,
      { mData := some (store (fun _ => b) 0 (data.take 0x60000000)), mDataSize := 0x60000000
        mDataPos := 0x60000000, mDataCapacity := 0x10000000, requests := 1 }) := by
  have hpad : padSize 0x60000000 = 0x60000000 := by decide
  simp [write, writeInplace, hpad, growData, continueWrite, filled, writeInplaceAt, finishWrite,
    memcpy]

/-- The next growth step keeps what is inside that block. -/
theorem write_behind_huge (b : UInt8) (d : Block) (data : List UInt8) :
    write (filled b) data 0x40000000 { mData := some d, mDataSize := 0x60000000
                                       mDataPos := 0x60000000, mDataCapacity := 0x10000000
                                       requests := 1 } = (NOERROR,
      { mData := some (store (fun i => if i < 0x10000000 then d i else b) 0x60000000
          (data.take 0x40000000))
        mDataSize := 0xA0000000, mDataPos := 0xA0000000, mDataCapacity := 0x70000000
        requests := 2 }) := by
  have hpad : padSize 0x40000000 = 0x40000000 := by decide
  simp [write, writeInplace, hpad, growData, continueWrite, filled, writeInplaceAt, finishWrite,
    memcpy]

def hugeWrites : List PlainWrite :=
  [.bytes (List.replicate 0x60000000 0), .bytes (List.replicate 0x40000000 0)]

theorem runOps_hugeWrites (b : UInt8) :
    (runOps (filled b) (hugeWrites.map PlainWrite.op) {}).mDataSize = 0xA0000000 ∧
      (runOps (filled b) (hugeWrites.map PlainWrite.op) {}).block 0x10000000 = b := by
  have h1 : sizeOf32 (List.replicate 0x60000000 0) = 0x60000000 := by
    rw [sizeOf32, List.length_replicate]
    rfl
  have h2 : sizeOf32 (List.replicate 0x40000000 0) = 0x40000000 := by
    rw [sizeOf32, List.length_replicate]
    rfl
  simp only [hugeWrites, List.map_cons, List.map_nil, PlainWrite.op, h1, h2, runOps, runOp, perform,
    write_huge, write_behind_huge, true_and]
  simp only [block, Option.getD_some]
  rw [store_apply_of_lt _ (by decide), if_neg (by decide)]

/-- A byte of fresh memory is among the data. -/
theorem hugeWrites_differ :
    (runOps (filled 0) (hugeWrites.map PlainWrite.op) {}).contents
      ≠ (runOps (filled 1) (hugeWrites.map PlainWrite.op) {}).contents := by
  intro h
  obtain ⟨hs0, h0⟩ := runOps_hugeWrites 0
  obtain ⟨hs1, h1⟩ := runOps_hugeWrites 1
  rw [contents, contents, hs0, hs1, load, load, List.map_inj_left] at h
  have hbyte := h 0x10000000 (List.mem_range.mpr (by decide))
  rw [Nat.zero_add, h0, h1] at hbyte
  exact absurd hbyte (by decide)

end CRemoteParcel

end ElastosCar
