import ElastosCar.Marshal.InArgs

/-!
# The parcel of linux_rpc as an IParcel

`CRemoteParcel` of linux_rpc behind the interface of the marshalling functions, with
`ReadInterfacePtr`, and its wire format.
-/

namespace ElastosCar

namespace CRemoteParcel

/-! ### ReadInterfacePtr -/

/-- The search forward from `opos`; `k` is the number of entries after it. -/
def searchForward (objs : ℕ → UInt32) (dpos : UInt32) : (k opos : ℕ) → ℕ
  | 0, opos => opos
  | k + 1, opos => if objs opos < dpos then searchForward objs dpos k (opos + 1) else opos

/-- The search backward from `opos`. -/
def searchBackward (objs : ℕ → UInt32) (dpos : UInt32) : (opos : ℕ) → ℕ
  | 0 => 0
  | opos + 1 => if objs (opos + 1) > dpos then searchBackward objs dpos opos else opos + 1

/-- The index behind the entry of `mObjects` for the position `dpos`. -/
def findObject (dpos : UInt32) (p : CRemoteParcel) : Option UInt32 :=
  let objs i := p.mObjects.getD i 0
  let n := p.mObjects.length
  if n = 0 then none
  else
    let hint := p.mNextObjectHint.toNat
    let opos := if hint < n then searchForward objs dpos (n - 1 - hint) hint else n - 1
    if objs opos = dpos then some (UInt32.ofNat opos + 1)
    else
      let opos := searchBackward objs dpos opos
      if objs opos = dpos then some (UInt32.ofNat opos + 1) else none

/-- `ReadInterfacePtr`. The pointer is stored, and set to zero again when the position is not
in the list of objects. -/
def readInterfacePtr (itfs : Interfaces) : ReadM (ECode × ItfSlot) := do
  match ← readAligned 4 with
  | (ec, none) => pure (ec, ⟨some none, none⟩)
  | (ec, some bs) =>
    if wordOf bs = MSH_NULL then pure (ec, ⟨some none, none⟩)
    else
      carAssert (wordOf bs = MSH_NOT_NULL)
      let p ← get
      if p.mDataPos + 28 ≤ p.mDataSize then
        let pack ← peek p.mDataPos.toNat 28
        set (p.advance 28)
        match ← itfs.unmarshalPtr pack with
        | .error ec => pure (ec, ⟨none, none⟩)
        | .ok x =>
          let q ← get
          match q.findObject p.mDataPos with
          | some hint =>
            set { q with mNextObjectHint := hint }
            pure (NOERROR, ⟨some x, x⟩)
          | none => pure (NOERROR, ⟨some none, x⟩)
      else pure (NOERROR, ⟨some none, none⟩)

end CRemoteParcel

/-! ### The interface -/

/-- What the operations of the parcel depend on besides its state: the allocator, the
interfaces, and what is in uninitialised locals at a state of the parcel. -/
structure RpcEnv where
  alloc : Allocator
  itfs : Interfaces
  junk : CRemoteParcel → Junk
  arrayJunk : CRemoteParcel → CRemoteParcel.ArrayJunk

open CRemoteParcel in
/-- The parcel as the marshalling functions see it. -/
def rpcParcel (E : RpcEnv) : IParcel CRemoteParcel where
  writeInt32 := writeInt32 E.alloc
  writeInt64 := writeInt64 E.alloc
  writeStruct := writeStruct E.alloc
  writeEMuid := writeEMuid E.alloc
  writeEGuid := writeEGuid E.alloc
  writeString := writeString E.alloc
  writeArrayOf := writeArrayOf E.alloc E.itfs
  writeInterfacePtr x :=
    writeInterfacePtr E.alloc (x.map E.itfs.marshal) (x.elim id E.itfs.writeToParcel)
  readByte p := readByte (E.junk p).word p
  readInt16 p := readInt16 (E.junk p).word p
  readInt32 p := readInt32 (E.junk p).word p
  readInt64 p := readInt64 (E.junk p).dword p
  readStruct p := readStruct (E.junk p).word (E.junk p).len p
  readEMuid p := readEMuid (E.junk p).id p
  readEGuid := readEGuid
  readString p := readString (E.junk p).word p
  readArrayOf p := readArrayOf E.itfs (E.arrayJunk p) p
  readInterfacePtr := readInterfacePtr E.itfs

/-! ### The wire format -/

/-- Fewer than `2 ^ 30` bytes, written by successful writes to a new parcel. -/
def rpcStream : Stream CRemoteParcel UInt8 where
  Room bs := bs.length < 2 ^ 30
  Wrote bs p := p.Ready ∧ p.contents = bs
  Left bs p := p.Holds bs
  room_of_append h := by
    rw [List.length_append] at h
    omega

section

open CRemoteParcel

theorem appends_of_appends {w : CRemoteParcel → ECode × CRemoteParcel} {bs : List UInt8}
    (h : Appends w bs) : rpcStream.Appends NOERROR w bs := by
  rintro p ss ⟨hp, rfl⟩ hroom
  obtain ⟨q, hq, hready, hcontents, -⟩ := h p hp (by
    rw [← length_contents, ← List.length_append]
    exact hroom)
  exact ⟨q, hq, hready, hcontents⟩

/-- A read whose specification does not depend on what is in uninitialised locals. -/
theorem reads_of_reads {α β : Type} (r : β → ReadM α) {j : CRemoteParcel → β} {bs : List UInt8}
    {v : α} (h : ∀ k, CRemoteParcel.Reads (r k) bs v) :
    rpcStream.Reads (fun p => r (j p) p) bs (· = v) :=
  fun p rest hp => ⟨v, _, h _ p rest hp, rfl, hp.advance⟩

/-! ### Interfaces -/

/-- The interface is marshalled without an error, its object writes `body` to the parcel, and
whoever reads its pack reads `body` too and gets an interface. -/
structure Interfaces.Lawful (itfs : Interfaces) (x : Itf) (body : List UInt8) : Prop where
  ok : failed (itfs.marshal x).ec = false
  writes : ∀ p : CRemoteParcel, p.Ready → p.mDataSize.toNat + body.length < 2 ^ 30 →
    (itfs.writeToParcel x p).Ready ∧ (itfs.writeToParcel x p).contents = p.contents ++ body
  reads : ∃ y, CRemoteParcel.Reads (itfs.unmarshalPtr (itfs.marshal x).pack) body (.ok y)
  reads_element : ∃ y, CRemoteParcel.Reads
    (itfs.unmarshal (itfs.elementPack x).1 (itfs.netAddress x)) body (.ok y)

/-- An interface pointer on the wire. -/
def wireInterface (itfs : Interfaces) (body : Itf → List UInt8) : Option Itf → List UInt8
  | none => wordBytes MSH_NULL
  | some x => wordBytes MSH_NOT_NULL ++ ((itfs.marshal x).pack ++ body x)

/-- An element of an array of interfaces. -/
def wireElement (itfs : Interfaces) (body : Itf → List UInt8) : Option Itf → List UInt8
  | none => wire32 MSH_NULL
  | some x =>
    wire32 MSH_NOT_NULL
      ++ (wireString (itfs.netAddress x) ++ (padded (itfs.elementPack x).1 ++ body x))

section

variable {E : RpcEnv} (henv : E.alloc.Succeeds) {body : Itf → List UInt8}

include henv in
/-- Up to `restart_write`, `WriteInterfacePtr` finds or makes room for 32 bytes. -/
theorem beginInterface_eq {p : CRemoteParcel} (hp : p.Ready) (hlt : p.mDataSize.toNat < 2 ^ 30)
    (value : Option Marshalled) :
    ∃ q : CRemoteParcel, p.beginInterface E.alloc value = q.beginInterfaceAt value ∧ q.Ready ∧ q.mData.isSome ∧
      q.contents = p.contents ∧ q.mDataSize = p.mDataSize ∧
      q.mDataSize.toNat + 32 ≤ q.mDataCapacity.toNat := by
  have hreserve : ∃ q, p.reservePack E.alloc = (NOERROR, q) ∧ Reserved p q 32 := by
    rw [reservePack]
    rcases reserve henv hp (n := 32) (Or.inr (by simp only [UInt32.reduceToNat]; omega))
      (Or.inl (by decide)) with ⟨h, hr⟩ | ⟨h, q, hq, hr⟩
    · exact ⟨p, by rw [if_pos (by rwa [add_assoc])], hr⟩
    · exact ⟨q, by rw [if_neg (by rwa [add_assoc]), hq], hr⟩
  obtain ⟨q, hq, hr⟩ := hreserve
  have hroom := hr.room
  rw [beginInterface, hq]
  simp only [failed_NOERROR, Bool.false_eq_true, if_false]
  rw [reserveObject]
  split
  · next h =>
    split at h
    · cases h
    · simp only [Option.map_eq_none_iff] at h
      have := henv q.requests ((UInt32.ofNat q.mObjects.length + 2) * 3 / 2 * 4).toNat
      rw [h] at this
      cases this
  · next r hr' =>
    split at hr'
    · cases hr'
      exact ⟨q, rfl, hr.ready, hr.data, hr.contents_eq, hr.size, hroom⟩
    · obtain ⟨_, -, rfl⟩ := Option.map_eq_some_iff.mp hr'
      exact ⟨_, rfl, ⟨⟨hr.ready.null, hr.ready.size_le, hr.ready.pos_le⟩, hr.ready.pos_eq,
        hr.ready.error⟩, hr.data, hr.contents_eq, hr.size, hroom⟩

theorem ready_pushObject {p : CRemoteParcel} (hp : p.Ready) : p.pushObject.Ready :=
  ⟨⟨hp.null, hp.size_le, hp.pos_le⟩, hp.pos_eq, hp.error⟩

include henv in
/-- **Writing an interface pointer** appends its wire format. -/
theorem appends_writeInterfacePtr (x : Option Itf)
    (hx : ∀ y, x = some y → E.itfs.Lawful y (body y)) :
    rpcStream.Appends NOERROR ((rpcParcel E).writeInterfacePtr x)
      (wireInterface E.itfs body x) := by
  rintro p ss ⟨hp, rfl⟩ hroom
  have hroom : p.mDataSize.toNat + (wireInterface E.itfs body x).length < 2 ^ 30 := by
    rw [← length_contents, ← List.length_append]
    exact hroom
  obtain ⟨q, hq, hready, hdata, hcontents, hsize, hcap⟩ := beginInterface_eq henv hp (by omega)
    (x.map E.itfs.marshal)
  change ∃ q', writeInterfacePtr E.alloc (x.map E.itfs.marshal) (x.elim id E.itfs.writeToParcel) p
    = (NOERROR, q') ∧ q'.Ready ∧ q'.contents = _
  rw [writeInterfacePtr, hq, ← hcontents]
  cases x with
  | none =>
    have htag := appended_writeAlignedAt (reserved_self hready hdata
      (n := (wordBytes MSH_NULL).length) (by simp; omega))
    exact ⟨_, rfl, ready_pushObject htag.ready, htag.contents_eq⟩
  | some x =>
    have hlaw := hx x rfl
    have hlen := (E.itfs.marshal x).length_pack
    have hn : sizeOf32 (E.itfs.marshal x).pack = 28 := by rw [sizeOf32, hlen]; rfl
    simp only [wireInterface, List.length_append, length_wordBytes, hlen] at hroom
    have htag := appended_writeAlignedAt (reserved_self hready hdata
      (n := (wordBytes MSH_NOT_NULL).length) (by simp; omega))
    set r := q.writeAlignedAt (wordBytes MSH_NOT_NULL) with hr
    have hrsize : r.mDataSize.toNat = p.mDataSize.toNat + 4 := by
      rw [← length_contents, htag.contents_eq, List.length_append, length_contents, hsize,
        length_wordBytes]
    have hrdata : r.mData.isSome := by
      simpa [hr, writeAlignedAt, finishWrite, memcpy] using hdata
    have hpack := appended_writeAlignedAt (reserved_self htag.ready hrdata
      (n := (E.itfs.marshal x).pack.length) (by
        change _ ≤ q.mDataCapacity.toNat
        rw [hrsize, hlen]
        rw [hsize] at hcap
        omega))
    have hbegin : q.beginInterfaceAt (some (E.itfs.marshal x))
        = .marshalled (r.writeAlignedAt (E.itfs.marshal x).pack) := by
      simp only [beginInterfaceAt, hlaw.ok, Bool.false_eq_true, if_false]
      rw [writeAlignedAt, hn]
      rfl
    have hpsize : (r.writeAlignedAt (E.itfs.marshal x).pack).mDataSize.toNat
        = p.mDataSize.toNat + 32 := by
      rw [← length_contents, hpack.contents_eq, List.length_append, length_contents, hrsize, hlen]
    obtain ⟨hready', hcontents'⟩ := hlaw.writes _ hpack.ready (by omega)
    refine ⟨_, by rw [Option.map_some, hbegin]; rfl, ready_pushObject hready', ?_⟩
    change (E.itfs.writeToParcel x _).contents = _
    rw [hcontents', hpack.contents_eq, htag.contents_eq, wireInterface]
    simp only [List.append_assoc]

theorem holds_hint {p : CRemoteParcel} {bs : List UInt8} (h : p.Holds bs) (hint : UInt32) :
    Holds { p with mNextObjectHint := hint } bs := ⟨h.size, h.lt, h.bytes⟩

/-- **Reading an interface pointer** consumes its wire format. -/
theorem reads_readInterfacePtr (x : Option Itf)
    (hx : ∀ y, x = some y → E.itfs.Lawful y (body y)) :
    rpcStream.Reads ((rpcParcel E).readInterfacePtr) (wireInterface E.itfs body x)
      fun r => r.1 = NOERROR ∧ r.2.stored.isSome := by
  intro p rest hp
  change ∃ a q, readInterfacePtr E.itfs p = .ok (a, q) ∧ _ ∧ Holds q rest
  have htag (v : UInt32) : Reads (readAligned 4) (wordBytes v) (NOERROR, some (wordBytes v)) :=
    reads_readAligned (by rw [sizeOf32, length_wordBytes]; rfl) (by simp)
  cases x with
  | none =>
    have h := htag MSH_NULL p rest hp
    refine ⟨(NOERROR, ⟨some none, none⟩), p.advance (sizeOf32 (wordBytes MSH_NULL)), ?_,
      ⟨rfl, rfl⟩, hp.advance⟩
    rw [readInterfacePtr, Run.bind_ok h]
    simp only [wordOf_wordBytes, if_true]
    rfl
  | some x =>
    obtain ⟨y, hy⟩ := (hx x rfl).reads
    have hlen := (E.itfs.marshal x).length_pack
    have hn : sizeOf32 (E.itfs.marshal x).pack = 28 := by rw [sizeOf32, hlen]; rfl
    change Holds p (wordBytes MSH_NOT_NULL ++ ((E.itfs.marshal x).pack ++ body x) ++ rest) at hp
    simp only [List.append_assoc] at hp
    have h := htag MSH_NOT_NULL p _ hp
    set q := p.advance (sizeOf32 (wordBytes MSH_NOT_NULL)) with hq
    have hholds : Holds q ((E.itfs.marshal x).pack ++ (body x ++ rest)) := hp.advance
    have hcan : q.mDataPos + 28 ≤ q.mDataSize := by
      rw [UInt32.le_iff_toNat_le, ← hn, hholds.toNat_add]
      exact hholds.length_le
    have hpeek := hholds.peek
    rw [hlen] at hpeek
    have hbody := hy (q.advance 28) rest (by rw [← hn]; exact hholds.advance)
    have hend : Holds ((q.advance 28).advance (sizeOf32 (body x))) rest := by
      rw [← hn]
      exact hholds.advance.advance
    -- the object list decides what is stored, not what is read
    have hrun : ∃ r q', readInterfacePtr E.itfs p = .ok ((NOERROR, r), q') ∧ r.stored.isSome ∧
        Holds q' rest := by
      rw [readInterfacePtr, Run.bind_ok h]
      simp only [wordOf_wordBytes, MSH_NOT_NULL_ne, if_false]
      rw [Run.bind_ok (show carAssert _ q = .ok ((), q) by simp [carAssert]), Run.get_bind,
        if_pos hcan, Run.bind_ok hpeek, Run.set_bind, Run.bind_ok hbody]
      simp only [Run.get_bind]
      cases findObject q.mDataPos ((q.advance 28).advance (sizeOf32 (body x))) with
      | some hint => exact ⟨⟨some y, y⟩, _, rfl, rfl, holds_hint hend hint⟩
      | none => exact ⟨⟨some none, y⟩, _, rfl, rfl, hend⟩
    obtain ⟨r, q', hrun, hstored, hleft⟩ := hrun
    exact ⟨_, q', hrun, ⟨rfl, hstored⟩, hleft⟩

/-! ### Arrays of interfaces -/

include henv in
theorem appends_writeInterfaces (xs : List (Option Itf))
    (hxs : ∀ x, some x ∈ xs → E.itfs.Lawful x (body x)) :
    rpcStream.Appends NOERROR (writeInterfaces E.alloc E.itfs xs)
      (xs.map (wireElement E.itfs body)).flatten := by
  induction xs with
  | nil =>
    rintro p ss hp -
    exact ⟨p, rfl, by simpa using hp⟩
  | cons x xs ih =>
    have ih := ih fun y hy => hxs y (List.mem_cons_of_mem _ hy)
    rintro p ss hp hroom
    rw [List.map_cons, List.flatten_cons, ← List.append_assoc] at hroom ⊢
    have hroom' := rpcStream.room_of_append hroom
    cases x with
    | none =>
      obtain ⟨q, hq, hwrote⟩ := appends_of_appends (appends_writeInt32 henv MSH_NULL) p ss hp hroom'
      obtain ⟨r, hr, hwrote'⟩ := ih q _ hwrote hroom
      exact ⟨r, by rw [writeInterfaces, hq]; exact hr, hwrote'⟩
    | some x =>
      have hlaw := hxs x List.mem_cons_self
      have hlen : sizeOf32 (E.itfs.elementPack x).1 = 28 := by
        rw [sizeOf32, (E.itfs.elementPack x).2]
        rfl
      simp only [wireElement, ← List.append_assoc] at hroom hroom' ⊢
      obtain ⟨q₁, hq₁, hw₁⟩ := appends_of_appends (appends_writeInt32 henv MSH_NOT_NULL) p ss hp
        (rpcStream.room_of_append (rpcStream.room_of_append (rpcStream.room_of_append hroom')))
      obtain ⟨q₂, hq₂, hw₂⟩ := appends_of_appends
        (appends_writeString henv (E.itfs.netAddress x)) q₁ _ hw₁
        (rpcStream.room_of_append (rpcStream.room_of_append hroom'))
      obtain ⟨q₃, hq₃, hw₃⟩ := appends_of_appends
        (appends_write henv (E.itfs.elementPack x).1 hlen) q₂ _ hw₂
        (rpcStream.room_of_append hroom')
      obtain ⟨hready, hcontents⟩ := hlaw.writes q₃ hw₃.1 (by
        rw [← length_contents, hw₃.2, ← List.length_append]
        exact hroom')
      obtain ⟨r, hr, hwrote⟩ := ih (E.itfs.writeToParcel x q₃) _
        ⟨hready, by rw [hcontents, hw₃.2]⟩ hroom
      refine ⟨r, ?_, hwrote⟩
      simp only [writeInterfaces, hq₁, hlaw.ok, Bool.false_eq_true, if_false, hq₂, hq₃]
      exact hr

theorem reads_readInterfaces (junkPack : List UInt8) (xs : List (Option Itf))
    (hxs : ∀ x, some x ∈ xs → E.itfs.Lawful x (body x)) (tag : UInt32) {n : ℕ}
    (hn : xs.length = n) :
    ∃ ys, CRemoteParcel.Reads (readInterfaces E.itfs junkPack n tag)
      (xs.map (wireElement E.itfs body)).flatten (NOERROR, ys) := by
  subst hn
  induction xs generalizing tag with
  | nil => exact ⟨_, Reads.pure _⟩
  | cons x xs ih =>
    have ih := ih fun y hy => hxs y (List.mem_cons_of_mem _ hy)
    rw [List.map_cons, List.flatten_cons]
    cases x with
    | none =>
      obtain ⟨ys, hys⟩ := ih MSH_NULL
      refine ⟨⟨none :: ys.1, by simp [ys.2]⟩, (reads_readInt32 MSH_NULL tag).bind ?_⟩
      simp only [ne_eq, not_true_eq_false, if_false]
      exact hys.map rfl
    | some x =>
      obtain ⟨y, hy⟩ := (hxs x List.mem_cons_self).reads_element
      obtain ⟨ys, hys⟩ := ih MSH_NOT_NULL
      have hlen : sizeOf32 (E.itfs.elementPack x).1 = 28 := by
        rw [sizeOf32, (E.itfs.elementPack x).2]
        rfl
      simp only [wireElement, List.append_assoc]
      refine ⟨⟨y :: ys.1, by simp [ys.2]⟩, (reads_readInt32 MSH_NOT_NULL tag).bind ?_⟩
      simp only [ne_eq, MSH_NOT_NULL_ne, not_false_eq_true, if_true]
      exact (reads_readString (E.itfs.netAddress x) 0).bind
        ((reads_read (E.itfs.elementPack x).1 hlen).bind (hy.bind (hys.map rfl)))

/-- The interfaces of an array are lawful. -/
def LawfulArray (itfs : Interfaces) (body : Itf → List UInt8) (q : CarQuintet) : Prop :=
  ∀ xs, q.payload = .interfaces xs → ∀ x, some x ∈ xs → itfs.Lawful x (body x)

/-- An array behind its null tag, with its interfaces. -/
def wireArrayOf (itfs : Interfaces) (body : Itf → List UInt8) (q : CarQuintet) : List UInt8 :=
  match q.payload with
  | .interfaces xs => wire32 MSH_NOT_NULL ++ (q.bytes ++ (xs.map (wireElement itfs body)).flatten)
  | _ => wireArray q

theorem plain_or_interfaces (q : CarQuintet) : q.Plain ∨ ∃ xs, q.payload = .interfaces xs := by
  have hfits := q.fits
  cases hp : q.payload with
  | bytes bs =>
    rw [hp] at hfits
    exact Or.inl hfits.2.1
  | strings ss =>
    rw [hp] at hfits
    refine Or.inl fun h => absurd (hfits.1.symm.trans h) (by decide)
  | interfaces xs => exact Or.inr ⟨xs, rfl⟩

theorem wireArrayOf_plain {q : CarQuintet} (hq : q.Plain) :
    wireArrayOf E.itfs body q = wireArray q := by
  have hfits := q.fits
  rw [wireArrayOf]
  split
  · next xs hp =>
    rw [hp] at hfits
    exact absurd hfits.1 hq
  · rfl

include henv in
/-- Writing an array, its interfaces being lawful, appends its wire format. -/
theorem appends_writeArrayOf' {q : CarQuintet} (hq : LawfulArray E.itfs body q) :
    rpcStream.Appends NOERROR (writeArrayOf E.alloc E.itfs (some q))
      (wireArrayOf E.itfs body q) := by
  rcases plain_or_interfaces q with hplain | ⟨xs, hp⟩
  · rw [wireArrayOf_plain hplain]
    exact appends_of_appends (appends_writeArrayOf henv E.itfs hplain)
  · rintro p ss hpw hroom
    rw [wireArrayOf, hp] at hroom ⊢
    simp only [← List.append_assoc] at hroom ⊢
    obtain ⟨r, hr, hw⟩ := appends_of_appends ((appends_writeInt32 henv MSH_NOT_NULL).seq
      (appends_quintet henv q))
      p ss hpw (by
        rw [← List.append_assoc]
        exact rpcStream.room_of_append hroom)
    rw [← List.append_assoc] at hw
    obtain ⟨r', hr', hw'⟩ := appends_writeInterfaces henv xs (hq xs hp) r _ hw hroom
    refine ⟨r', ?_, hw'⟩
    simp only [writeArrayOf, hp]
    rw [show write E.alloc q.bytes 20 (writeInt32 E.alloc MSH_NOT_NULL p).2 = (NOERROR, r) from hr]
    exact hr'

/-- Reading an array, its interfaces being lawful. -/
theorem reads_readArrayOf' (junk : ArrayJunk) {q : CarQuintet} (hq : LawfulArray E.itfs body q)
    (p : CRemoteParcel) (rest : List UInt8) (hp : Holds p (wireArrayOf E.itfs body q ++ rest)) :
    ∃ q', readArrayOf E.itfs junk p
        = .ok ((NOERROR, .array q'), p.advance (sizeOf32 (wireArrayOf E.itfs body q))) ∧
      (q.Plain → q'.SameContents q) := by
  rcases plain_or_interfaces q with hplain | ⟨xs, hxs⟩
  · rw [wireArrayOf_plain hplain] at hp ⊢
    exact ⟨_, reads_readArrayOf E.itfs junk hplain p rest hp, fun _ => q.sameContents_copy _⟩
  · have hfits := q.fits
    rw [hxs] at hfits
    have htype : q.mFlags &&& TypeMask = Type_IObject := hfits.1
    have hlen := hp.length_le
    have hlt := hp.lt
    have hne : Type_IObject ≠ Type_String := by decide
    rw [wireArrayOf, hxs] at hlen hp ⊢
    have h4 : 4 * xs.length ≤ (xs.map (wireElement E.itfs body)).flatten.length := by
      clear hq hxs hfits hp hlen
      induction xs with
      | nil => simp
      | cons x xs ih =>
        have hx : 4 ≤ (wireElement E.itfs body x).length := by
          cases x <;> simp [wireElement]
        simp only [List.map_cons, List.flatten_cons, List.length_append, List.length_cons]
        omega
    have hsize : refusesSize q.mSize = false := by
      have hn := hfits.2
      rw [UInt32.toNat_div] at hn
      simp only [List.length_append, UInt32.reduceToNat] at hlen hn
      have hmax : maxQuintetSize.toNat = 0x7FFFFFFF - 20 - 16 := by decide
      rw [refusesSize, Bool.or_eq_false_iff, decide_eq_false_iff_not, decide_eq_false_iff_not,
        gt_iff_lt, UInt32.le_iff_toNat_le, UInt32.lt_iff_toNat_lt, hmax]
      exact ⟨by simp only [UInt32.reduceToNat]; omega, by omega⟩
    have halloc : ∃ q', Reads (readAllocated E.itfs junk q.mFlags q.mSize MSH_NOT_NULL)
        (xs.map (wireElement E.itfs body)).flatten (NOERROR, .array q') := by
      simp only [readAllocated, hsize, Bool.false_eq_true, if_false]
      split
      · obtain ⟨ys, hys⟩ := reads_readInterfaces junk.pack xs (hq xs hxs) MSH_NOT_NULL hfits.2
        have hel : Reads (readElements E.itfs junk.pack (q.mFlags &&& TypeMask) q.mSize MSH_NOT_NULL)
            (xs.map (wireElement E.itfs body)).flatten
            (NOERROR, ⟨.interfaces ys.1, htype, ys.2⟩) := by
          rw [readElements, dif_neg (by rw [htype]; exact hne), dif_pos htype]
          exact hys.map rfl
        exact ⟨_, hel.map rfl⟩
      · next h0 =>
        have hnil : xs = [] := by
          have hn := hfits.2
          rw [not_not.mp h0] at hn
          exact List.eq_nil_of_length_eq_zero hn
        subst hnil
        exact ⟨_, Reads.pure _⟩
    obtain ⟨q', hq'⟩ := halloc
    have hreads : Reads (readArrayOf E.itfs junk)
        (wire32 MSH_NOT_NULL ++ (q.bytes ++ (xs.map (wireElement E.itfs body)).flatten))
        (NOERROR, .array q') := by
      refine (reads_readInt32 MSH_NOT_NULL junk.tag).bind ?_
      simp only [ne_eq, MSH_NOT_NULL_ne, not_false_eq_true, if_true]
      refine (reads_quintet q).bind ?_
      simp only [Option.getD_some, q.wordOf_take_bytes, q.wordOf_drop_bytes]
      exact hq'
    exact ⟨q', hreads p rest hp, fun h => absurd htype h⟩

/-! ### The codec -/

/-- The bytes of an argument. -/
def wireArg (itfs : Interfaces) (body : Itf → List UInt8) : ArgVal → List UInt8
  | .word v => wire32 v
  | .dword v => dwordBytes v
  | .emuid id => id.bytes
  | .eguid id ptr => id.bytes ptr ++ padded id.mUunm.terminated
  | .string s => wireString s
  | .array none => wire32 MSH_NULL
  | .array (some q) => wireArrayOf itfs body q
  | .struct none _ => wire32 MSH_NULL
  | .struct (some bs) size => wire32 MSH_NOT_NULL ++ wire32 size ++ padded bs
  | .interface x => wireInterface itfs body x

/-- The arguments that arrive: all but structs, with lawful interfaces. -/
def RpcCarries (itfs : Interfaces) (body : Itf → List UInt8) : ArgVal → Prop
  | .struct _ _ => False
  | .array (some q) => LawfulArray itfs body q
  | .interface x => ∀ y, x = some y → itfs.Lawful y (body y)
  | _ => True

/-- **The wire format of linux_rpc.** -/
def rpcCodec (E : RpcEnv) (henv : E.alloc.Succeeds) (body : Itf → List UInt8) :
    Codec rpcStream (rpcParcel E) where
  word := wire32
  appends_word v := appends_of_appends (appends_writeInt32 henv v)
  reads_word v := reads_of_reads (fun j : Junk => readInt32 j.word) fun j => reads_readInt32 v j.word
  arg := wireArg E.itfs body
  Carries := RpcCarries E.itfs body
  writes_arg v hv := by
    cases v with
    | word v => exact appends_of_appends (appends_writeInt32 henv v)
    | dword v => exact appends_of_appends (appends_writeAligned henv (by simp))
    | emuid id => exact appends_of_appends (appends_writeEMuid henv id)
    | eguid id ptr => exact appends_of_appends (appends_writeEGuid henv id ptr)
    | string s => exact appends_of_appends (appends_writeString henv s)
    | array q =>
      cases q with
      | none => exact appends_of_appends (appends_writeInt32 henv MSH_NULL)
      | some q => exact appends_writeArrayOf' henv hv
    | struct bs size => exact hv.elim
    | interface x => exact appends_writeInterfacePtr henv x hv
  reads_arg v hv := by
    cases v with
    | word v =>
      exact reads_of_reads (fun j : Junk => readInt32 j.word) fun j => reads_readInt32 v j.word
    | dword v =>
      exact reads_of_reads (fun j : Junk => readInt64 j.dword) fun j => reads_readInt64 v j.dword
    | emuid id =>
      exact reads_of_reads (fun j : Junk => readEMuid j.id) fun j => reads_readEMuid id j.id
    | eguid id ptr =>
      exact reads_of_reads (fun _ : Junk => readEGuid) (j := E.junk) fun _ => reads_readEGuid id ptr
    | string s =>
      exact reads_of_reads (fun j : Junk => readString j.word) fun j => reads_readString s j.word
    | array q =>
      cases q with
      | none =>
        have h (j : ArrayJunk) :
            CRemoteParcel.Reads (readArrayOf E.itfs j) (wire32 MSH_NULL) (NOERROR, .untouched) :=
          (reads_readInt32 MSH_NULL j.tag).map (by simp)
        exact (reads_of_reads (readArrayOf E.itfs) h).mono fun r hr => by simp [hr]
      | some q =>
        intro p rest hp
        obtain ⟨q', hrun, hsame⟩ := reads_readArrayOf' (E.arrayJunk p) hv p rest hp
        exact ⟨_, _, hrun, ⟨q', rfl, hsame⟩, hp.advance⟩
    | struct bs size => exact hv.elim
    | interface x => exact reads_readInterfacePtr x hv

end

end

end ElastosCar
