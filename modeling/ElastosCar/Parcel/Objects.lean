import ElastosCar.Marshal.Rpc
import ElastosCar.Parcel.Marshall

/-!
# The object table of a parcel

`WriteInterfacePtr` keeps a table of the objects in a parcel, `mObjects`, and `ReadInterfacePtr`
sets the pointer it has unmarshalled to zero again when the object is not in the table. The two
mean different positions by it: the writer records the position behind an object, the reader looks
for the position of its pack. What is recorded lies between two writes, a pack inside one, so the
search never succeeds (`findObject_eq_none`), and in a parcel that received its bytes from another
one the table is empty anyway.
-/

namespace ElastosCar

namespace CRemoteParcel

/-! ### Searching the table -/

theorem searchForward_le (objs : ℕ → UInt32) (dpos : UInt32) (k opos : ℕ) :
    searchForward objs dpos k opos ≤ opos + k := by
  induction k generalizing opos with
  | zero => exact le_rfl
  | succ k ih =>
    rw [searchForward]
    split
    · have := ih (opos + 1)
      omega
    · omega

theorem searchBackward_le (objs : ℕ → UInt32) (dpos : UInt32) (opos : ℕ) :
    searchBackward objs dpos opos ≤ opos := by
  induction opos with
  | zero => exact le_rfl
  | succ opos ih =>
    rw [searchBackward]
    split
    · omega
    · exact le_rfl

/-- Wherever the searches end, it is at an entry of the table. -/
theorem findObject_eq_none {p : CRemoteParcel} {dpos : UInt32} (h : dpos ∉ p.mObjects) :
    p.findObject dpos = none := by
  have hentry {i : ℕ} (hi : i < p.mObjects.length) : ¬ p.mObjects.getD i 0 = dpos := by
    rw [List.getD_eq_getElem _ _ hi]
    rintro rfl
    exact h (List.getElem_mem hi)
  rw [findObject]
  dsimp only
  split
  · rfl
  · next hn =>
    set opos := if p.mNextObjectHint.toNat < p.mObjects.length then
        searchForward (fun i => p.mObjects.getD i 0) dpos
          (p.mObjects.length - 1 - p.mNextObjectHint.toNat) p.mNextObjectHint.toNat
      else p.mObjects.length - 1 with hopos
    have hforward : opos < p.mObjects.length := by
      rw [hopos]
      split
      · have := searchForward_le (fun i => p.mObjects.getD i 0) dpos
          (p.mObjects.length - 1 - p.mNextObjectHint.toNat) p.mNextObjectHint.toNat
        omega
      · omega
    have hbackward := searchBackward_le (fun i => p.mObjects.getD i 0) dpos opos
    rw [if_neg (hentry hforward), if_neg (hentry (by omega))]

/-! ### Filling the table -/

theorem objects_growData (env : Allocator) (n : UInt32) (p : CRemoteParcel) :
    (p.growData env n).2.mObjects = p.mObjects := by
  rw [growData]
  split
  · rfl
  · rw [continueWrite]
    split
    · split
      · split <;> rfl
      · rfl
    · split <;> rfl

/-- Up to the end of its object, `WriteInterfacePtr` leaves the table alone. -/
theorem objects_beginInterface (env : Allocator) (value : Option Marshalled) (p : CRemoteParcel) :
    (p.beginInterface env value).parcel.mObjects = p.mObjects := by
  have hreserve : (p.reservePack env).2.mObjects = p.mObjects := by
    rw [reservePack]
    split
    · rfl
    · exact objects_growData env 32 p
  rw [beginInterface]
  split
  next ec q hq =>
  rw [hq] at hreserve
  split
  · exact hreserve
  · split
    · exact hreserve
    · next r hr =>
      have hobjects : r.mObjects = q.mObjects := by
        rw [reserveObject] at hr
        split at hr
        · obtain rfl := Option.some.inj hr
          rfl
        · obtain ⟨block, -, rfl⟩ := Option.map_eq_some_iff.mp hr
          rfl
      rw [← hreserve, ← hobjects, beginInterfaceAt.eq_def]
      split
      · rfl
      · split <;> rfl

/-- `WriteInterfacePtr` records the position behind the object. -/
theorem objects_writeInterfacePtr {env : Allocator} {value : Option Marshalled}
    {p q : CRemoteParcel} (h : p.writeInterfacePtr env value id = (NOERROR, q)) :
    q.mObjects = p.mObjects ++ [q.mDataPos] := by
  have hobjects := objects_beginInterface env value p
  rw [writeInterfacePtr] at h
  rcases hb : p.beginInterface env value with ⟨ec, r⟩ | r | r <;> rw [hb] at h hobjects <;> cases h
  · have hfailed := failed_of_beginInterface hb
    rw [failed_NOERROR] at hfailed
    cases hfailed
  · exact congrArg (· ++ [r.mDataPos]) hobjects
  · exact congrArg (· ++ [r.mDataPos]) hobjects

end CRemoteParcel

/-! ### Writing and reading in order -/

/-- `StdMarshalInterface` and `StdUnmarshalInterface` for objects that are not parcelable: the pack
of an object that exists leads back to it. -/
structure StdInterfaces where
  marshal : Itf → Marshalled
  unmarshal : List UInt8 → Except ECode (Option Itf)
  Exists : Itf → Prop
  ok : ∀ x, Exists x → failed (marshal x).ec = false
  undoes : ∀ x, Exists x → unmarshal (marshal x).pack = .ok (some x)

/-- As part of the runtime's marshalling: such an object writes nothing of its own. -/
def StdInterfaces.interfaces (m : StdInterfaces) : Interfaces where
  marshal := m.marshal
  netAddress _ := none
  elementPack _ := ⟨List.replicate 28 0, length_zeroPack⟩
  writeToParcel _ p := p
  unmarshal _ _ := pure (.ok none)
  unmarshalPtr pack := pure (m.unmarshal pack)

theorem StdInterfaces.lawful (m : StdInterfaces) {x : Itf} (hx : m.Exists x) :
    m.interfaces.Lawful x [] where
  ok := m.ok x hx
  writes p hp _ := ⟨hp, by simp [interfaces]⟩
  reads := ⟨some x, by
    change CRemoteParcel.Reads (pure (m.unmarshal (m.marshal x).pack)) [] _
    rw [m.undoes x hx]
    exact CRemoteParcel.Reads.pure _⟩
  reads_element := ⟨none, CRemoteParcel.Reads.pure _⟩

/-- Another write, and the read that undoes it. -/
structure ItemTrip where
  write : CRemoteParcel → ECode × CRemoteParcel
  wire : List UInt8
  read : ReadM Unit
  words : 4 ∣ wire.length
  appends : CRemoteParcel.Appends write wire
  reads : CRemoteParcel.Reads read wire ()

/-- The typed values are exchanged. -/
def ItemTrip.value {env : Allocator} (henv : env.Succeeds) (junk : Junk) (ptr : UInt32)
    (v : Value) : ItemTrip where
  write := CRemoteParcel.writeValue env ptr v
  wire := v.wire ptr
  read := do
    let _ ← CRemoteParcel.readValue junk v.kind
    pure ()
  words := by
    cases v with
    | byte v | boolean v | char32 v | int16 v | int32 v | int64 v | float v | emuid v =>
      simp [Value.wire]
    | string v => cases v <;> simp [Value.wire, wireString, pad4]
    | eguid v =>
      simp only [Value.wire, List.length_append, EGuid.length_bytes, length_padded, pad4]
      omega
    | struct v => cases v <;> simp [Value.wire, pad4]
  appends := CRemoteParcel.appends_writeValue henv ptr v
  reads := (CRemoteParcel.reads_readValue junk ptr v).map rfl

/-- What is written to the parcel: an interface pointer, or something else. -/
inductive Item (m : StdInterfaces)
  | itf (x : Option { x : Itf // m.Exists x })
  | other (e : ItemTrip)

namespace Item

open CRemoteParcel

variable {m : StdInterfaces}

/-- `WriteInterfacePtr`, or the other write. -/
def write (env : Allocator) : Item m → CRemoteParcel → ECode × CRemoteParcel
  | .itf x => writeInterfacePtr env (x.map fun x => m.marshal x.1) id
  | .other e => e.write

def writeAll (env : Allocator) : List (Item m) → CRemoteParcel → CRemoteParcel
  | [], p => p
  | i :: is, p => writeAll env is (i.write env p).2

/-- Read the items back in order. For every pointer, the result has the code and what was stored
at the address. -/
def readAll : List (Item m) → ReadM (List (ECode × Option (Option Itf)))
  | [] => pure []
  | .itf _ :: is => do
    let (ec, slot) ← readInterfacePtr m.interfaces
    let rs ← readAll is
    pure ((ec, slot.stored) :: rs)
  | .other e :: is => do
    e.read
    readAll is

/-- The bytes of an item. -/
def wire : Item m → List UInt8
  | .itf x => wireInterface m.interfaces (fun _ => []) (x.map (·.1))
  | .other e => e.wire

/-- The bytes of items in order. -/
def wires (is : List (Item m)) : List UInt8 := (is.map wire).flatten

/-- The object written, if the item is a pointer. -/
def object? : Item m → Option (Option Itf)
  | .itf x => some (x.map (·.1))
  | .other _ => none

/-- What the table records for items from `pos` on: the ends of the pointers. -/
def ends : ℕ → List (Item m) → List ℕ
  | _, [] => []
  | pos, .itf x :: is => (pos + (itf x).wire.length) :: ends (pos + (itf x).wire.length) is
  | pos, .other e :: is => ends (pos + e.wire.length) is

/-- What the reader looks for: the packs of the objects. -/
def packs : ℕ → List (Item m) → List ℕ
  | _, [] => []
  | pos, .itf none :: is => packs (pos + (@itf m none).wire.length) is
  | pos, .itf (some x) :: is => (pos + 4) :: packs (pos + (itf (some x)).wire.length) is
  | pos, .other e :: is => packs (pos + e.wire.length) is

/-! ### Writing -/

variable {env : Allocator}

theorem four_dvd_wire (i : Item m) : 4 ∣ (i.wire).length := by
  rcases i with (_ | x) | e
  · simp [wire, wireInterface]
  · simp [wire, wireInterface, (m.interfaces.marshal x).length_pack]
  · exact e.words

theorem four_dvd_wires (is : List (Item m)) : 4 ∣ (wires is).length := by
  induction is with
  | nil => simp [wires]
  | cons i is ih =>
    rw [wires, List.map_cons, List.flatten_cons, List.length_append]
    exact Nat.dvd_add (four_dvd_wire i) ih

theorem wires_cons (i : Item m) (is : List (Item m)) :
    wires (i :: is) = i.wire ++ wires is := by
  rw [wires, List.map_cons, List.flatten_cons, wires]

/-- Writing an item appends its bytes, and a pointer adds its end to the table. -/
theorem write_spec (henv : env.Succeeds) (i : Item m) {p : CRemoteParcel}
    (hp : p.Ready) (hlt : p.mDataSize.toNat + (i.wire).length < 2 ^ 30) :
    (i.write env p).2.Ready ∧ (i.write env p).2.contents = p.contents ++ i.wire ∧
      (i.write env p).2.mObjects
        = p.mObjects ++ if i.object?.isSome then [(i.write env p).2.mDataPos] else [] := by
  cases i with
  | itf x =>
    -- the parcel of the marshalling functions, with locals that no write looks at
    let E : RpcEnv := ⟨env, m.interfaces, fun _ => ⟨0, 0, 0, ⟨0, 0, 0, 0⟩⟩, fun _ => ⟨0, [], [], 0⟩⟩
    have hroom : rpcStream.Room
        (p.contents ++ wireInterface m.interfaces (fun _ => []) (x.map (·.1))) := by
      change List.length (p.contents ++ _) < 2 ^ 30
      rw [List.length_append, length_contents]
      exact hlt
    have hlawful (y : Itf) (hy : x.map (·.1) = some y) : m.interfaces.Lawful y [] := by
      obtain ⟨z, -, rfl⟩ := Option.map_eq_some_iff.mp hy
      exact m.lawful z.2
    obtain ⟨q, hq, hready, hcontents⟩ := appends_writeInterfacePtr (E := E) henv (x.map (·.1))
      hlawful p p.contents ⟨hp, rfl⟩ hroom
    have hwrite : write env (.itf x) p = (NOERROR, q) := by
      rw [← hq]
      cases x <;> rfl
    rw [hwrite]
    exact ⟨hready, hcontents, objects_writeInterfacePtr hwrite⟩
  | other e =>
    obtain ⟨q, hq, hready, hcontents, hobjects⟩ := e.appends p hp hlt
    have hwrite : (@other m e).write env p = (NOERROR, q) := hq
    rw [hwrite]
    exact ⟨hready, hcontents, by simpa [object?] using hobjects⟩

/-- **Writing items in order**: their bytes, and the ends of the pointers in the table. -/
theorem writeAll_spec (henv : env.Succeeds) (is : List (Item m)) :
    ∀ p : CRemoteParcel, p.Ready → p.mDataSize.toNat + (wires is).length < 2 ^ 30 →
      (writeAll env is p).Ready ∧ (writeAll env is p).contents = p.contents ++ wires is ∧
        (writeAll env is p).mObjects.map UInt32.toNat
          = p.mObjects.map UInt32.toNat ++ ends p.mDataSize.toNat is := by
  induction is with
  | nil =>
    intro p hp _
    exact ⟨hp, by simp [writeAll, wires], by simp [writeAll, ends]⟩
  | cons i is ih =>
    intro p hp hlt
    rw [wires_cons, List.length_append] at hlt
    obtain ⟨hready, hcontents, hobjects⟩ := write_spec henv i hp (by omega)
    rw [writeAll]
    generalize (i.write env p).2 = q at *
    have hsize : q.mDataSize.toNat = p.mDataSize.toNat + (i.wire).length := by
      rw [← length_contents, hcontents, List.length_append, length_contents]
    obtain ⟨hready', hcontents', hobjects'⟩ := ih q hready (by omega)
    refine ⟨hready', by rw [hcontents', hcontents, wires_cons, List.append_assoc], ?_⟩
    rw [hobjects', hobjects, hready.pos_eq, hsize]
    cases i with
    | itf x => simp [object?, ends, hsize]
    | other e => simp [object?, ends, wire]

/-! ### Reading -/

theorem lt_of_mem_ends {is : List (Item m)} {pos e : ℕ} (h : e ∈ ends pos is) :
    pos < e := by
  induction is generalizing pos with
  | nil => cases h
  | cons i is ih =>
    rcases i with x | w
    · have hlen : 4 ≤ (wire (.itf x)).length := by
        cases x <;> simp [wire, wireInterface]
      rcases List.mem_cons.mp h with rfl | h
      · omega
      · have := ih h
        omega
    · have := ih h
      omega

theorem lt_of_mem_packs {is : List (Item m)} {pos d : ℕ} (h : d ∈ packs pos is) :
    pos < d := by
  induction is generalizing pos with
  | nil => cases h
  | cons i is ih =>
    rcases i with (_ | x) | w
    · have := ih h
      omega
    · rcases List.mem_cons.mp h with rfl | h
      · omega
      · have := ih h
        omega
    · have := ih h
      omega

/-- **No pack begins where a pointer ends.** -/
theorem ends_ne_packs {is : List (Item m)} {pos d e : ℕ} (hd : d ∈ packs pos is)
    (he : e ∈ ends pos is) : e ≠ d := by
  induction is generalizing pos with
  | nil => cases he
  | cons i is ih =>
    rcases i with (_ | x) | w
    · have hd' : d ∈ packs (pos + ((@itf m none).wire).length) is := hd
      rcases List.mem_cons.mp he with rfl | he
      · exact (lt_of_mem_packs hd').ne
      · exact ih hd' he
    · have hlen : (wire (.itf (some x))).length = 32 := by
        simp [wire, wireInterface, (m.interfaces.marshal x).length_pack]
      rcases List.mem_cons.mp he with rfl | he <;> rcases List.mem_cons.mp hd with rfl | hd
      · omega
      · exact (lt_of_mem_packs hd).ne
      · have := lt_of_mem_ends he
        omega
      · exact ih hd he
    · exact ih hd he

/-- What reading in order gives: for every pointer, zero. -/
def zeros (is : List (Item m)) : List (ECode × Option (Option Itf)) :=
  (is.filterMap object?).map fun _ => (NOERROR, some none)

/-- What it should give: for every pointer, the object. -/
def expected (is : List (Item m)) : List (ECode × Option (Option Itf)) :=
  (is.filterMap object?).map fun x => (NOERROR, some x)

/-- An interface pointer whose pack is not in the table is read as zero. -/
theorem readInterfacePtr_zero (x : Option { x : Itf // m.Exists x }) {p : CRemoteParcel}
    {rest : List UInt8} (hp : p.Holds (wire (.itf x) ++ rest))
    (htable : ∀ y, x = some y → p.mDataPos + 4 ∉ p.mObjects) :
    ∃ taken, readInterfacePtr m.interfaces p
      = .ok ((NOERROR, ⟨some none, taken⟩), p.advance (sizeOf32 (wire (.itf x)))) := by
  have htag (v : UInt32) : Reads (readAligned 4) (wordBytes v) (NOERROR, some (wordBytes v)) :=
    reads_readAligned (by rw [sizeOf32, length_wordBytes]; rfl) (by simp)
  cases x with
  | none =>
    refine ⟨none, ?_⟩
    rw [readInterfacePtr, Run.bind_ok (htag MSH_NULL p rest hp)]
    simp only [wordOf_wordBytes, if_true]
    rfl
  | some x =>
    have hlen := (m.marshal x).length_pack
    have hn : sizeOf32 (m.marshal x).pack = 28 := by rw [sizeOf32, hlen]; rfl
    change Holds p (wordBytes MSH_NOT_NULL ++ ((m.marshal x).pack ++ []) ++ rest) at hp
    rw [List.append_nil, List.append_assoc] at hp
    have h4 : sizeOf32 (wordBytes MSH_NOT_NULL) = 4 := by rw [sizeOf32, length_wordBytes]; rfl
    have hread := htag MSH_NOT_NULL p _ hp
    have hholds := hp.advance
    rw [h4] at hread hholds
    have hcan : (p.advance 4).mDataPos + 28 ≤ (p.advance 4).mDataSize := by
      rw [UInt32.le_iff_toNat_le, ← hn, hholds.toNat_add]
      exact hholds.length_le
    have hpeek := hholds.peek
    rw [hlen] at hpeek
    have hadvance : p.advance (sizeOf32 (wire (.itf (some x)))) = (p.advance 4).advance 28 := by
      have hwire : wire (.itf (some x)) = wordBytes MSH_NOT_NULL ++ (m.marshal x).pack := by
        simp [wire, wireInterface, StdInterfaces.interfaces]
      rw [hwire, sizeOf32_append, h4, hn, advance_advance]
    have hunmarshal : m.interfaces.unmarshalPtr (m.marshal x).pack ((p.advance 4).advance 28)
        = .ok (.ok (some x), (p.advance 4).advance 28) := by
      change Except.ok (m.unmarshal (m.marshal x).pack, _) = _
      rw [m.undoes x x.2]
    refine ⟨some x, ?_⟩
    rw [readInterfacePtr, Run.bind_ok hread]
    simp only [wordOf_wordBytes, MSH_NOT_NULL_ne, if_false]
    rw [Run.bind_ok (show carAssert _ (p.advance 4) = .ok ((), p.advance 4) by simp [carAssert]),
      Run.get_bind, if_pos hcan, Run.bind_ok hpeek, Run.set_bind, Run.bind_ok hunmarshal]
    simp only [Run.get_bind]
    -- the table is the one the parcel had before, and the pack is not in it
    have hfind : ((p.advance 4).advance 28).findObject (p.advance 4).mDataPos = none :=
      findObject_eq_none (htable x rfl)
    rw [hfind, hadvance]
    rfl

/-- **Reading items in order** gives zero for every pointer, where no pack is in the table. -/
theorem readAll_zeros (is : List (Item m)) :
    ∀ (p : CRemoteParcel) (rest : List UInt8), p.Holds (wires is ++ rest) →
      (∀ o ∈ p.mObjects, o.toNat ∉ packs p.mDataPos.toNat is) →
      ∃ q, readAll is p = .ok (zeros is, q) := by
  induction is with
  | nil =>
    intro p rest _ _
    exact ⟨p, rfl⟩
  | cons i is ih =>
    intro p rest hp htable
    rw [wires_cons, List.append_assoc] at hp
    have hpos : (p.advance (sizeOf32 (i.wire))).mDataPos.toNat
        = p.mDataPos.toNat + (i.wire).length := hp.toNat_add
    have hrest := ih (p.advance (sizeOf32 (i.wire))) rest hp.advance
    cases i with
    | itf x =>
      have hle := hp.length_le
      have hlt := hp.lt
      have h4 : (p.mDataPos + 4).toNat = p.mDataPos.toNat + 4 := by
        have hmin : 4 ≤ (wire (.itf x)).length := by
          cases x <;> simp [wire, wireInterface]
        rw [UInt32.toNat_add, show (4 : UInt32).toNat = 4 from rfl]
        omega
      obtain ⟨taken, hread⟩ := readInterfacePtr_zero x hp fun y hy hmem => by
        subst hy
        exact htable _ hmem (by rw [h4]; exact List.mem_cons_self)
      obtain ⟨q, hq⟩ := hrest fun o ho hmem => by
        refine htable o ho ?_
        rw [hpos] at hmem
        cases x with
        | none => exact hmem
        | some x => exact List.mem_cons_of_mem _ hmem
      refine ⟨q, ?_⟩
      rw [readAll, Run.bind_ok hread]
      dsimp only
      rw [Run.bind_ok hq]
      rfl
    | other e =>
      obtain ⟨q, hq⟩ := hrest fun o ho hmem => htable o ho (by rwa [hpos] at hmem)
      refine ⟨q, ?_⟩
      rw [readAll, Run.bind_ok (e.reads p _ hp)]
      exact hq

/-- The pointers read are those written exactly when there is no object among them. -/
theorem zeros_eq_expected_iff (is : List (Item m)) :
    zeros is = expected is ↔ ∀ x, .itf (some x) ∉ is := by
  rw [zeros, expected, List.map_inj_left]
  constructor
  · intro h x hx
    have hobject : some x.1 ∈ is.filterMap object? := List.mem_filterMap.mpr ⟨_, hx, rfl⟩
    cases h _ hobject
  · intro h x hx
    obtain ⟨i, hi, hobject⟩ := List.mem_filterMap.mp hx
    cases i with
    | itf y =>
      obtain rfl : y.map (·.1) = x := Option.some.inj hobject
      cases y with
      | none => rfl
      | some y => exact absurd hi (h y)
    | other e => cases hobject

/-! ### Where the items are read -/

/-- The same parcel, or a new one that received the bytes. -/
inductive Transport
  | same
  | marshall
  | write
deriving DecidableEq, Repr

/-- The parcel that is read; none when `Marshall` refuses to give the bytes. -/
def receive (env : Allocator) : Transport → CRemoteParcel → Option CRemoteParcel
  | .same, p => some p
  | .marshall, p =>
    match p.marshall with
    | .ok (_, some bs) => (unmarshallOrFault env (some bs) 0 (Int32.ofNat bs.length) {}).toOption
    | .ok (_, none) | .error _ => none
  | .write, p => some (CRemoteParcel.write env (load p.block 0 p.dataSize.toNat) p.dataSize {}).2

/-- **The pointers come back**: in whatever parcel received the bytes, reading in order from the
start succeeds and gives the objects written. -/
def PointersReturn (env : Allocator) (t : Transport) (is : List (Item m)) : Prop :=
  ∀ p, receive env t (writeAll env is {}) = some p →
    ∃ q, readAll is (p.setDataPosition 0) = .ok (expected is, q)

theorem dataSize_of_ready {p : CRemoteParcel} (hp : p.Ready) : p.dataSize = p.mDataSize := by
  rw [dataSize, hp.pos_eq]
  split <;> rfl

/-- What a parcel that received the bytes holds: the same data, and the same table or none. A table
with entries is not marshalled. -/
theorem receive_spec (henv : env.Succeeds) {t : Transport} {p q : CRemoteParcel} (hp : p.Ready)
    (h4 : 4 ∣ p.mDataSize.toNat) (hlt : p.mDataSize.toNat < 2 ^ 30)
    (h : receive env t p = some q) :
    (q.setDataPosition 0).Holds p.contents ∧ (q.mObjects = p.mObjects ∨ q.mObjects = []) ∧
      (t = .marshall → p.mObjects = []) := by
  have hdata := dataSize_of_ready hp
  have hcontents : load p.block 0 p.dataSize.toNat = p.contents := by rw [hdata, contents]
  have hlength := p.length_contents
  cases t with
  | same =>
    obtain rfl := Option.some.inj h
    exact ⟨holds_contents hlt, Or.inl rfl, Transport.noConfusion⟩
  | marshall =>
    rw [receive, marshall] at h
    by_cases hobjects : p.mObjects ≠ []
    · rw [if_pos hobjects] at h
      cases h
    rw [if_neg hobjects] at h
    split_ifs at h
    rw [hcontents] at h
    obtain ⟨r, hr, hnone, hsize, -, hload⟩ :=
      unmarshall_whole henv p.contents (by omega) (by omega)
    dsimp only at h
    rw [hr] at h
    obtain rfl := Option.some.inj h
    refine ⟨⟨?_, ?_, ?_⟩, Or.inr hnone, fun _ => not_not.mp hobjects⟩
    · change 0 + _ = r.mDataSize.toNat
      omega
    · change r.mDataSize.toNat < _
      omega
    · exact hload
  | write =>
    have hsize : sizeOf32 p.contents = p.dataSize := by
      rw [sizeOf32, hlength, hdata, UInt32.ofNat_toNat]
    obtain ⟨r, hr, hready, hrc, hobjects⟩ := appends_write henv p.contents hsize {} ready_new (by
      rw [padded_of_dvd (by omega)]
      change 0 + _ < _
      omega)
    rw [receive, hcontents, hr] at h
    obtain rfl := Option.some.inj h
    have hrc' : r.contents = p.contents := by
      rw [hrc, padded_of_dvd (by omega)]
      rfl
    refine ⟨?_, Or.inr hobjects, Transport.noConfusion⟩
    rw [← hrc']
    refine holds_contents ?_
    rw [← length_contents, hrc']
    omega

/-- Whatever the items and the transport are, every pointer is read as zero. -/
theorem readAll_received (henv : env.Succeeds) (is : List (Item m))
    (hlt : (wires is).length < 2 ^ 30) {t : Transport} {p : CRemoteParcel}
    (h : receive env t (writeAll env is {}) = some p) :
    (∃ q, readAll is (p.setDataPosition 0) = .ok (zeros is, q)) ∧
      (t = .marshall → ends 0 is = []) := by
  obtain ⟨hready, hcontents, htable⟩ := writeAll_spec henv is {} ready_new
    (by change 0 + _ < _; omega)
  have hcontents' : (writeAll env is {}).contents = wires is := hcontents
  have htable' : (writeAll env is {}).mObjects.map UInt32.toNat = ends 0 is := htable
  have hsize : (writeAll env is {}).mDataSize.toNat = (wires is).length := by
    rw [← length_contents, hcontents']
  obtain ⟨hholds, hobjects, hmarshall⟩ := receive_spec henv hready
    (by rw [hsize]; exact four_dvd_wires is) (by omega) h
  rw [hcontents', ← List.append_nil (wires is)] at hholds
  constructor
  · refine readAll_zeros is _ [] hholds fun o ho hpack => ?_
    rcases hobjects with hsame | hnone
    · have hend : o.toNat ∈ ends 0 is := by
        rw [← htable', ← hsame]
        exact List.mem_map_of_mem ho
      exact ends_ne_packs hpack hend rfl
    · have ho' : o ∈ p.mObjects := ho
      rw [hnone] at ho'
      cases ho'
  · intro ht
    rw [← htable', hmarshall ht]
    rfl

theorem notMem_of_ends_eq_nil {is : List (Item m)} {pos : ℕ}
    (h : ends pos is = []) (x : Option { x : Itf // m.Exists x }) : .itf x ∉ is := by
  induction is generalizing pos with
  | nil => exact List.not_mem_nil
  | cons i is ih =>
    cases i with
    | itf y => cases h
    | other e =>
      intro hmem
      rcases List.mem_cons.mp hmem with heq | hmem
      · cases heq
      · exact ih h hmem

/-- **When the pointers come back**: when no object was written. A parcel that pointers were written
to is not marshalled at all. -/
theorem pointersReturn_iff (henv : env.Succeeds) (t : Transport)
    (is : List (Item m)) (hlt : (wires is).length < 2 ^ 30) :
    PointersReturn env t is ↔ (t ≠ .marshall → ∀ x, .itf (some x) ∉ is) := by
  constructor
  · intro hreturn ht
    obtain ⟨p, hp⟩ : ∃ p, receive env t (writeAll env is {}) = some p := by
      cases t with
      | same => exact ⟨_, rfl⟩
      | marshall => exact absurd rfl ht
      | write => exact ⟨_, rfl⟩
    obtain ⟨⟨q, hzeros⟩, -⟩ := readAll_received henv is hlt hp
    obtain ⟨q', hread⟩ := hreturn p hp
    rw [hzeros] at hread
    rw [← zeros_eq_expected_iff]
    exact (Prod.mk.inj (Except.ok.inj hread)).1
  · intro hnone p hp
    obtain ⟨⟨q, hzeros⟩, hends⟩ := readAll_received henv is hlt hp
    refine ⟨q, ?_⟩
    rw [hzeros, (zeros_eq_expected_iff is).mpr ?_]
    by_cases ht : t = .marshall
    · exact fun x => notMem_of_ends_eq_nil (hends ht) (some x)
    · exact hnone ht

/-- Interfaces that are marshalled as their address. -/
def addresses : StdInterfaces where
  marshal x := ⟨NOERROR, wordBytes (UInt32.ofNat x) ++ List.replicate 24 0, by simp⟩
  unmarshal pack := .ok (some (wordOf (pack.take 4)).toNat)
  Exists x := x < 2 ^ 32
  ok _ _ := failed_NOERROR
  undoes x hx := by
    rw [List.take_left' (length_wordBytes _), wordOf_wordBytes, UInt32.toNat_ofNat_of_lt' hx]

/-- An object between two words. -/
def objectAmongWords : List (Item addresses) :=
  [.other (.value Allocator.zeros_succeeds ⟨0, 0, 0, ⟨0, 0, 0, 0⟩⟩ 0 (.int32 1)),
    .itf (some ⟨0x1000, show 0x1000 < 2 ^ 32 by decide⟩),
    .other (.value Allocator.zeros_succeeds ⟨0, 0, 0, ⟨0, 0, 0, 0⟩⟩ 0 (.int32 2))]

theorem pointersReturn_iff_words : Allocator.zeros.Succeeds ∧
    (wires objectAmongWords).length < 2 ^ 30 ∧
    (PointersReturn .zeros .write objectAmongWords
      ↔ (Transport.write ≠ .marshall → ∀ x, .itf (some x) ∉ objectAmongWords)) :=
  ⟨Allocator.zeros_succeeds, by decide,
    pointersReturn_iff Allocator.zeros_succeeds .write objectAmongWords (by decide)⟩

/-- The object is read as zero, in the same parcel and in one that the bytes were written to. -/
theorem object_not_pointersReturn : ¬ PointersReturn .zeros .same objectAmongWords ∧
    ¬ PointersReturn .zeros .write objectAmongWords := by
  have hobject (t : Transport) (ht : ∃ p, receive .zeros t
      (writeAll .zeros objectAmongWords {}) = some p) :
      ¬ PointersReturn .zeros t objectAmongWords := by
    intro hreturn
    obtain ⟨p, hp⟩ := ht
    obtain ⟨⟨q, hzeros⟩, -⟩ :=
      readAll_received Allocator.zeros_succeeds objectAmongWords (by decide) hp
    obtain ⟨q', hread⟩ := hreturn p hp
    rw [hzeros] at hread
    exact absurd (Prod.mk.inj (Except.ok.inj hread)).1 (by decide)
  exact ⟨hobject .same ⟨_, rfl⟩, hobject .write ⟨_, rfl⟩⟩

end Item

end ElastosCar
