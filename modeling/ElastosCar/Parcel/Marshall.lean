import ElastosCar.Parcel.Bounds

/-!
# Marshalling a parcel into an array

`Marshall` copies the data of a parcel into a byte array and `Unmarshall` installs a range of one.
Both measure in whole words: `Unmarshall` sets the data size to the length it is given and then
writes the bytes with `WriteInplace`, which pads, so the data of a length that is not a multiple of
four comes back with its padding. Data written by the `Write*` operations is made of whole words
(`wordy_runOps`) and is copied as it is.

`unmarshall` of `Bounds.lean` says what happens to the parcel; here the copy is made byte by byte
from the array, and to the address that `WriteInplace` returned, so that it can fault.
-/

namespace ElastosCar

namespace CRemoteParcel

/-! ### The operations -/

/-- `Marshall`. A parcel with objects is refused; an array that cannot be allocated is used all the
same. -/
def marshall (p : CRemoteParcel) : Except Fault (ECode × Option (List UInt8)) :=
  -- do not marshall if there are binder objects in the parcel
  if p.mObjects ≠ [] then .ok (E_FAIL, none)
  else if refusesSize p.dataSize then .error .nullPointer
  else .ok (NOERROR, some (load p.block 0 p.dataSize.toNat))

/-- The arguments for which `Unmarshall` returns at once. -/
def Rejects (d : List UInt8) (offset length : Int32) : Prop :=
  length.toInt < 0 ∨ d.length < length.toInt ∨ offset.toInt < 0 ∨ d.length < offset.toInt ∨
    d.length - offset.toInt < length.toInt

instance (d : List UInt8) (offset length : Int32) : Decidable (Rejects d offset length) :=
  inferInstanceAs (Decidable (_ ∨ _))

/-- Copy `n` bytes of an array. -/
def copyFrom (d : List UInt8) (off n : ℕ) : Except Fault (List UInt8) :=
  if off + n ≤ d.length then .ok ((d.drop off).take n) else .error .outOfBounds

/-- The bytes a range names. -/
def slice (d : List UInt8) (offset length : Int32) : List UInt8 :=
  (d.drop offset.toInt.toNat).take length.toInt.toNat

/-- The end of `Unmarshall`: the bytes go where `WriteInplace` said. -/
def copyTo (raw : Option ℕ) (bs : List UInt8) (p : CRemoteParcel) : Except Fault CRemoteParcel :=
  match raw with
  | some off => .ok (p.memcpy off bs)
  | none => if bs = [] then .ok p else .error .nullPointer

/-- `Unmarshall`, with the faults of its `memcpy`. -/
def unmarshallOrFault (env : Allocator) (data : Option (List UInt8)) (offset length : Int32)
    (p : CRemoteParcel) : Except Fault CRemoteParcel :=
  match data with
  | none => .ok p
  | some d =>
    if Rejects d offset length then .ok p
    else
      let p := (p.setDataSize env length.toUInt32).2.setDataPosition 0
      match p.writeInplace env length.toUInt32 with
      | (raw, p) => copyFrom d offset.toInt.toNat length.toInt.toNat >>= fun bs => copyTo raw bs p

/-! ### Lengths -/

variable {env : Allocator} {d : List UInt8} {offset length : Int32}

/-- The range of arguments that are not rejected lies inside the array. -/
theorem range_of_not_rejects (h : ¬ Rejects d offset length) :
    offset.toInt.toNat + length.toInt.toNat ≤ d.length := by
  simp only [Rejects, not_or, not_lt] at h
  omega

theorem length_slice (h : ¬ Rejects d offset length) :
    (slice d offset length).length = length.toInt.toNat := by
  have := range_of_not_rejects h
  simp only [slice, List.length_take, List.length_drop]
  omega

theorem copyFrom_slice (h : ¬ Rejects d offset length) :
    copyFrom d offset.toInt.toNat length.toInt.toNat = .ok (slice d offset length) :=
  if_pos (range_of_not_rejects h)

/-- A length that is not negative, as the `UInt32` it is passed on as. -/
theorem toNat_toUInt32 {n : Int32} (h : 0 ≤ n.toInt) : n.toUInt32.toNat = n.toInt.toNat := by
  have hbits : n.toInt = n.toBitVec.toInt := rfl
  have hword : n.toUInt32.toNat = n.toBitVec.toNat := rfl
  have hlt := n.toBitVec.isLt
  rw [BitVec.toInt_eq_toNat_cond] at hbits
  split_ifs at hbits <;> omega

theorem toNat_length (h : ¬ Rejects d offset length) :
    length.toUInt32.toNat = length.toInt.toNat := by
  simp only [Rejects, not_or, not_lt] at h
  exact toNat_toUInt32 h.1

theorem toNat_length_lt (length : Int32) : length.toInt.toNat < 2 ^ 31 := by
  have := length.toInt_lt
  omega

theorem unmarshallOrFault_eq (h : ¬ Rejects d offset length) (p : CRemoteParcel) :
    unmarshallOrFault env (some d) offset length p
      = copyTo (((p.setDataSize env length.toUInt32).2.setDataPosition 0).writeInplace env
          length.toUInt32).1 (slice d offset length)
        (((p.setDataSize env length.toUInt32).2.setDataPosition 0).writeInplace env
          length.toUInt32).2 := by
  rw [unmarshallOrFault, if_neg h, copyFrom_slice h]
  rfl

/-! ### `Unmarshall` into a new parcel -/

/-- A new parcel after `SetDataSize`: a block of that size, which all counts as data. -/
theorem setDataSize_new (henv : env.Succeeds) (size : UInt32) :
    ∃ fresh, ((setDataSize env size {}).2.setDataPosition 0) =
      { mData := some fresh, mDataSize := size, mDataCapacity := size, requests := 1 } := by
  obtain ⟨fresh, hfresh⟩ := Option.isSome_iff_exists.mp (henv 0 size.toNat)
  refine ⟨fresh, ?_⟩
  have hcont : continueWrite env size {} = (NOERROR,
      { mData := some fresh, mDataCapacity := size, requests := 1 }) := by
    simp only [continueWrite, hfresh]
  rw [setDataSize, hcont]
  simp [setDataPosition]

/-- A growth step does not move a position at the start. -/
theorem pos_growData (env : Allocator) {p : CRemoteParcel} (hp : p.mDataPos = 0) (n : UInt32) :
    (p.growData env n).2.mDataPos = 0 := by
  rw [growData]
  split
  · exact hp
  · rw [continueWrite]
    split
    · split
      · split <;> exact hp
      · change (if p.mDataPos > _ then _ else p.mDataPos) = 0
        rw [hp, if_neg (by simp)]
    · split
      · rfl
      · exact hp

/-- Whatever `WriteInplace` at the start has to do for it, its result ends behind the padding. -/
theorem pos_writeInplace {p q : CRemoteParcel} (hp : p.mDataPos = 0) {len : UInt32} {off : ℕ}
    (h : p.writeInplace env len = (some off, q)) : q.mDataPos = padSize len := by
  have hat {r : CRemoteParcel} (hr : r.mDataPos = 0) :
      (r.writeInplaceAt len (padSize len)).2.mDataPos = padSize len := by
    change (if _ then _ else r).mDataPos + padSize len = padSize len
    split <;> simp [memcpy, hr]
  rw [writeInplace] at h
  dsimp only at h
  split at h
  · cases h
  · split at h
    · rw [← hat hp, h]
    · have hgrow := pos_growData env hp (padSize len)
      split at h
      · rw [← hat hgrow, h]
      · cases h

theorem le_dataSize (p : CRemoteParcel) : p.mDataPos.toNat ≤ p.dataSize.toNat := by
  rw [dataSize]
  split
  · next h => exact (UInt32.lt_iff_toNat_lt.mp h).le
  · exact le_rfl

/-- Marshalled bytes are as many as the data size says. -/
theorem length_of_marshall {p : CRemoteParcel} {bs : List UInt8}
    (h : p.marshall = .ok (NOERROR, some bs)) : bs.length = p.dataSize.toNat := by
  rw [marshall] at h
  split at h
  · cases h
  · split at h
    · cases h
    · cases h
      simp

/-- **Whole words come back as they are.** -/
theorem unmarshall_of_dvd (henv : env.Succeeds) (h : ¬ Rejects d offset length)
    (h4 : 4 ∣ length.toInt.toNat) :
    ∃ p, unmarshallOrFault env (some d) offset length {} = .ok p ∧ p.mObjects = [] ∧
      p.mDataSize = length.toUInt32 ∧ p.dataSize.toNat = length.toInt.toNat ∧
      load p.block 0 length.toInt.toNat = slice d offset length := by
  have hlen := toNat_length h
  have hlt := toNat_length_lt length
  have hslice := length_slice h
  obtain ⟨fresh, hnew⟩ := setDataSize_new henv length.toUInt32
  have hpad : padSize length.toUInt32 = length.toUInt32 := by
    apply UInt32.toNat_inj.mp
    rw [toNat_padSize_of_le (by omega), pad4]
    omega
  have hwrite : writeInplace env length.toUInt32
      { mData := some fresh, mDataSize := length.toUInt32, mDataCapacity := length.toUInt32,
        requests := 1 } = (some 0,
      { mData := some fresh, mDataSize := length.toUInt32, mDataCapacity := length.toUInt32,
        mDataPos := length.toUInt32, requests := 1 }) := by
    simp [writeInplace, hpad, writeInplaceAt, finishWrite]
  refine ⟨_, by rw [unmarshallOrFault_eq h, hnew, hwrite]; rfl, rfl, rfl, ?_, ?_⟩
  · change (if length.toUInt32 > length.toUInt32 then _ else length.toUInt32).toNat = _
    rw [if_neg (by simp), hlen]
  · rw [← hslice]
    exact load_store_self fresh 0 _

/-- What `Unmarshall` leaves in a new parcel is at least as long as the padded length. -/
theorem le_dataSize_of_unmarshall (h : ¬ Rejects d offset length)
    (hpos : 0 < length.toInt.toNat) {p : CRemoteParcel}
    (hp : unmarshallOrFault env (some d) offset length {} = .ok p) :
    pad4 length.toInt.toNat ≤ p.dataSize.toNat := by
  have hlen := toNat_length h
  have hlt := toNat_length_lt length
  have hslice := length_slice h
  rw [unmarshallOrFault_eq h] at hp
  rcases hq : writeInplace env length.toUInt32 _ with ⟨_ | off, q⟩ <;> rw [hq] at hp
  · rw [copyTo, if_neg (List.ne_nil_of_length_pos (by omega))] at hp
    cases hp
  · cases hp
    have hend := pos_writeInplace rfl hq
    have hle := le_dataSize (q.memcpy off (slice d offset length))
    change q.mDataPos.toNat ≤ _ at hle
    rw [hend, toNat_padSize_of_le (by omega), hlen] at hle
    exact hle

/-- The bytes of the array come back from a new parcel. -/
def BytesReturn (env : Allocator) (d : List UInt8) (offset length : Int32) : Prop :=
  ∃ p, unmarshallOrFault env (some d) offset length {} = .ok p ∧
    p.marshall = .ok (NOERROR, some (slice d offset length))

theorem bytesReturn_iff (henv : env.Succeeds) (h : ¬ Rejects d offset length) :
    BytesReturn env d offset length
      ↔ 4 ∣ length.toInt.toNat ∧ refusesSize length.toUInt32 = false := by
  have hlen := toNat_length h
  have hslice := length_slice h
  constructor
  · rintro ⟨p, hp, hm⟩
    have hsize : p.dataSize = length.toUInt32 := by
      apply UInt32.toNat_inj.mp
      rw [hlen, ← hslice, length_of_marshall hm]
    constructor
    · rcases Nat.eq_zero_or_pos length.toInt.toNat with h0 | hpos
      · rw [h0]
        exact Nat.dvd_zero 4
      · have hle := le_dataSize_of_unmarshall h hpos hp
        rw [hsize, hlen, pad4] at hle
        omega
    · rw [← hsize]
      by_contra hrefuses
      rw [Bool.not_eq_false] at hrefuses
      rw [marshall, if_pos hrefuses] at hm
      split at hm <;> cases hm
  · rintro ⟨h4, hrefuses⟩
    obtain ⟨p, hp, hobjects, -, hsize, hload⟩ := unmarshall_of_dvd henv h h4
    refine ⟨p, hp, ?_⟩
    have hsize' : p.dataSize = length.toUInt32 := UInt32.toNat_inj.mp (hsize.trans hlen.symm)
    rw [marshall, if_neg (not_not.mpr hobjects), hsize', if_neg (by simp [hrefuses]), hlen, hload]

/-! ### Data made of words -/

/-- Size and position are multiples of four. -/
structure Wordy (p : CRemoteParcel) : Prop where
  size : 4 ∣ p.mDataSize.toNat
  pos : 4 ∣ p.mDataPos.toNat
  pos_le : p.mDataPos.toNat ≤ p.mDataSize.toNat

mutual

/-- The calls that the `Write*` operations are made of. -/
def IsWrite : WriteCall → Prop
  | .writeInplace _ | .write _ _ => True
  | .writeAligned value => 4 ∣ value.length
  | .writeInterfacePtr _ nested => AreWrites nested
  | .setDataSize _ | .setDataCapacity _ | .setDataPosition _ => False

def AreWrites : List WriteCall → Prop
  | [] => True
  | c :: cs => IsWrite c ∧ AreWrites cs

end

section

variable {p q : CRemoteParcel}

/-- A change that leaves size and position alone. -/
theorem Wordy.of_eq (hp : p.Wordy) (hsize : q.mDataSize = p.mDataSize)
    (hpos : q.mDataPos = p.mDataPos) : q.Wordy :=
  ⟨hsize ▸ hp.size, hpos ▸ hp.pos, by rw [hsize, hpos]; exact hp.pos_le⟩

theorem Wordy.memcpy (hp : p.Wordy) (off : ℕ) (bs : List UInt8) : (p.memcpy off bs).Wordy :=
  hp.of_eq rfl rfl

/-- Moving on by whole words, even past `2 ^ 32`. -/
theorem Wordy.finishWrite (hp : p.Wordy) {n : UInt32} (hn : 4 ∣ n.toNat) :
    (p.finishWrite n).Wordy := by
  have hpos : (p.mDataPos + n).toNat = (p.mDataPos.toNat + n.toNat) % 4294967296 :=
    UInt32.toNat_add _ _
  have h1 := hp.size
  have h2 := hp.pos
  have h4 : 4 ∣ (p.mDataPos + n).toNat := by omega
  constructor
  · change 4 ∣ (if p.mDataPos + n > p.mDataSize then p.mDataPos + n else p.mDataSize).toNat
    split
    · exact h4
    · exact h1
  · exact h4
  · change (p.mDataPos + n).toNat
      ≤ (if p.mDataPos + n > p.mDataSize then p.mDataPos + n else p.mDataSize).toNat
    split
    · exact le_rfl
    · next hle =>
      rw [gt_iff_lt, UInt32.lt_iff_toNat_lt, not_lt] at hle
      exact hle

theorem Wordy.growData (hp : p.Wordy) (env : Allocator) (n : UInt32) :
    (p.growData env n).2.Wordy := by
  rw [CRemoteParcel.growData]
  split
  · exact hp
  · next hnew =>
    -- the new size is above the data, so nothing is cut
    have hle := hp.pos_le
    rw [UInt32.le_iff_toNat_le, not_le] at hnew
    have hsize : ¬ p.mDataSize > (p.mDataSize + n) * 3 / 2 := by
      rw [gt_iff_lt, UInt32.lt_iff_toNat_lt]
      omega
    have hpos : ¬ p.mDataPos > (p.mDataSize + n) * 3 / 2 := by
      rw [gt_iff_lt, UInt32.lt_iff_toNat_lt]
      omega
    rw [continueWrite]
    split
    · split
      · split <;> exact hp.of_eq rfl rfl
      · exact hp.of_eq rfl rfl
    · split
      · exact ⟨Nat.dvd_zero 4, Nat.dvd_zero 4, le_rfl⟩
      · exact hp.of_eq rfl rfl

theorem four_dvd_padSize (len : UInt32) : 4 ∣ (padSize len).toNat := by
  rw [toNat_padSize]
  omega

theorem Wordy.writeInplaceAt (hp : p.Wordy) (len : UInt32) :
    (p.writeInplaceAt len (padSize len)).2.Wordy := by
  refine Wordy.finishWrite ?_ (four_dvd_padSize len)
  split
  · exact hp.memcpy _ _
  · exact hp

theorem Wordy.writeInplace (hp : p.Wordy) (env : Allocator) (len : UInt32) :
    (p.writeInplace env len).2.Wordy := by
  rw [CRemoteParcel.writeInplace]
  dsimp only
  split
  · exact hp
  · split
    · exact hp.writeInplaceAt len
    · have hgrow := hp.growData env (padSize len)
      split
      · exact hgrow.writeInplaceAt len
      · exact hgrow

theorem Wordy.write (hp : p.Wordy) (env : Allocator) (data : List UInt8) (len : UInt32) :
    (p.write env data len).2.Wordy := by
  have hinplace := hp.writeInplace env len
  rw [CRemoteParcel.write]
  split
  next off q hq =>
    rw [hq] at hinplace
    exact hinplace.memcpy off _
  next q hq =>
    rw [hq] at hinplace
    exact hinplace

theorem four_dvd_sizeOf32 {value : List UInt8} (h : 4 ∣ value.length) :
    4 ∣ (sizeOf32 value).toNat := by
  rw [sizeOf32, UInt32.toNat_ofNat']
  omega

theorem Wordy.writeAligned (hp : p.Wordy) (env : Allocator) {value : List UInt8}
    (h : 4 ∣ value.length) : (p.writeAligned env value).2.Wordy := by
  have hat {q : CRemoteParcel} (hq : q.Wordy) : (q.writeAlignedAt value).Wordy :=
    (hq.memcpy _ _).finishWrite (four_dvd_sizeOf32 h)
  have hgrow := hp.growData env (sizeOf32 value)
  rw [CRemoteParcel.writeAligned]
  split
  · exact hat hp
  · split
    next ec q hq =>
    rw [hq] at hgrow
    split
    · exact hat hgrow
    · exact hgrow

theorem Wordy.beginInterface (hp : p.Wordy) (env : Allocator) (value : Option Marshalled) :
    (p.beginInterface env value).parcel.Wordy := by
  have hreserve : (p.reservePack env).2.Wordy := by
    rw [reservePack]
    split
    · exact hp
    · exact hp.growData env 32
  rw [CRemoteParcel.beginInterface]
  split
  next ec q hq =>
  rw [hq] at hreserve
  split
  · exact hreserve
  · split
    · exact hreserve.of_eq rfl rfl
    · next r hr =>
      have hr' : r.Wordy := by
        rw [reserveObject] at hr
        split at hr
        · obtain rfl := Option.some.inj hr
          exact hreserve
        · obtain ⟨block, -, rfl⟩ := Option.map_eq_some_iff.mp hr
          exact hreserve.of_eq rfl rfl
      have htag (tag : UInt32) :
          ((r.memcpy r.mDataPos.toNat (wordBytes tag)).finishWrite 4).Wordy :=
        (hr'.memcpy _ _).finishWrite (n := 4) (by decide)
      rw [beginInterfaceAt.eq_def]
      split
      · exact htag MSH_NULL
      · next m =>
        have hpack : (((r.memcpy r.mDataPos.toNat (wordBytes MSH_NOT_NULL)).finishWrite 4).memcpy
            (r.mDataPos + 4).toNat m.pack).Wordy := (htag MSH_NOT_NULL).memcpy _ _
        split
        · exact hpack
        · exact hpack.finishWrite (n := 28) (by decide)

end

/-! ### Runs of writes -/

mutual

/-- **A write keeps the data in words**, with the writes nested in it. -/
theorem wordy_perform (env : Allocator) : ∀ (c : WriteCall) (p : CRemoteParcel), IsWrite c →
    p.Wordy → (perform env c p).2.Wordy
  | .writeInplace len, p, _, hp => by
    rw [perform]
    exact hp.writeInplace env len
  | .write data len, p, _, hp => by
    rw [perform]
    exact hp.write env data len
  | .writeAligned value, p, hc, hp => by
    rw [perform]
    exact hp.writeAligned env (by rwa [IsWrite] at hc)
  | .writeInterfacePtr value nested, p, hc, hp => by
    rw [IsWrite] at hc
    have hbegin := hp.beginInterface env value
    rw [perform, writeInterfacePtr]
    rcases hb : p.beginInterface env value with ⟨ec, q⟩ | q | q <;> rw [hb] at hbegin
    · exact hbegin
    · exact hbegin.of_eq rfl rfl
    · exact (wordy_performAll env nested q hc hbegin).of_eq rfl rfl
  | .setDataSize _, _, hc, _ | .setDataCapacity _, _, hc, _ | .setDataPosition _, _, hc, _ => by
    rw [IsWrite] at hc
    exact hc.elim

theorem wordy_performAll (env : Allocator) : ∀ (cs : List WriteCall) (p : CRemoteParcel),
    AreWrites cs → p.Wordy → (performAll env cs p).Wordy
  | [], p, _, hp => by
    rw [performAll]
    exact hp
  | c :: cs, p, hcs, hp => by
    rw [AreWrites] at hcs
    rw [performAll]
    exact wordy_performAll env cs _ hcs.2 (wordy_perform env c p hcs.1 hp)

end

/-- The `Write*` operations; the objects in an array write themselves with `Write*` calls. -/
def WriteOp.Writes : WriteOp → Prop
  | .call c => IsWrite c
  | .value _ _ | .arrayOfString _ => True
  | .arrayOf m _ => ∀ x, AreWrites (m.nested x)
  | .unmarshall _ _ _ => False

theorem areWrites_append {cs ds : List WriteCall} :
    AreWrites (cs ++ ds) ↔ AreWrites cs ∧ AreWrites ds := by
  induction cs with
  | nil => simp [AreWrites]
  | cons c cs ih => simp only [List.cons_append, AreWrites, ih, and_assoc]

theorem areWrites_stringCalls (s : CarString) : AreWrites (stringCalls s) := by
  cases s <;> simp [stringCalls, AreWrites, IsWrite]

theorem areWrites_strings (ss : List CarString) : AreWrites (ss.map stringCalls).flatten := by
  induction ss with
  | nil => simp [AreWrites]
  | cons s ss ih =>
    rw [List.map_cons, List.flatten_cons, areWrites_append]
    exact ⟨areWrites_stringCalls s, ih⟩

theorem areWrites_interfaceCalls {m : ItfCalls} (hm : ∀ x, AreWrites (m.nested x))
    (xs : List (Option Itf)) : AreWrites (interfaceCalls m xs) := by
  induction xs with
  | nil => simp [interfaceCalls, AreWrites]
  | cons x xs ih =>
    cases x with
    | none =>
      rw [interfaceCalls, AreWrites]
      exact ⟨by simp [IsWrite], ih⟩
    | some x =>
      rw [interfaceCalls, AreWrites]
      refine ⟨by simp [IsWrite], ?_⟩
      split
      · simp [AreWrites]
      · rw [areWrites_append, AreWrites, areWrites_append]
        exact ⟨areWrites_stringCalls _, by simp [IsWrite], hm x, ih⟩

theorem areWrites_opCalls (env : Allocator) (p : CRemoteParcel) {op : WriteOp} (hop : op.Writes) :
    AreWrites (opCalls env p op) := by
  cases op with
  | call c => exact ⟨hop, trivial⟩
  | value ptr v =>
    cases v with
    | string v => exact areWrites_stringCalls v
    | eguid v =>
      simp only [opCalls, valueCalls, AreWrites, IsWrite, true_and]
      split <;> simp [AreWrites, IsWrite]
    | struct v => cases v <;> simp [opCalls, valueCalls, AreWrites, IsWrite]
    | _ => simp [opCalls, valueCalls, AreWrites, IsWrite]
  | arrayOf m value =>
    cases value with
    | none => simp [opCalls, AreWrites, IsWrite]
    | some q =>
      simp only [opCalls, AreWrites, IsWrite, true_and]
      refine ⟨by simp, ?_⟩
      split
      · exact areWrites_interfaceCalls hop _
      · exact areWrites_strings _
      · simp [AreWrites, IsWrite]
  | arrayOfString array =>
    cases array with
    | none => simp [opCalls, AreWrites, IsWrite]
    | some q =>
      simp only [opCalls, AreWrites, IsWrite, true_and]
      exact areWrites_strings _
  | unmarshall data offset length => exact hop.elim

/-- **A parcel that was only written to holds whole words.** -/
theorem wordy_runOps (env : Allocator) (ops : List WriteOp) (hops : ∀ op ∈ ops, op.Writes)
    (p : CRemoteParcel) (hp : p.Wordy) : (runOps env ops p).Wordy := by
  induction ops generalizing p with
  | nil => exact hp
  | cons op ops ih =>
    rw [runOps]
    refine ih (fun op hop => hops op (List.mem_cons_of_mem _ hop)) _ ?_
    rw [← performAll_opCalls]
    exact wordy_performAll env _ p (areWrites_opCalls env p (hops op List.mem_cons_self)) hp

theorem wordy_new : Wordy {} := ⟨Nat.dvd_zero 4, Nat.dvd_zero 4, le_rfl⟩

theorem Wordy.dataSize {p : CRemoteParcel} (hp : p.Wordy) : 4 ∣ p.dataSize.toNat := by
  rw [CRemoteParcel.dataSize]
  split
  · exact hp.size
  · exact hp.pos

/-- Marshalled bytes make a new parcel with the same data. There are none when the parcel has
objects, and no array for them when it is too large. -/
def CopiesInto (env : Allocator) (p : CRemoteParcel) : Prop :=
  match p.marshall with
  | .ok (_, some bs) => ∃ q, unmarshallOrFault env (some bs) 0 (Int32.ofNat bs.length) {} = .ok q ∧
      q.dataSize = p.dataSize ∧
      load q.block 0 q.dataSize.toNat = load p.block 0 p.dataSize.toNat
  | .ok (_, none) => p.mObjects ≠ []
  | .error _ => refusesSize p.dataSize = true

/-- A whole array of words, unmarshalled into a new parcel. -/
theorem unmarshall_whole (henv : env.Succeeds) (bs : List UInt8) (hlt : bs.length < 2 ^ 31)
    (h4 : 4 ∣ bs.length) :
    ∃ q, unmarshallOrFault env (some bs) 0 (Int32.ofNat bs.length) {} = .ok q ∧ q.mObjects = [] ∧
      q.mDataSize.toNat = bs.length ∧ q.dataSize.toNat = bs.length ∧
      load q.block 0 bs.length = bs := by
  have hint : (Int32.ofNat bs.length).toInt = bs.length := by
    rw [Int32.toInt_ofNat_of_lt (by omega)]
  have hnat : (Int32.ofNat bs.length).toInt.toNat = bs.length := by
    rw [hint, Int.toNat_natCast]
  have haccepted : ¬ Rejects bs 0 (Int32.ofNat bs.length) := by
    rw [Rejects, hint, Int32.toInt_zero]
    omega
  obtain ⟨q, hq, hobjects, hsize, hdata, hload⟩ :=
    unmarshall_of_dvd henv haccepted (by rw [hnat]; exact h4)
  have hslice : slice bs 0 (Int32.ofNat bs.length) = bs := by
    rw [slice, hnat, Int32.toInt_zero]
    simp
  rw [hslice] at hload
  rw [hnat] at hdata hload
  exact ⟨q, hq, hobjects, by rw [hsize, toNat_length haccepted, hnat], hdata, hload⟩

theorem copiesInto_of_dvd (henv : env.Succeeds) {p : CRemoteParcel} (h4 : 4 ∣ p.dataSize.toNat) :
    p.CopiesInto env := by
  rw [CopiesInto, marshall]
  by_cases hobjects : p.mObjects ≠ []
  · rw [if_pos hobjects]
    exact hobjects
  rw [if_neg hobjects]
  by_cases hrefuses : refusesSize p.dataSize = true
  · rw [if_pos hrefuses]
    exact hrefuses
  rw [if_neg hrefuses]
  have hlt : p.dataSize.toNat < 2 ^ 31 := by
    rw [refusesSize, Bool.or_eq_true, not_or, decide_eq_true_iff, UInt32.le_iff_toNat_le,
      not_le] at hrefuses
    exact hrefuses.1
  have hlength : (load p.block 0 p.dataSize.toNat).length = p.dataSize.toNat := length_load _ _ _
  obtain ⟨q, hq, -, -, hsize, hload⟩ :=
    unmarshall_whole henv (load p.block 0 p.dataSize.toNat) (by omega) (by omega)
  rw [hlength] at hsize hload
  exact ⟨q, hq, UInt32.toNat_inj.mp hsize, by rw [hsize]; exact hload⟩

/-- The copy stays inside the array, whatever the arguments are. -/
theorem unmarshall_inside (env : Allocator) (data : Option (List UInt8)) (offset length : Int32)
    (p : CRemoteParcel) : unmarshallOrFault env data offset length p ≠ .error .outOfBounds := by
  intro h
  cases data with
  | none => cases h
  | some d =>
    by_cases hrejects : Rejects d offset length
    · rw [unmarshallOrFault, if_pos hrejects] at h
      cases h
    · rw [unmarshallOrFault_eq hrejects, copyTo.eq_def] at h
      split at h
      · cases h
      · split at h <;> cases h

/-- `unmarshall` is what happens to the parcel where the copy does not fault. -/
theorem unmarshall_of_ok {p q : CRemoteParcel} {data : Option (List UInt8)}
    (h : unmarshallOrFault env data offset length p = .ok q) :
    p.unmarshall env data offset length = q := by
  cases data with
  | none =>
    cases h
    rfl
  | some d =>
    by_cases hrejects : Rejects d offset length
    · rw [unmarshallOrFault, if_pos hrejects] at h
      cases h
      exact if_pos hrejects
    · rw [unmarshallOrFault_eq hrejects] at h
      have hrun : p.unmarshall env (some d) offset length
          = (write env (d.drop offset.toInt.toNat) length.toUInt32
            ((p.setDataSize env length.toUInt32).2.setDataPosition 0)).2 := if_neg hrejects
      rw [hrun, write]
      rcases hw : writeInplace env length.toUInt32 _ with ⟨_ | off, r⟩ <;> rw [hw] at h
      · rw [copyTo] at h
        split at h
        · cases h
          rfl
        · cases h
      · cases h
        rw [toNat_length hrejects]
        rfl

/-- **When `Marshall` undoes `Unmarshall`**: the bytes come back for lengths that are made of words
and small enough for an array; what was written comes back in any case; and nothing outside the
array is read. -/
theorem marshall_unmarshall_iff (env : { env : Allocator // env.Succeeds }) :
    (∀ d offset length, ¬ Rejects d offset length →
      (BytesReturn env.1 d offset length
        ↔ 4 ∣ length.toInt.toNat ∧ refusesSize length.toUInt32 = false)) ∧
    (∀ env' ops, (∀ op ∈ ops, op.Writes) → (runOps env' ops {}).CopiesInto env.1) ∧
    ∀ data offset length p,
      unmarshallOrFault env.1 data offset length p ≠ .error .outOfBounds := by
  refine ⟨fun d offset length h => bytesReturn_iff env.2 h, fun env' ops hops => ?_,
    unmarshall_inside env.1⟩
  exact copiesInto_of_dvd env.2 (wordy_runOps env' ops hops {} wordy_new).dataSize

/-- Two words out of three. -/
theorem marshall_unmarshall_iff_words :
    ¬ Rejects [0, 0, 0, 0, 1, 2, 3, 4, 5, 6, 7, 8] 4 8 ∧
      BytesReturn .zeros [0, 0, 0, 0, 1, 2, 3, 4, 5, 6, 7, 8] 4 8 :=
  ⟨by decide, ((marshall_unmarshall_iff ⟨.zeros, Allocator.zeros_succeeds⟩).1 _ 4 8
    (by decide)).mpr (by decide)⟩

/-- One byte comes back as four. -/
theorem byte_not_bytesReturn : ¬ Rejects [1] 0 1 ∧ ¬ BytesReturn .zeros [1] 0 1 := by
  have haccepted : ¬ Rejects [1] 0 1 := by decide
  refine ⟨haccepted, fun h => ?_⟩
  have hwords := ((bytesReturn_iff Allocator.zeros_succeeds haccepted).mp h).1
  exact absurd hwords (by decide)

end CRemoteParcel

end ElastosCar
