import ElastosCar.Parcel.Array

/-!
# Writes stay inside the capacity

The calls that change a parcel, in any order and with an `IParcelable` object's calls nested
inside `WriteInterfacePtr`, and the bounds they keep: a write that reports success lies
inside the capacity, and position, size and capacity stay in order (`Stored`).

The code decides all of this in 32-bit arithmetic that can wrap: `PAD_SIZE` of a length above
`0xFFFFFFFC` is zero, `WriteAligned` and `WriteInterfacePtr` do not check their sum, and
`GrowData` multiplies by three and jumps back to the write without looking at the capacity
again. `NoWrap` says that none of this happens at a call; the result is that a run of such
calls keeps the bounds everywhere.
-/

namespace ElastosCar

/-- A call that changes a parcel. -/
inductive WriteCall
  | setDataSize (size : UInt32)
  | setDataCapacity (size : UInt32)
  | setDataPosition (pos : UInt32)
  | writeInplace (len : UInt32)
  | write (data : List UInt8) (len : UInt32)
  | writeAligned (value : List UInt8)
  /-- With the calls that the object makes in `WriteToParcel`. -/
  | writeInterfacePtr (value : Option Marshalled) (nested : List WriteCall)

namespace CRemoteParcel

mutual

/-- Perform a call: whether it reports success, and the parcel after it. -/
def perform (env : Allocator) : WriteCall → CRemoteParcel → Bool × CRemoteParcel
  | .setDataSize size, p => let (ec, p) := p.setDataSize env size; (!failed ec, p)
  | .setDataCapacity size, p => let (ec, p) := p.setDataCapacity env size; (!failed ec, p)
  | .setDataPosition pos, p => (true, p.setDataPosition pos)
  | .writeInplace len, p => let (off, p) := p.writeInplace env len; (off.isSome, p)
  | .write data len, p =>
    ((p.writeInplace env len).1.isSome, (p.write env data len).2)
  | .writeAligned value, p => let (ec, p) := p.writeAligned env value; (ec = NOERROR, p)
  | .writeInterfacePtr value nested, p =>
    let (ec, p) := p.writeInterfacePtr env value (performAll env nested); (ec = NOERROR, p)

def performAll (env : Allocator) : List WriteCall → CRemoteParcel → CRemoteParcel
  | [], p => p
  | c :: cs, p => performAll env cs (perform env c p).2

end

mutual

/-- The calls made while a call is performed, with the parcels they are made on. -/
def callVisits (env : Allocator) : WriteCall → CRemoteParcel → List (CRemoteParcel × WriteCall)
  | .writeInterfacePtr value nested, p =>
    (p, .writeInterfacePtr value nested) ::
      match p.beginInterface env value with
      | .marshalled q => writeVisits env nested q
      | _ => []
  | .setDataSize size, p => [(p, .setDataSize size)]
  | .setDataCapacity size, p => [(p, .setDataCapacity size)]
  | .setDataPosition pos, p => [(p, .setDataPosition pos)]
  | .writeInplace len, p => [(p, .writeInplace len)]
  | .write data len, p => [(p, .write data len)]
  | .writeAligned value, p => [(p, .writeAligned value)]

def writeVisits (env : Allocator) : List WriteCall → CRemoteParcel → List (CRemoteParcel × WriteCall)
  | [], _ => []
  | c :: cs, p => callVisits env c p ++ writeVisits env cs (perform env c p).2

end

/-! ### The bounds and the condition -/

/-- How many bytes a call needs from the position on, without wrapping. -/
def need : WriteCall → ℕ
  | .writeInplace len | .write _ len => pad4 len.toNat
  | .writeAligned value => value.length
  | .writeInterfacePtr none _ => 4
  | .writeInterfacePtr (some _) _ => 32
  | .setDataSize _ | .setDataCapacity _ | .setDataPosition _ => 0

/-- A call that reports success was inside the capacity, and position, size and capacity are
in order after it. -/
def Bounded (env : Allocator) (p : CRemoteParcel) (c : WriteCall) : Prop :=
  (perform env c p).1 = true →
    p.mDataPos.toNat + need c ≤ (perform env c p).2.mDataCapacity.toNat ∧
    (perform env c p).2.mDataPos.toNat ≤ (perform env c p).2.mDataSize.toNat ∧
    (perform env c p).2.mDataSize.toNat ≤ (perform env c p).2.mDataCapacity.toNat

/-- The uses of `SetDataPosition` that are considered. -/
def Legal (p : CRemoteParcel) : WriteCall → Prop
  | .setDataPosition pos => pos ≤ p.dataSize
  | _ => True

instance (p : CRemoteParcel) : DecidablePred p.Legal
  | .setDataPosition _ => inferInstanceAs (Decidable (_ ≤ _))
  | .setDataSize _ | .setDataCapacity _ | .writeInplace _ | .write _ _ | .writeAligned _
  | .writeInterfacePtr _ _ => .isTrue trivial

/-- The capacity that `GrowData(ask)` computes, in 32 bits, is refused or has room for `n`
bytes. -/
def Growable (p : CRemoteParcel) (ask n : ℕ) : Prop :=
  3 * (p.mDataSize.toNat + ask) % 4294967296 / 2 ≤ p.mDataSize.toNat ∨
    p.mDataPos.toNat + n ≤ 3 * (p.mDataSize.toNat + ask) % 4294967296 / 2

/-- **No arithmetic goes wrong** at a call. -/
def NoWrap (p : CRemoteParcel) (c : WriteCall) : Prop :=
  match c with
  | .writeInplace len | .write _ len =>
    len.toNat ≤ 0xFFFFFFFC ∧
      (p.mDataCapacity.toNat < p.mDataPos.toNat + pad4 len.toNat →
        p.mDataPos.toNat + pad4 len.toNat < 4294967296 →
          p.Growable (pad4 len.toNat) (pad4 len.toNat))
  | .writeAligned value =>
    p.mDataPos.toNat + value.length < 4294967296 ∧
      (p.mDataCapacity.toNat < p.mDataPos.toNat + value.length →
        p.Growable value.length value.length)
  | .writeInterfacePtr _ _ =>
    p.mDataPos.toNat + 32 < 4294967296 ∧
      (p.mDataCapacity.toNat < p.mDataPos.toNat + 32 → p.Growable 32 (need c))
  | .setDataSize _ | .setDataCapacity _ | .setDataPosition _ => True

instance (p : CRemoteParcel) (ask n : ℕ) : Decidable (p.Growable ask n) :=
  inferInstanceAs (Decidable (_ ∨ _))

instance (p : CRemoteParcel) : DecidablePred p.NoWrap
  | .writeInplace _ | .write _ _ => inferInstanceAs (Decidable (_ ∧ (_ → _ → p.Growable _ _)))
  | .writeAligned _ | .writeInterfacePtr _ _ =>
    inferInstanceAs (Decidable (_ ∧ (_ → p.Growable _ _)))
  | .setDataSize _ | .setDataCapacity _ | .setDataPosition _ => .isTrue trivial

/-! ### The storage layer, whatever the allocator does -/

/-- `q` is `p` after a successful or failed change of the capacity only. -/
structure Regrown (p q : CRemoteParcel) : Prop where
  stored : q.Stored
  size : q.mDataSize = p.mDataSize
  pos : q.mDataPos = p.mDataPos
  cap : p.mDataCapacity.toNat ≤ q.mDataCapacity.toNat

/-- `ContinueWrite`: it fails and changes nothing that matters here, or the capacity is at
least what was asked for and size and position are cut to it. -/
theorem continueWrite_cases (env : Allocator) {p : CRemoteParcel} (hp : p.Stored)
    (desired : UInt32) :
    ((p.continueWrite env desired).1 = E_OUT_OF_MEMORY ∧
      Regrown p (p.continueWrite env desired).2) ∨
    ((p.continueWrite env desired).1 = NOERROR ∧
      (p.continueWrite env desired).2.mData.isSome ∧
      p.mDataCapacity.toNat ≤ (p.continueWrite env desired).2.mDataCapacity.toNat ∧
      desired.toNat ≤ (p.continueWrite env desired).2.mDataCapacity.toNat ∧
      (p.continueWrite env desired).2.mDataSize.toNat = min p.mDataSize.toNat desired.toNat ∧
      (p.continueWrite env desired).2.mDataPos.toNat = min p.mDataPos.toNat desired.toNat) := by
  have hpos := hp.pos_le
  have hsize := hp.size_le
  have hcut (a : UInt32) :
      (if a > desired then desired else a).toNat = min a.toNat desired.toNat := by
    simp only [gt_iff_lt, UInt32.lt_iff_toNat_lt]
    split <;> omega
  rw [continueWrite]
  cases hd : p.mData with
  | some d =>
    dsimp only
    split
    · next hcap =>
      rw [gt_iff_lt, UInt32.lt_iff_toNat_lt] at hcap
      split
      · exact Or.inr ⟨rfl, rfl, hcap.le, le_rfl, by dsimp only; omega, by dsimp only; omega⟩
      · exact Or.inl ⟨rfl, ⟨(fun h => by cases h), hsize, hpos⟩, rfl, rfl, le_rfl⟩
    · next hcap =>
      rw [gt_iff_lt, UInt32.lt_iff_toNat_lt, not_lt] at hcap
      exact Or.inr ⟨rfl, rfl, le_rfl, hcap, hcut _, hcut _⟩
  | none =>
    obtain ⟨hs, hp0⟩ := hp.eq_zero_of_null hd
    have hc := hp.null hd
    dsimp only
    split
    · exact Or.inr ⟨rfl, rfl, by simp [hc], le_rfl, by simp [hs], by simp [hp0]⟩
    · exact Or.inl ⟨rfl, ⟨fun _ => hc, hsize, hpos⟩, rfl, rfl, le_rfl⟩

/-- A growth request above the size keeps the data, and makes room when it succeeds. -/
theorem regrown_continueWrite (env : Allocator) {p : CRemoteParcel} (hp : p.Stored)
    {desired : UInt32} (h : p.mDataSize.toNat < desired.toNat) :
    Regrown p (p.continueWrite env desired).2 ∧
      ((p.continueWrite env desired).1 = NOERROR →
        desired.toNat ≤ (p.continueWrite env desired).2.mDataCapacity.toNat) := by
  rcases continueWrite_cases env hp desired with ⟨hec, hre⟩ | ⟨-, hd, hcap, hroom, hs, hpos⟩
  · exact ⟨hre, fun h => absurd h (by rw [hec]; exact E_OUT_OF_MEMORY_ne)⟩
  · have hpos_le := hp.pos_le
    have hsize_le := hp.size_le
    rw [min_eq_left (by omega)] at hs hpos
    refine ⟨⟨⟨fun hn => ?_, ?_, ?_⟩, UInt32.toNat_inj.mp hs, UInt32.toNat_inj.mp hpos, hcap⟩,
      fun _ => hroom⟩
    · rw [hn] at hd
      cases hd
    · rw [hs]
      omega
    · rw [hs, hpos]
      exact hpos_le

/-- `GrowData` keeps the data; when it succeeds on a growable parcel there is room. -/
theorem regrown_growData (env : Allocator) {p : CRemoteParcel} (hp : p.Stored) {len : UInt32}
    {n : ℕ} (hgrow : p.Growable len.toNat n) :
    Regrown p (p.growData env len).2 ∧
      ((p.growData env len).1 = NOERROR →
        p.mDataPos.toNat + n ≤ (p.growData env len).2.mDataCapacity.toNat) := by
  have hnew : ((p.mDataSize + len) * 3 / 2).toNat
      = 3 * (p.mDataSize.toNat + len.toNat) % 4294967296 / 2 := by
    simp only [UInt32.toNat_div, UInt32.toNat_mul, UInt32.toNat_add, UInt32.reduceToNat]
    omega
  rw [growData]
  split
  · exact ⟨⟨hp, rfl, rfl, le_rfl⟩, fun hec => absurd hec E_OUT_OF_MEMORY_ne⟩
  · next hle =>
    rw [UInt32.le_iff_toNat_le, not_le, hnew] at hle
    obtain ⟨hre, hroom⟩ := regrown_continueWrite env hp
      (show p.mDataSize.toNat < ((p.mDataSize + len) * 3 / 2).toNat by rw [hnew]; exact hle)
    refine ⟨hre, fun hec => ?_⟩
    have := hroom hec
    rw [hnew] at this
    rcases hgrow with h | h <;> omega

theorem stored_memcpy {p : CRemoteParcel} (hp : p.Stored) (off : ℕ) (bs : List UInt8) :
    (p.memcpy off bs).Stored :=
  ⟨fun hn => hp.null (by simpa [memcpy] using hn), hp.size_le, hp.pos_le⟩

/-- `FinishWrite` inside the capacity. -/
theorem stored_finishWrite {p : CRemoteParcel} (hp : p.Stored) {n : UInt32}
    (h : p.mDataPos.toNat + n.toNat ≤ p.mDataCapacity.toNat) :
    (p.finishWrite n).Stored ∧
      (p.finishWrite n).mDataPos.toNat = p.mDataPos.toNat + n.toNat := by
  have hlt := p.mDataCapacity.toNat_lt
  have hsize := hp.size_le
  have hsum : (p.mDataPos + n).toNat = p.mDataPos.toNat + n.toNat := by
    rw [UInt32.toNat_add, Nat.mod_eq_of_lt (by omega)]
  refine ⟨⟨hp.null, ?_, ?_⟩, hsum⟩ <;> simp only [finishWrite] <;> split
  · rw [hsum]
    exact h
  · exact hsize
  · exact le_rfl
  · next hle =>
    rw [gt_iff_lt, UInt32.lt_iff_toNat_lt, not_lt] at hle
    exact hle

/-! ### The calls -/

/-- What a call that needs `n` bytes keeps. -/
structure Kept (p : CRemoteParcel) (n : ℕ) (ok : Prop) (q : CRemoteParcel) : Prop where
  stored : q.Stored
  cap : p.mDataCapacity.toNat ≤ q.mDataCapacity.toNat
  room : ok → p.mDataPos.toNat + n ≤ q.mDataCapacity.toNat

theorem Regrown.kept {p q : CRemoteParcel} (h : Regrown p q) {n : ℕ} {ok : Prop} (hok : ¬ ok) :
    Kept p n ok q := ⟨h.stored, h.cap, fun h => absurd h hok⟩

section

variable (env : Allocator) {p : CRemoteParcel} (hp : p.Stored)
include hp

theorem kept_refl (n : ℕ) {ok : Prop} (hok : ok → p.mDataPos.toNat + n ≤ p.mDataCapacity.toNat) :
    Kept p n ok p := ⟨hp, le_rfl, hok⟩

theorem kept_writeInplaceAt {len padLen : UInt32} {ok : Prop}
    (h : p.mDataPos.toNat + padLen.toNat ≤ p.mDataCapacity.toNat) :
    Kept p padLen.toNat ok (p.writeInplaceAt len padLen).2 := by
  rw [writeInplaceAt]
  split
  · exact ⟨(stored_finishWrite (stored_memcpy hp _ _) h).1, le_rfl, fun _ => h⟩
  · exact ⟨(stored_finishWrite hp h).1, le_rfl, fun _ => h⟩

theorem kept_writeInplace {len : UInt32} (h : p.NoWrap (.writeInplace len)) :
    Kept p (pad4 len.toNat) ((p.writeInplace env len).1.isSome) (p.writeInplace env len).2 := by
  obtain ⟨hlen, hgrow⟩ := h
  have hpad := toNat_padSize_of_le hlen
  have hlt := (padSize len).toNat_lt
  have hpl := p.mDataPos.toNat_lt
  have hcl := p.mDataCapacity.toNat_lt
  rw [← hpad] at hgrow ⊢
  rw [writeInplace]
  split
  · exact kept_refl hp _ (by simp)
  · next hwrap =>
    rw [UInt32.lt_iff_toNat_lt, UInt32.toNat_add] at hwrap
    have hsum : (p.mDataPos + padSize len).toNat = p.mDataPos.toNat + (padSize len).toNat := by
      rw [UInt32.toNat_add, Nat.mod_eq_of_lt (by omega)]
    split
    · next hcap =>
      rw [UInt32.le_iff_toNat_le, hsum] at hcap
      exact kept_writeInplaceAt hp hcap
    · next hcap =>
      rw [UInt32.le_iff_toNat_le, hsum, not_le] at hcap
      obtain ⟨hre, hroom⟩ := regrown_growData env hp (hgrow hcap (by omega))
      rcases hg : p.growData env (padSize len) with ⟨ec, q⟩
      rw [hg] at hre hroom
      dsimp only
      split
      · next hec =>
        have hk : Kept q (padSize len).toNat (q.writeInplaceAt len (padSize len)).1.isSome
            (q.writeInplaceAt len (padSize len)).2 :=
          kept_writeInplaceAt hre.stored (by rw [hre.pos]; exact hroom hec)
        exact ⟨hk.stored, hre.cap.trans hk.cap, fun ok => by rw [← hre.pos]; exact hk.room ok⟩
      · exact hre.kept (by simp)

theorem kept_write {data : List UInt8} {len : UInt32} (h : p.NoWrap (.write data len)) :
    Kept p (pad4 len.toNat) ((p.writeInplace env len).1.isSome) (p.write env data len).2 := by
  have hk := kept_writeInplace env hp (show p.NoWrap (.writeInplace len) from h)
  rw [write]
  rcases hw : p.writeInplace env len with ⟨_ | off, q⟩
  · rw [hw] at hk
    exact hk
  · rw [hw] at hk
    exact ⟨stored_memcpy hk.stored _ _, hk.cap, hk.room⟩

theorem kept_writeAlignedAt {value : List UInt8} {ok : Prop}
    (h : p.mDataPos.toNat + value.length ≤ p.mDataCapacity.toNat) :
    Kept p value.length ok (p.writeAlignedAt value) := by
  have hlt := p.mDataCapacity.toNat_lt
  have hn : (sizeOf32 value).toNat = value.length := toNat_sizeOf32 (by omega)
  exact ⟨(stored_finishWrite (stored_memcpy hp _ _) (by rw [hn]; exact h)).1, le_rfl, fun _ => h⟩

theorem kept_writeAligned {value : List UInt8} (h : p.NoWrap (.writeAligned value)) :
    Kept p value.length ((p.writeAligned env value).1 = NOERROR) (p.writeAligned env value).2 := by
  obtain ⟨hlt, hgrow⟩ := h
  have hn : (sizeOf32 value).toNat = value.length := toNat_sizeOf32 (by omega)
  have hsum : (p.mDataPos + sizeOf32 value).toNat = p.mDataPos.toNat + value.length := by
    rw [UInt32.toNat_add, hn, Nat.mod_eq_of_lt hlt]
  rw [writeAligned]
  split
  · next hcap =>
    rw [UInt32.le_iff_toNat_le, hsum] at hcap
    exact kept_writeAlignedAt hp hcap
  · next hcap =>
    rw [UInt32.le_iff_toNat_le, hsum, not_le] at hcap
    have hgrow' : p.Growable (sizeOf32 value).toNat value.length := by
      rw [hn]
      exact hgrow hcap
    obtain ⟨hre, hroom⟩ := regrown_growData env hp hgrow'
    rcases hg : p.growData env (sizeOf32 value) with ⟨ec, q⟩
    rw [hg] at hre hroom
    dsimp only
    split
    · next hec =>
      have hk : Kept q value.length True (q.writeAlignedAt value) :=
        kept_writeAlignedAt hre.stored (by rw [hre.pos]; exact hroom hec)
      exact ⟨hk.stored, hre.cap.trans hk.cap, fun _ => by rw [← hre.pos]; exact hk.room trivial⟩
    · next hec => exact hre.kept hec

theorem kept_setDataSize (size : UInt32) {ok : Prop} : Kept p 0 ok (p.setDataSize env size).2 := by
  have hpos := hp.pos_le
  have hsize := hp.size_le
  rw [setDataSize]
  rcases hc : p.continueWrite env size with ⟨ec, q⟩
  have hcases := continueWrite_cases env hp size
  rw [hc] at hcases
  rcases hcases with ⟨rfl, hre⟩ | ⟨rfl, hd, hcap, hroom, -, hp'⟩
  · exact ⟨hre.stored, hre.cap, fun _ => le_trans (by omega) hre.cap⟩
  · refine ⟨⟨fun hn => ?_, hroom, ?_⟩, hcap, fun _ => le_trans (by omega) hcap⟩
    · rw [show q.mData = none from hn] at hd
      cases hd
    · change q.mDataPos.toNat ≤ size.toNat
      dsimp only at hp'
      omega

theorem kept_setDataCapacity (size : UInt32) {ok : Prop} :
    Kept p 0 ok (p.setDataCapacity env size).2 := by
  have hpos := hp.pos_le
  have hsize := hp.size_le
  rw [setDataCapacity]
  split
  · next h =>
    rw [gt_iff_lt, UInt32.lt_iff_toNat_lt] at h
    obtain ⟨hre, -⟩ := regrown_continueWrite env hp (show p.mDataSize.toNat < size.toNat by omega)
    have := hre.cap
    exact ⟨hre.stored, hre.cap, fun _ => by omega⟩
  · exact kept_refl hp 0 fun _ => by omega

theorem kept_setDataPosition {pos : UInt32} (h : p.Legal (.setDataPosition pos)) {ok : Prop} :
    Kept p 0 ok (p.setDataPosition pos) := by
  have hpos := hp.pos_le
  have hsize := hp.size_le
  have hle : pos.toNat ≤ p.mDataSize.toNat := by
    have hds : p.dataSize.toNat ≤ p.mDataSize.toNat := by
      rw [dataSize]
      split
      · exact le_rfl
      · exact hpos
    exact (UInt32.le_iff_toNat_le.mp h).trans hds
  exact ⟨⟨hp.null, hp.size_le, hle⟩, le_rfl, fun _ => hpos.trans hsize⟩

/-! ### Interface pointers -/

/-- The tag and the pack, inside the capacity. -/
theorem kept_beginInterfaceAt {value : Option Marshalled} {nested : List WriteCall}
    (h : p.mDataPos.toNat + need (.writeInterfacePtr value nested) ≤ p.mDataCapacity.toNat)
    {ok : Prop} :
    Kept p (need (.writeInterfacePtr value nested)) ok (p.beginInterfaceAt value).parcel := by
  cases value with
  | none => exact ⟨(stored_finishWrite (n := 4) (stored_memcpy hp _ _) h).1, le_rfl, fun _ => h⟩
  | some m =>
    simp only [need] at h
    obtain ⟨h1, h2⟩ := stored_finishWrite (p := p.memcpy p.mDataPos.toNat (wordBytes MSH_NOT_NULL))
      (n := 4) (stored_memcpy hp _ _) (by simp [memcpy]; omega)
    rw [beginInterfaceAt]
    split
    · exact ⟨stored_memcpy h1 _ _, le_rfl, fun _ => h⟩
    · refine ⟨(stored_finishWrite (stored_memcpy h1 _ _) ?_).1, le_rfl, fun _ => h⟩
      change (((p.memcpy _ _).finishWrite 4).mDataPos).toNat + 28 ≤ p.mDataCapacity.toNat
      rw [h2]
      change p.mDataPos.toNat + 4 + 28 ≤ p.mDataCapacity.toNat
      omega

omit hp in
theorem regrown_reserveObject {q : CRemoteParcel} (hq : q.Stored)
    {r : CRemoteParcel} (h : q.reserveObject env = some r) : Regrown q r := by
  rw [reserveObject] at h
  split at h
  · obtain rfl := Option.some.inj h
    exact ⟨hq, rfl, rfl, le_rfl⟩
  · obtain ⟨_, -, rfl⟩ := Option.map_eq_some_iff.mp h
    exact ⟨⟨hq.null, hq.size_le, hq.pos_le⟩, rfl, rfl, le_rfl⟩

omit hp in
theorem growData_code (len : UInt32) :
    (p.growData env len).1 = NOERROR ∨ (p.growData env len).1 = E_OUT_OF_MEMORY := by
  rw [growData]
  split
  · exact Or.inr rfl
  · rw [continueWrite]
    split
    · split
      · split
        · exact Or.inl rfl
        · exact Or.inr rfl
      · exact Or.inl rfl
    · split
      · exact Or.inl rfl
      · exact Or.inr rfl

theorem regrown_reservePack {value : Option Marshalled} {nested : List WriteCall}
    (h : p.NoWrap (.writeInterfacePtr value nested)) :
    Regrown p (p.reservePack env).2 ∧
      (failed (p.reservePack env).1 = false →
        p.mDataPos.toNat + need (.writeInterfacePtr value nested)
          ≤ (p.reservePack env).2.mDataCapacity.toNat) := by
  obtain ⟨hlt, hgrow⟩ := h
  have hneed : need (.writeInterfacePtr value nested) ≤ 32 := by
    cases value <;> simp [need]
  have hsum : (p.mDataPos + 4 + 28).toNat = p.mDataPos.toNat + 32 := by
    simp only [UInt32.toNat_add, UInt32.reduceToNat]
    omega
  rw [reservePack]
  split
  · next hcap =>
    rw [UInt32.le_iff_toNat_le, hsum] at hcap
    exact ⟨⟨hp, rfl, rfl, le_rfl⟩, fun _ => by dsimp only; omega⟩
  · next hcap =>
    rw [UInt32.le_iff_toNat_le, hsum, not_le] at hcap
    obtain ⟨hre, hroom⟩ := regrown_growData env hp
      (show p.Growable (32 : UInt32).toNat _ from hgrow hcap)
    refine ⟨hre, fun hok => hroom ?_⟩
    rcases growData_code env (p := p) 32 with hec | hec
    · exact hec
    · rw [hec] at hok
      exact absurd hok (by decide)

/-- Up to the object's own writes, the bounds are kept and what was written is inside the
capacity. -/
theorem kept_beginInterface {value : Option Marshalled} {nested : List WriteCall}
    (h : p.NoWrap (.writeInterfacePtr value nested)) :
    Kept p (need (.writeInterfacePtr value nested)) (p.beginInterface env value).Continues
      (p.beginInterface env value).parcel := by
  obtain ⟨hre, hroom⟩ := regrown_reservePack env hp h
  rw [beginInterface]
  rcases hr : p.reservePack env with ⟨ec, q⟩
  rw [hr] at hre hroom
  dsimp only
  split
  · exact hre.kept (by simp [Begun.Continues])
  · next hec =>
    rcases ho : q.reserveObject env with _ | r
    · exact ⟨⟨hre.stored.null, hre.stored.size_le, hre.stored.pos_le⟩, hre.cap,
        fun h => absurd h (by simp [Begun.Continues])⟩
    · have hobj := regrown_reserveObject env hre.stored ho
      have hpos : r.mDataPos = p.mDataPos := hobj.pos.trans hre.pos
      have hk : Kept r (need (.writeInterfacePtr value nested)) True
          (r.beginInterfaceAt value).parcel :=
        kept_beginInterfaceAt hobj.stored
          (by rw [hpos]; exact (hroom (by simpa using hec)).trans hobj.cap)
      exact ⟨hk.stored, (hre.cap.trans hobj.cap).trans hk.cap,
        fun _ => by rw [← hpos]; exact hk.room trivial⟩

end

/-- An early return of `WriteInterfacePtr` is a failure. -/
theorem failed_of_beginInterface {env : Allocator} {value : Option Marshalled}
    {p q : CRemoteParcel} {ec : ECode} (h : p.beginInterface env value = .failed ec q) :
    failed ec = true := by
  rw [beginInterface] at h
  split at h
  next ec' r hr =>
  split at h
  · next hf =>
    cases h
    exact hf
  · split at h
    · cases h
      decide
    · unfold beginInterfaceAt at h
      split at h
      · cases h
      · dsimp only at h
        split at h
        · next hf =>
          cases h
          exact hf
        · cases h

/-! ### Runs -/

theorem stored_pushObject {p : CRemoteParcel} (hp : p.Stored) : p.pushObject.Stored :=
  ⟨hp.null, hp.size_le, hp.pos_le⟩

theorem Kept.bounded {env : Allocator} {p : CRemoteParcel} {c : WriteCall}
    (h : Kept p (need c) ((perform env c p).1 = true) (perform env c p).2) : p.Bounded env c :=
  fun hok => ⟨h.room hok, h.stored.pos_le, h.stored.size_le⟩

/-- A call with no calls nested in it. -/
theorem kept_and_bounded {env : Allocator} {c : WriteCall} {p : CRemoteParcel}
    (hv : callVisits env c p = [(p, c)])
    (hk : Kept p (need c) ((perform env c p).1 = true) (perform env c p).2) :
    Kept p (need c) ((perform env c p).1 = true) (perform env c p).2 ∧
      ∀ x ∈ callVisits env c p, x.1.Bounded env x.2 := by
  refine ⟨hk, fun x hx => ?_⟩
  rw [hv, List.mem_singleton] at hx
  subst hx
  exact hk.bounded

mutual

/-- **One call**, with the calls nested in it. -/
theorem kept_perform (env : Allocator) : ∀ (c : WriteCall) (p : CRemoteParcel), p.Stored →
    (∀ x ∈ callVisits env c p, x.1.Legal x.2 ∧ x.1.NoWrap x.2) →
    Kept p (need c) ((perform env c p).1 = true) (perform env c p).2 ∧
      ∀ x ∈ callVisits env c p, x.1.Bounded env x.2
  | .setDataSize size, p, hp, _ => by
    refine kept_and_bounded (by rw [callVisits]) ?_
    exact kept_setDataSize env hp size
  | .setDataCapacity size, p, hp, _ => by
    refine kept_and_bounded (by rw [callVisits]) ?_
    exact kept_setDataCapacity env hp size
  | .setDataPosition pos, p, hp, h => by
    refine kept_and_bounded (by rw [callVisits]) ?_
    exact kept_setDataPosition hp (h (p, .setDataPosition pos) (by simp [callVisits])).1
  | .writeInplace len, p, hp, h => by
    refine kept_and_bounded (by rw [callVisits]) ?_
    exact kept_writeInplace env hp (h (p, .writeInplace len) (by simp [callVisits])).2
  | .write data len, p, hp, h => by
    refine kept_and_bounded (by rw [callVisits]) ?_
    exact kept_write env hp (h (p, .write data len) (by simp [callVisits])).2
  | .writeAligned value, p, hp, h => by
    refine kept_and_bounded (by rw [callVisits]) ?_
    have hk := kept_writeAligned env hp (h (p, .writeAligned value) (by simp [callVisits])).2
    exact ⟨hk.stored, hk.cap, fun hok => hk.room (by simpa [perform] using hok)⟩
  | .writeInterfacePtr value nested, p, hp, h => by
    have hk := kept_beginInterface env hp
      (h (p, .writeInterfacePtr value nested) (by simp [callVisits])).2
    have hdone : Kept p (need (.writeInterfacePtr value nested))
        ((perform env (.writeInterfacePtr value nested) p).1 = true)
        (perform env (.writeInterfacePtr value nested) p).2 ∧
        ∀ q, p.beginInterface env value = .marshalled q →
          ∀ x ∈ writeVisits env nested q, x.1.Bounded env x.2 := by
      rw [perform, writeInterfacePtr]
      rcases hb : p.beginInterface env value with ⟨ec, q⟩ | q | q <;> rw [hb] at hk
      · refine ⟨⟨hk.stored, hk.cap, fun hok => ?_⟩, nofun⟩
        have hec : ec = NOERROR := by simpa using hok
        exact absurd (failed_of_beginInterface hb) (by simp [hec])
      · exact ⟨⟨stored_pushObject hk.stored, hk.cap, fun _ => hk.room trivial⟩, nofun⟩
      · obtain ⟨hs, hc, hbs⟩ := kept_performAll env nested q hk.stored fun x hx =>
          h x (by rw [callVisits, hb]; exact List.mem_cons_of_mem _ hx)
        refine ⟨⟨stored_pushObject hs, hk.cap.trans hc, fun _ => (hk.room trivial).trans hc⟩, ?_⟩
        rintro _ ⟨⟩
        exact hbs
    refine ⟨hdone.1, fun x hx => ?_⟩
    rw [callVisits] at hx
    rcases List.mem_cons.mp hx with rfl | hx
    · exact hdone.1.bounded
    · split at hx
      · next q hq => exact hdone.2 q hq x hx
      · cases hx

theorem kept_performAll (env : Allocator) : ∀ (cs : List WriteCall) (p : CRemoteParcel), p.Stored →
    (∀ x ∈ writeVisits env cs p, x.1.Legal x.2 ∧ x.1.NoWrap x.2) →
    (performAll env cs p).Stored ∧
      p.mDataCapacity.toNat ≤ (performAll env cs p).mDataCapacity.toNat ∧
      ∀ x ∈ writeVisits env cs p, x.1.Bounded env x.2
  | [], p, hp, _ => ⟨hp, le_rfl, by simp [writeVisits]⟩
  | c :: cs, p, hp, h => by
    rw [writeVisits] at h
    obtain ⟨hk, hb⟩ := kept_perform env c p hp fun x hx => h x (List.mem_append_left _ hx)
    obtain ⟨hs, hc, hbs⟩ := kept_performAll env cs _ hk.stored
      fun x hx => h x (List.mem_append_right _ hx)
    rw [performAll, writeVisits]
    refine ⟨hs, hk.cap.trans hc, fun x hx => ?_⟩
    rcases List.mem_append.mp hx with hx | hx
    · exact hb x hx
    · exact hbs x hx

end

/-! ### The operations as calls -/

/-- What `WriteArrayOf` does with interface elements, the objects' own writes being calls. -/
structure ItfCalls where
  marshal : Itf → Marshalled
  netAddress : Itf → CarString
  elementPack : Itf → { bs : List UInt8 // bs.length = 28 }
  nested : Itf → List WriteCall

/-- The same as functions; nothing is read here. -/
def ItfCalls.interfaces (env : Allocator) (m : ItfCalls) : Interfaces where
  marshal := m.marshal
  netAddress := m.netAddress
  elementPack := m.elementPack
  writeToParcel x := performAll env (m.nested x)
  unmarshal _ _ := pure (.error E_FAIL)
  unmarshalPtr _ := pure (.error E_FAIL)

/-- `Unmarshall`. The copy to a `NULL` that `WriteInplace` returns stores nothing. -/
def unmarshall (env : Allocator) (data : Option (List UInt8)) (offset length : Int32)
    (p : CRemoteParcel) : CRemoteParcel :=
  match data with
  | none => p
  | some d =>
    if length.toInt < 0 ∨ d.length < length.toInt ∨ offset.toInt < 0 ∨ d.length < offset.toInt ∨
        d.length - offset.toInt < length.toInt then p
    else
      let p := (p.setDataSize env length.toUInt32).2.setDataPosition 0
      (p.write env (d.drop offset.toInt.toNat) length.toUInt32).2

/-- An operation on a parcel: one of the calls, or a composite of them. -/
inductive WriteOp
  | call (c : WriteCall)
  | value (ptr : UInt32) (v : Value)
  | arrayOf (m : ItfCalls) (value : Option CarQuintet)
  | arrayOfString (array : Option CarQuintet)
  | unmarshall (data : Option (List UInt8)) (offset length : Int32)

/-- The parcel after an operation. -/
def runOp (env : Allocator) : WriteOp → CRemoteParcel → CRemoteParcel
  | .call c, p => (perform env c p).2
  | .value ptr v, p => (p.writeValue env ptr v).2
  | .arrayOf m value, p => (p.writeArrayOf env (m.interfaces env) value).2
  | .arrayOfString array, p => (p.writeArrayOfString env array).2
  | .unmarshall data offset length, p => p.unmarshall env data offset length

def runOps (env : Allocator) : List WriteOp → CRemoteParcel → CRemoteParcel
  | [], p => p
  | op :: ops, p => runOps env ops (runOp env op p)

/-- The calls `WriteString` makes. -/
def stringCalls : CarString → List WriteCall
  | none => [.writeAligned (wire32 MSH_NULL)]
  | some s =>
    [.writeAligned (wire32 MSH_NOT_NULL), .write s.terminated (UInt32.ofNat s.chars.length + 1)]

/-- The calls a typed writer makes; `WriteEGuid` stops after a failure. -/
def valueCalls (env : Allocator) (ptr : UInt32) (p : CRemoteParcel) : Value → List WriteCall
  | .byte v => [.writeAligned (wire32 v.toUInt32)]
  | .boolean v => [.writeAligned (wire32 (if v then 1 else 0))]
  | .char32 v => [.writeAligned (wire32 v)]
  | .int16 v => [.writeAligned (wire32 v.toInt32.toUInt32)]
  | .int32 v => [.writeAligned (wire32 v)]
  | .int64 v => [.writeAligned (dwordBytes v)]
  | .float bits => [.writeAligned (wordBytes bits)]
  | .string v => stringCalls v
  | .emuid v => [.write v.bytes 16]
  | .eguid v =>
    .write (v.bytes ptr) 24 ::
      if failed (p.write env (v.bytes ptr) 24).1 then []
      else [.write v.mUunm.terminated (UInt32.ofNat v.mUunm.chars.length + 1)]
  | .struct none => [.writeAligned (wire32 MSH_NULL)]
  | .struct (some bs) =>
    [.writeAligned (wire32 MSH_NOT_NULL), .writeAligned (wire32 (sizeOf32 bs)),
      .write bs (sizeOf32 bs)]

/-- The calls for the elements of an interface array; they stop after a failure. -/
def interfaceCalls (m : ItfCalls) : List (Option Itf) → List WriteCall
  | [] => []
  | none :: xs => .writeAligned (wire32 MSH_NULL) :: interfaceCalls m xs
  | some x :: xs =>
    .writeAligned (wire32 MSH_NOT_NULL) ::
      if failed (m.marshal x).ec then []
      else stringCalls (m.netAddress x) ++ .write (m.elementPack x).1 28 ::
        (m.nested x ++ interfaceCalls m xs)

/-- The calls an operation makes on `p`. -/
def opCalls (env : Allocator) (p : CRemoteParcel) : WriteOp → List WriteCall
  | .call c => [c]
  | .value ptr v => valueCalls env ptr p v
  | .arrayOf _ none => [.writeAligned (wire32 MSH_NULL)]
  | .arrayOf m (some q) =>
    .writeAligned (wire32 MSH_NOT_NULL) :: .write q.bytes 20 ::
      match q.payload with
      | .interfaces xs => interfaceCalls m xs
      | .strings ss => (ss.map stringCalls).flatten
      | .bytes bs => [.write bs q.mSize]
  | .arrayOfString none => [.writeAligned (wire32 MSH_NULL)]
  | .arrayOfString (some q) => .write q.bytes 20 :: (q.strings.map stringCalls).flatten
  | .unmarshall none _ _ => []
  | .unmarshall (some d) offset length =>
    if length.toInt < 0 ∨ d.length < length.toInt ∨ offset.toInt < 0 ∨ d.length < offset.toInt ∨
        d.length - offset.toInt < length.toInt then []
    else [.setDataSize length.toUInt32, .setDataPosition 0,
      .write (d.drop offset.toInt.toNat) length.toUInt32]

def opsCalls (env : Allocator) : List WriteOp → CRemoteParcel → List WriteCall
  | [], _ => []
  | op :: ops, p => opCalls env p op ++ opsCalls env ops (runOp env op p)

theorem performAll_append (env : Allocator) (cs ds : List WriteCall) (p : CRemoteParcel) :
    performAll env (cs ++ ds) p = performAll env ds (performAll env cs p) := by
  induction cs generalizing p with
  | nil => simp [performAll]
  | cons c cs ih => simp only [List.cons_append, performAll, ih]

theorem performAll_stringCalls (env : Allocator) (s : CarString) (p : CRemoteParcel) :
    performAll env (stringCalls s) p = (p.writeString env s).2 := by
  cases s <;> rfl

theorem performAll_strings (env : Allocator) (ss : List CarString) (p : CRemoteParcel) :
    performAll env (ss.map stringCalls).flatten p = p.writeStrings env ss := by
  induction ss generalizing p with
  | nil => rfl
  | cons s ss ih =>
    rw [List.map_cons, List.flatten_cons, performAll_append, performAll_stringCalls, ih,
      writeStrings]

theorem performAll_interfaceCalls (env : Allocator) (m : ItfCalls) (xs : List (Option Itf))
    (p : CRemoteParcel) :
    performAll env (interfaceCalls m xs) p
      = (p.writeInterfaces env (m.interfaces env) xs).2 := by
  induction xs generalizing p with
  | nil => rfl
  | cons x xs ih =>
    cases x with
    | none =>
      rw [interfaceCalls, performAll, ih]
      rfl
    | some x =>
      rw [interfaceCalls, performAll, writeInterfaces]
      have hm : (m.interfaces env).marshal x = m.marshal x := rfl
      rw [hm]
      split
      · rfl
      · rw [performAll_append, performAll_stringCalls, performAll, performAll_append, ih]
        rfl

/-- **An operation is the sequence of its calls.** -/
theorem performAll_opCalls (env : Allocator) (op : WriteOp) (p : CRemoteParcel) :
    performAll env (opCalls env p op) p = runOp env op p := by
  cases op with
  | call c => rfl
  | value ptr v =>
    cases v with
    | string v => exact performAll_stringCalls env v p
    | eguid v =>
      simp only [opCalls, valueCalls, runOp, writeValue, writeEGuid, performAll]
      split
      · rfl
      · rfl
    | struct v => cases v <;> rfl
    | _ => rfl
  | arrayOf m value =>
    cases value with
    | none => rfl
    | some q =>
      simp only [opCalls, runOp, writeArrayOf, performAll]
      cases q.payload with
      | interfaces xs => exact performAll_interfaceCalls env m xs _
      | strings ss => exact performAll_strings env ss _
      | bytes bs => rfl
  | arrayOfString array =>
    cases array with
    | none => rfl
    | some q => exact performAll_strings env q.strings _
  | unmarshall data offset length =>
    cases data with
    | none => rfl
    | some d =>
      simp only [opCalls, runOp, unmarshall]
      split <;> rfl

theorem performAll_opsCalls (env : Allocator) (ops : List WriteOp) (p : CRemoteParcel) :
    performAll env (opsCalls env ops p) p = runOps env ops p := by
  induction ops generalizing p with
  | nil => rfl
  | cons op ops ih => rw [opsCalls, performAll_append, performAll_opCalls, ih, runOps]

/-! ### Whole runs -/

/-- A word, and a `WriteInplace` of `0xFFFFFFFF` bytes after it. -/
def hugeWrite : List WriteOp := [.value 0 (.int32 1), .call (.writeInplace 0xFFFFFFFF)]

/-- `PAD_SIZE` of that length is zero, so the call reports success in a block of six bytes. -/
theorem not_bounded_hugeWrite :
    (∀ x ∈ writeVisits .zeros (opsCalls .zeros hugeWrite {}) {}, x.1.Legal x.2) ∧
    ∃ x ∈ writeVisits .zeros (opsCalls .zeros hugeWrite {}) {}, ¬ x.1.Bounded .zeros x.2 := by
  refine ⟨by decide, _, List.mem_cons_of_mem _ List.mem_cons_self, fun h => ?_⟩
  exact absurd (h rfl).1 (by decide)

/-- **Write bounds.** In every run of operations on a new parcel, with the calls of marshalled
objects nested in them, in which no arithmetic goes wrong, every call that reports success is
inside the capacity and leaves position, size and capacity in order. -/
theorem writes_bounded (env : Allocator) (ops : List WriteOp)
    (h : ∀ x ∈ writeVisits env (opsCalls env ops {}) {}, x.1.Legal x.2 ∧ x.1.NoWrap x.2) :
    performAll env (opsCalls env ops {}) {} = runOps env ops {} ∧
      ∀ x ∈ writeVisits env (opsCalls env ops {}) {}, x.1.Bounded env x.2 :=
  ⟨performAll_opsCalls env ops {}, (kept_performAll env _ {} ready_new.toStored h).2.2⟩

/-- A string, a rewind and an unpadded write over it. -/
def overwrite : List WriteOp :=
  [.value 0 (.string (some ⟨[0x61], zero_notMem_a⟩)), .call (.setDataPosition 4),
    .call (.write [1, 2, 3] 3)]

theorem writes_bounded_overwrite :
    performAll .zeros (opsCalls .zeros overwrite {}) {} = runOps .zeros overwrite {} ∧
      ∀ x ∈ writeVisits .zeros (opsCalls .zeros overwrite {}) {}, x.1.Bounded .zeros x.2 :=
  writes_bounded .zeros overwrite (by decide)

end CRemoteParcel

end ElastosCar
