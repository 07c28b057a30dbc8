import ElastosCar.Parcel.Array

/-!
# Writes do not undo each other

A header is stored at the beginning of a parcel before its arguments are written, and an error
code before the results. What the code relies on is that later writes leave these alone and that
the data never gets shorter, whatever the sizes are and whichever allocations fail.

`Extends k p q` says this for a parcel before and after some writes at least `k` bytes behind its
beginning, and `WriteClosed` gathers the raw writers that a relation has to admit for all typed
writers to be admitted. `WriteAligned` leaves the first word alone from the fourth byte on, and
`WriteInplace` from the eighth: `PAD_SIZE` of a length close to `2 ^ 32` is zero, and it then masks
the word before the position.
-/

namespace ElastosCar

namespace CRemoteParcel

/-! ### Relations that writers keep to -/

/-- A relation between parcels that is kept by the raw writers, and by the objects that write
themselves. -/
structure WriteClosed (env : Allocator) (itfs : Interfaces)
    (R : CRemoteParcel → CRemoteParcel → Prop) : Prop where
  refl : ∀ p, R p p
  trans : ∀ {p q r}, R p q → R q r → R p r
  writeAligned : ∀ {value : List UInt8}, value.length ≤ 8 → ∀ p, R p (p.writeAligned env value).2
  write : ∀ data len p, R p (p.write env data len).2
  beginInterface : ∀ value p, R p (p.beginInterface env value).parcel
  pushObject : ∀ p, R p p.pushObject
  writeToParcel : ∀ x p, R p (itfs.writeToParcel x p)

namespace WriteClosed

variable {env : Allocator} {itfs : Interfaces} {R : CRemoteParcel → CRemoteParcel → Prop}
  (h : WriteClosed env itfs R)
include h

theorem writeInt32 (value : UInt32) (p : CRemoteParcel) : R p (p.writeInt32 env value).2 :=
  h.writeAligned (by simp) p

theorem writeInt64 (value : UInt64) (p : CRemoteParcel) : R p (p.writeInt64 env value).2 :=
  h.writeAligned (by simp) p

theorem writeString (s : CarString) (p : CRemoteParcel) : R p (p.writeString env s).2 := by
  cases s with
  | none => exact h.writeInt32 _ p
  | some s => exact h.trans (h.writeInt32 _ p) (h.write _ _ _)

theorem writeStruct (value : Option (List UInt8)) (size : UInt32) (p : CRemoteParcel) :
    R p (p.writeStruct env value size).2 := by
  cases value with
  | none => exact h.writeInt32 _ p
  | some bs => exact h.trans (h.trans (h.writeInt32 _ p) (h.writeInt32 _ _)) (h.write _ _ _)

theorem writeEMuid (id : EMuid) (p : CRemoteParcel) : R p (p.writeEMuid env id).2 :=
  h.write _ _ p

theorem writeEGuid (id : EGuid) (ptr : UInt32) (p : CRemoteParcel) :
    R p (p.writeEGuid env id ptr).2 := by
  have hw := h.write (id.bytes ptr) 24 p
  rw [CRemoteParcel.writeEGuid]
  split
  next ec q hq =>
  rw [hq] at hw
  split
  · exact hw
  · exact h.trans hw (h.write _ _ _)

theorem writeStrings (ss : List CarString) (p : CRemoteParcel) : R p (p.writeStrings env ss) := by
  induction ss generalizing p with
  | nil => exact h.refl p
  | cons s ss ih => exact h.trans (h.writeString s p) (ih _)

theorem writeInterfaces (xs : List (Option Itf)) (p : CRemoteParcel) :
    R p (p.writeInterfaces env itfs xs).2 := by
  induction xs generalizing p with
  | nil => exact h.refl p
  | cons x xs ih =>
    cases x with
    | none => exact h.trans (h.writeInt32 _ p) (ih _)
    | some x =>
      rw [CRemoteParcel.writeInterfaces]
      dsimp only
      split
      · exact h.writeInt32 _ p
      · have hhead := h.trans (h.writeInt32 MSH_NOT_NULL p) (h.writeString (itfs.netAddress x) _)
        have hpack := h.trans hhead (h.write (itfs.elementPack x).1 28 _)
        exact h.trans hpack (h.trans (h.writeToParcel x _) (ih _))

theorem writeArrayOf (value : Option CarQuintet) (p : CRemoteParcel) :
    R p (p.writeArrayOf env itfs value).2 := by
  cases value with
  | none => exact h.writeInt32 _ p
  | some q =>
    have hq := h.trans (h.writeInt32 MSH_NOT_NULL p) (h.write q.bytes 20 _)
    rw [CRemoteParcel.writeArrayOf]
    split
    · exact h.trans hq (h.writeInterfaces _ _)
    · exact h.trans hq (h.writeStrings _ _)
    · exact h.trans hq (h.write _ _ _)

theorem writeInterfacePtr (x : Option Itf) (p : CRemoteParcel) :
    R p (p.writeInterfacePtr env (x.map itfs.marshal) (x.elim id itfs.writeToParcel)).2 := by
  have hb := h.beginInterface (x.map itfs.marshal) p
  rw [CRemoteParcel.writeInterfacePtr]
  split
  · next ec q hq =>
    rw [hq] at hb
    exact hb
  · next q hq =>
    rw [hq] at hb
    exact h.trans hb (h.pushObject q)
  · next q hq =>
    rw [hq] at hb
    cases x with
    | none => exact h.trans hb (h.pushObject q)
    | some x => exact h.trans (h.trans hb (h.writeToParcel x q)) (h.pushObject _)

end WriteClosed

/-! ### Extension -/

/-- The position is at the end of the data, at least `k` bytes behind its beginning. -/
structure Anchored (k : ℕ) (p : CRemoteParcel) : Prop where
  pos_eq : p.mDataPos = p.mDataSize
  size : k ≤ p.mDataSize.toNat
  cap : 4 ≤ p.mDataCapacity.toNat

/-- The data is there and has not become shorter, and below `2 ^ 31` bytes its first word is the
same. -/
structure Extends (k : ℕ) (p q : CRemoteParcel) : Prop where
  data : p.mData.isSome → q.mData.isSome
  size : p.mData.isSome → p.mDataSize.toNat ≤ q.mDataSize.toNat
  anchored : p.mData.isSome → q.mDataSize.toNat < 2 ^ 31 → p.Anchored k → q.Anchored k
  first : p.mData.isSome → q.mDataSize.toNat < 2 ^ 31 → p.Anchored k →
    load q.block 0 4 = load p.block 0 4

namespace Extends

variable {k : ℕ} {p q r : CRemoteParcel}

theorem trans (h : Extends k p q) (h' : Extends k q r) : Extends k p r where
  data hp := h'.data (h.data hp)
  size hp := (h.size hp).trans (h'.size (h.data hp))
  anchored hp hlt ha := by
    have hq : q.mDataSize.toNat < 2 ^ 31 := (h'.size (h.data hp)).trans_lt hlt
    exact h'.anchored (h.data hp) hlt (h.anchored hp hq ha)
  first hp hlt ha := by
    have hq : q.mDataSize.toNat < 2 ^ 31 := (h'.size (h.data hp)).trans_lt hlt
    rw [h'.first (h.data hp) hlt (h.anchored hp hq ha), h.first hp hq ha]

/-- Nothing changes that the writers look at. -/
theorem of_eq (hdata : q.mData = p.mData) (hsize : q.mDataSize = p.mDataSize)
    (hpos : q.mDataPos = p.mDataPos) (hcap : q.mDataCapacity = p.mDataCapacity) :
    Extends k p q where
  data hp := by rwa [hdata]
  size _ := by rw [hsize]
  anchored _ _ ha := ⟨by rw [hpos, hsize, ha.pos_eq], by rw [hsize]; exact ha.size,
    by rw [hcap]; exact ha.cap⟩
  first _ _ _ := by rw [block, block, hdata]

theorem refl (p : CRemoteParcel) : Extends k p p := of_eq rfl rfl rfl rfl

/-- A store behind the first word. -/
theorem memcpy (h : Extends k p q) {off : ℕ} (bs : List UInt8)
    (hoff : p.mData.isSome → p.Anchored k → 4 ≤ off) : Extends k p (q.memcpy off bs) where
  data hp := by simpa [CRemoteParcel.memcpy] using h.data hp
  size hp := h.size hp
  anchored hp hlt ha := by
    have hq := h.anchored hp hlt ha
    exact ⟨hq.pos_eq, hq.size, hq.cap⟩
  first hp hlt ha := by
    rw [block_memcpy (h.data hp), load_store_of_disjoint _ (.inl (hoff hp ha)), h.first hp hlt ha]

/-- `FinishWrite`, where the position does not wrap. -/
theorem finishWrite {n : UInt32}
    (h : p.Anchored k → p.mDataSize.toNat < 2 ^ 31 → p.mDataPos.toNat ≤ (p.mDataPos + n).toNat) :
    Extends k p (p.finishWrite n) := by
  have hsize : p.mDataSize.toNat ≤ (p.finishWrite n).mDataSize.toNat := by
    simp only [CRemoteParcel.finishWrite]
    split
    · next hgt =>
      rw [gt_iff_lt, UInt32.lt_iff_toNat_lt] at hgt
      exact hgt.le
    · exact le_rfl
  refine ⟨id, fun _ => hsize, fun _ hlt ha => ⟨?_, ha.size.trans hsize, ha.cap⟩, fun _ _ _ => rfl⟩
  have hle := h ha (hsize.trans_lt hlt)
  rw [ha.pos_eq] at hle
  simp only [CRemoteParcel.finishWrite, ha.pos_eq]
  split
  · rfl
  · next hgt =>
    rw [gt_iff_lt, UInt32.lt_iff_toNat_lt] at hgt
    exact UInt32.toNat_inj.mp (by omega)

end Extends

section

variable {k : ℕ} (hk : 4 ≤ k)

/-- A short advance does not wrap. -/
theorem Anchored.toNat_add {p : CRemoteParcel} (ha : p.Anchored k)
    (hlt : p.mDataSize.toNat < 2 ^ 31) {n : UInt32} (hn : n.toNat < 2 ^ 31) :
    p.mDataPos.toNat ≤ (p.mDataPos + n).toNat := by
  rw [ha.pos_eq, UInt32.toNat_add]
  omega

include hk

theorem Anchored.four_le_pos {p : CRemoteParcel} (ha : p.Anchored k) : 4 ≤ p.mDataPos.toNat := by
  have := ha.size
  rw [ha.pos_eq]
  omega

/-! ### The raw writers -/

/-- Growing does not move the position: `ContinueWrite` is only asked for more than is there. -/
theorem extends_growData (env : Allocator) (n : UInt32) (p : CRemoteParcel) :
    Extends k p (p.growData env n).2 ∧
      (p.Anchored k ∧ p.mData.isSome ∨ (p.growData env n).2.Anchored k →
        (p.growData env n).2.mDataPos = p.mDataPos) := by
  rw [growData]
  split
  · exact ⟨.refl p, fun _ => rfl⟩
  next hgt =>
  rw [UInt32.not_le] at hgt
  generalize (p.mDataSize + n) * 3 / 2 = newSize at hgt
  rw [continueWrite]
  cases hd : p.mData with
  | none =>
    have hnone {P : Prop} (h : p.mData.isSome) : P := by simp [hd] at h
    refine ⟨⟨hnone, hnone, hnone, hnone⟩, fun ha => ?_⟩
    dsimp only at ha ⊢
    cases hfresh : env p.requests newSize.toNat with
    | none => rfl
    | some fresh =>
      -- a new block holds no data yet
      simp only [hfresh, Option.isSome_none, Bool.false_eq_true, and_false, false_or] at ha
      exact absurd (hk.trans ha.size) (show ¬ 4 ≤ (0 : UInt32).toNat by decide)
  | some d =>
    dsimp only
    split
    · next hcap =>
      rw [gt_iff_lt, UInt32.lt_iff_toNat_lt] at hcap
      cases env p.requests newSize.toNat with
      | none => exact ⟨.of_eq hd.symm rfl rfl rfl, fun _ => rfl⟩
      | some fresh =>
        refine ⟨⟨fun _ => rfl, fun _ => le_rfl, fun _ _ ha => ⟨ha.pos_eq, ha.size, ?_⟩,
          fun _ _ ha => load_congr fun i _ hi => ?_⟩, fun _ => rfl⟩
        · exact ha.cap.trans hcap.le
        · have := ha.cap
          simp only [block, hd, Option.getD_some]
          exact if_pos (by omega)
    · have hsize : ¬ p.mDataSize > newSize := UInt32.not_lt.mpr (UInt32.le_of_lt hgt)
      have hpos (ha : p.Anchored k) : ¬ p.mDataPos > newSize := by rwa [ha.pos_eq]
      refine ⟨⟨fun _ => rfl, fun _ => ?_, fun _ _ ha => ⟨?_, ?_, ha.cap⟩, fun _ _ _ => ?_⟩,
        fun ha => ?_⟩
      · simp only [if_neg hsize, le_refl]
      · simp only [if_neg hsize, ha.pos_eq]
      · simp only [if_neg hsize]
        exact ha.size
      · simp only [block, hd]
      · rcases ha with ⟨ha, -⟩ | ha
        · exact if_neg (hpos ha)
        · have heq := ha.pos_eq
          simp only [if_neg hsize] at heq ⊢
          split at heq
          · exact absurd (heq ▸ hgt) (UInt32.lt_irrefl _)
          · next h => exact if_neg h

theorem extends_writeAlignedAt {value : List UInt8} (hlen : value.length ≤ 8) (p : CRemoteParcel) :
    Extends k p (p.writeAlignedAt value) := by
  refine ((Extends.refl p).memcpy value fun _ ha => ha.four_le_pos hk).trans
    (.finishWrite fun ha hlt => ?_)
  exact ha.toNat_add hlt (by rw [toNat_sizeOf32 (by omega)]; omega)

theorem extends_writeAligned (env : Allocator) {value : List UInt8} (hlen : value.length ≤ 8)
    (p : CRemoteParcel) : Extends k p (p.writeAligned env value).2 := by
  have hg := (extends_growData hk env (sizeOf32 value) p).1
  rw [writeAligned]
  split
  · exact extends_writeAlignedAt hk hlen p
  · split
    next ec q hq =>
    rw [hq] at hg
    split
    · exact hg.trans (extends_writeAlignedAt hk hlen q)
    · exact hg

theorem extends_beginInterfaceAt (value : Option Marshalled) (p : CRemoteParcel) :
    Extends k p (p.beginInterfaceAt value).parcel := by
  have htag (bs : List UInt8) :
      Extends k p ((p.memcpy p.mDataPos.toNat bs).finishWrite 4) :=
    ((Extends.refl p).memcpy bs fun _ ha => ha.four_le_pos hk).trans
      (.finishWrite fun ha hlt => ha.toNat_add hlt (by decide))
  cases value with
  | none => exact htag _
  | some m =>
    have hpack := (htag (wordBytes MSH_NOT_NULL)).trans
      ((Extends.refl _).memcpy m.pack fun _ ha => ha.four_le_pos hk)
    rw [beginInterfaceAt]
    split
    · exact hpack
    · exact hpack.trans (.finishWrite fun ha hlt => ha.toNat_add hlt (by decide))

theorem extends_beginInterface (env : Allocator) (value : Option Marshalled) (p : CRemoteParcel) :
    Extends k p (p.beginInterface env value).parcel := by
  have hreserve : Extends k p (p.reservePack env).2 := by
    rw [reservePack]
    split
    · exact .refl p
    · exact (extends_growData hk env 32 p).1
  rw [beginInterface]
  split
  next ec q hq =>
  rw [hq] at hreserve
  split
  · exact hreserve
  · split
    · exact hreserve.trans (.of_eq rfl rfl rfl rfl)
    · next r hr =>
      have hobject : Extends k q r := by
        rw [reserveObject] at hr
        split at hr
        · cases hr
          exact .refl q
        · obtain ⟨-, -, rfl⟩ := Option.map_eq_some_iff.mp hr
          exact .of_eq rfl rfl rfl rfl
      exact (hreserve.trans hobject).trans (extends_beginInterfaceAt hk value r)

end

/-- `WriteInplace` after `restart_write`. The word that is masked is the one before the position
when `PAD_SIZE` has wrapped to zero. -/
theorem extends_writeInplaceAt {len padded : UInt32} {p : CRemoteParcel}
    (h : p.Anchored 8 → ¬ p.mDataPos + padded < p.mDataPos) :
    Extends 8 p (p.writeInplaceAt len padded).2 := by
  have hle (ha : p.Anchored 8) : p.mDataPos.toNat ≤ (p.mDataPos + padded).toNat := by
    have := h ha
    rwa [UInt32.lt_iff_toNat_lt, not_lt] at this
  rw [writeInplaceAt]
  dsimp only
  split
  · refine ((Extends.refl p).memcpy _ fun _ ha => ?_).trans (.finishWrite fun ha _ => ?_)
    · have hpos := ha.size
      rw [← ha.pos_eq] at hpos
      omega
    · exact hle ⟨ha.pos_eq, ha.size, ha.cap⟩
  · exact .finishWrite fun ha _ => hle ha

/-- What `WriteInplace` hands out is the position. -/
theorem extends_writeInplace (env : Allocator) (len : UInt32) (p : CRemoteParcel) :
    Extends 8 p (p.writeInplace env len).2 ∧ ∀ off, (p.writeInplace env len).1 = some off →
      p.mData.isSome → p.Anchored 8 → off = p.mDataPos.toNat := by
  have hat {q : CRemoteParcel} {off : ℕ}
      (hoff : (q.writeInplaceAt len (padSize len)).1 = some off) : off = q.mDataPos.toNat := by
    obtain ⟨d, -, hd⟩ := Option.map_eq_some_iff.mp hoff
    exact hd.symm
  obtain ⟨hg, hpos⟩ := extends_growData (show 4 ≤ 8 by decide) env (padSize len) p
  rw [writeInplace]
  dsimp only
  split
  · exact ⟨.refl p, fun _ h => by cases h⟩
  next hno =>
  split
  · exact ⟨extends_writeInplaceAt fun _ => hno, fun off hoff _ _ => hat hoff⟩
  split
  · refine ⟨hg.trans (extends_writeInplaceAt fun ha => ?_), fun off hoff hp ha => ?_⟩
    · rw [hpos (.inr ha)]
      exact hno
    · rw [hat hoff, hpos (.inl ⟨ha, hp⟩)]
  · exact ⟨hg, fun _ h => by cases h⟩

theorem extends_write (env : Allocator) (data : List UInt8) (len : UInt32) (p : CRemoteParcel) :
    Extends 8 p (p.write env data len).2 := by
  obtain ⟨hw, hoff⟩ := extends_writeInplace env len p
  rw [write]
  split
  · next off q hq =>
    rw [hq] at hw hoff
    refine hw.memcpy _ fun hp ha => ?_
    rw [hoff off rfl hp ha]
    exact ha.four_le_pos (by decide)
  · next q hq =>
    rw [hq] at hw
    exact hw

/-- The objects only append to what is there when they write themselves. -/
def Appending (itfs : Interfaces) : Prop := ∀ x p, Extends 8 p (itfs.writeToParcel x p)

/-- **Every write extends.** -/
theorem writeClosed_extends (env : Allocator) {itfs : Interfaces} (hitfs : Appending itfs) :
    WriteClosed env itfs (Extends 8) where
  refl := .refl
  trans := Extends.trans
  writeAligned hlen p := extends_writeAligned (by decide) env hlen p
  write := extends_write env
  beginInterface := extends_beginInterface (by decide) env
  pushObject _ := .of_eq rfl rfl rfl rfl
  writeToParcel := hitfs

/-! ### The first word -/

/-- The data begins with the four bytes `w`, and below `2 ^ 31` bytes the position is at its
end. -/
structure Stamped (w : List UInt8) (p : CRemoteParcel) : Prop where
  data : p.mData.isSome
  size : 4 ≤ p.mDataSize.toNat
  anchored : p.mDataSize.toNat < 2 ^ 31 → p.Anchored 4
  first : p.mDataSize.toNat < 2 ^ 31 → load p.block 0 4 = w

/-- Writes far enough behind the first word leave it alone. -/
theorem Stamped.extends {k : ℕ} {w : List UInt8} {p q : CRemoteParcel} (hp : p.Stamped w)
    (hk : 4 ≤ k) (hsize : p.mDataSize.toNat < 2 ^ 31 → k ≤ p.mDataSize.toNat)
    (h : Extends k p q) : q.Stamped w := by
  have hle := h.size hp.data
  have hanch (hlt : q.mDataSize.toNat < 2 ^ 31) : p.Anchored k := by
    have ha := hp.anchored (by omega)
    exact ⟨ha.pos_eq, hsize (by omega), ha.cap⟩
  refine ⟨h.data hp.data, hp.size.trans hle, fun hlt => ?_, fun hlt => ?_⟩
  · have ha := h.anchored hp.data hlt (hanch hlt)
    exact ⟨ha.pos_eq, hk.trans ha.size, ha.cap⟩
  · rw [h.first hp.data hlt (hanch hlt), hp.first (by omega)]

section

variable {env : Allocator} (henv : env.Succeeds)
include henv

/-- After a word is written there are eight bytes: `GrowData` refuses only from far more on. -/
theorem Stamped.eight_le {w value : List UInt8} (hlen : value.length = 4) {p : CRemoteParcel}
    (hp : p.Stamped w) (hlt : p.mDataSize.toNat < 2 ^ 31) :
    8 ≤ (p.writeAligned env value).2.mDataSize.toNat := by
  have ha := hp.anchored hlt
  have hsize := hp.size
  have hat {q : CRemoteParcel} (hq : Extends 4 p q) :
      8 ≤ (q.writeAlignedAt value).mDataSize.toNat := by
    have h4 := hsize.trans (hq.size hp.data)
    have hle := (extends_writeAlignedAt (k := 4) le_rfl (show value.length ≤ 8 by omega) q).size
      (hq.data hp.data)
    rcases Nat.lt_or_ge q.mDataSize.toNat (2 ^ 31) with hq31 | hq31
    · have hpos := (hq.anchored hp.data hq31 ha).pos_eq
      have hsum : (q.mDataSize + sizeOf32 value).toNat = q.mDataSize.toNat + 4 := by
        rw [UInt32.toNat_add, toNat_sizeOf32 (by omega), hlen, Nat.mod_eq_of_lt (by omega)]
      have hgt : q.mDataPos + sizeOf32 value > q.mDataSize := by
        rw [gt_iff_lt, UInt32.lt_iff_toNat_lt, hpos, hsum]
        omega
      have hnew : (q.writeAlignedAt value).mDataSize = q.mDataPos + sizeOf32 value := if_pos hgt
      rw [hnew, hpos, hsum]
      omega
    · omega
  rw [writeAligned]
  split
  · exact hat (.refl p)
  · have hg := (extends_growData (k := 4) le_rfl env (sizeOf32 value) p).1
    dsimp only
    split
    · exact hat hg
    · next hec =>
      have hold := hg.size hp.data
      by_contra hshort
      dsimp only at hshort
      have hnew : ((p.mDataSize + sizeOf32 value) * 3 / 2).toNat = 3 * (p.mDataSize.toNat + 4) / 2 := by
        simp only [UInt32.toNat_div, UInt32.toNat_mul, UInt32.toNat_add, UInt32.reduceToNat,
          toNat_sizeOf32 (show value.length < _ by omega), hlen]
        omega
      obtain ⟨fresh, hfresh⟩ := Option.isSome_iff_exists.mp
        (henv p.requests ((p.mDataSize + sizeOf32 value) * 3 / 2).toNat)
      obtain ⟨d, hd⟩ := Option.isSome_iff_exists.mp hp.data
      refine hec ?_
      rw [growData, if_neg (by rw [UInt32.le_iff_toNat_le, hnew]; omega), continueWrite, hd]
      dsimp only
      split
      · rw [hfresh]
      · rfl

/-- The first word written. -/
theorem stamped_writeAligned {value : List UInt8} (hlen : value.length = 4) :
    Stamped value (writeAligned env value {}).2 := by
  have hne : value ≠ [] := List.ne_nil_of_length_pos (by omega)
  obtain ⟨q, hq, happ⟩ := appended_writeAligned henv ready_new hne (.inr (by rw [hlen]; decide))
  have hcontents : q.contents = value := happ.contents_eq
  have hsize : q.mDataSize.toNat = 4 := by rw [← length_contents, hcontents, hlen]
  have hle := happ.ready.size_le
  have hdata : q.mData.isSome := by
    cases hd : q.mData with
    | none =>
      rw [happ.ready.null hd, hsize] at hle
      exact absurd hle (by decide)
    | some d => rfl
  rw [hq]
  refine ⟨hdata, hsize.ge, fun _ => ⟨happ.ready.pos_eq, hsize.ge, hsize.ge.trans hle⟩, fun _ => ?_⟩
  rw [contents, hsize] at hcontents
  exact hcontents

end

end CRemoteParcel

end ElastosCar
