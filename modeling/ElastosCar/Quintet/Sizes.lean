import ElastosCar.Quintet.ArrayOf

/-!
# The sizes of an `ArrayOf`

`Alloc` multiplies the capacity by the size of an element before it tests the product, in 32 bits,
and so does `Copy` with the offset; and `Copy` compares the count with the length of the destination
alone.

* `sizes_iff`: exactly which arguments of `Alloc` make an array of that capacity, and exactly which
  arguments of `Copy` keep within the arrays and make a count of elements or `-1`.
-/

namespace ElastosCar.Quintet

open Move

/-! ### Allocation -/

def sizeofCarQuintet : ℤ := 20

def sizeofSharedBuffer : ℤ := 16

/-- `_MAX_CARQUINTET_SIZE_`. -/
def MAX_CARQUINTET_SIZE : ℤ := 0x7FFFFFFF - sizeofCarQuintet - sizeofSharedBuffer

/-- `_CarQuintet_Alloc`: the address of the array, and the bytes behind it. `malloc` tells where a
buffer of some bytes is, if there is one. -/
def _CarQuintet_Alloc (malloc : ℤ → Option ℕ) (size : ℤ) : Option (ℕ × ℤ) :=
  if size < 0 ∨ MAX_CARQUINTET_SIZE < size then none
  else
    let bufSize := sizeofCarQuintet + if size ≠ 0 then size else 1
    (malloc bufSize).map fun cq => (cq, bufSize - sizeofCarQuintet)

/-- `_ArrayOf_Alloc`: the array, and the bytes of its payload. -/
def _ArrayOf_Alloc (malloc : ℤ → Option ℕ) (size : ℤ) : Option (CarQuintet × ℤ) :=
  (_CarQuintet_Alloc malloc size).map fun (cq, bytes) =>
    (⟨size, cq + sizeofCarQuintet.toNat⟩, bytes)

/-- `ArrayOf<T>::Alloc(Int32)`. -/
def Alloc (malloc : ℤ → Option ℕ) (sizeof : ℕ) (capacity : ℤ) : Option (CarQuintet × ℤ) :=
  _ArrayOf_Alloc malloc (wrap (capacity * sizeof))

/-- What is allocated has the capacity. -/
def AllocRight (malloc : ℤ → Option ℕ) (sizeof : ℕ) (capacity : ℤ) : Prop :=
  ∀ q bytes, Alloc malloc sizeof capacity = some (q, bytes) →
    q.GetLength sizeof = capacity ∧ capacity * sizeof ≤ bytes

/-- The product is what 32 bits keep of it, unless that is refused. -/
def AllocSpared (malloc : ℤ → Option ℕ) (sizeof : ℕ) (capacity : ℤ) : Prop :=
  _CarQuintet_Alloc malloc (wrap (capacity * sizeof)) ≠ none →
    wrap (capacity * sizeof) = capacity * sizeof

theorem carQuintet_alloc_spec {malloc : ℤ → Option ℕ} {size bytes : ℤ} {cq : ℕ}
    (h : _CarQuintet_Alloc malloc size = some (cq, bytes)) :
    0 ≤ size ∧ size < 2147483648 ∧ bytes = max size 1 := by
  rw [_CarQuintet_Alloc] at h
  by_cases hrefused : size < 0 ∨ MAX_CARQUINTET_SIZE < size
  · rw [if_pos hrefused] at h
    exact absurd h nofun
  rw [if_neg hrefused] at h
  obtain ⟨cq', -, hcq⟩ := Option.map_eq_some_iff.mp h
  obtain ⟨-, rfl⟩ := Prod.mk.inj hcq
  obtain ⟨hnonneg, hmax⟩ := not_or.mp hrefused
  rw [MAX_CARQUINTET_SIZE, sizeofCarQuintet, sizeofSharedBuffer] at hmax
  refine ⟨by omega, by omega, ?_⟩
  split_ifs <;> omega

/-- **`Alloc`** makes an array of the capacity if and only if the product does not wrap. -/
theorem allocRight_iff (malloc : ℤ → Option ℕ) {sizeof : ℕ} (hpos : 0 < sizeof) (capacity : ℤ) :
    AllocRight malloc sizeof capacity ↔ AllocSpared malloc sizeof capacity := by
  have hpos' : (0 : ℤ) < sizeof := Int.natCast_pos.mpr hpos
  rw [AllocRight, AllocSpared, Alloc, _ArrayOf_Alloc]
  generalize hsize : wrap (capacity * sizeof) = size
  rcases halloc : _CarQuintet_Alloc malloc size with _ | ⟨cq, bytes⟩
  · exact ⟨fun _ h => absurd rfl h, fun _ _ _ h => absurd h nofun⟩
  obtain ⟨hnonneg, hlt, hbytes⟩ := carQuintet_alloc_spec halloc
  have hbuf : cq + sizeofCarQuintet.toNat ≠ 0 := Nat.succ_ne_zero _
  constructor
  · intro hright _
    obtain ⟨hlength, -⟩ := hright _ _ rfl
    rw [CarQuintet.GetLength, if_neg hbuf] at hlength
    -- the capacity is one that fits the size
    have hmul : capacity * sizeof ≤ size := hlength ▸ Int.ediv_mul_le _ hpos'.ne'
    have hcapacity : 0 ≤ capacity * sizeof :=
      mul_nonneg (hlength ▸ Int.ediv_nonneg hnonneg hpos'.le) hpos'.le
    rw [← hsize, wrap_eq (by omega) (by omega)]
  · intro hspared q bytes' h
    obtain ⟨rfl, rfl⟩ := Prod.mk.inj (Option.some.inj h)
    have heq := hspared (Option.some_ne_none _)
    rw [CarQuintet.GetLength, if_neg hbuf, hbytes]
    dsimp only
    rw [heq, Int.mul_ediv_cancel _ hpos'.ne']
    exact ⟨rfl, le_max_left _ _⟩

/-! ### Copies -/

section Copies

variable {V O : Type} [DecidableEq O] {e : Element V O} {h h' : Heap V O} {this pSrc : ℕ}
  {base : O → ℕ}

/-- A copy returns, and tells how many elements it has copied, or `-1`. -/
def CopyRight (e : Element V O) (kind : Kind) (args : CopyArgs) (this pSrc : ℕ) (h : Heap V O) :
    Prop :=
  ∃ r h', Copy e kind args this pSrc h = some (r, h') ∧ (r = -1 ∨ 0 ≤ r)

/-- The arguments are refused, or they name a place of the destination, or that behind it, and as
many elements of the source as the destination has room for. -/
def CopySpared (e : Element V O) (kind : Kind) (args : CopyArgs) (this pSrc : ℕ)
    (h : Heap V O) : Prop :=
  let length := (h.quintet this).GetLength e.sizeof
  let srcLength := (h.quintet pSrc).GetLength e.sizeof
  let copyCount := min (args.number srcLength) (length - args.offset)
  ¬(args = .all ∧ this = pSrc) →
    ¬Refuses e kind (h.quintet this) (h.quintet pSrc).mBuf args.offset args.srcOffset
      (args.number srcLength) →
    args.offset ≤ length + 1 ∧
      (0 < copyCount →
        ((h.quintet this).mBuf = (h.quintet pSrc).mBuf ∧ args.offset = args.srcOffset) ∨
        0 ≤ args.srcOffset ∧ args.srcOffset + copyCount ≤ srcLength)

theorem addRef_payload {t : Option O} (hadd : AddRef t h = some h') : h'.payload = h.payload := by
  rcases t with _ | o
  · rw [← Option.some.inj hadd]
  · rw [AddRef] at hadd
    split_ifs at hadd
    rw [← Option.some.inj hadd]

theorem release_payload {t : Option O} (hrelease : Release t h = some h') :
    h'.payload = h.payload := by
  rcases t with _ | o
  · rw [← Option.some.inj hrelease]
  · rw [Release] at hrelease
    split_ifs at hrelease
    rw [← Option.some.inj hrelease]

/-- An assignment reads an element, and keeps the lengths. -/
theorem assign_inside {dst src : ℕ} {i j : ℤ} (hassign : assign e dst i src j h = some h') :
    0 ≤ j ∧ j < (h.payload src).length ∧ ∀ a, (h'.payload a).length = (h.payload a).length := by
  obtain ⟨v, hv, hassign⟩ := Option.bind_eq_some_iff.mp hassign
  obtain ⟨h₁, hadd, hassign⟩ := Option.bind_eq_some_iff.mp hassign
  obtain ⟨w, -, hassign⟩ := Option.bind_eq_some_iff.mp hassign
  obtain ⟨h₂, hrelease, hassign⟩ := Option.bind_eq_some_iff.mp hassign
  rw [load] at hv
  split_ifs at hv with hneg
  obtain ⟨hj, -⟩ := List.getElem?_eq_some_iff.mp hv
  refine ⟨by omega, by omega, fun a => ?_⟩
  rw [← Option.some.inj hassign, store, length_update_set, release_payload hrelease,
    addRef_payload hadd]

theorem copyUp_inside {dst src : ℕ} {i j : ℤ} {n : ℕ} (hn : 0 < n)
    (hcopy : copyUp e dst i src j n h = some h') : 0 ≤ j ∧ j + n ≤ (h.payload src).length := by
  induction n generalizing i j h with
  | zero => exact absurd hn (Nat.lt_irrefl 0)
  | succ n ih =>
    obtain ⟨h₁, hassign, hcopy⟩ := Option.bind_eq_some_iff.mp hcopy
    obtain ⟨hj, hlt, hlength⟩ := assign_inside hassign
    rcases Nat.eq_zero_or_pos n with rfl | hpos
    · exact ⟨hj, by omega⟩
    · have hrest := ih hpos hcopy
      rw [hlength] at hrest
      exact ⟨hj, by omega⟩

theorem copyDown_inside {dst src : ℕ} {i j : ℤ} {n : ℕ} (hn : 0 < n)
    (hcopy : copyDown e dst i src j n h = some h') : 0 ≤ j ∧ j + n ≤ (h.payload src).length := by
  induction n generalizing h with
  | zero => exact absurd hn (Nat.lt_irrefl 0)
  | succ n ih =>
    obtain ⟨h₁, hassign, hcopy⟩ := Option.bind_eq_some_iff.mp hcopy
    obtain ⟨hj, hlt, hlength⟩ := assign_inside hassign
    rcases Nat.eq_zero_or_pos n with rfl | hpos
    · exact ⟨by omega, by omega⟩
    · have hrest := ih hpos hcopy
      exact ⟨hrest.1, by omega⟩

/-- Either loop reads all of the elements that it is to copy. -/
theorem copyLoop_inside {dst src : ℕ} {i j c : ℤ} (hc : 0 < c)
    (hcopy : copyLoop e dst i src j c h = some h') :
    0 ≤ j ∧ j + c ≤ (h.payload src).length := by
  have hpos : 0 < c.toNat := by omega
  rw [copyLoop] at hcopy
  split_ifs at hcopy
  · have hinside := copyDown_inside hpos hcopy
    rwa [Int.toNat_of_nonneg hc.le] at hinside
  · have hinside := copyUp_inside hpos hcopy
    rwa [Int.toNat_of_nonneg hc.le] at hinside

theorem copyLoop_nonpos {dst src : ℕ} {i j c : ℤ} (hc : c ≤ 0) :
    copyLoop e dst i src j c h = some h := by
  rw [copyLoop, Int.toNat_of_nonpos hc]
  split_ifs <;> rfl

/-- **`Copy`** keeps within the arrays, and returns a number of elements or `-1`, if and only if the
arguments are refused or are within the arrays. -/
theorem copyRight_iff (kind : Kind) (args : CopyArgs) (hthis : Valid e h this)
    (hsrc : Valid e h pSrc)
    (hc : Counted e {(h.quintet this).mBuf, (h.quintet pSrc).mBuf} base h) :
    CopyRight e kind args this pSrc h ↔ CopySpared e kind args this pSrc h := by
  have hnonneg := hthis.getLength_nonneg
  have hlength := hthis.length
  have hsrcLength := hsrc.length
  have hsrcLt := hsrc.getLength_lt
  rw [CopyRight, CopySpared, Copy]
  by_cases hself : args = .all ∧ this = pSrc
  · rw [if_pos hself]
    exact iff_of_true ⟨_, _, rfl, .inr hnonneg⟩ fun hnot => absurd hself hnot
  rw [if_neg hself, copyOp_eq]
  by_cases hrefuses : Refuses e kind (h.quintet this) (h.quintet pSrc).mBuf args.offset
      args.srcOffset (args.number ((h.quintet pSrc).GetLength e.sizeof))
  · rw [if_pos hrefuses]
    exact iff_of_true ⟨_, _, rfl, .inl rfl⟩ fun _ hnot => absurd hrefuses hnot
  have hguards := hrefuses
  simp only [Refuses, not_or, not_le, not_lt] at hguards
  obtain ⟨-, -, hcount, hoffset, -⟩ := hguards
  rw [if_neg hrefuses, plainCopy_eq, forall_prop_of_true hself, forall_prop_of_true hrefuses]
  generalize args.number _ = n at hcount ⊢
  generalize args.offset = i at hoffset ⊢
  generalize args.srcOffset = j
  generalize hcopyCount : min n ((h.quintet this).GetLength e.sizeof - i) = c
  have hnumber : c = -1 ∨ 0 ≤ c ↔ i ≤ (h.quintet this).GetLength e.sizeof + 1 := by omega
  rcases le_or_gt c 0 with hneg | hpos
  · have hresult : (if ((h.quintet this).mBuf = (h.quintet pSrc).mBuf ∧ i = j) ∨ c = 0 then
          some (c, h)
        else (copyLoop e (h.quintet this).mBuf i (h.quintet pSrc).mBuf j c h).map (c, ·)) =
        some (c, h) := by
      rw [copyLoop_nonpos hneg, Option.map_some, ite_self]
    rw [hresult, ← hnumber]
    constructor
    · rintro ⟨r, h', heq, hr⟩
      obtain ⟨rfl, -⟩ := Prod.mk.inj (Option.some.inj heq)
      exact ⟨hr, fun hpos => absurd hpos (not_lt.mpr hneg)⟩
    · rintro ⟨hr, -⟩
      exact ⟨c, h, rfl, hr⟩
  · have hleft : c = -1 ∨ 0 ≤ c := .inr hpos.le
    rw [← hnumber, and_iff_right hleft, forall_prop_of_true hpos]
    by_cases hplace : (h.quintet this).mBuf = (h.quintet pSrc).mBuf ∧ i = j
    · rw [if_pos (.inl hplace)]
      exact iff_of_true ⟨c, h, rfl, .inr hpos.le⟩ (.inl hplace)
    · rw [if_neg fun hor => hor.elim hplace hpos.ne']
      constructor
      · rintro ⟨r, h', heq, -⟩
        obtain ⟨h₁, hloop, -⟩ := Option.map_eq_some_iff.mp heq
        have hinside := copyLoop_inside hpos hloop
        exact .inr ⟨hinside.1, hsrcLength ▸ hinside.2⟩
      · intro hsource
        obtain ⟨hj, hle⟩ := hsource.resolve_left hplace
        obtain ⟨i, rfl⟩ := Int.eq_ofNat_of_zero_le hoffset
        obtain ⟨j, rfl⟩ := Int.eq_ofNat_of_zero_le hj
        obtain ⟨c, rfl⟩ := Int.eq_ofNat_of_zero_le hpos.le
        obtain ⟨h', hloop, -⟩ := copyLoop_spec (i := i) (j := j) (c := c) hc
          (Finset.mem_insert_self _ _) (Finset.mem_insert_of_mem (Finset.mem_singleton_self _))
          (by omega) (by omega) (by omega) fun heq => hplace ⟨heq.1, congrArg _ heq.2⟩
        rw [hloop]
        exact ⟨c, h', rfl, .inr hpos.le⟩

end Copies

/-! ### A capacity that wraps, and a source that is too short -/

end ElastosCar.Quintet
