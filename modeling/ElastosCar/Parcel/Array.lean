import ElastosCar.Parcel.Interface

/-!
# Arrays in a parcel

A CAR array is a `CarQuintet`: flags, a reserve word, the used and the total size in bytes,
and a buffer. What is in the buffer depends on the element type in the flags: `String`
objects, interface pointers, or plain bytes. This module has the quintet with that invariant
as a field, `WriteArrayOf` and `ReadArrayOf`, and the round trip of arrays without
interfaces.

* On the wire an array is a null tag, the twenty bytes of the quintet as they are in memory,
  and the elements. `ReadArrayOf` allocates a new quintet of the same element type and size.
* A null tag makes `ReadArrayOfInner` assign its own parameter, so the caller's variable is
  left alone.
* Interfaces are marshalled by functions outside this module; they are gathered in
  `Interfaces`.
-/

namespace ElastosCar

/-- An interface pointer that is not null. -/
abbrev Itf := ℕ

/-! ### Quintets -/

/-- `CarQuintetFlag_TypeMask`. -/
def TypeMask : UInt32 := 0x0000ffff

/-- `CarQuintetFlag_Type_String`. -/
def Type_String : UInt32 := 11

/-- `CarQuintetFlag_Type_IObject`. -/
def Type_IObject : UInt32 := 15

/-- `CarQuintetFlag_HeapAlloced`. -/
def HeapAlloced : UInt32 := 0x00010000

/-- `CarQuintetFlag_AutoRefCounted`. -/
def AutoRefCounted : UInt32 := 0x00100000

/-- `sizeof(String)`. -/
def sizeofString : UInt32 := 8

/-- What a quintet's buffer holds. -/
inductive Payload
  | bytes (bs : List UInt8)
  | strings (ss : List CarString)
  | interfaces (xs : List (Option Itf))
deriving DecidableEq, Repr

/-- The buffer is as the element type and the size say. -/
def Payload.Fits (type size : UInt32) : Payload → Prop
  | .bytes bs => type ≠ Type_String ∧ type ≠ Type_IObject ∧ bs.length = size.toNat
  | .strings ss => type = Type_String ∧ ss.length = (size / sizeofString).toNat
  | .interfaces xs => type = Type_IObject ∧ xs.length = (size / 4).toNat

instance (type size : UInt32) : (pl : Payload) → Decidable (pl.Fits type size)
  | .bytes _ => inferInstanceAs (Decidable (_ ∧ _ ∧ _))
  | .strings _ | .interfaces _ => inferInstanceAs (Decidable (_ ∧ _))

/-- A `CarQuintet` with its buffer; `mBuf` is the buffer's address. -/
structure CarQuintet where
  mFlags : UInt32
  mReserve : UInt32
  mUsed : UInt32
  mSize : UInt32
  mBuf : UInt32
  payload : Payload
  fits : payload.Fits (mFlags &&& TypeMask) mSize

/-- The element type. -/
def CarQuintet.type (q : CarQuintet) : UInt32 := q.mFlags &&& TypeMask

/-- The `String` elements of an array. -/
def CarQuintet.strings (q : CarQuintet) : List CarString :=
  match q.payload with
  | .strings ss => ss
  | .bytes _ | .interfaces _ => []

/-- The twenty bytes of a quintet object. -/
def CarQuintet.bytes (q : CarQuintet) : List UInt8 :=
  wordBytes q.mFlags ++ wordBytes q.mReserve ++ wordBytes q.mUsed ++ wordBytes q.mSize
    ++ wordBytes q.mBuf

@[simp]
theorem CarQuintet.length_bytes (q : CarQuintet) : q.bytes.length = 20 := by
  simp [CarQuintet.bytes]

theorem CarQuintet.wordOf_take_bytes (q : CarQuintet) : wordOf (q.bytes.take 4) = q.mFlags := by
  rw [CarQuintet.bytes, List.append_assoc, List.append_assoc, List.append_assoc,
    List.take_left' (by simp), wordOf_wordBytes]

theorem CarQuintet.wordOf_drop_bytes (q : CarQuintet) :
    wordOf ((q.bytes.drop 12).take 4) = q.mSize := by
  rw [CarQuintet.bytes, List.append_assoc, List.drop_left' (by simp), List.take_left' (by simp),
    wordOf_wordBytes]

/-- The same elements. -/
def CarQuintet.SameContents (q r : CarQuintet) : Prop :=
  q.type = r.type ∧ q.mSize = r.mSize ∧ q.payload = r.payload

/-- `_MAX_CARQUINTET_SIZE_`, with the sixteen bytes of a `SharedBuffer`. -/
def maxQuintetSize : UInt32 := 0x7FFFFFFF - 20 - 16

/-- `_CarQuintet_Alloc` refuses the size. Memory is assumed to suffice. -/
def refusesSize (size : UInt32) : Bool := decide (0x80000000 ≤ size) || decide (size > maxQuintetSize)

/-- A buffer that `memset` cleared, at an element type. -/
def Payload.zero (type size : UInt32) : Payload :=
  if type = Type_String then .strings (List.replicate (size / sizeofString).toNat none)
  else if type = Type_IObject then .interfaces (List.replicate (size / 4).toNat none)
  else .bytes (List.replicate size.toNat 0)

theorem Payload.fits_zero (type size : UInt32) : (Payload.zero type size).Fits type size := by
  rw [Payload.zero]
  split
  · next h => exact ⟨h, List.length_replicate⟩
  · next hs =>
    split
    · next h => exact ⟨h, List.length_replicate⟩
    · next hi => exact ⟨hs, hi, List.length_replicate⟩

/-- The elements of a new array that are `String`s. -/
theorem Payload.fits_newStrings {type size : UInt32} (hs : type = Type_String)
    (ss : { ss : List CarString // ss.length = (size / sizeofString).toNat }) :
    (Payload.strings ss.1).Fits type size := ⟨hs, ss.2⟩

/-- The elements of a new array that are interface pointers. -/
theorem Payload.fits_newInterfaces {type size : UInt32} (hi : type = Type_IObject)
    (xs : { xs : List (Option Itf) // xs.length = (size / 4).toNat }) :
    (Payload.interfaces xs.1).Fits type size := ⟨hi, xs.2⟩

/-- The elements of a new array with the given flags. -/
theorem Payload.fits_new {flags size : UInt32}
    (pl : { pl : Payload // pl.Fits (flags &&& TypeMask) size }) :
    pl.1.Fits (flags &&& TypeMask) size := pl.2

theorem Payload.fits_zeros (flags size : UInt32) :
    (Payload.zero (flags &&& TypeMask) size).Fits (flags &&& TypeMask) size := fits_zero _ _

/-- The flags of a quintet from `_ArrayOf_Alloc` after `_CarQuintet_AddRef`. -/
def heapFlags (flags : UInt32) : UInt32 := flags ||| HeapAlloced ||| AutoRefCounted

theorem type_heapFlags (flags : UInt32) : heapFlags flags &&& TypeMask = flags &&& TypeMask := by
  have h1 : HeapAlloced.toNat &&& TypeMask.toNat = 0 := by decide
  have h2 : AutoRefCounted.toNat &&& TypeMask.toNat = 0 := by decide
  apply UInt32.toNat_inj.mp
  simp only [heapFlags, UInt32.toNat_and, UInt32.toNat_or, Nat.and_or_distrib_right, h1, h2,
    Nat.or_zero]

/-- A quintet from `_ArrayOf_Alloc` and `_CarQuintet_AddRef` with its elements filled in. -/
def CarQuintet.allocated (flags size buf : UInt32) (payload : Payload)
    (h : payload.Fits (flags &&& TypeMask) size) : CarQuintet :=
  ⟨heapFlags flags, 0, size, size, buf, payload, by rw [type_heapFlags]; exact h⟩

/-! ### The operations -/

/-- The runtime's marshalling of interfaces: `StdMarshalInterface` and `WriteToParcel` on the
one side, `IsParcelable`, `_CObject_CreateInstance`, `ReadFromParcel` and
`StdUnmarshalInterface` on the other. -/
structure Interfaces where
  marshal : Itf → Marshalled
  netAddress : Itf → CarString
  /-- The pack of an array element, after its address has been cleared. -/
  elementPack : Itf → { bs : List UInt8 // bs.length = 28 }
  writeToParcel : Itf → CRemoteParcel → CRemoteParcel
  /-- From a pack and an address, the interface or an error. -/
  unmarshal : List UInt8 → CarString → ReadM (Except ECode (Option Itf))
  /-- The same for a single pointer, whose address is read as part of the pack. -/
  unmarshalPtr : List UInt8 → ReadM (Except ECode (Option Itf))

/-- An `InterfacePack` of zeros. -/
theorem length_zeroPack : (List.replicate 28 (0 : UInt8)).length = 28 := rfl

/-- What `ReadArrayOf` does to the caller's variable. -/
inductive ArraySlot
  | untouched
  | null
  | array (q : CarQuintet)

namespace CRemoteParcel

/-- The loop of `WriteArrayOfInner` over `String` elements; its two branches are those of
`WriteString`. -/
def writeStrings (env : Allocator) : List CarString → CRemoteParcel → CRemoteParcel
  | [], p => p
  | s :: ss, p => writeStrings env ss (p.writeString env s).2

/-- The loop of `WriteArrayOfInner` over interface pointers. -/
def writeInterfaces (env : Allocator) (itfs : Interfaces) :
    List (Option Itf) → CRemoteParcel → ECode × CRemoteParcel
  | [], p => (NOERROR, p)
  | none :: xs, p => writeInterfaces env itfs xs (p.writeInt32 env MSH_NULL).2
  | some x :: xs, p =>
    let p := (p.writeInt32 env MSH_NOT_NULL).2
    if failed (itfs.marshal x).ec then ((itfs.marshal x).ec, p)
    else
      let p := (p.writeString env (itfs.netAddress x)).2
      let p := (p.write env (itfs.elementPack x).1 28).2
      writeInterfaces env itfs xs (itfs.writeToParcel x p)

/-- `WriteArrayOfInner`, which `WriteArrayOf` calls. -/
def writeArrayOf (env : Allocator) (itfs : Interfaces) (value : Option CarQuintet)
    (p : CRemoteParcel) : ECode × CRemoteParcel :=
  match value with
  | none => p.writeInt32 env MSH_NULL
  | some q =>
    let p := (p.writeInt32 env MSH_NOT_NULL).2
    let p := (p.write env q.bytes 20).2
    match q.payload with
    | .interfaces xs => p.writeInterfaces env itfs xs
    | .strings ss => (NOERROR, p.writeStrings env ss)
    | .bytes bs => (NOERROR, (p.write env bs q.mSize).2)

/-- `WriteArrayOfString`. Unlike `WriteArrayOf` it puts no tag before an array that is not
null. -/
def writeArrayOfString (env : Allocator) (array : Option CarQuintet) (p : CRemoteParcel) :
    ECode × CRemoteParcel :=
  match array with
  | none => p.writeInt32 env MSH_NULL
  | some q => (NOERROR, (p.write env q.bytes 20).2.writeStrings env q.strings)

/-- The loop of `ReadArrayOfInner` over `String` elements; a failed read leaves the tag. -/
def readStrings : (n : ℕ) → UInt32 → ReadM { ss : List CarString // ss.length = n }
  | 0, _ => pure ⟨[], rfl⟩
  | n + 1, tag => do
    let (_, tag) ← readInt32 tag
    let s ← if tag ≠ MSH_NULL then readCStringInner else pure none
    let ss ← readStrings n tag
    pure ⟨s :: ss.1, by simp [ss.2]⟩

/-- The loop of `ReadArrayOfInner` over interface pointers; the rest stay null after an
error. -/
def readInterfaces (itfs : Interfaces) (junkPack : List UInt8) :
    (n : ℕ) → UInt32 → ReadM (ECode × { xs : List (Option Itf) // xs.length = n })
  | 0, _ => pure (NOERROR, ⟨[], rfl⟩)
  | n + 1, tag => do
    let (_, tag) ← readInt32 tag
    if tag ≠ MSH_NULL then
      let (_, netAddress) ← readString 0
      let (_, pack) ← read 28
      match ← itfs.unmarshal (pack.getD junkPack) netAddress with
      | .error ec => pure (ec, ⟨List.replicate (n + 1) none, by simp⟩)
      | .ok x =>
        let (ec, xs) ← readInterfaces itfs junkPack n tag
        pure (ec, ⟨x :: xs.1, by simp [xs.2]⟩)
    else
      let (ec, xs) ← readInterfaces itfs junkPack n tag
      pure (ec, ⟨none :: xs.1, by simp [xs.2]⟩)

/-- A cleared buffer of `n` bytes after a read into it. -/
def fill (n : ℕ) (bs : List UInt8) : List UInt8 := (bs ++ List.replicate n 0).take n

@[simp]
theorem length_fill (n : ℕ) (bs : List UInt8) : (fill n bs).length = n := by
  simp [fill]

theorem fill_of_length {n : ℕ} {bs : List UInt8} (h : bs.length = n) : fill n bs = bs := by
  rw [fill, List.take_left' h]

/-- The elements of a newly allocated array of `size` bytes. -/
def readElements (itfs : Interfaces) (junkPack : List UInt8) (type size tag : UInt32) :
    ReadM (ECode × { pl : Payload // pl.Fits type size }) :=
  if hs : type = Type_String then do
    let ss ← readStrings (size / sizeofString).toNat tag
    pure (NOERROR, ⟨.strings ss.1, hs, ss.2⟩)
  else if hi : type = Type_IObject then do
    let (ec, xs) ← readInterfaces itfs junkPack (size / 4).toNat tag
    pure (ec, ⟨.interfaces xs.1, hi, xs.2⟩)
  else do
    let (_, bs) ← read size
    pure (NOERROR, ⟨.bytes (fill size.toNat (bs.getD [])), hs, hi, length_fill _ _⟩)

/-- What the locals of `ReadArrayOfInner` hold uninitialised, and the address of the new
buffer. -/
structure ArrayJunk where
  tag : UInt32
  quintet : List UInt8
  pack : List UInt8
  buf : UInt32

/-- The part of `ReadArrayOfInner` that allocates the array and fills it in. -/
def readAllocated (itfs : Interfaces) (junk : ArrayJunk) (flags size tag : UInt32) :
    ReadM (ECode × ArraySlot) :=
  if refusesSize size then pure (NOERROR, .null)
  else if size ≠ 0 then do
    let (ec, pl) ← readElements itfs junk.pack (flags &&& TypeMask) size tag
    pure (ec, .array (.allocated flags size junk.buf pl.1 pl.2))
  else
    pure (NOERROR, .array (.allocated flags size junk.buf (Payload.zero (flags &&& TypeMask) size)
      (Payload.fits_zero _ _)))

/-- `ReadArrayOfInner`, which `ReadArrayOf` calls. -/
def readArrayOf (itfs : Interfaces) (junk : ArrayJunk) : ReadM (ECode × ArraySlot) := do
  let (_, tag) ← readInt32 junk.tag
  if tag ≠ MSH_NULL then
    let (_, q) ← read 20
    let q := q.getD junk.quintet
    readAllocated itfs junk (wordOf (q.take 4)) (wordOf ((q.drop 12).take 4)) tag
  else pure (NOERROR, .untouched)

end CRemoteParcel

/-! ### The wire format -/

/-- The elements, where there are no interfaces among them. -/
def Payload.wire : Payload → List UInt8
  | .bytes bs => padded bs
  | .strings ss => (ss.map wireString).flatten
  | .interfaces _ => []

/-- There are no interfaces in the array. -/
def CarQuintet.Plain (q : CarQuintet) : Prop := q.type ≠ Type_IObject

/-- An array behind its null tag. -/
def wireArray (q : CarQuintet) : List UInt8 := wire32 MSH_NOT_NULL ++ (q.bytes ++ q.payload.wire)

/-- The array that a read of `q` allocates. -/
def CarQuintet.copy (q : CarQuintet) (buf : UInt32) : CarQuintet :=
  .allocated q.mFlags q.mSize buf q.payload q.fits

theorem CarQuintet.sameContents_copy (q : CarQuintet) (buf : UInt32) :
    (q.copy buf).SameContents q := ⟨type_heapFlags _, rfl, rfl⟩

namespace CRemoteParcel

theorem appends_writeStrings {env : Allocator} (henv : env.Succeeds) (ss : List CarString) :
    Appends (fun p => (NOERROR, writeStrings env ss p)) (ss.map wireString).flatten := by
  induction ss with
  | nil => exact fun p hp _ => ⟨p, rfl, hp, by simp, rfl⟩
  | cons s ss ih => exact (appends_writeString henv s).seq ih

theorem appends_quintet {env : Allocator} (henv : env.Succeeds) (q : CarQuintet) :
    Appends (write env q.bytes 20) q.bytes := by
  have h := appends_write (n := 20) henv q.bytes (by rw [sizeOf32, CarQuintet.length_bytes]; rfl)
  rwa [padded_of_dvd (by simp)] at h

/-- **Writing an array** without interfaces appends its wire format. -/
theorem appends_writeArrayOf {env : Allocator} (henv : env.Succeeds) (itfs : Interfaces)
    {q : CarQuintet} (hq : q.Plain) : Appends (writeArrayOf env itfs (some q)) (wireArray q) := by
  have hfits := q.fits
  rw [wireArray, ← List.append_assoc]
  have hhead := (appends_writeInt32 henv MSH_NOT_NULL).seq (appends_quintet henv q)
  cases hp : q.payload with
  | bytes bs =>
    rw [hp] at hfits
    have hlen : sizeOf32 bs = q.mSize := by
      rw [sizeOf32, hfits.2.2, UInt32.ofNat_toNat]
    have hbody : Appends (fun p => (NOERROR, (write env bs q.mSize p).2)) (padded bs) := by
      intro p hp hlt
      obtain ⟨r, hr, h⟩ := appends_write henv bs hlen p hp hlt
      exact ⟨r, by simp only [hr], h⟩
    have heq : writeArrayOf env itfs (some q) = fun p =>
        (NOERROR, (write env bs q.mSize (write env q.bytes 20 (writeInt32 env MSH_NOT_NULL p).2).2).2) := by
      funext p
      simp only [writeArrayOf, hp]
    rw [heq, Payload.wire]
    exact hhead.seq (w := fun p => (NOERROR, (write env bs q.mSize p).2)) hbody
  | strings ss =>
    have heq : writeArrayOf env itfs (some q) = fun p =>
        (NOERROR, writeStrings env ss (write env q.bytes 20 (writeInt32 env MSH_NOT_NULL p).2).2) := by
      funext p
      simp only [writeArrayOf, hp]
    rw [heq, Payload.wire]
    exact hhead.seq (w := fun p => (NOERROR, writeStrings env ss p)) (appends_writeStrings henv ss)
  | interfaces xs =>
    rw [hp] at hfits
    exact absurd hfits.1 hq

theorem reads_readStrings (ss : List CarString) (tag : UInt32) {n : ℕ} (hn : ss.length = n) :
    Reads (readStrings n tag) (ss.map wireString).flatten ⟨ss, hn⟩ := by
  subst hn
  induction ss generalizing tag with
  | nil => exact Reads.pure _
  | cons s ss ih =>
    rw [List.map_cons, List.flatten_cons]
    cases s with
    | none =>
      refine (reads_readInt32 MSH_NULL tag).bind ?_
      simp only [ne_eq, not_true_eq_false, if_false, pure_bind]
      exact (ih MSH_NULL).map rfl
    | some s =>
      rw [wireString, List.append_assoc]
      refine (reads_readInt32 MSH_NOT_NULL tag).bind ?_
      simp only [ne_eq, MSH_NOT_NULL_ne, not_false_eq_true, if_true]
      exact (reads_readCStringInner s).bind ((ih MSH_NOT_NULL).map rfl)

theorem four_mul_length_le (ss : List CarString) :
    4 * ss.length ≤ (ss.map wireString).flatten.length := by
  induction ss with
  | nil => simp
  | cons s ss ih =>
    have hs : 4 ≤ (wireString s).length := by
      cases s <;> simp [wireString]
    simp only [List.map_cons, List.flatten_cons, List.length_append, List.length_cons]
    omega

/-- A size that fits into fewer than `2 ^ 30` bytes of wire format is never refused: a `String`
element takes eight bytes of the buffer and at least four of the wire. -/
theorem refusesSize_eq_false {q : CarQuintet} (hq : q.Plain)
    (h : (wireArray q).length < 2 ^ 30) : refusesSize q.mSize = false := by
  have hfits := q.fits
  have hlen : (wireArray q).length = 24 + q.payload.wire.length := by
    simp [wireArray]
    omega
  have hsize : q.mSize.toNat < 0x7FFFFFFF - 20 - 16 := by
    cases hp : q.payload with
    | bytes bs =>
      rw [hp] at hfits hlen
      have := le_pad4 bs.length
      have := hfits.2.2
      simp only [Payload.wire, length_padded] at hlen
      omega
    | strings ss =>
      rw [hp] at hfits hlen
      have h4 := four_mul_length_le ss
      have hn := hfits.2
      rw [UInt32.toNat_div] at hn
      simp only [Payload.wire] at hlen
      simp only [sizeofString, UInt32.reduceToNat] at hn
      omega
    | interfaces xs =>
      rw [hp] at hfits
      exact absurd hfits.1 hq
  have hmax : maxQuintetSize.toNat = 0x7FFFFFFF - 20 - 16 := by decide
  rw [refusesSize, Bool.or_eq_false_iff, decide_eq_false_iff_not, decide_eq_false_iff_not,
    gt_iff_lt, UInt32.le_iff_toNat_le, UInt32.lt_iff_toNat_lt, hmax]
  exact ⟨by simp only [UInt32.reduceToNat]; omega, by omega⟩

theorem reads_readElements (itfs : Interfaces) (junkPack : List UInt8) (tag : UInt32)
    {type size : UInt32} (htype : type ≠ Type_IObject) (pl : Payload) (h : pl.Fits type size) :
    Reads (readElements itfs junkPack type size tag) pl.wire (NOERROR, ⟨pl, h⟩) := by
  rw [readElements]
  cases pl with
  | bytes bs =>
    have hlen : sizeOf32 bs = size := by rw [sizeOf32, h.2.2, UInt32.ofNat_toNat]
    rw [dif_neg h.1, dif_neg h.2.1]
    refine (reads_read bs hlen).map ?_
    simp only [Option.getD_some, fill_of_length h.2.2]
  | strings ss =>
    rw [dif_pos h.1]
    exact (reads_readStrings ss tag h.2).map rfl
  | interfaces xs => exact absurd h.1 htype

/-- An array of no bytes has no elements. -/
theorem eq_zero_of_fits {type size : UInt32} (h0 : size = 0) {pl : Payload}
    (h : pl.Fits type size) : pl = Payload.zero type size ∧ pl.wire = [] := by
  subst h0
  cases pl with
  | bytes bs =>
    have hnil : bs = [] := List.eq_nil_of_length_eq_zero h.2.2
    exact ⟨by simp [Payload.zero, h.1, h.2.1, hnil], by simp [Payload.wire, hnil, padded, pad4]⟩
  | strings ss =>
    have hnil : ss = [] := List.eq_nil_of_length_eq_zero h.2
    exact ⟨by simp [Payload.zero, h.1, hnil], by simp [Payload.wire, hnil]⟩
  | interfaces xs =>
    have hnil : xs = [] := List.eq_nil_of_length_eq_zero h.2
    have hne : Type_IObject ≠ Type_String := by decide
    exact ⟨by simp [Payload.zero, h.1, hnil, hne], rfl⟩

theorem reads_readAllocated (itfs : Interfaces) (junk : ArrayJunk) (tag : UInt32) {q : CarQuintet}
    (hq : q.Plain) (hsize : refusesSize q.mSize = false) :
    Reads (readAllocated itfs junk q.mFlags q.mSize tag) q.payload.wire
      (NOERROR, .array (q.copy junk.buf)) := by
  simp only [readAllocated, hsize, Bool.false_eq_true, if_false]
  split
  · exact (reads_readElements itfs junk.pack tag hq q.payload q.fits).map rfl
  · next h0 =>
    obtain ⟨hpl, hwire⟩ := eq_zero_of_fits (not_not.mp h0) q.fits
    rw [hwire]
    have hcopy : q.copy junk.buf = .allocated q.mFlags q.mSize junk.buf
        (Payload.zero (q.mFlags &&& TypeMask) q.mSize) (Payload.fits_zero _ _) := by
      simp only [CarQuintet.copy, CarQuintet.allocated, hpl]
    rw [hcopy]
    exact Reads.pure _

theorem reads_quintet (q : CarQuintet) : Reads (read 20) q.bytes (NOERROR, some q.bytes) := by
  have h := reads_read (n := 20) q.bytes (by rw [sizeOf32, CarQuintet.length_bytes]; rfl)
  rwa [padded_of_dvd (by simp)] at h

/-- **Reading an array** allocates one with the same elements. -/
theorem reads_readArrayOf (itfs : Interfaces) (junk : ArrayJunk) {q : CarQuintet} (hq : q.Plain) :
    Reads (readArrayOf itfs junk) (wireArray q) (NOERROR, .array (q.copy junk.buf)) := by
  intro p rest h
  have hsize : refusesSize q.mSize = false := by
    refine refusesSize_eq_false hq ?_
    have h1 := h.length_le
    have h2 := h.lt
    omega
  suffices hreads : Reads (readArrayOf itfs junk) (wireArray q) (NOERROR, .array (q.copy junk.buf))
    from hreads p rest h
  refine (reads_readInt32 MSH_NOT_NULL junk.tag).bind ?_
  simp only [ne_eq, MSH_NOT_NULL_ne, not_false_eq_true, if_true]
  refine (reads_quintet q).bind ?_
  simp only [Option.getD_some, q.wordOf_take_bytes, q.wordOf_drop_bytes]
  exact reads_readAllocated itfs junk MSH_NOT_NULL hq hsize

end CRemoteParcel

end ElastosCar
