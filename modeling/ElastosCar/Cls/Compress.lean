import ElastosCar.Lib.Relocation

/-!
# Compressing class images

`CompressCLS` and `UncompressCLS` of `comprcls.cpp`. An image is a `CLSModule` of 132 bytes with
what its pointers lead to behind it; the header stays as it is and the rest is compressed in place,
from a copy. zlib is a parameter: what it returns, what it has written when it gives up, and what
its manual says about them.

* `restores_CompressCLS`: where zlib has compressed the data, `UncompressCLS` gives the image back.
* `compressesRight_iff`: where it has not, the image has been overwritten already by what zlib has
  written until then.
-/

namespace ElastosCar

namespace Cls

def CLS_NoError : Int32 := 0

def CLSError_FormatSize : Int32 := -6

def CLSError_Compress : Int32 := -12

def CLSError_Uncompress : Int32 := -13

/-! ### zlib -/

/-- What a call of zlib has written to the destination, whether it succeeded or not. -/
def written : Except (List UInt8) (List UInt8) → List UInt8
  | .ok out => out
  | .error out => out

/-- `compress` and `uncompress` with the length of the destination. -/
structure Zlib where
  compress (destLen : ℕ) (source : List UInt8) : Except (List UInt8) (List UInt8)
  uncompress (destLen : ℕ) (source : List UInt8) : Except (List UInt8) (List UInt8)
  length_compress : ∀ destLen source, (written (compress destLen source)).length ≤ destLen
  length_uncompress : ∀ destLen source, (written (uncompress destLen source)).length ≤ destLen
  uncompress_compress : ∀ {destLen source out}, compress destLen source = .ok out →
    uncompress source.length out = .ok source
  /-- From a stream that is cut, or has something behind it, nothing else is uncompressed. -/
  uncompress_of_prefix : ∀ {destLen destLen' source out stream result},
    compress destLen source = .ok out → out <+: stream ∨ stream <+: out →
      uncompress destLen' stream = .ok result → result = source

/-! ### The images -/

/-- A `CLSModule` and what follows it, as many bytes as its `mSize` says. -/
structure CLSImage where
  bytes : List UInt8
  header : 132 ≤ bytes.length
  lt : bytes.length < 2147483648
  mSize : ((image bytes).word 24).toNat = bytes.length

namespace CLSImage

variable (img : CLSImage)

def size : ℕ := img.bytes.length

def block : Block := image img.bytes

/-- What is compressed. -/
def data : List UInt8 := load img.block 132 (img.size - 132)

end CLSImage

/-- `mSize - sizeof(CLSModule)` -/
def dataSize (module : Block) : ℕ := (module.word 24 - 132).toNat

variable (z : Zlib)

/-- `CompressCLS`: the result, and the memory from the image on. -/
def CompressCLS (dest : Block) : Int32 × Block :=
  match z.compress (dataSize dest) (load dest 132 (dataSize dest)) with
  | .ok out => (Int32.ofNat (out.length + 132), store dest 132 out)
  | .error out => (CLSError_Compress, store dest 132 out)

/-- `UncompressCLS`: undefined when it leaves the destination. -/
def UncompressCLS (src : Block) (size : Int32) (destModule : HeapBuffer) :
    Option (Int32 × HeapBuffer) :=
  match z.uncompress (dataSize src) (load src 132 (size.toUInt32 - 132).toNat) with
  | .ok out => (destModule.write 132 out).bind fun destModule =>
      (destModule.write 0 (load src 0 132)).map fun destModule =>
        (Int32.ofNat (out.length + 132), destModule)
  | .error out => (destModule.write 132 out).map fun destModule => (CLSError_Uncompress, destModule)

/-- The first `n` bytes of the memory give the image back, wherever they are copied to. -/
def Restores (img : CLSImage) (n : Int32) (mem : Block) : Prop :=
  0 ≤ n ∧ ∀ src : Block, load src 0 n.toUInt32.toNat = load mem 0 n.toUInt32.toNat →
    UncompressCLS z src n (.new img.size) =
      some (Int32.ofNat img.size, .ofBlock img.size img.block)

/-- `CompressCLS` reports an error and leaves the image, or its result restores it. -/
def CompressesRight (img : CLSImage) : Prop :=
  let r := CompressCLS z img.block
  r.1 < 0 ∧ r.2 = img.block ∨ Restores z img r.1 r.2

/-- zlib compresses the data, or what it has written before it gave up is what was there. -/
def CompressLeaves (img : CLSImage) : Prop :=
  let r := z.compress (img.size - 132) img.data
  r.isOk = true ∨ load img.block 132 (written r).length = written r

instance (img : CLSImage) : Decidable (CompressLeaves z img) := inferInstanceAs (Decidable (_ ∨ _))

/-! ### Compressing and uncompressing -/

variable {z} {img : CLSImage}

namespace CLSImage

theorem dataSize_block (img : CLSImage) : dataSize img.block = img.size - 132 := by
  have hle : (132 : UInt32) ≤ img.block.word 24 := by
    rw [UInt32.le_iff_toNat_le, block, img.mSize]
    exact img.header
  rw [dataSize, UInt32.toNat_sub_of_le _ _ hle, block, img.mSize]
  rfl

theorem length_data (img : CLSImage) : img.data.length = img.size - 132 := length_load _ _ _

/-- The header says the same in every copy of it. -/
theorem word_of_header {src : Block} (h : load src 0 132 = load img.block 0 132) {o : ℕ}
    (ho : o + 4 ≤ 132) : src.word o = img.block.word o := by
  have hload : load src o 4 = load img.block o 4 := by
    rw [← Nat.zero_add o, ← load_drop_take src 0 132 o 4 ho, h, load_drop_take _ 0 132 o 4 ho]
  rw [Block.word, hload, ← Block.word]

theorem dataSize_of_header {src : Block} (h : load src 0 132 = load img.block 0 132) :
    dataSize src = img.size - 132 := by
  rw [dataSize, word_of_header h (by decide)]
  exact img.dataSize_block

theorem header_le (img : CLSImage) : 132 ≤ img.size := img.header

theorem size_lt (img : CLSImage) : img.size < 2147483648 := img.lt

/-- The header and the data are the image. -/
theorem write_header (img : CLSImage) {src : Block} (h : load src 0 132 = load img.block 0 132) :
    ((HeapBuffer.new img.size).write 132 img.data).bind
        (fun destModule => destModule.write 0 (load src 0 132)) =
      some (.ofBlock img.size img.block) := by
  have hle := img.header_le
  have hlen := img.length_data
  have hfirst : 132 + img.data.length ≤ (HeapBuffer.new img.size).size := by
    change _ ≤ img.size
    omega
  obtain ⟨b, hb, hsize⟩ := HeapBuffer.exists_write hfirst
  have hsecond : 0 + (load img.block 0 132).length ≤ b.size := by
    rw [length_load, hsize]
    exact hle
  obtain ⟨b', hb', hsize'⟩ := HeapBuffer.exists_write hsecond
  rw [hb, Option.bind_some, h, hb']
  refine congrArg some (HeapBuffer.ext (hsize'.trans hsize) (funext fun i => ?_))
  have hbeside : 132 ≤ i → b'.cell i = b.cell i := fun hi =>
    HeapBuffer.cell_of_write hb' (.inr (by rwa [length_load]))
  by_cases hi : i < img.size
  · refine Eq.trans ?_ (if_pos hi).symm
    by_cases hheader : i < 132
    · exact HeapBuffer.cell_of_write_load hb' (Nat.zero_le i) (by omega)
    · rw [hbeside (by omega)]
      exact HeapBuffer.cell_of_write_load hb (by omega) (by omega)
  · refine Eq.trans ?_ (if_neg hi).symm
    rw [hbeside (by omega)]
    exact HeapBuffer.cell_of_write hb (.inr (by omega))

end CLSImage

/-- What `UncompressCLS` makes of the stream of an image. -/
theorem UncompressCLS_eq {src : Block} {size : Int32}
    (h : load src 0 132 = load img.block 0 132)
    (hok : ∀ result, z.uncompress (img.size - 132) (load src 132 (size.toUInt32 - 132).toNat) =
      .ok result → result = img.data) :
    UncompressCLS z src size (.new img.size) =
        some (Int32.ofNat img.size, .ofBlock img.size img.block) ∨
      ∃ b, UncompressCLS z src size (.new img.size) = some (CLSError_Uncompress, b) := by
  have hle := img.header_le
  have hdata := img.length_data
  have hlen := z.length_uncompress (img.size - 132) (load src 132 (size.toUInt32 - 132).toNat)
  rw [UncompressCLS, CLSImage.dataSize_of_header h]
  rcases hr : z.uncompress (img.size - 132) (load src 132 (size.toUInt32 - 132).toNat)
    with out | result
  · rw [hr] at hlen
    have hin : 132 + out.length ≤ (HeapBuffer.new img.size).size := by
      change out.length ≤ _ at hlen
      change _ ≤ img.size
      omega
    obtain ⟨b, hb, -⟩ := HeapBuffer.exists_write hin
    refine .inr ⟨b, ?_⟩
    change ((HeapBuffer.new img.size).write 132 out).map _ = _
    rw [hb]
    rfl
  · -- the data fills what is behind the header, which is copied in front of it
    have hnum : img.data.length + 132 = img.size := by omega
    obtain ⟨b, hb, hb'⟩ := Option.bind_eq_some_iff.mp (img.write_header h)
    refine .inl ?_
    change ((HeapBuffer.new img.size).write 132 result).bind _ = _
    rw [hok result hr, hb, Option.bind_some, hb', hnum]
    rfl

theorem toNat_toUInt32_ofNat {n : ℕ} (h : n < 2147483648) : (Int32.ofNat n).toUInt32.toNat = n := by
  change (UInt32.ofNat n).toNat = n
  exact UInt32.toNat_ofNat_of_lt' (Nat.lt_of_lt_of_le h (by decide))

theorem zero_le_ofNat {n : ℕ} (h : n < 2147483648) : (0 : Int32) ≤ Int32.ofNat n := by
  rw [Int32.le_iff_toInt_le, Int32.toInt_ofNat_of_lt h]
  exact Int.natCast_nonneg n

/-- **What zlib has compressed** is restored. -/
theorem restores_CompressCLS {out : List UInt8}
    (h : z.compress (img.size - 132) img.data = .ok out) :
    Restores z img (Int32.ofNat (out.length + 132)) (store img.block 132 out) := by
  have hle := img.header_le
  have hlt := img.size_lt
  have hlen : out.length ≤ img.size - 132 := by
    have hlen := z.length_compress (img.size - 132) img.data
    rwa [h] at hlen
  have hn : out.length + 132 < 2147483648 := by omega
  refine ⟨zero_le_ofNat hn, fun src hsrc => ?_⟩
  rw [toNat_toUInt32_ofNat hn, Nat.add_comm, load_append, load_append] at hsrc
  obtain ⟨hheader, hstream⟩ := List.append_inj hsrc (by simp)
  rw [load_store_of_disjoint _ (.inl (by omega))] at hheader
  rw [Nat.zero_add, load_store_self] at hstream
  have hsize : ((Int32.ofNat (out.length + 132)).toUInt32 - 132).toNat = out.length := by
    have hnat := toNat_toUInt32_ofNat hn
    have hge : (132 : UInt32) ≤ (Int32.ofNat (out.length + 132)).toUInt32 := by
      rw [UInt32.le_iff_toNat_le, hnat]
      exact Nat.le_add_left _ _
    rw [UInt32.toNat_sub_of_le _ _ hge, hnat]
    exact Nat.add_sub_cancel _ _
  have hread : z.uncompress (img.size - 132) (load src 132
      ((Int32.ofNat (out.length + 132)).toUInt32 - 132).toNat) = .ok img.data := by
    rw [hsize, hstream, ← img.length_data]
    exact z.uncompress_compress h
  refine (UncompressCLS_eq hheader fun result hr => ?_).resolve_right ?_
  · exact Except.ok.inj (hr.symm.trans hread)
  · rintro ⟨b, hb⟩
    rw [UncompressCLS, CLSImage.dataSize_of_header hheader, hread] at hb
    obtain ⟨b', -, hb⟩ := Option.bind_eq_some_iff.mp hb
    obtain ⟨b'', -, hb⟩ := Option.map_eq_some_iff.mp hb
    have hcode : Int32.ofNat (img.data.length + 132) = CLSError_Uncompress :=
      (Prod.mk.inj hb).1
    have hdata := img.length_data
    have hneg := zero_le_ofNat (n := img.data.length + 132) (by omega)
    rw [hcode] at hneg
    exact absurd hneg (by decide)

theorem store_eq_self_iff {d : Block} {o : ℕ} {bs : List UInt8} :
    store d o bs = d ↔ load d o bs.length = bs := by
  constructor
  · intro h
    have hload := load_store_self d o bs
    rwa [h] at hload
  · intro h
    funext i
    by_cases hi : o ≤ i ∧ i < o + bs.length
    · have hget : i - o < bs.length := by omega
      rw [store, if_pos hi, ← h, List.getD_eq_getElem _ _ (by rwa [length_load])]
      simp only [load, List.getElem_map, List.getElem_range]
      rw [Nat.add_sub_cancel' hi.1]
    · rw [store, if_neg hi]

/-- **`CompressCLS` is right** exactly where zlib compresses the data, or leaves it. -/
theorem compressesRight_iff (z : Zlib) (img : CLSImage) :
    CompressesRight z img ↔ CompressLeaves z img := by
  have hdata : load img.block 132 (img.size - 132) = img.data := rfl
  unfold CompressesRight CompressLeaves CompressCLS
  rw [img.dataSize_block, hdata]
  rcases hr : z.compress (img.size - 132) img.data with out | out
  · have hneg : CLSError_Compress < 0 := by decide
    have hnot : ¬ Restores z img CLSError_Compress (store img.block 132 out) := fun h =>
      absurd h.1 (by decide)
    refine (or_iff_left hnot).trans ((and_iff_right hneg).trans ?_)
    exact store_eq_self_iff.trans (or_iff_right Bool.false_ne_true).symm
  · exact iff_of_true (.inr (restores_CompressCLS hr)) (.inl rfl)

/-! ### A zlib for zeros -/

/-- The streams of `zeroZlib`: the first bytes of a zlib stream, a mark before each byte, and an
end. -/
def zeroStream (source : List UInt8) : List UInt8 :=
  [0x78, 0x9c, 0x63] ++ (source.flatMap fun b => [0x60, b]) ++ [0]

def readMarked : List UInt8 → Option (List UInt8)
  | 0x60 :: b :: bs => (readMarked bs).map (b :: ·)
  | 0 :: _ => some []
  | _ => none

def readStream : List UInt8 → Option (List UInt8)
  | 0x78 :: 0x9c :: 0x63 :: bs => readMarked bs
  | _ => none

theorem readMarked_flatMap (source : List UInt8) :
    readMarked ((source.flatMap fun b => [0x60, b]) ++ [0]) = some source := by
  induction source with
  | nil => rfl
  | cons b source ih =>
    change (readMarked ((source.flatMap fun b => [0x60, b]) ++ [0])).map (b :: ·) = _
    rw [ih]
    rfl

/-- What is read does not depend on what follows. -/
theorem readMarked_append {bs result : List UInt8} (h : readMarked bs = some result)
    (rest : List UInt8) : readMarked (bs ++ rest) = some result := by
  induction bs using readMarked.induct generalizing result with
  | case1 b bs ih =>
    obtain ⟨r, hr, rfl⟩ := Option.map_eq_some_iff.mp h
    change (readMarked (bs ++ rest)).map (b :: ·) = _
    rw [ih hr]
    rfl
  | case2 bs => exact h
  | case3 bs hne hne' =>
    rw [readMarked.eq_3 _ hne hne'] at h
    exact nomatch h

theorem readStream_zeroStream (source : List UInt8) :
    readStream (zeroStream source) = some source :=
  readMarked_flatMap source

theorem readStream_append {bs result : List UInt8} (h : readStream bs = some result)
    (rest : List UInt8) : readStream (bs ++ rest) = some result := by
  unfold readStream at h
  split at h
  · exact readMarked_append h rest
  · exact nomatch h

/-- A function that compresses four zeros into four bytes as zlib does: it fails, with `78 9c 63 60`
written. -/
def zeroZlib : Zlib where
  compress destLen source :=
    if (zeroStream source).length ≤ destLen then .ok (zeroStream source)
    else .error ((zeroStream source).take destLen)
  uncompress destLen source :=
    match readStream source with
    | some result => if result.length ≤ destLen then .ok result else .error (result.take destLen)
    | none => .error []
  length_compress destLen source := by
    split_ifs with h
    · exact h
    · exact List.length_take_le _ _
  length_uncompress destLen source := by
    rcases readStream source with _ | result
    · exact Nat.zero_le _
    · change (written (if _ then _ else _)).length ≤ _
      split_ifs with h
      · exact h
      · exact List.length_take_le _ _
  uncompress_compress {destLen source out} h := by
    split_ifs at h with hle
    rw [← Except.ok.inj h, readStream_zeroStream]
    exact if_pos (Nat.le_refl _)
  uncompress_of_prefix {destLen destLen' source out stream result} h hprefix hr := by
    split_ifs at h with hle
    rw [← Except.ok.inj h] at hprefix
    rcases hs : readStream stream with _ | r
    · rw [hs] at hr
      exact nomatch hr
    · rw [hs] at hr
      change (if _ then _ else _) = _ at hr
      split_ifs at hr
      rw [← Except.ok.inj hr]
      have hread := readStream_zeroStream source
      rcases hprefix with ⟨rest, rfl⟩ | ⟨rest, hrest⟩
      · rw [readStream_append hread] at hs
        exact (Option.some.inj hs).symm
      · rw [← hrest, readStream_append hs] at hread
        exact Option.some.inj hread

end Cls

end ElastosCar
