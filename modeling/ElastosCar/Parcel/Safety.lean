import ElastosCar.Parcel.Typed

/-!
# Reading a received parcel

A parcel that came in over the wire holds arbitrary bytes, and lengths and tags are taken
from them. This module states what it means for a read to be safe on such a parcel (`Safe`:
no byte outside the data is fetched, the position stays inside the data, and a value is
handed out only when it lies wholly inside), and the condition on the buffer and the
arguments under which each operation is (`Fits`).

The operations are not safe everywhere. `PAD_SIZE` wraps for lengths above `0xFFFFFFFC`, which
then pass the bounds test; `ReadCStringInner` moves past the padding of a string without
asking whether the padding is there; `ReadEGuid` takes its `NULL` to `strlen`; and
`ReadStruct` uses its length whether or not it could be read.
-/

namespace ElastosCar

/-- A read operation with its arguments. -/
inductive ReadCall
  | typed (k : Kind) (junk : Junk)
  | double (old : UInt64)
  | read (len : UInt32)
  | readInplace (len : UInt32)

/-- What a read hands to its caller. -/
inductive Delivered
  | value (v : Value)
  | double (bits : UInt64)
  | bytes (bs : List UInt8)
  | pointer (off : ℕ) (len : UInt32)

/-- How many bytes, from the position before the read, the result was taken from. A null
value is taken from nowhere. -/
def Delivered.extent : Delivered → ℕ
  | .value (.byte _) | .value (.boolean _) | .value (.char32 _) | .value (.int16 _)
  | .value (.int32 _) | .value (.float _) => 4
  | .value (.int64 _) | .double _ => 8
  | .value (.string none) | .value (.struct none) => 0
  | .value (.string (some s)) => 4 + (s.chars.length + 1)
  | .value (.emuid _) => 16
  | .value (.eguid id) => 24 + (id.mUunm.chars.length + 1)
  | .value (.struct (some bs)) => 8 + bs.length
  | .bytes bs => bs.length
  | .pointer _ len => len.toNat

namespace CRemoteParcel

/-- The operation of a call. -/
def call : ReadCall → ReadM (ECode × Option Delivered)
  | .typed k junk => do let (ec, v) ← readValue junk k; pure (ec, v.map .value)
  | .double old => do let (ec, v) ← readDouble old; pure (ec, some (.double v))
  | .read len => do let (ec, bs) ← read len; pure (ec, bs.map .bytes)
  | .readInplace len => do
    let off ← readInplace len
    pure (NOERROR, off.map fun off => .pointer off len)

/-- What a read on `p` owes its caller: the position is inside the data, whose size is as
before, and a value handed out comes from `n` bytes inside the data. -/
def Inside (p : CRemoteParcel) (ec : ECode) (n : Option ℕ) (q : CRemoteParcel) : Prop :=
  q.mDataPos.toNat ≤ p.mDataSize.toNat ∧ q.mDataSize = p.mDataSize ∧
    (failed ec = false → ∀ k ∈ n, p.mDataPos.toNat + k ≤ p.mDataSize.toNat)

/-- A call on `p` is safe. A failed `assert`, which ends the process before anything is
fetched, is the only abnormal end allowed. -/
def Safe (p : CRemoteParcel) (c : ReadCall) : Prop :=
  Run.Post (· = Fault.assertion) (fun r q => p.Inside r.1 (r.2.map Delivered.extent) q) (call c p)

/-- The word at an offset, in host order. -/
def wordAt (p : CRemoteParcel) (off : ℕ) : UInt32 := ntohl (wordOf (load p.block off 4))

/-- The terminated string at an offset, if its terminator is inside the data. -/
def stringAt (p : CRemoteParcel) (off : ℕ) : Option CString :=
  cstring (load p.block off (p.mDataSize.toNat - off))

/-- The padding of a string at an offset is inside the data. -/
def PaddedInside (p : CRemoteParcel) (off : ℕ) : Prop :=
  ∀ s ∈ p.stringAt off, off + pad4 (s.chars.length + 1) ≤ p.mDataSize.toNat

/-- `PAD_SIZE` of the length does not wrap. -/
def Paddable (len : UInt32) : Prop := len.toNat ≤ 0xFFFFFFFC

/-- **When a call is safe**, as a condition on the parcel and the arguments. -/
def Fits (p : CRemoteParcel) : ReadCall → Prop
  | .typed .byte _ | .typed .boolean _ | .typed .char32 _ | .typed .int16 _
  | .typed .int32 _ | .typed .float _ => p.mDataPos.toNat + 4 < 2 ^ 32
  | .typed .int64 _ | .double _ => p.mDataPos.toNat + 8 < 2 ^ 32
  | .typed .emuid _ => True
  | .typed .string _ =>
    p.mDataPos.toNat + 4 < 2 ^ 32 ∧
      (p.mDataPos.toNat + 4 ≤ p.mDataSize.toNat → p.wordAt p.mDataPos.toNat = MSH_NOT_NULL →
        p.PaddedInside (p.mDataPos.toNat + 4))
  | .typed .eguid _ =>
    p.mDataPos.toNat + 24 ≤ p.mDataSize.toNat →
      (p.stringAt (p.mDataPos.toNat + 24)).isSome ∧ p.PaddedInside (p.mDataPos.toNat + 24)
  | .typed .struct _ =>
    p.mDataPos.toNat + 4 < 2 ^ 32 ∧
      (p.mDataPos.toNat + 4 ≤ p.mDataSize.toNat → p.wordAt p.mDataPos.toNat = MSH_NOT_NULL →
        p.mDataPos.toNat + 8 ≤ p.mDataSize.toNat ∧ Paddable (p.wordAt (p.mDataPos.toNat + 4)))
  | .read len | .readInplace len => Paddable len

instance (len : UInt32) : Decidable (Paddable len) :=
  inferInstanceAs (Decidable (len.toNat ≤ _))

instance (p : CRemoteParcel) (off : ℕ) : Decidable (p.PaddedInside off) :=
  inferInstanceAs (Decidable (∀ s ∈ p.stringAt off, off + pad4 (s.chars.length + 1) ≤ _))

instance (p : CRemoteParcel) : DecidablePred p.Fits
  | .typed .byte _ | .typed .boolean _ | .typed .char32 _ | .typed .int16 _
  | .typed .int32 _ | .typed .float _ | .typed .int64 _ | .double _ =>
    inferInstanceAs (Decidable (_ < _))
  | .typed .emuid _ => .isTrue trivial
  | .typed .string _ => inferInstanceAs (Decidable (_ ∧ (_ → _ → p.PaddedInside _)))
  | .typed .eguid _ => inferInstanceAs (Decidable (_ → _ ∧ p.PaddedInside _))
  | .typed .struct _ => inferInstanceAs (Decidable (_ ∧ (_ → _ → _ ∧ Paddable _)))
  | .read len | .readInplace len => inferInstanceAs (Decidable (Paddable len))

/-! ### The primitives on arbitrary data -/

section

variable {p : CRemoteParcel}

/-- `ReadAligned` where the position cannot wrap. -/
theorem readAligned_cases (n : UInt32) (hlt : p.mDataPos.toNat + n.toNat < 2 ^ 32) :
    (p.mDataPos.toNat + n.toNat ≤ p.mDataSize.toNat ∧
      readAligned n p = .ok ((NOERROR, some (load p.block p.mDataPos.toNat n.toNat)), p.advance n)) ∨
    (p.mDataSize.toNat < p.mDataPos.toNat + n.toNat ∧
      readAligned n p = .ok ((E_FAIL, none), p)) := by
  have hadd : (p.mDataPos + n).toNat = p.mDataPos.toNat + n.toNat := by
    rw [UInt32.toNat_add, Nat.mod_eq_of_lt hlt]
  by_cases h : p.mDataPos.toNat + n.toNat ≤ p.mDataSize.toNat
  · have hle : p.mDataPos + n ≤ p.mDataSize := UInt32.le_iff_toNat_le.mpr (by omega)
    refine Or.inl ⟨h, ?_⟩
    simp only [readAligned, Run.get_bind, if_pos hle]
    rw [Run.bind_ok (by rw [peek, if_pos (Or.inr h)])]
    rfl
  · have hle : ¬ p.mDataPos + n ≤ p.mDataSize := fun hle =>
      h (by rw [UInt32.le_iff_toNat_le] at hle; omega)
    refine Or.inr ⟨by omega, ?_⟩
    simp only [readAligned, Run.get_bind, if_neg hle]
    rfl

/-- The test of `Read` and `ReadInplace` is right for lengths that pad without a wrap: the
second comparison rejects what the first lets through. -/
theorem canRead_iff {len : UInt32} (hlen : Paddable len) :
    p.canRead len = true ↔ p.mDataPos.toNat + pad4 len.toNat ≤ p.mDataSize.toNat := by
  have hpad := toNat_padSize_of_le hlen
  have hp := p.mDataPos.toNat_lt
  have hs := p.mDataSize.toNat_lt
  have hl := (padSize len).toNat_lt
  rw [canRead, decide_eq_true_iff, ge_iff_le, UInt32.le_iff_toNat_le, UInt32.le_iff_toNat_le,
    UInt32.toNat_add, ← hpad]
  omega

theorem toNat_pos_advance_padSize {len : UInt32} (hlen : Paddable len)
    (h : p.mDataPos.toNat + pad4 len.toNat ≤ p.mDataSize.toNat) :
    (p.advance (padSize len)).mDataPos.toNat = p.mDataPos.toNat + pad4 len.toNat := by
  have hpad := toNat_padSize_of_le hlen
  have hs := p.mDataSize.toNat_lt
  rw [advance, UInt32.toNat_add, hpad, Nat.mod_eq_of_lt (by omega)]

/-- `Read` of a length that pads without a wrap. -/
theorem read_cases {n : UInt32} (hlen : Paddable n) :
    (p.mDataPos.toNat + pad4 n.toNat ≤ p.mDataSize.toNat ∧
      read n p = .ok ((NOERROR, some (load p.block p.mDataPos.toNat n.toNat)),
        p.advance (padSize n))) ∨
    (p.mDataSize.toNat < p.mDataPos.toNat + pad4 n.toNat ∧
      read n p = .ok ((E_FAIL, none), p)) := by
  have hle := le_pad4 n.toNat
  by_cases h : p.mDataPos.toNat + pad4 n.toNat ≤ p.mDataSize.toNat
  · refine Or.inl ⟨h, ?_⟩
    simp only [read, Run.get_bind, if_pos ((canRead_iff hlen).mpr h)]
    rw [Run.bind_ok (by rw [peek, if_pos (Or.inr (by omega))])]
    rfl
  · refine Or.inr ⟨by omega, ?_⟩
    simp only [read, Run.get_bind, if_neg (mt (canRead_iff hlen).mp h)]
    rfl

/-- `ReadCStringInner` inside the data: it finds the string that is there, and its padding
moves the position. -/
theorem readCStringInner_eq (hpos : p.mDataPos.toNat ≤ p.mDataSize.toNat) :
    readCStringInner p = .ok (p.stringAt p.mDataPos.toNat,
      match p.stringAt p.mDataPos.toNat with
      | some s => p.advance (padSize (UInt32.ofNat s.chars.length + 1))
      | none => p) := by
  have havail : (p.mDataSize - p.mDataPos).toNat = p.mDataSize.toNat - p.mDataPos.toNat :=
    UInt32.toNat_sub_of_le _ _ (UInt32.le_iff_toNat_le.mpr hpos)
  by_cases h : p.mDataSize - p.mDataPos > 0
  · have hscan : memchr p.mDataPos.toNat (p.mDataSize - p.mDataPos).toNat p
        = .ok (p.stringAt p.mDataPos.toNat, p) := by
      rw [memchr, havail, Nat.min_self, stringAt]
      cases cstring (load p.block p.mDataPos.toNat (p.mDataSize.toNat - p.mDataPos.toNat)) with
      | some s => rfl
      | none => simp
    simp only [readCStringInner, Run.get_bind, if_pos h]
    rw [Run.bind_ok hscan]
    cases p.stringAt p.mDataPos.toNat <;> rfl
  · have h0 : p.mDataSize.toNat - p.mDataPos.toNat = 0 := by
      rw [gt_iff_lt, UInt32.lt_iff_toNat_lt, havail, UInt32.toNat_zero] at h
      omega
    have hnone : p.stringAt p.mDataPos.toNat = none := by
      rw [stringAt, h0]
      rfl
    simp only [readCStringInner, Run.get_bind, if_neg h, hnone]
    rfl

/-- Where the padding is inside the data, so is the new position, and the string. -/
theorem stringAt_inside {off : ℕ} {s : CString} (hs : p.stringAt off = some s)
    (hpad : p.PaddedInside off) (hoff : off = p.mDataPos.toNat) :
    (p.advance (padSize (UInt32.ofNat s.chars.length + 1))).mDataPos.toNat ≤ p.mDataSize.toNat ∧
      off + (s.chars.length + 1) ≤ p.mDataSize.toNat := by
  have hin := hpad s hs
  have hle := le_pad4 (s.chars.length + 1)
  have hlt := p.mDataSize.toNat_lt
  have hn : (UInt32.ofNat s.chars.length + 1).toNat = s.chars.length + 1 := by
    rw [UInt32.toNat_add, UInt32.toNat_ofNat_of_lt' (by change _ < 4294967296; omega)]
    simp only [UInt32.reduceToNat]
    omega
  have hpadd : Paddable (UInt32.ofNat s.chars.length + 1) := by
    rw [Paddable, hn]
    rw [pad4] at hin
    omega
  refine ⟨?_, by omega⟩
  rw [toNat_pos_advance_padSize hpadd (by rw [hn, ← hoff]; exact hin), hn, ← hoff]
  exact hin

theorem readInt32_cases (old : UInt32) (hlt : p.mDataPos.toNat + 4 < 2 ^ 32) :
    (p.mDataPos.toNat + 4 ≤ p.mDataSize.toNat ∧
      readInt32 old p = .ok ((NOERROR, p.wordAt p.mDataPos.toNat), p.advance 4)) ∨
    (p.mDataSize.toNat < p.mDataPos.toNat + 4 ∧ readInt32 old p = .ok ((E_FAIL, old), p)) := by
  rcases readAligned_cases 4 hlt with ⟨h, hr⟩ | ⟨h, hr⟩
  · exact Or.inl ⟨h, by rw [readInt32, Run.bind_ok hr]; rfl⟩
  · exact Or.inr ⟨h, by rw [readInt32, Run.bind_ok hr]; rfl⟩

theorem toNat_pos_advance {n : UInt32} (h : p.mDataPos.toNat + n.toNat ≤ p.mDataSize.toNat) :
    (p.advance n).mDataPos.toNat = p.mDataPos.toNat + n.toNat := by
  have hs := p.mDataSize.toNat_lt
  rw [advance, UInt32.toNat_add, Nat.mod_eq_of_lt (by omega)]

/-! ### What is left to read -/

/-- The data from the position on. -/
def rest (p : CRemoteParcel) : List UInt8 :=
  load p.block p.mDataPos.toNat (p.mDataSize.toNat - p.mDataPos.toNat)

@[simp]
theorem length_rest (p : CRemoteParcel) :
    p.rest.length = p.mDataSize.toNat - p.mDataPos.toNat := by
  simp [rest]

section

variable {bs cs : List UInt8}

theorem length_le_of_rest (hne : bs ≠ []) (h : p.rest = bs ++ cs) :
    p.mDataPos.toNat + bs.length ≤ p.mDataSize.toNat := by
  have hlen := congrArg List.length h
  have hpos := List.length_pos_iff.mpr hne
  rw [length_rest, List.length_append] at hlen
  omega

theorem load_of_rest (h : p.rest = bs ++ cs) : load p.block p.mDataPos.toNat bs.length = bs :=
  (load_eq_append h).1

theorem rest_advance (hne : bs ≠ []) (h : p.rest = bs ++ cs) {n : UInt32}
    (hn : n.toNat = bs.length) : (p.advance n).rest = cs := by
  have hle := length_le_of_rest hne h
  have hpos := toNat_pos_advance (p := p) (n := n) (by omega)
  have hload := (load_eq_append h).2
  have hlen := congrArg List.length h
  rw [length_rest, List.length_append] at hlen
  rw [rest, hpos, hn]
  change load p.block _ (p.mDataSize.toNat - _) = cs
  rw [show p.mDataSize.toNat - (p.mDataPos.toNat + bs.length) = cs.length by omega]
  exact hload

/-- `ReadInt32` takes a word off. -/
theorem readInt32_of_rest {v : UInt32} (h : p.rest = wire32 v ++ cs) (old : UInt32) :
    readInt32 old p = .ok ((NOERROR, v), p.advance 4) ∧ (p.advance 4).rest = cs := by
  have hne : wire32 v ≠ [] := List.ne_nil_of_length_pos (by simp)
  have hle := length_le_of_rest hne h
  have hlt := p.mDataSize.toNat_lt
  rw [length_wire32] at hle
  refine ⟨?_, rest_advance hne h (by simp)⟩
  rcases readInt32_cases (p := p) old (by omega) with ⟨-, hr⟩ | ⟨hgt, -⟩
  · have hload := load_of_rest h
    rw [length_wire32] at hload
    rw [hr, wordAt, hload, wire32, wordOf_wordBytes, ntohl_htonl]
  · omega

/-- `ReadCStringInner` takes a string with its padding off. -/
theorem readCStringInner_of_rest {s : CString} (h : p.rest = padded s.terminated ++ cs) :
    ∃ n, readCStringInner p = .ok (some s, p.advance n) ∧ (p.advance n).rest = cs := by
  have hlen := s.length_terminated
  have hpad := le_pad4 s.terminated.length
  have hne : padded s.terminated ≠ [] := List.ne_nil_of_length_pos (by rw [length_padded]; omega)
  have hle := length_le_of_rest hne h
  have hlt := p.mDataSize.toNat_lt
  rw [length_padded] at hle
  have hn : (UInt32.ofNat s.chars.length + 1).toNat = s.terminated.length := by
    rw [UInt32.toNat_add, UInt32.toNat_ofNat_of_lt' (by change _ < 4294967296; omega), hlen]
    simp only [UInt32.reduceToNat]
    omega
  have hps : (padSize (UInt32.ofNat s.chars.length + 1)).toNat = (padded s.terminated).length := by
    rw [toNat_padSize_of_le (by rw [hn]; rw [pad4] at hle; omega), hn, length_padded]
  have hstring : p.stringAt p.mDataPos.toNat = some s := by
    change cstring p.rest = some s
    rw [h, padded, CString.terminated, List.append_assoc, List.append_assoc]
    exact cstring_append s _
  refine ⟨_, ?_, rest_advance hne h hps⟩
  rw [readCStringInner_eq (by omega), hstring]

/-- `ReadString` takes a string behind its tag off. -/
theorem readString_of_rest {s : CString}
    (h : p.rest = wire32 MSH_NOT_NULL ++ (padded s.terminated ++ cs)) (junk : UInt32) :
    ∃ q, readString junk p = .ok ((NOERROR, some s), q) ∧ q.rest = cs ∧ q.contents = p.contents := by
  obtain ⟨htag, hrest⟩ := readInt32_of_rest h junk
  obtain ⟨n, hstring, hrest'⟩ := readCStringInner_of_rest hrest
  refine ⟨(p.advance 4).advance n, ?_, hrest', rfl⟩
  rw [readString, Run.bind_ok htag]
  simp only [failed_NOERROR, MSH_NOT_NULL_ne, Bool.false_eq_true, or_self, if_false]
  rw [Run.bind_ok (show carAssert _ (p.advance 4) = .ok ((), p.advance 4) by simp [carAssert]),
    Run.bind_ok hstring]
  rfl

/-- `ReadInplace` hands out what it takes off. -/
theorem readInplace_of_rest {len : UInt32} (hlen : len.toNat = bs.length) (hpos : 0 < bs.length)
    (hdvd : 4 ∣ bs.length) (h : p.rest = bs ++ cs) :
    readInplace len p = .ok (some p.mDataPos.toNat, p.advance len) ∧
      peek p.mDataPos.toNat len.toNat (p.advance len) = .ok (bs, p.advance len) ∧
      (p.advance len).rest = cs := by
  have hne : bs ≠ [] := List.ne_nil_of_length_pos hpos
  have hle := length_le_of_rest hne h
  have hpad : pad4 bs.length = bs.length := by
    rw [pad4]
    omega
  have hlt := len.toNat_lt
  have hpaddable : Paddable len := by
    rw [Paddable]
    omega
  have hps : padSize len = len := UInt32.toNat_inj.mp (by
    rw [toNat_padSize_of_le hpaddable, hlen, hpad])
  refine ⟨?_, ?_, rest_advance hne h hlen⟩
  · simp only [readInplace, Run.get_bind]
    rw [if_pos ((canRead_iff hpaddable).mpr (by rw [hlen, hpad]; exact hle)), hps]
    rfl
  · rw [peek, hlen, if_pos (.inr hle)]
    change Except.ok (load p.block _ _, _) = _
    rw [load_of_rest h]

end

/-! ### The calls -/

variable (hpos : p.mDataPos.toNat ≤ p.mDataSize.toNat)
include hpos

/-- A failure that moves nothing is safe. -/
theorem inside_fail (n : Option ℕ) : p.Inside E_FAIL n p :=
  ⟨hpos, rfl, fun h => absurd h (by decide)⟩

omit hpos in
/-- A value that is as long as what was read. -/
theorem inside_advance {n : UInt32} {k : Option ℕ} (ec : ECode)
    (h : p.mDataPos.toNat + n.toNat ≤ p.mDataSize.toNat) (hk : ∀ i ∈ k, i ≤ n.toNat) :
    p.Inside ec k (p.advance n) := by
  refine ⟨by rw [toNat_pos_advance h]; exact h, rfl, fun _ i hi => ?_⟩
  have := hk i hi
  omega

theorem inside_readAligned (n : UInt32) (hlt : p.mDataPos.toNat + n.toNat < 2 ^ 32) :
    Run.Post (· = Fault.assertion) (fun r q => p.Inside r.1 (some n.toNat) q) (readAligned n p) := by
  rcases readAligned_cases n hlt with ⟨h, hr⟩ | ⟨h, hr⟩ <;> rw [hr]
  · exact inside_advance _ h (by simp)
  · exact inside_fail hpos _

theorem inside_readInt32 (old : UInt32) (hlt : p.mDataPos.toNat + 4 < 2 ^ 32) :
    Run.Post (· = Fault.assertion) (fun r q => p.Inside r.1 (some 4) q) (readInt32 old p) := by
  rcases readInt32_cases old hlt with ⟨h, hr⟩ | ⟨h, hr⟩ <;> rw [hr]
  · exact inside_advance (n := 4) _ h (by simp)
  · exact inside_fail hpos _

theorem inside_readInt64 (old : UInt64) (hlt : p.mDataPos.toNat + 8 < 2 ^ 32) :
    Run.Post (· = Fault.assertion) (fun r q => p.Inside r.1 (some 8) q) (readInt64 old p) := by
  refine (inside_readAligned hpos 8 hlt).bind fun r q h => ?_
  obtain ⟨ec, _ | bs⟩ := r <;> exact h

theorem inside_readFloat (old : UInt32) (hlt : p.mDataPos.toNat + 4 < 2 ^ 32) :
    Run.Post (· = Fault.assertion) (fun r q => p.Inside r.1 (some 4) q) (readFloat old p) := by
  refine (inside_readAligned hpos 4 hlt).bind fun r q h => ?_
  obtain ⟨ec, _ | bs⟩ := r <;> exact h

theorem inside_readVia {α : Type} (conv : UInt32 → α) (zero : α) (junk : UInt32)
    (hlt : p.mDataPos.toNat + 4 < 2 ^ 32) :
    Run.Post (· = Fault.assertion) (fun r q => p.Inside r.1 (some 4) q)
      (readVia conv zero junk p) :=
  (inside_readInt32 hpos junk hlt).bind fun _ _ h => h

theorem inside_readString (junk : Junk) (hfit : p.Fits (.typed .string junk)) :
    Run.Post (· = Fault.assertion)
      (fun r q => p.Inside r.1 (r.2.map fun s => 4 + (s.chars.length + 1)) q)
      (readString junk.word p) := by
  obtain ⟨hlt, hin⟩ := hfit
  rw [readString]
  rcases readInt32_cases junk.word hlt with ⟨h, hr⟩ | ⟨h, hr⟩
  · have hadv : (p.advance 4).mDataPos.toNat = p.mDataPos.toNat + 4 := toNat_pos_advance (n := 4) h
    have hsize : (p.advance 4).mDataSize = p.mDataSize := rfl
    rw [Run.bind_ok hr]
    dsimp only
    by_cases hnull : p.wordAt p.mDataPos.toNat = MSH_NULL
    · rw [if_pos (Or.inr hnull)]
      exact inside_advance (n := 4) _ h (by simp)
    · rw [if_neg (by simp [hnull])]
      by_cases htag : p.wordAt p.mDataPos.toNat = MSH_NOT_NULL
      · have hread := readCStringInner_eq (p := p.advance 4) (by rw [hadv]; exact h)
        have hinside : (p.advance 4).PaddedInside (p.mDataPos.toNat + 4) := hin h htag
        rw [hadv] at hread
        rw [carAssert, if_pos (by simpa using htag), Run.pure_bind_apply, Run.bind_ok hread]
        rcases hs : (p.advance 4).stringAt (p.mDataPos.toNat + 4) with _ | s
        · exact inside_advance (n := 4) _ h (by simp)
        · obtain ⟨h1, h2⟩ := stringAt_inside hs hinside hadv.symm
          refine ⟨h1, rfl, fun _ k hk => ?_⟩
          obtain rfl := Option.some.inj hk
          change p.mDataPos.toNat + (4 + (s.chars.length + 1)) ≤ p.mDataSize.toNat
          rw [hsize] at h2
          omega
      · rw [carAssert, if_neg (by simpa using htag)]
        rfl
  · rw [Run.bind_ok hr]
    exact inside_fail hpos _

theorem inside_read {len : UInt32} (hlen : Paddable len) :
    Run.Post (· = Fault.assertion) (fun r q => p.Inside r.1 (r.2.map List.length) q)
      (read len p) := by
  have hle := le_pad4 len.toNat
  rcases read_cases (p := p) hlen with ⟨h, hr⟩ | ⟨h, hr⟩ <;> rw [hr]
  · refine inside_advance _ (by rwa [toNat_padSize_of_le hlen]) fun i hi => ?_
    obtain rfl := Option.some.inj hi
    rw [length_load, toNat_padSize_of_le hlen]
    exact hle
  · exact inside_fail hpos _

theorem inside_readEMuid (old : EMuid) :
    Run.Post (· = Fault.assertion) (fun r q => p.Inside r.1 (some 16) q) (readEMuid old p) := by
  rw [readEMuid]
  rcases read_cases (p := p) (n := 16) (by simp [Paddable]) with ⟨h, hr⟩ | ⟨h, hr⟩ <;>
    rw [Run.bind_ok hr]
  · exact inside_advance (n := 16) _ h (by simp)
  · exact inside_fail hpos _

theorem inside_readInplace {len : UInt32} (hlen : Paddable len) :
    Run.Post (· = Fault.assertion) (fun r q => p.Inside NOERROR (r.map fun _ => len.toNat) q)
      (readInplace len p) := by
  have hle := le_pad4 len.toNat
  simp only [readInplace, Run.get_bind]
  split
  · next h =>
    rw [canRead_iff hlen] at h
    refine inside_advance _ (by rwa [toNat_padSize_of_le hlen]) fun i hi => ?_
    obtain rfl := Option.some.inj hi
    rw [toNat_padSize_of_le hlen]
    exact hle
  · exact ⟨hpos, rfl, fun _ k hk => by cases hk⟩

theorem inside_readStruct (junk : Junk) (hfit : p.Fits (.typed .struct junk)) :
    Run.Post (· = Fault.assertion)
      (fun r q => p.Inside r.1 (match r.2 with | .block bs => some (8 + bs.length) | _ => none) q)
      (readStruct junk.word junk.len p) := by
  obtain ⟨hlt, hin⟩ := hfit
  rw [readStruct]
  rcases readInt32_cases junk.word hlt with ⟨h, hr⟩ | ⟨h, hr⟩
  · have hadv : (p.advance 4).mDataPos.toNat = p.mDataPos.toNat + 4 := toNat_pos_advance (n := 4) h
    rw [Run.bind_ok hr]
    dsimp only
    by_cases hnull : p.wordAt p.mDataPos.toNat = MSH_NULL
    · rw [if_pos (Or.inr hnull)]
      exact inside_advance (n := 4) _ h (by simp)
    · rw [if_neg (by simp [hnull])]
      by_cases htag : p.wordAt p.mDataPos.toNat = MSH_NOT_NULL
      · obtain ⟨h8, hlen⟩ := hin h htag
        have hs := p.mDataSize.toNat_lt
        rw [carAssert, if_pos (by simpa using htag), Run.pure_bind_apply]
        rcases readInt32_cases (p := p.advance 4) junk.len (by rw [hadv]; omega) with
          ⟨h', hr'⟩ | ⟨h', hr'⟩
        · have hadv' : ((p.advance 4).advance 4).mDataPos.toNat = p.mDataPos.toNat + 8 := by
            rw [toNat_pos_advance (n := 4) h', hadv]
            rfl
          rw [Run.bind_ok hr', hadv]
          refine (inside_read (p := (p.advance 4).advance 4) (by rw [hadv']; exact h8) hlen).bind
            fun r q hq => ?_
          obtain ⟨ec, _ | bs⟩ := r
          · exact ⟨hq.1, hq.2.1, fun _ k hk => by cases hk⟩
          · refine ⟨hq.1, hq.2.1, fun hec k hk => ?_⟩
            obtain rfl := Option.some.inj hk
            have := hq.2.2 hec _ rfl
            rw [hadv'] at this
            change p.mDataPos.toNat + 8 + bs.length ≤ p.mDataSize.toNat at this
            omega
        · have hsize : (p.advance 4).mDataSize = p.mDataSize := rfl
          rw [hadv, hsize] at h'
          omega
      · rw [carAssert, if_neg (by simpa using htag)]
        rfl
  · rw [Run.bind_ok hr]
    exact inside_fail hpos _

theorem inside_readEGuid (junk : Junk) (hfit : p.Fits (.typed .eguid junk)) :
    Run.Post (· = Fault.assertion)
      (fun r q => p.Inside r.1 (r.2.map fun id => 24 + (id.mUunm.chars.length + 1)) q)
      (readEGuid p) := by
  have hpad : Paddable 24 := by simp [Paddable]
  rw [readEGuid]
  rcases read_cases (p := p) hpad with ⟨h, hr⟩ | ⟨h, hr⟩
  · have hadv : (p.advance (padSize 24)).mDataPos.toNat = p.mDataPos.toNat + 24 :=
      toNat_pos_advance_padSize hpad h
    have hsize : (p.advance (padSize 24)).mDataSize = p.mDataSize := rfl
    obtain ⟨hsome, hinside⟩ := hfit h
    have hread := readCStringInner_eq (p := p.advance (padSize 24)) (by rw [hadv]; exact h)
    rw [hadv] at hread
    rw [Run.bind_ok hr]
    dsimp only
    rw [Run.bind_ok hread]
    have hstr : (p.advance (padSize 24)).stringAt (p.mDataPos.toNat + 24)
        = p.stringAt (p.mDataPos.toNat + 24) := rfl
    rw [hstr]
    obtain ⟨s, hs⟩ := Option.isSome_iff_exists.mp hsome
    rw [hs]
    obtain ⟨h1, h2⟩ := stringAt_inside (p := p.advance (padSize 24)) (hstr.trans hs) hinside
      hadv.symm
    refine ⟨h1, rfl, fun _ k hk => ?_⟩
    obtain rfl := Option.some.inj hk
    change p.mDataPos.toNat + (24 + (s.chars.length + 1)) ≤ p.mDataSize.toNat
    rw [hsize] at h2
    omega
  · rw [Run.bind_ok hr]
    exact inside_fail hpos _

/-- A null value is always inside. -/
theorem Inside.null {ec : ECode} {q : CRemoteParcel} (h : p.Inside ec none q) :
    p.Inside ec (some 0) q :=
  ⟨h.1, h.2.1, fun _ k hk => by obtain rfl := Option.some.inj hk; exact hpos⟩

theorem inside_readValue (k : Kind) (junk : Junk) (hfit : p.Fits (.typed k junk)) :
    Run.Post (· = Fault.assertion)
      (fun r q => p.Inside r.1 (r.2.map fun v => (Delivered.value v).extent) q)
      (readValue junk k p) := by
  cases k with
  | byte | boolean | char32 | int16 =>
    refine (inside_readVia hpos _ _ _ hfit).bind fun r q h => ?_
    exact h
  | int32 =>
    refine (inside_readInt32 hpos _ hfit).bind fun r q h => ?_
    exact h
  | float =>
    refine (inside_readFloat hpos _ hfit).bind fun r q h => ?_
    exact h
  | int64 =>
    refine (inside_readInt64 hpos _ hfit).bind fun r q h => ?_
    exact h
  | string =>
    refine (inside_readString hpos junk hfit).bind fun r q h => ?_
    obtain ⟨ec, _ | s⟩ := r
    · exact h.null hpos
    · exact h
  | emuid =>
    refine (inside_readEMuid hpos junk.id).bind fun r q h => ?_
    exact h
  | eguid =>
    refine (inside_readEGuid hpos junk hfit).bind fun r q h => ?_
    obtain ⟨ec, _ | id⟩ := r <;> exact h
  | struct =>
    refine (inside_readStruct hpos junk hfit).bind fun r q h => ?_
    obtain ⟨ec, _ | _ | bs⟩ := r
    · exact h
    · exact h.null hpos
    · exact h

/-- **One call**: where it fits, it is safe. -/
theorem safe_of_fits {c : ReadCall} (hfit : p.Fits c) : p.Safe c := by
  cases c with
  | typed k junk =>
    refine (inside_readValue hpos k junk hfit).bind fun r q h => ?_
    obtain ⟨ec, _ | v⟩ := r <;> exact h
  | double old =>
    refine (inside_readInt64 hpos old hfit).bind fun r q h => ?_
    exact h
  | read len =>
    refine (inside_read hpos hfit).bind fun r q h => ?_
    obtain ⟨ec, _ | bs⟩ := r <;> exact h
  | readInplace len =>
    refine (inside_readInplace hpos hfit).bind fun r q h => ?_
    obtain _ | off := r <;> exact h

end

/-! ### Runs -/

/-- The calls of a run with the parcels they are made on; a fault ends the run. -/
def readVisits : List ReadCall → CRemoteParcel → List (CRemoteParcel × ReadCall)
  | [], _ => []
  | c :: cs, p =>
    (p, c) :: match call c p with
      | .ok (_, q) => readVisits cs q
      | .error _ => []

/-- Parcels with a received buffer in them: installed by `SetData`, or written and rewound. -/
inductive Installed : CRemoteParcel → Prop
  | setData {env : Allocator} {p q : CRemoteParcel} (buffer : List UInt8)
      (h : p.setData env buffer = (NOERROR, q)) : Installed q
  | write (env : Allocator) (p : CRemoteParcel) (data : List UInt8) (len : UInt32) :
      Installed ((p.write env data len).2.setDataPosition 0)

theorem restartWrite_pos {env : Allocator} {desired : UInt32} {p q : CRemoteParcel} {ec : ECode}
    (h : p.restartWrite env desired = (ec, q)) (hec : failed ec = false) : q.mDataPos = 0 := by
  rw [restartWrite] at h
  split at h
  · split at h
    · obtain ⟨rfl, -⟩ := Prod.mk.inj h
      exact absurd hec (by decide)
    · obtain ⟨-, rfl⟩ := Prod.mk.inj h
      rfl
  · obtain ⟨-, rfl⟩ := Prod.mk.inj h
    rfl

theorem Installed.pos_eq_zero {p : CRemoteParcel} (h : Installed p) : p.mDataPos = 0 := by
  cases h with
  | @setData env p₀ _ buffer h =>
    rcases hr : p₀.restartWrite env (sizeOf32 buffer) with ⟨ec, q⟩
    simp only [CRemoteParcel.setData, hr] at h
    split at h
    · next hfail =>
      obtain ⟨rfl, -⟩ := Prod.mk.inj h
      exact absurd hfail (by decide)
    · next hec =>
      obtain ⟨-, rfl⟩ := Prod.mk.inj h
      exact restartWrite_pos (q := q) hr (by simpa using hec)
  | write => rfl

/-- What `SetData` installs in a new parcel is there to be read. -/
theorem rest_setData {env : Allocator} (henv : env.Succeeds) {buffer : List UInt8}
    (hlt : buffer.length < 4294967296) :
    (setData env buffer {}).2.rest = buffer ∧ (setData env buffer {}).2.mDataPos = 0 := by
  obtain ⟨fresh, hfresh⟩ := Option.isSome_iff_exists.mp (henv 0 (sizeOf32 buffer).toNat)
  have hrestart : restartWrite env (sizeOf32 buffer) {}
      = (NOERROR, { mData := some fresh, mDataCapacity := sizeOf32 buffer, requests := 1 }) := by
    simp only [restartWrite, hfresh]
    rfl
  rw [setData, hrestart]
  simp only [failed_NOERROR, Bool.false_eq_true, if_false]
  refine ⟨?_, rfl⟩
  change load (store fresh 0 buffer) 0 ((sizeOf32 buffer).toNat - 0) = buffer
  rw [toNat_sizeOf32 hlt, Nat.sub_zero, load_store_self]

/-- Runs of fitting calls from a position inside the data stay inside. -/
theorem safe_readVisits (cs : List ReadCall) : ∀ p : CRemoteParcel,
    p.mDataPos.toNat ≤ p.mDataSize.toNat → (∀ x ∈ readVisits cs p, x.1.Fits x.2) →
      ∀ x ∈ readVisits cs p, x.1.Safe x.2 := by
  induction cs with
  | nil => simp [readVisits]
  | cons c cs ih =>
    intro p hpos hfit x hx
    have hsafe : p.Safe c := safe_of_fits hpos (hfit (p, c) List.mem_cons_self)
    rcases List.mem_cons.mp hx with rfl | hx
    · exact hsafe
    · rcases hc : call c p with f | ⟨r, q⟩
      · simp [hc] at hx
      · rw [Safe, hc] at hsafe
        simp only [readVisits, hc] at hfit hx
        refine ih q ?_ (fun y hy => hfit y (List.mem_cons_of_mem _ hy)) x hx
        rw [hsafe.2.1]
        exact hsafe.1

/-- Six bytes on the wire: the tag of a string, one character and its terminator, without the
padding. -/
def unpaddedString : List UInt8 := [0xFF, 0xFF, 0xFF, 0xFE, 0x61, 0x00]

def noJunk : Junk := ⟨0, 0, 0, ⟨0, 0, 0, 0⟩⟩

/-- A new parcel after `SetData`. -/
def received (buffer : List UInt8) : CRemoteParcel := (setData .zeros buffer {}).2

theorem installed_received (buffer : List UInt8) : Installed (received buffer) :=
  .setData buffer (show setData .zeros buffer {} = (NOERROR, received buffer) from rfl)

/-- Reading that string leaves the position behind the data. -/
theorem not_safe_unpaddedString : Installed (received unpaddedString) ∧
    ∃ x ∈ readVisits [.typed .string noJunk] (received unpaddedString), ¬ x.1.Safe x.2 :=
  ⟨installed_received _, _, List.mem_cons_self, fun h => absurd h.1 (by decide)⟩

/-- **Safety of received parcels.** In every run of reads on a received buffer whose calls
all fit, every call is safe. -/
theorem installed_reads_safe {p : CRemoteParcel} (hp : Installed p) (cs : List ReadCall)
    (hfit : ∀ x ∈ readVisits cs p, x.1.Fits x.2) : ∀ x ∈ readVisits cs p, x.1.Safe x.2 :=
  safe_readVisits cs p (by rw [hp.pos_eq_zero]; exact Nat.zero_le _) hfit

/-- With its padding, the string is read safely, and so is what comes after it. -/
theorem installed_reads_safe_string :
    Installed (received (unpaddedString ++ [0, 0])) ∧
      ∀ x ∈ readVisits [.typed .string noJunk, .read 4] (received (unpaddedString ++ [0, 0])),
        x.1.Safe x.2 :=
  ⟨installed_received _, installed_reads_safe (installed_received _) _ (by decide)⟩

end CRemoteParcel

end ElastosCar
