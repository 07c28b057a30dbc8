import ElastosCar.Strings.SharedStore

/-!
# Appending to a string that is shared

`LockBuffer` and the first half of `RealAppend` give a variable a buffer of its own. What is
appended is read after that. It is still there unless it was in the only copy, and that copy has
been moved.

* `Kept.LockBuffer`: the buffer that a variable gets for itself, and what became of the others.
* `Kept.does_RealAppend`: to append keeps the buffers and the other variables.
-/

namespace ElastosCar.SharedStrings

open Sharing

variable {ι : Type} [Fintype ι] [DecidableEq ι] {s : Store ι} {v other : ι} {a : ℕ} {ec : ECode}
  {bytes data stale : List UInt8} {alloc : Allocator} {p : Pointer}

/-- A variable has a buffer of its own of the given size. -/
structure Locked (s : Store ι) (v : ι) (size : ℕ) (alloc : Allocator) (a : ℕ) (s' : Store ι) :
    Prop where
  does : Does s v ⟨some (resize size (s.value v).data), s.mCharCount v⟩ (NOERROR, s')
  mString : s'.mString v = some a
  own : weight base s'.mString a = 1
  rest : ∀ c data, s.memory.bytesAt c = some data →
    (s.mString v = some c → weight base s.mString c = 1 → alloc.Keeps) →
    s'.memory.bytesAt c = some (if c = a then resize size data else data) ∧
      (c = a → s.mString v = some c)

/-- The buffer that a variable gets by `EditResize`. -/
theorem Kept.locked_of_edited (h : Kept s) (hv : s.mString v = some a) {size b : ℕ} {m : Memory}
    (hedited : Memory.Edited s.memory (weight base s.mString) a
      (resize size (s.value v).data) alloc m b) :
    Locked s v size alloc b
      (({ s with memory := m } : Store ι).point v (some b) (s.mCharCount v)) := by
  have hweight := weight_own hv hedited.own
  have hown : weight base (Function.update s.mString v (some b)) b = 1 := by
    rw [hweight, Function.update_self]
  -- the other variables have other buffers
  have hother : ∀ c, (s.mString v = some c → 1 < weight base s.mString c) →
      0 < weight base s.mString c → m.bytesAt c = s.memory.bytesAt c := by
    intro c hshared hpos
    refine hedited.others c ?_ (by rintro rfl; exact hshared hv)
    rintro rfl
    rcases hedited.own with ⟨rfl, hone⟩ | hzero
    · have hlt := hshared hv
      omega
    · omega
  refine ⟨⟨⟨?_, ?_⟩, fun u hne => ?_, fun _ => ?_⟩, Function.update_self _ _ _, hown, ?_⟩
  · exact hweight ▸ hedited.holds
  · refine (hother _ (fun hempty => ?_) pos_gElEmptyStringBuf).trans h.empty
    exact one_lt_weight_of_base hempty Nat.one_pos
  · refine (value_point_of_ne hne _ _).trans (value_of_memory fun c hc => ?_)
    exact hother c (fun hvc => one_lt_weight hvc hc hne) (Sharing.weight_pos base hc)
  · refine (value_point_self _ _).trans ?_
    rw [Option.bind_some]
    exact congrArg (ElString.mk · (s.mCharCount v)) hedited.bytes
  · intro c data hdata hkeeps
    have hpos := h.pos_of_bytesAt hdata
    by_cases hcb : c = b
    · subst hcb
      rw [if_pos rfl]
      rcases hedited.own with ⟨rfl, -⟩ | hzero
      · rw [h.data_eq hv] at hdata
        obtain rfl := Option.some.inj hdata
        exact ⟨hedited.bytes, fun _ => hv⟩
      · omega
    · rw [if_neg hcb]
      refine ⟨(hedited.others c hcb fun hca => ?_).trans hdata, fun heq => absurd heq hcb⟩
      subst hca
      by_contra hlast
      have hone : weight base s.mString c = 1 := by omega
      exact hcb (hedited.stays hone (hkeeps hv hone)).symm

/-- The buffer of a variable that had none. -/
theorem Kept.locked_of_alloc (h : Kept s) (hv : s.mString v = none) {b : ℕ}
    (hfresh : s.memory.buffers b = none) (size : ℕ) (alloc : Allocator) :
    Locked s v size alloc b (({ s with
      memory := (s.memory.Alloc (resize size []) (some b)).2 } : Store ι).point v (some b)
        (s.mCharCount v)) := by
  have hzero : weight base s.mString b = 0 := h.holds.counted.eq_zero hfresh
  have hnull : (s.value v).data = [] := by
    rw [ElString.data, value_eq_mk, hv]
    rfl
  obtain ⟨halloc, hbytes⟩ := h.holds.Alloc b (resize size [])
  have hrest : ∀ c, 0 < weight base s.mString c →
      (s.memory.Alloc (resize size []) (some b)).2.bytesAt c = s.memory.bytesAt c := by
    intro c hc
    refine (hbytes c).trans (if_neg ?_)
    rintro rfl
    omega
  have hturn := h.turn (v := v) (t := some b) (by rwa [Option.elim_some, hzero]) hrest
    (s.mCharCount v) NOERROR
  rw [Store.releaseOf, hv, Option.bind_some, hbytes, if_pos rfl] at hturn
  refine ⟨by rwa [hnull], Function.update_self _ _ _, ?_, fun c data hdata _ => ?_⟩
  · refine (congrFun (weight_point hv b) b).trans ?_
    rw [Function.update_self, hzero]
  · have hpos := h.pos_of_bytesAt hdata
    have hne : c ≠ b := by
      rintro rfl
      omega
    rw [if_neg hne]
    exact ⟨(hrest c hpos).trans hdata, fun heq => absurd heq hne⟩

/-- **The buffer that a variable gets for itself.** -/
theorem Kept.LockBuffer (h : Kept s) (hfresh : alloc.Fresh s.memory.buffers) (size : ℕ) :
    LockBuffer v size alloc s = (none, s) ∨
      ∃ a s', LockBuffer v size alloc s = (some a, s') ∧ Locked s v size alloc a s' := by
  rw [SharedStrings.LockBuffer]
  rcases hv : s.mString v with _ | a
  · dsimp only
    rcases hmalloc : alloc.malloc with _ | b
    · exact .inl rfl
    · exact .inr ⟨b, _, rfl, h.locked_of_alloc hv (hfresh.malloc b hmalloc) size alloc⟩
  · dsimp only
    rcases h.holds.EditResize (h.data_eq hv) hfresh size with heq | ⟨b, hb, hedited⟩
    · rw [heq]
      exact .inl rfl
    · rw [hb]
      exact .inr ⟨b, _, rfl, h.locked_of_edited hv hedited⟩

omit [DecidableEq ι] in
/-- A variable writes into a buffer of its own. -/
theorem Kept.does_write (h : Kept s) (hv : s.mString v = some a)
    (hown : weight base s.mString a = 1) (ha : s.memory.bytesAt a = some data) (pos : ℕ)
    (bytes : List UInt8) (ec : ECode) :
    Does s v ⟨some (data.take pos ++ bytes ++ data.drop (pos + bytes.length)), s.mCharCount v⟩
      (ec, { s with memory := s.memory.write a pos bytes }) := by
  obtain ⟨hwrite, hbytes⟩ := h.holds.write ha pos bytes
  have hother : ∀ c, c ≠ a → (s.memory.write a pos bytes).bytesAt c = s.memory.bytesAt c :=
    fun c hc => (hbytes c).trans (if_neg hc)
  refine ⟨⟨hwrite, ?_⟩, fun u hne => value_of_memory fun c hc => hother c ?_, fun _ => ?_⟩
  · exact (hother _ (ne_gElEmptyStringBuf hown hv)).trans h.empty
  · rintro rfl
    have hlt : 1 < weight base s.mString c := one_lt_weight hv hc hne
    omega
  · rw [value_eq_mk]
    dsimp only
    rw [hv, Option.bind_some, hbytes, if_pos rfl]

/-- The count of a variable is changed. -/
theorem Kept.does_count (h : Kept s) (count : UInt32) (ec : ECode) :
    Does s v ⟨(s.value v).mString, count⟩
      (ec, { s with mCharCount := Function.update s.mCharCount v count }) := by
  refine ⟨⟨h.holds, h.empty⟩, fun u hne => ?_, fun _ => ?_⟩
  · rw [value_eq_mk, value_eq_mk]
    dsimp only
    rw [Function.update_of_ne hne]
  · rw [value_eq_mk, value_eq_mk]
    dsimp only
    rw [Function.update_self]

theorem Kept.does_ClearCounted (h : Kept s) (ec : ECode) :
    Does s v (s.value v).ClearCounted (ec, ClearCounted v s) := h.does_count 0 ec

theorem Kept.does_SetCounted (h : Kept s) (charCount : UInt32) (ec : ECode) :
    Does s v ((s.value v).SetCounted charCount) (ec, SetCounted v charCount s) := h.does_count _ ec

/-- What is appended is not in the only copy, or that is not moved. -/
def Spared (s : Store ι) (v : ι) (alloc : Allocator) (a : ℕ) : Prop :=
  s.mString v = some a → weight base s.mString a = 1 → alloc.Keeps

theorem length_data {x : ElString} (h : x.GetByteLength ≠ 0) :
    x.data.length = x.GetByteLength + 1 := by
  rw [ElString.GetByteLength] at h ⊢
  split_ifs at h ⊢ with hempty
  · exact absurd rfl h
  · rcases hstring : x.mString with _ | data
    · rw [hstring] at h
      exact absurd rfl h
    · rw [hstring, Option.elim_some] at h
      rw [ElString.data, hstring, Option.getD_some, Option.elim_some]
      omega

/-- **`RealAppend`** keeps the buffers and the other variables. -/
theorem Kept.does_RealAppend (h : Kept s) (hfresh : alloc.Fresh s.memory.buffers)
    (hp : p.To s.memory bytes) (hinside : ∀ a start, p = .inside a start →
      (s.value v).GetByteLength ≠ 0 ∧ Spared s v alloc a) (stale : List UInt8) :
    Does s v ((s.value v).RealAppend bytes) (RealAppend v p bytes.length stale alloc s) := by
  rw [RealAppend, ElString.RealAppend]
  by_cases hnil : bytes = []
  · rw [if_pos hnil, if_pos (by rw [hnil]; rfl)]
    exact h.does_self NOERROR
  have hlength : bytes.length ≠ 0 := fun hzero => hnil (List.length_eq_zero_iff.mp hzero)
  rw [if_neg hnil, if_neg hlength]
  have hclear := h.does_ClearCounted (v := v) NOERROR
  have hvalue : (ClearCounted v s).value v = (s.value v).ClearCounted := hclear.value rfl
  have hdata : ((ClearCounted v s).value v).data = (s.value v).data := by
    rw [hvalue]
    rfl
  have hcount : ((ClearCounted v s).value v).GetByteLength = (s.value v).GetByteLength := by
    rw [hvalue]
    rfl
  dsimp only
  rw [hcount]
  rcases hclear.kept.LockBuffer (v := v) hfresh
    ((s.value v).GetByteLength + bytes.length + 1) with heq | ⟨b, s', heq, hlocked⟩
  · rw [heq]
    exact (h.does_ClearCounted E_OUT_OF_MEMORY).fails E_OUT_OF_MEMORY_ne
  rw [heq]
  dsimp only
  have hle := (s.value v).GetByteLength_le.trans (Nat.sub_le _ 1)
  -- what is appended is where it was
  have hto : p.To s'.memory bytes := by
    rcases p with bs | ⟨a, start⟩
    · exact hp
    · obtain ⟨data, ha, hbytes⟩ := hp
      obtain ⟨hne, hspared⟩ := hinside a start rfl
      obtain ⟨ha', hown⟩ := hlocked.rest a data ha hspared
      refine ⟨_, ha', ?_⟩
      split_ifs with hab
      · have hself : data = (s.value v).data :=
          Option.some.inj (ha.symm.trans (h.data_eq (hown hab)))
        have hsize := length_data hne
        rw [resize_of_le (by rw [hself]; omega)]
        exact hbytes.trans ((List.prefix_append data _).drop start)
      · exact hbytes
  have hread := hto.read stale
  rw [hread]
  have hbuffer : s'.memory.bytesAt b =
      some (resize ((s.value v).GetByteLength + bytes.length + 1) (s.value v).data) := by
    have hvalue' := hlocked.does.value rfl
    have hbytes := hlocked.does.kept.data_eq hlocked.mString
    rwa [hvalue', hdata] at hbytes
  have hwrite := hlocked.does.kept.does_write hlocked.mString hlocked.own hbuffer
    (s.value v).GetByteLength (bytes ++ [0]) NOERROR
  have hresult := (hclear.trans hlocked.does).trans hwrite
  refine ⟨hresult.kept, hresult.others, fun _ => (hresult.value rfl).trans ?_⟩
  have hchars : s'.mCharCount v = 0 :=
    (congrArg ElString.mCharCount (hlocked.does.value rfl)).trans (Function.update_self v _ _)
  have htake : (resize ((s.value v).GetByteLength + bytes.length + 1) (s.value v).data).take
      (s.value v).GetByteLength = (s.value v).data.take (s.value v).GetByteLength :=
    take_resize (by omega) hle
  have hdrop : (resize ((s.value v).GetByteLength + bytes.length + 1) (s.value v).data).drop
      ((s.value v).GetByteLength + (bytes ++ [0]).length) = [] := by
    refine List.drop_eq_nil_of_le ?_
    rw [length_resize, List.length_append, List.length_singleton, Nat.add_assoc]
  rw [htake, hdrop, hchars, List.append_nil, ← List.append_assoc]
  rfl

/-- **`Append(const char*, Int32)`** of bytes that are there. -/
theorem Kept.does_AppendN (h : Kept s) (hfresh : alloc.Fresh s.memory.buffers)
    (hp : p.To s.memory bytes)
    (hspared : (s.value v).GetByteLength ≠ 0 → ∀ a start, p = .inside a start → Spared s v alloc a)
    (stale : List UInt8) :
    Does s v ((s.value v).AppendN bytes) (AppendN v p bytes.length stale alloc s) := by
  rw [AppendN, ElString.AppendN]
  by_cases hnil : bytes = []
  · rw [if_pos hnil, if_pos (by rw [hnil]; rfl)]
    exact h.does_self NOERROR
  have hlength : bytes.length ≠ 0 := fun hzero => hnil (List.length_eq_zero_iff.mp hzero)
  rw [if_neg hnil, if_neg hlength]
  by_cases hempty : (s.value v).GetByteLength = 0
  · rw [if_pos hempty, if_pos hempty, hp.read stale]
    exact h.does_SetToBytes hfresh
  · rw [if_neg hempty, if_neg hempty, hp.min_strlen]
    exact h.does_RealAppend hfresh (hp.of_prefix (List.takeWhile_prefix _))
      (fun a start heq => ⟨hempty, hspared hempty a start heq⟩) stale

omit [DecidableEq ι] in
/-- What a variable holds, from a place on. -/
theorem Kept.to_inside (h : Kept s) (hother : s.mString other = some a) (start n : ℕ) :
    Pointer.To s.memory (.inside a start) (((s.value other).data.drop start).take n) :=
  ⟨_, h.data_eq hother, List.take_prefix n _⟩

omit [Fintype ι] [DecidableEq ι] in
theorem getByteLength_of_none (hother : s.mString other = none) :
    (s.value other).GetByteLength = 0 ∧ (s.value other).IsNullOrEmpty = true := by
  rw [ElString.GetByteLength, ElString.IsNullOrEmpty, value_eq_mk, hother]
  exact ⟨rfl, rfl⟩

/-- **`Append(const String&)`.** -/
theorem Kept.does_AppendString (h : Kept s) (hfresh : alloc.Fresh s.memory.buffers)
    (hspared : (s.value v).GetByteLength ≠ 0 → (s.value other).GetByteLength ≠ 0 →
      ∀ a, s.mString other = some a → Spared s v alloc a) (stale : List UInt8) :
    Does s v (ElString.AppendString (s.value other) (s.value v))
      (AppendString v other stale alloc s) := by
  rw [AppendString, ElString.AppendString]
  by_cases hempty : (s.value v).GetByteLength = 0
  · rw [if_pos hempty, if_pos hempty]
    exact h.does_SetTo
  rw [if_neg hempty, if_neg hempty]
  by_cases hnone : (s.value other).GetByteLength = 0
  · rw [if_pos hnone, hnone, List.take_zero, ElString.RealAppend, if_pos rfl]
    exact h.does_self NOERROR
  rw [if_neg hnone]
  rcases hother : s.mString other with _ | a
  · exact absurd (getByteLength_of_none hother).1 hnone
  · dsimp only
    have hlength : ((s.value other).data.take (s.value other).GetByteLength).length =
        (s.value other).GetByteLength := by
      rw [List.length_take, length_data hnone]
      omega
    have hdoes := h.does_RealAppend hfresh (h.to_inside hother 0 (s.value other).GetByteLength)
      (fun b start heq => by
        obtain ⟨rfl, -⟩ := Pointer.inside.inj heq
        exact ⟨hempty, hspared hempty hnone a hother⟩) stale
    rwa [List.drop_zero, hlength] at hdoes

/-- **`Append(const String&, Int32)`.** -/
theorem Kept.does_AppendFrom (h : Kept s) (hfresh : alloc.Fresh s.memory.buffers)
    (charOffset : ℤ)
    (hspared : (s.value v).GetByteLength ≠ 0 → ∀ a, s.mString other = some a → Spared s v alloc a)
    (stale : List UInt8) :
    Does s v (ElString.AppendFrom (s.value other) charOffset (s.value v)).2
      (AppendFrom v other charOffset stale alloc s) := by
  rw [AppendFrom, ElString.AppendFrom]
  rcases hother : s.mString other with _ | a
  · dsimp only
    rw [if_pos (getByteLength_of_none hother).2]
    exact h.does_self NOERROR
  dsimp only
  split_ifs with hempty hneg
  · exact h.does_self NOERROR
  · exact h.does_self E_INVALID_ARGUMENT
  · have hlength : (s.value other).data.length = (s.value other).GetByteLength + 1 ∨
        (s.value other).GetByteLength = 0 := by
      by_cases hzero : (s.value other).GetByteLength = 0
      · exact .inr hzero
      · exact .inl (length_data hzero)
    generalize hoffset : min (s.value other).GetByteLength
      (ElString.CharIndexToByteIndex (s.value other).mString charOffset).toNat = offset
    have hbytes : (((s.value other).data.drop offset).take
        ((s.value other).GetByteLength - offset)).length =
        (s.value other).GetByteLength - offset := by
      rw [List.length_take, List.length_drop]
      omega
    have hdoes := h.does_AppendN hfresh
      (h.to_inside hother offset ((s.value other).GetByteLength - offset))
      (fun hne b start heq => by
        obtain ⟨rfl, -⟩ := Pointer.inside.inj heq
        exact hspared hne a hother) stale
    rwa [hbytes] at hdoes

/-- **`Append(Char32)`.** -/
theorem Kept.does_AppendChar (h : Kept s) (hfresh : alloc.Fresh s.memory.buffers) (ch : UInt32)
    (stale : List UInt8) :
    Does s v (ElString.AppendChar ch (s.value v)).2 (AppendChar v ch stale alloc s) := by
  rw [AppendChar, ElString.AppendChar]
  split_ifs
  · exact h.does_AppendN hfresh (p := .bytes _) List.prefix_rfl
      (fun _ _ _ heq => by cases heq) stale
  · exact h.does_self E_INVALID_ARGUMENT

/-- The bytes between two places of a C string are in the buffer that it stands in. -/
theorem terminated_range {data : List UInt8} (start : ℕ) {stop : ℕ}
    (hstop : stop ≤ (ElString.terminated data).length - 1) :
    ((ElString.terminated data).drop start).take (stop - start) <+: data.drop start ∧
      (((ElString.terminated data).drop start).take (stop - start)).length = stop - start := by
  rw [ElString.terminated, List.length_append, List.length_singleton, Nat.add_sub_cancel] at hstop
  rw [ElString.terminated, ← List.drop_take, List.take_append_of_le_length hstop]
  refine ⟨((List.take_prefix _ _).trans (List.takeWhile_prefix _)).drop start, ?_⟩
  rw [List.length_drop, List.length_take, min_eq_left hstop]

/-- The loop of `Append(const String&, Int32, Int32)` ends at the terminator at the latest. -/
theorem endByte_le (string : List UInt8) (k : ℕ) :
    ((ElString.places string)[k]?).elim (string.length - 1) (fun p => string.length - p.length) ≤
      string.length - 1 := by
  rcases hends : (ElString.places string)[k]? with _ | p
  · exact le_rfl
  · have hp := (List.mem_filter.mp (List.mem_of_getElem? hends)).2
    have hpos : 0 < p.length := by
      rcases p with _ | ⟨b, p⟩
      · exact absurd (of_decide_eq_true hp) (not_not.mpr rfl)
      · exact Nat.succ_pos _
    rw [Option.elim_some]
    omega

/-- **`Append(const String&, Int32, Int32)`.** -/
theorem Kept.does_AppendRange (h : Kept s) (hfresh : alloc.Fresh s.memory.buffers)
    (offset numOfChars : ℤ)
    (hspared : (s.value v).GetByteLength ≠ 0 → ∀ a, s.mString other = some a → Spared s v alloc a)
    (stale : List UInt8) :
    Does s v (ElString.AppendRange (s.value other) offset numOfChars (s.value v)).2
      (AppendRange v other offset numOfChars stale alloc s) := by
  rw [AppendRange, ElString.AppendRange]
  rcases hother : s.mString other with _ | a
  · dsimp only
    rw [if_pos (.inl (getByteLength_of_none hother).2)]
    exact h.does_self NOERROR
  dsimp only
  split_ifs with hempty hoffset hends
  · exact h.does_self NOERROR
  · exact h.does_self E_INVALID_ARGUMENT
  · exact h.does_self E_INVALID_ARGUMENT
  · have hle := endByte_le (ElString.terminated (s.value other).data)
      (offset.toNat + numOfChars.toNat)
    generalize ((ElString.places (ElString.terminated (s.value other).data))[offset.toNat +
      numOfChars.toNat]?).elim ((ElString.terminated (s.value other).data).length - 1)
        (fun p => (ElString.terminated (s.value other).data).length - p.length) = stop at hle
    generalize ((Scan.passes ElString.charLen (ElString.terminated
      (s.value other).data))[offset.toNat]?).elim 0
        (fun p => (ElString.terminated (s.value other).data).length - p.length) = start
    obtain ⟨hbegin, hlength⟩ := terminated_range start hle
    have hdoes := h.does_AppendN hfresh (p := .inside a start) ⟨_, h.data_eq hother, hbegin⟩
      (fun hne b start heq => by
        obtain ⟨rfl, -⟩ := Pointer.inside.inj heq
        exact hspared hne a hother) stale
    rwa [hlength] at hdoes

/-- **`Append(const ArrayOf<Char32>&, Int32, Int32)`.** -/
theorem Kept.does_AppendArray (h : Kept s) (hfresh : alloc.Fresh s.memory.buffers)
    (array : List UInt32) (offset length : ℤ) (stale : List UInt8) :
    Does s v (ElString.AppendArray array offset length (s.value v)).2
      (AppendArray v array offset length stale alloc s) := by
  rw [AppendArray, ElString.AppendArray]
  dsimp only
  generalize (array.drop (max 0 offset).toNat).take _ = chars
  have hdoes := h.does_RealAppend (v := v) hfresh (p := .bytes (chars.flatMap ElString.utf8))
    List.prefix_rfl (fun _ _ heq => by cases heq) stale
  obtain ⟨ec, s', heq⟩ : ∃ ec s', RealAppend v (.bytes (chars.flatMap ElString.utf8))
    (chars.flatMap ElString.utf8).length stale alloc s = (ec, s') := ⟨_, _, rfl⟩
  rw [heq] at hdoes ⊢
  split_ifs with hbehind hnone hnil hnull hfails hfails
  · exact h.does_self E_INVALID_ARGUMENT
  · exact h.does_self NOERROR
  · exact h.does_self NOERROR
  · exact hdoes.fails hfails
  · obtain rfl : ec = NOERROR := not_not.mp hfails
    have hcount := hdoes.kept.does_SetCounted (v := v)
      (UInt32.ofNat (chars.filter fun c => 0 < ElString.GetByteCount c).length) NOERROR
    rw [hdoes.value rfl] at hcount
    exact hdoes.trans hcount
  · exact hdoes.fails hfails
  · obtain rfl : ec = NOERROR := not_not.mp hfails
    have hclear := hdoes.kept.does_ClearCounted (v := v) NOERROR
    rw [hdoes.value rfl] at hclear
    exact hdoes.trans hclear

/-! ### Formats -/

/-- A variable with a buffer of its own, of so many bytes. -/
structure Owns (s : Store ι) (v : ι) (a n : ℕ) : Prop where
  kept : Kept s
  mString : s.mString v = some a
  own : weight base s.mString a = 1
  length : ∃ data, s.memory.bytesAt a = some data ∧ data.length = n

omit [DecidableEq ι] in
theorem Locked.owns {size : ℕ} {s' : Store ι} (h : Locked s v size alloc a s') :
    Owns s' v a size := by
  have hdata := h.does.kept.data_eq h.mString
  rw [h.does.value rfl] at hdata
  exact ⟨h.does.kept, h.mString, h.own, _, hdata, length_resize size _⟩

omit [DecidableEq ι] in
/-- What it writes within its buffer. -/
theorem Owns.does_write {n pos : ℕ} (h : Owns s v a n) (hle : pos + bytes.length ≤ n) (ec : ECode) :
    Owns { s with memory := s.memory.write a pos bytes } v a n ∧
      ∃ x, Does s v x (ec, { s with memory := s.memory.write a pos bytes }) := by
  obtain ⟨data, hdata, hlength⟩ := h.length
  have hdoes := h.kept.does_write h.mString h.own hdata pos bytes ec
  have hbytes := ((h.kept.holds.write hdata pos bytes).2 a).trans (if_pos rfl)
  refine ⟨⟨hdoes.kept, h.mString, h.own, _, hbytes, ?_⟩, _, hdoes⟩
  rw [List.length_append, List.length_append, List.length_take, List.length_drop]
  omega

omit [DecidableEq ι] in
/-- A buffer that has its size already is not resized. -/
theorem Owns.editResize {n : ℕ} (h : Owns s v a n) (alloc : Allocator) :
    s.memory.EditResize a n alloc = (some a, s.memory) := by
  obtain ⟨data, hdata, rfl⟩ := h.length
  obtain ⟨b, hb, rfl⟩ := Option.map_eq_some_iff.mp hdata
  have hrefs := (h.kept.holds.counted.eq hb).1
  rw [h.own, Nat.cast_one] at hrefs
  rw [Memory.EditResize, hb]
  dsimp only
  rw [if_pos hrefs, if_pos rfl]

/-- The count of a variable is set. -/
theorem Owns.does_count {n : ℕ} (h : Owns s v a n) (count : UInt32) (ec : ECode) :
    Owns (s.point v (some a) count) v a n ∧ ∃ x, Does s v x (ec, s.point v (some a) count) := by
  have hpoint : (s.point v (some a) count).mString = s.mString :=
    Function.update_eq_self_iff.mpr h.mString.symm
  have hkept : Kept (s.point v (some a) count) := ⟨hpoint ▸ h.kept.holds, h.kept.empty⟩
  refine ⟨⟨hkept, hpoint ▸ h.mString, hpoint ▸ h.own, h.length⟩, _, hkept, fun u hne => ?_,
    fun _ => rfl⟩
  exact value_point_of_ne hne _ _

theorem Owns.does_UnlockBuffer {numBytes : ℕ} (h : Owns s v a (numBytes + 1)) (alloc : Allocator)
    (ec : ECode) : ∃ x, Does s v x (ec, (UnlockBuffer v numBytes alloc s).2) := by
  rw [UnlockBuffer, h.mString]
  dsimp only
  obtain ⟨hcount, x, hdoes⟩ := h.does_count (s.value v).GetLength.2.mCharCount ec
  split_ifs
  · rw [hcount.editResize alloc]
    dsimp only
    obtain ⟨hwrite, y, hdoes'⟩ := hcount.does_write
      (show numBytes + ([0] : List UInt8).length ≤ numBytes + 1 from le_rfl) ec
    obtain ⟨-, z, hdoes''⟩ := hwrite.does_count
      ((s.point v (some a) (s.value v).GetLength.2.mCharCount).mCharCount v) ec
    exact ⟨z, (hdoes.trans hdoes').trans hdoes''⟩
  · exact ⟨x, hdoes⟩

/-- **`AppendFormat`** keeps the buffers and the other variables. -/
theorem Kept.does_AppendFormat (h : Kept s) (hfresh : alloc.Fresh s.memory.buffers)
    {args : List ι} {text : Option (List UInt8)}
    (hspared : text ≠ some [] → ∀ a ∈ args.filterMap s.mString, Spared s v alloc a)
    {r : ECode × Store ι}
    (hr : AppendFormat v args text stale alloc s = some r) : ∃ x, Does s v x r := by
  have hclear := h.does_ClearCounted (v := v) NOERROR
  rw [AppendFormat] at hr
  dsimp only at hr
  split_ifs at hr with hnil hfails
  · obtain rfl := Option.some.inj hr
    exact ⟨_, hclear⟩
  generalize hold : ((ClearCounted v s).value v).GetByteLength = oldLength at hr hfails
  generalize hbytes : text.elim (oldLength - 1) (fun text => oldLength + text.length) = numBytes
    at hr
  rcases hclear.kept.LockBuffer (v := v) hfresh (numBytes + 1) with heq | ⟨b, s', heq, hlocked⟩
  · rw [heq] at hr
    obtain rfl := Option.some.inj hr
    exact ⟨_, h.does_ClearCounted E_OUT_OF_MEMORY⟩
  rw [heq] at hr
  obtain rfl := Option.some.inj hr
  have hlock := hclear.trans hlocked.does
  -- the strings that are printed are where they were
  have hthere : ((args.filterMap s.mString).any fun a => (s'.memory.buffers a).isNone) = false := by
    rw [List.any_eq_false]
    intro a ha
    obtain ⟨u, -, hu⟩ := List.mem_filterMap.mp ha
    obtain ⟨hdata, -⟩ := hlocked.rest a _ (h.data_eq hu) (hspared hnil a ha)
    obtain ⟨c, hc, -⟩ := Option.map_eq_some_iff.mp hdata
    rw [hc]
    exact Bool.false_ne_true
  rw [Memory.vsnprintf.eq_def, hthere]
  simp only [Bool.false_eq_true, if_false, Bool.false_or]
  rcases text with _ | text
  · obtain ⟨y, hdoes⟩ := hlocked.owns.does_UnlockBuffer alloc NOERROR
    exact ⟨y, hlock.trans hdoes⟩
  · have hle (printed : List UInt8) (hprinted : printed.length = text.length) :
        oldLength + (printed ++ [0]).length ≤ numBytes + 1 := by
      rw [List.length_append, hprinted, ← hbytes, Option.elim_some, List.length_singleton]
      omega
    have hprinted (printed : List UInt8) (hlength : printed.length = text.length) :
        ∃ x, Does s v x (NOERROR, (UnlockBuffer v numBytes alloc { s' with
          memory := s'.memory.write b oldLength (printed ++ [0]) }).2) := by
      obtain ⟨hwrite, x, hdoes⟩ := hlocked.owns.does_write (hle printed hlength) NOERROR
      obtain ⟨y, hdoes'⟩ := hwrite.does_UnlockBuffer alloc NOERROR
      exact ⟨y, (hlock.trans hdoes).trans hdoes'⟩
    dsimp only
    split_ifs
    · exact hprinted _ (length_resize _ _)
    · exact hprinted text rfl

end ElastosCar.SharedStrings
