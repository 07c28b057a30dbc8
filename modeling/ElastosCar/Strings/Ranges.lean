import ElastosCar.Lib.Code
import ElastosCar.Strings.RoundTrip

/-!
# Ranges of characters

`Substring` and the `Append` of a range find two places in the bytes of a string, by the numbers of
the characters there, with a loop each. Both loops stop at the terminator, so that a range may end
behind the last character.

* `Spells.substring`: what `Substring` makes of any two numbers.
* `ranges_right`: the same, with what `Append` adds. From the empty string it appends any range, and
  refuses none.
-/

namespace ElastosCar.ElString

variable {s other : ElString} {cs ds : List UInt32}

/-- The bytes that come before a character. -/
abbrev charOffset (cs : List UInt32) (k : ℕ) : ℕ := Code.offset utf8 cs k

/-- The characters with a number that is at least the first and below the second. -/
def charRange (cs : List UInt32) (start last : ℤ) : List UInt32 :=
  if start < 0 then [] else (cs.take last.toNat).drop start.toNat

theorem charRange_eq (cs : List UInt32) {i j : ℕ} :
    charRange cs i j = (cs.drop i).take (j - i) := by
  rw [charRange, if_neg (Int.not_lt.mpr (Int.natCast_nonneg i)), Int.toNat_natCast,
    Int.toNat_natCast, List.drop_take]

theorem charRange_sublist (cs : List UInt32) (start last : ℤ) :
    (charRange cs start last).Sublist cs := by
  rw [charRange]
  split_ifs
  · exact List.nil_sublist cs
  · exact (List.drop_sublist _ _).trans (List.take_sublist _ _)

/-! ### The places of the characters -/

theorem utf8_ne_nil {c : UInt32} (h : IsValidChar c = true) : utf8 c ≠ [] :=
  List.ne_nil_of_length_pos ((length_utf8 c).symm ▸ (pos_GetByteCount_iff c).mpr h)

theorem length_chars (cs : List UInt32) : (cs.flatMap utf8).length = charOffset cs cs.length :=
  (Code.offset_of_length_le le_rfl).symm

/-- The characters can be those of a `String`. -/
def IsText (cs : List UInt32) : Prop := ∀ c ∈ cs, c ≠ 0 ∧ IsValidChar c = true

theorem IsText.zero_notMem (hchar : IsText cs) : 0 ∉ cs.flatMap utf8 := by
  intro hmem
  obtain ⟨c, hc, hzero⟩ := List.mem_flatMap.mp hmem
  exact (hchar c hc).1 ((zero_mem_utf8_iff c).mp hzero)

theorem terminated_append {bytes : List UInt8} (h : 0 ∉ bytes) :
    terminated (bytes ++ [0]) = bytes ++ [0] := by
  rw [terminated, takeWhile_append_zero h]

namespace Spells

theorem zero_notMem (h : s.Spells cs) : 0 ∉ cs.flatMap utf8 := IsText.zero_notMem h.char

theorem takeWhile_data (h : s.Spells cs) : s.data.takeWhile (· ≠ 0) = cs.flatMap utf8 := by
  rw [h.data, takeWhile_append_zero h.zero_notMem]

theorem terminated (h : s.Spells cs) : terminated s.data = cs.flatMap utf8 ++ [0] := by
  rw [h.data, terminated_append h.zero_notMem]

theorem length_passes (h : s.Spells cs) :
    (Scan.passes charLen (cs.flatMap utf8 ++ [0])).length = cs.length :=
  Scan.length_passes_flatMap (List.cons_ne_nil 0 []) passes_zero h.charWord

theorem stop (h : s.Spells cs) : Scan.stop charLen (cs.flatMap utf8 ++ [0]) = [0] := by
  have hget := Scan.getElem?_passes_flatMap (List.cons_ne_nil 0 []) passes_zero stop_zero
    h.charWord le_rfl
  rw [List.getElem?_append_right h.length_passes.le, h.length_passes, Nat.sub_self,
    List.drop_length] at hget
  exact Option.some.inj hget

/-- Where the loops come to. -/
theorem getElem?_passes (h : s.Spells cs) {k : ℕ} (hk : k < cs.length) :
    (Scan.passes charLen (cs.flatMap utf8 ++ [0]))[k]? =
      some ((cs.drop k).flatMap utf8 ++ [0]) := by
  have hget := Scan.getElem?_passes_flatMap (List.cons_ne_nil 0 []) passes_zero stop_zero
    h.charWord hk.le
  rwa [List.getElem?_append_left (h.length_passes.symm ▸ hk)] at hget

theorem getElem?_passes_none (h : s.Spells cs) {k : ℕ} (hk : cs.length ≤ k) :
    (Scan.passes charLen (cs.flatMap utf8 ++ [0]))[k]? = none :=
  List.getElem?_eq_none (h.length_passes.symm ▸ hk)

/-- Each of the passes is at a character, and the loop ends at the terminator. -/
theorem places_eq (h : s.Spells cs) :
    places (cs.flatMap utf8 ++ [0]) = Scan.passes charLen (cs.flatMap utf8 ++ [0]) := by
  rw [places, h.stop, List.filter_append]
  have hall : ∀ p ∈ Scan.passes charLen (cs.flatMap utf8 ++ [0]),
      decide (p.headD 0 ≠ 0) = true := by
    intro p hp
    obtain ⟨b, r, rfl, hlen, -⟩ := Scan.exists_of_mem_passes hp
    refine decide_eq_true fun hzero => hlen ?_
    exact if_pos hzero
  rw [List.filter_eq_self.mpr hall]
  exact List.append_nil _

theorem headD_eq_zero_iff (h : s.Spells cs) : (cs.flatMap utf8 ++ [0]).headD 0 = 0 ↔ cs = [] := by
  have hnull := h.isNullOrEmpty_iff
  rwa [IsNullOrEmpty, h.string, Option.elim_some, decide_eq_true_iff] at hnull

/-- **The byte index** of a character. -/
theorem charIndexToByteIndex (h : s.Spells cs) {k : ℕ} (hk : k < cs.length) :
    CharIndexToByteIndex s.mString k = charOffset cs k := by
  have hne : ¬((cs.flatMap utf8 ++ [0]).headD 0 = 0 ∨ (k : ℤ) < 0) := by
    rw [h.headD_eq_zero_iff, not_or]
    exact ⟨List.ne_nil_of_length_pos (Nat.zero_lt_of_lt hk), by omega⟩
  have hterminated := h.terminated
  rw [h.data] at hterminated
  have hsub := Code.length_sub_length utf8 cs [0] k
  have hle : ((cs.drop k).flatMap utf8 ++ [0]).length ≤ (cs.flatMap utf8 ++ [0]).length := by
    rw [← Code.drop_offset utf8 cs [0] k, List.length_drop]
    exact Nat.sub_le _ _
  rw [h.string, CharIndexToByteIndex]
  rw [if_neg hne, hterminated, h.places_eq, Int.toNat_natCast, h.getElem?_passes hk,
    Option.elim_some, charOffset, ← hsub, Int.ofNat_sub hle]

/-- There is no byte index of a number that no character has. -/
theorem charIndexToByteIndex_none (h : s.Spells cs) {charIndex : ℤ}
    (hno : charIndex < 0 ∨ cs.length ≤ charIndex) :
    CharIndexToByteIndex s.mString charIndex = -1 := by
  have hterminated := h.terminated
  rw [h.data] at hterminated
  rw [h.string, CharIndexToByteIndex]
  split_ifs with hguards
  · rfl
  · have hle : cs.length ≤ charIndex.toNat := by omega
    rw [hterminated, h.places_eq, h.getElem?_passes_none hle]
    rfl

theorem getByteLength_eq (h : s.Spells cs) : s.GetByteLength = charOffset cs cs.length := by
  have hbytes := h.length_bytes
  rw [h.data, List.length_append, List.length_singleton, Nat.add_sub_cancel] at hbytes
  rw [h.getByteLength, ← hbytes, length_chars]

theorem le_charOffset (h : s.Spells cs) {k : ℕ} (hk : k ≤ cs.length) : k ≤ charOffset cs k :=
  Code.le_offset utf8 (fun c hc => utf8_ne_nil (h.char c hc).2) hk

end Spells

/-! ### Substrings -/

/-- A part of the characters, in a buffer of its own. -/
theorem Spells.part (h : s.Spells cs) {ps : List UInt32} (hsub : ps.Sublist cs) :
    ({ mString := some (ps.flatMap utf8 ++ [0]) } : ElString).Spells ps where
  string := rfl
  char c hc := h.char c (hsub.subset hc)
  counted hcounted := absurd hcounted (not_isCounted_of_zero rfl)
  fits := lt_of_le_of_lt hsub.length_le h.fits

theorem Spells.flatMap_ne_nil (h : s.Spells cs) {ps : List UInt32} (hsub : ps.Sublist cs)
    (hne : ps ≠ []) : ps.flatMap utf8 ≠ [] := by
  obtain ⟨c, ps, rfl⟩ := List.exists_cons_of_ne_nil hne
  rw [List.flatMap_cons]
  exact List.append_ne_nil_of_left_ne_nil
    (utf8_ne_nil (h.char c (hsub.subset List.mem_cons_self)).2) _

theorem ofCharsN_of_ne_nil {bytes : List UInt8} (h : bytes ≠ []) :
    ofCharsN (some bytes) = { mString := some (bytes ++ [0]) } := by
  obtain ⟨b, bytes, rfl⟩ := List.exists_cons_of_ne_nil h
  simp [ofCharsN, _allocFromUTF8]

/-- **`Substring`** takes the characters of the range that there are. -/
theorem Spells.substring (h : s.Spells cs) (start last : ℤ) :
    (s.Substring start last).1.Spells (charRange cs start last) ∧
      (s.Substring start last).1.mString =
        some ((charRange cs start last).flatMap utf8 ++ [0]) := by
  have hpart := h.part (charRange_sublist cs start last)
  suffices heq : (s.Substring start last).1 =
      { mString := some ((charRange cs start last).flatMap utf8 ++ [0]) } by
    rw [heq]
    exact ⟨hpart, rfl⟩
  have hempty : charRange cs start last = [] →
      ({ mString := some [0] } : ElString) =
        { mString := some ((charRange cs start last).flatMap utf8 ++ [0]) } := by
    intro hnil
    rw [hnil]
    rfl
  obtain ⟨hlength, -⟩ := h.getLength
  rw [Substring, if_neg (by rw [h.string]; exact Option.some_ne_none _)]
  dsimp only
  rw [hlength]
  by_cases hguards : start < 0 ∨ last ≤ 0 ∨ s.IsNullOrEmpty = true
  · rw [if_pos hguards]
    refine hempty ?_
    rw [h.isNullOrEmpty_iff] at hguards
    rw [charRange]
    rcases hguards with hstart | hlast | rfl
    · rw [if_pos hstart]
    · rw [Int.toNat_of_nonpos hlast, List.take_zero, List.drop_nil, ite_self]
    · rw [List.take_nil, List.drop_nil, ite_self]
  obtain ⟨hstart, hguards'⟩ := not_or.mp hguards
  obtain ⟨hlast, -⟩ := not_or.mp hguards'
  obtain ⟨i, rfl⟩ := Int.eq_ofNat_of_zero_le (Int.not_lt.mp hstart)
  obtain ⟨j, rfl⟩ := Int.eq_ofNat_of_zero_le (Int.not_le.mp hlast).le
  rw [if_neg hguards]
  by_cases hrange : min (cs.length : ℤ) j ≤ i
  · rw [if_pos hrange]
    refine hempty ?_
    rw [charRange_eq]
    refine List.eq_nil_of_length_eq_zero ?_
    rw [List.length_take, List.length_drop]
    omega
  rw [if_neg hrange]
  have hi : i < cs.length := by omega
  by_cases hall : (i : ℤ) = 0 ∧ min (cs.length : ℤ) j = cs.length
  · have hcs : charRange cs i j = cs := by
      rw [charRange_eq, List.take_of_length_le (by rw [List.length_drop]; omega)]
      obtain rfl : i = 0 := by omega
      exact List.drop_zero
    have hbytes := h.flatMap_ne_nil (List.Sublist.refl cs)
      (List.ne_nil_of_length_pos (Nat.zero_lt_of_lt hi))
    rw [if_pos hall, h.takeWhile_data, _allocFromUTF8, if_neg hbytes, hcs]
  rw [if_neg hall, h.getByteLength_eq, h.data, Int.toNat_natCast]
  -- the loop ends in front of the last character only where the range does
  obtain ⟨k, hk⟩ := Int.eq_ofNat_of_zero_le (a := min (cs.length : ℤ) j) (by omega)
  have hlt : ¬(i : ℤ) = (charOffset cs cs.length : ℕ) := by
    have hle := h.le_charOffset le_rfl
    omega
  have hlast : ((Scan.passes charLen (cs.flatMap utf8 ++ [0]))[k]?).elim
      (charOffset cs cs.length) (fun p => (cs.flatMap utf8 ++ [0]).length - p.length) =
      charOffset cs k := by
    rcases Nat.lt_or_ge k cs.length with hkl | hkl
    · rw [h.getElem?_passes hkl, Option.elim_some, Code.length_sub_length]
    · obtain rfl : k = cs.length := by omega
      rw [h.getElem?_passes_none hkl, Option.elim_none]
  have hrange : charRange cs i j = (cs.drop i).take (k - i) := by
    rw [charRange_eq, List.take_eq_take_iff, List.length_drop]
    omega
  have hne : (charRange cs i j).flatMap utf8 ≠ [] := by
    refine h.flatMap_ne_nil (charRange_sublist cs i j) (List.ne_nil_of_length_pos ?_)
    rw [hrange, List.length_take, List.length_drop]
    omega
  rw [hk, Int.toNat_natCast, if_neg hlt, if_neg hlt, hlast, h.getElem?_passes hi,
    Option.elim_some, Code.length_sub_length, Code.take_offset_sub cs [0] (by omega), ← hrange]
  exact ofCharsN_of_ne_nil hne

/-! ### What is appended -/

/-- The bytes of the characters. -/
theorem Spells.take_data (h : s.Spells cs) : s.data.take s.GetByteLength = cs.flatMap utf8 := by
  rw [h.data, h.getByteLength_eq, ← length_chars]
  exact List.take_left

/-- Bytes that are appended to a string stand behind its own. -/
theorem Spells.mString_appendN (h : s.Spells cs) {bytes : List UInt8} (hne : bytes ≠ [])
    (hzero : 0 ∉ bytes) :
    (s.AppendN bytes).mString = some (cs.flatMap utf8 ++ bytes ++ [0]) ∧
      (s.AppendN bytes).mCharCount = 0 := by
  have htake := h.take_data
  have hbytes : bytes.takeWhile (· ≠ 0) = bytes :=
    List.takeWhile_eq_self_iff.mpr fun b hb => decide_eq_true (ne_of_mem_of_not_mem hb hzero)
  rw [AppendN, if_neg hne]
  by_cases hempty : s.GetByteLength = 0
  · rw [hempty, List.take_zero] at htake
    rw [if_pos hempty, ← htake, List.nil_append]
    exact ⟨congrArg some (if_neg hne), rfl⟩
  · rw [if_neg hempty, hbytes, RealAppend, if_neg hne, htake]
    exact ⟨rfl, rfl⟩

/-- **`Append(const String&)`** puts the characters behind each other. -/
theorem Spells.appendString (h : s.Spells cs) (hother : other.Spells ds)
    (hfits : (cs ++ ds).length < 2147483648) :
    (ElString.AppendString other s).Spells (cs ++ ds) := by
  have hchar : ∀ c ∈ cs ++ ds, c ≠ 0 ∧ IsValidChar c = true := by
    intro c hc
    rcases List.mem_append.mp hc with hc | hc
    · exact h.char c hc
    · exact hother.char c hc
  rw [AppendString, hother.take_data, RealAppend, h.take_data]
  split_ifs with hempty hnil
  · have hle := h.le_charOffset le_rfl
    rw [← h.getByteLength_eq, hempty] at hle
    obtain rfl := List.eq_nil_of_length_eq_zero (Nat.le_zero.mp hle)
    exact hother
  · obtain rfl : ds = [] := by
      by_contra hne
      exact hother.flatMap_ne_nil (List.Sublist.refl ds) hne hnil
    rwa [List.append_nil]
  · refine ⟨?_, hchar, fun hcounted => absurd hcounted (not_isCounted_of_zero rfl), hfits⟩
    rw [List.flatMap_append]

/-- **`Append`** of a range from a string that is not empty. -/
theorem appendRange_spec (hother : other.Spells ds) (hne : ds ≠ []) {offset n : ℕ} (hn : 0 < n)
    (hoffset : offset < ds.length) (s : ElString) :
    AppendRange other offset n s =
      (NOERROR, s.AppendN ((charRange ds offset (offset + n : ℕ)).flatMap utf8)) := by
  have hguards : ¬(other.IsNullOrEmpty = true ∨ (n : ℤ) ≤ 0) := by
    rw [hother.isNullOrEmpty_iff, not_or]
    exact ⟨hne, by omega⟩
  rw [AppendRange, if_neg hguards]
  dsimp only
  rw [hother.terminated, hother.places_eq, hother.length_passes, hother.stop, Int.toNat_natCast,
    Int.toNat_natCast, if_neg (by omega), if_neg fun h => h.2 rfl, hother.getElem?_passes hoffset,
    Option.elim_some, Code.length_sub_length]
  have hend : ((Scan.passes charLen (ds.flatMap utf8 ++ [0]))[offset + n]?).elim
      ((ds.flatMap utf8 ++ [0]).length - 1)
      (fun p => (ds.flatMap utf8 ++ [0]).length - p.length) =
      charOffset ds (offset + n) := by
    rcases Nat.lt_or_ge (offset + n) ds.length with hlt | hle
    · rw [hother.getElem?_passes hlt, Option.elim_some, Code.length_sub_length]
    · rw [hother.getElem?_passes_none hle, Option.elim_none, List.length_append,
        List.length_singleton, Nat.add_sub_cancel, charOffset, Code.offset_of_length_le hle]
  rw [hend, Code.take_offset_sub ds [0] (Nat.le_add_right _ _), charRange_eq]

/-- An offset that no character has is refused. -/
theorem appendRange_refused (hother : other.Spells ds) (hne : ds ≠ []) {offset n : ℤ} (hn : 0 < n)
    (hoffset : offset < 0 ∨ ds.length ≤ offset) (s : ElString) :
    AppendRange other offset n s = (E_INVALID_ARGUMENT, s) := by
  have hguards : ¬(other.IsNullOrEmpty = true ∨ n ≤ 0) := by
    rw [hother.isNullOrEmpty_iff, not_or]
    exact ⟨hne, by omega⟩
  rw [AppendRange, if_neg hguards]
  dsimp only
  rw [hother.terminated, hother.length_passes, if_pos]
  rcases hoffset with hneg | hle
  · exact .inl hneg
  · exact .inr (by omega)

/-- **The ranges of characters.** `Substring` takes the characters of any range that there are. From
a string that is not empty, `Append` adds the characters of any range that begins with one, and
refuses the others; to append from the empty string is no error, and does nothing. The string that
is appended to is another one. -/
theorem ranges_right (h : s.Spells cs) (hother : other.Spells ds) :
    (∀ start last : ℤ, (s.Substring start last).1.Spells (charRange cs start last)) ∧
    ∀ offset n : ℤ, 1 ≤ n →
      (0 ≤ offset → offset < ds.length → ∃ s', AppendRange other offset n s = (NOERROR, s') ∧
        s'.mString = some ((cs ++ charRange ds offset (offset + n)).flatMap utf8 ++ [0]) ∧
        ((cs ++ charRange ds offset (offset + n)).length < 2147483648 →
          s'.Spells (cs ++ charRange ds offset (offset + n)))) ∧
      (offset < 0 ∨ ds.length ≤ offset → AppendRange other offset n s =
        (if ds = [] then NOERROR else E_INVALID_ARGUMENT, s)) := by
  refine ⟨fun start last => (h.substring start last).1, fun offset n hn => ⟨?_, ?_⟩⟩
  · intro hoffset hlt
    obtain ⟨offset, rfl⟩ := Int.eq_ofNat_of_zero_le hoffset
    obtain ⟨n, rfl⟩ := Int.eq_ofNat_of_zero_le (Int.le_of_lt hn)
    have hoff : offset < ds.length := by omega
    have hds : ds ≠ [] := List.ne_nil_of_length_pos (Nat.zero_lt_of_lt hoff)
    have hsub := charRange_sublist ds offset (offset + n : ℕ)
    have hrange : charRange ds offset (offset + n : ℕ) ≠ [] := by
      refine List.ne_nil_of_length_pos ?_
      rw [charRange_eq, List.length_take, List.length_drop]
      omega
    have hzero : 0 ∉ (charRange ds offset (offset + n : ℕ)).flatMap utf8 :=
      (hother.part hsub).zero_notMem
    obtain ⟨hstring, hcount⟩ := h.mString_appendN (hother.flatMap_ne_nil hsub hrange) hzero
    rw [← List.flatMap_append] at hstring
    refine ⟨_, appendRange_spec hother hds (by omega) hoff s, hstring, fun hfits => ?_⟩
    refine ⟨hstring, fun c hc => ?_, fun hcounted => ?_, hfits⟩
    · rcases List.mem_append.mp hc with hc | hc
      · exact h.char c hc
      · exact hother.char c (hsub.subset hc)
    · exact absurd hcounted (not_isCounted_of_zero hcount)
  · intro hoffset
    split_ifs with hds
    · rw [AppendRange, if_pos (.inl (hother.isNullOrEmpty_iff.mpr hds))]
    · exact appendRange_refused hother hds hn hoffset s

/-- Of `"aéz"`, and behind `"é"`. -/
theorem ranges_right_mixed :
    ((spelled [0x61, 0xE9, 0x7A]).Substring 1 7).1.Spells [0xE9, 0x7A] ∧
    ∃ s', AppendRange (spelled [0x61, 0xE9, 0x7A]) 1 1 (spelled [0xE9]) = (NOERROR, s') ∧
      s'.Spells [0xE9, 0xE9] := by
  have h := spells_spelled [0x61, 0xE9, 0x7A] (by decide) (by decide)
  have h' := spells_spelled [0xE9] (by decide) (by decide)
  obtain ⟨s', happend, -, hspells⟩ :=
    ((ranges_right h' h).2 1 1 le_rfl).1 (by decide) (by decide)
  exact ⟨(ranges_right h h').1 1 7, s', happend, hspells (by decide)⟩

/-- No character of the empty string has the number 5. -/
theorem not_refuses_empty :
    (AppendRange (spelled []) 5 1 (spelled [0x61])).1 ≠ E_INVALID_ARGUMENT := by
  decide

end ElastosCar.ElString
