import ElastosCar.Strings.ElString

/-!
# A `String` of characters

What is read from a `String` that was made from an array of code points. `Spells` is what such a
string keeps: its bytes are those of the characters, one behind the other, and a count that is set
is their number. Each of the loops that read it goes over the bytes of a character at a time,
whether it takes the steps of `UTF8SequenceLength` or those of `GetCharInternal`.
-/

namespace ElastosCar

namespace ElString

/-- The string holds the characters. -/
structure Spells (s : ElString) (cs : List UInt32) : Prop where
  string : s.mString = some (cs.flatMap utf8 ++ [0])
  char : ∀ c ∈ cs, c ≠ 0 ∧ IsValidChar c = true
  counted : s.IsCounted = true → s.counted = cs.length
  fits : cs.length < 2147483648

variable {s : ElString} {cs : List UInt32}

/-! ### The scans over the characters -/

theorem passes_zero : Scan.passes charLen [0] = [] := rfl

theorem passes_zero' : Scan.passes readLen [0] = [] := rfl

theorem stop_zero : Scan.stop charLen [0] = [0] := rfl

namespace Spells

theorem data (h : s.Spells cs) : s.data = cs.flatMap utf8 ++ [0] := by
  rw [ElString.data, h.string]
  rfl

theorem charWord (h : s.Spells cs) : ∀ c ∈ cs, Scan.IsWord charLen (utf8 c) :=
  fun c hc => isWord_charLen (h.char c hc).2 (h.char c hc).1

theorem readWord (h : s.Spells cs) : ∀ c ∈ cs, Scan.IsWord readLen (utf8 c) :=
  fun c hc => isWord_readLen (h.char c hc).2 (h.char c hc).1

theorem decode (h : s.Spells cs) (signed : Bool) :
    ∀ c ∈ cs, ∀ r, (GetCharInternal signed (utf8 c ++ r)).1 = c := by
  intro c hc r
  rw [GetCharInternal_utf8 (h.char c hc).2]

/-- Only the empty string begins with its terminator. -/
theorem isNullOrEmpty_iff (h : s.Spells cs) : s.IsNullOrEmpty = true ↔ cs = [] := by
  rw [IsNullOrEmpty, h.string, Option.elim_some, decide_eq_true_iff]
  cases cs with
  | nil => exact iff_of_true rfl rfl
  | cons c cs =>
    obtain ⟨b, r, hbytes, -⟩ := h.charWord c List.mem_cons_self
    rw [List.flatMap_cons, hbytes]
    refine iff_of_false ?_ (List.cons_ne_nil c cs)
    rintro rfl
    exact (h.char c List.mem_cons_self).1
      ((zero_mem_utf8_iff c).mp (hbytes ▸ List.mem_cons_self))

theorem length_bytes (h : s.Spells cs) : s.data.length - 1 = (cs.map GetByteCount).sum := by
  rw [h.data, List.length_append, List.length_flatMap, List.length_singleton, Nat.add_sub_cancel,
    show (fun c => (utf8 c).length) = GetByteCount from funext length_utf8]

theorem getByteLength (h : s.Spells cs) : s.GetByteLength = (cs.map GetByteCount).sum := by
  rw [GetByteLength]
  split_ifs with hempty
  · rw [h.isNullOrEmpty_iff.mp hempty]
    rfl
  · have hlength := h.length_bytes
    rw [ElString.data, h.string] at hlength
    rw [h.string]
    exact hlength

theorem countChars (h : s.Spells cs) : s.countChars = cs.length := by
  rw [ElString.countChars, h.data]
  exact Scan.length_passes_flatMap (List.cons_ne_nil 0 []) passes_zero h.charWord

/-! ### What is read -/

/-- `GetLength` finds the number of the characters, and keeps it. -/
theorem getLength (h : s.Spells cs) : s.GetLength.1 = cs.length ∧ s.GetLength.2.Spells cs := by
  have hcount : (UInt32.ofNat cs.length).toNat = cs.length := by
    have hfits := h.fits
    rw [UInt32.toNat_ofNat']
    omega
  rw [GetLength]
  split_ifs with hempty hcounted
  · exact ⟨by rw [h.isNullOrEmpty_iff.mp hempty]; rfl, h⟩
  · exact ⟨h.counted hcounted, h⟩
  · refine ⟨h.countChars, h.string, h.char, fun _ => ?_, h.fits⟩
    rw [counted_SetCounted, h.countChars, hcount, Nat.mod_eq_of_lt h.fits]

theorem map_passes (h : s.Spells cs) (signed : Bool) :
    (Scan.passes charLen s.data).map (fun p => (GetCharInternal signed p).1) = cs := by
  have hmap : (Scan.passes charLen (cs.flatMap utf8 ++ [0])).map
      (fun p => (GetCharInternal signed p).1) = cs.map id :=
    Scan.map_passes_flatMap (List.cons_ne_nil 0 []) passes_zero h.charWord (h.decode signed)
  rw [h.data, hmap, List.map_id]

theorem getChar (h : s.Spells cs) (env : Platform) {i : ℕ} (hi : i < cs.length) :
    s.GetChar env i = cs[i] := by
  have hne : ¬ (s.IsNullOrEmpty = true ∨ (i : ℤ) < 0) := by
    rw [h.isNullOrEmpty_iff, not_or]
    exact ⟨List.ne_nil_of_length_pos (Nat.zero_lt_of_lt hi), by omega⟩
  have hread : ((Scan.passes charLen s.data)[i]?).map (fun p => (GetCharInternal env.signed p).1) =
      some cs[i] := by
    rw [← List.getElem?_map, h.map_passes, List.getElem?_eq_getElem hi]
  obtain ⟨p, hp, hchar⟩ := Option.map_eq_some_iff.mp hread
  rw [GetChar, if_neg hne, Int.toNat_natCast, hp, Option.elim_some, hchar]

/-- The loop of `GetChars` counts the first characters and reads the others. -/
theorem readChars (h : s.Spells cs) (env : Platform) {start : ℕ} (hstart : start ≤ cs.length)
    (num : ℕ) : ElString.readChars env start num s.data = (cs.drop start).take num := by
  have hplace := Scan.getElem?_passes_flatMap (List.cons_ne_nil 0 []) passes_zero stop_zero
    h.charWord hstart
  have hread : (Scan.passes readLen ((cs.drop start).flatMap utf8 ++ [0])).map
      (fun p => (GetCharInternal env.signed p).1) = (cs.drop start).map id :=
    Scan.map_passes_flatMap (List.cons_ne_nil 0 []) passes_zero'
      (fun c hc => h.readWord c (List.mem_of_mem_drop hc))
      fun c hc => h.decode env.signed c (List.mem_of_mem_drop hc)
  rw [ElString.readChars, h.data, hplace, Option.elim_some, List.map_take, hread, List.map_id]

/-- `GetChars` of a range. -/
theorem getChars (h : s.Spells cs) (env : Platform) (start last : ℕ) :
    (s.GetChars env start last).1 = (cs.drop start).take (last - start) := by
  obtain ⟨hlength, -⟩ := h.getLength
  rw [GetChars]
  simp only [hlength]
  split_ifs with hrange
  · rcases hrange with hrange | hrange
    · rcases Nat.lt_or_ge start cs.length with hlt | hle
      · rw [Nat.sub_eq_zero_of_le (by omega), List.take_zero]
      · rw [List.drop_eq_nil_of_le hle, List.take_nil]
    · omega
  · obtain ⟨hlt, -⟩ := not_or.mp hrange
    have hnum : (min (cs.length : ℤ) last - start).toNat =
        min (cs.length - start) (last - start) := by
      omega
    rw [Int.toNat_natCast, h.readChars env (by omega), hnum, ← List.length_drop,
      List.take_append_of_le_length (by rw [List.length_take]; omega), List.take_take, Nat.min_self,
      List.take_eq_take_iff]
    omega

theorem getCharsFrom (h : s.Spells cs) (env : Platform) : (s.GetCharsFrom env 0).1 = cs := by
  obtain ⟨hlength, hspells⟩ := h.getLength
  have hchars := hspells.getChars env 0 cs.length
  rw [List.drop_zero, Nat.sub_zero, List.take_length] at hchars
  rw [GetCharsFrom]
  simp only [hlength]
  exact hchars

end Spells

/-! ### Strings made from an array -/

theorem flatMap_utf8_filter (cs : List UInt32) :
    (cs.filter IsValidChar).flatMap utf8 = cs.flatMap utf8 := by
  induction cs with
  | nil => rfl
  | cons c cs ih =>
    cases hvalid : IsValidChar c with
    | false =>
      rw [List.filter_cons_of_neg (by simp [hvalid]), List.flatMap_cons, utf8_eq_nil hvalid, ih,
        List.nil_append]
    | true => rw [List.filter_cons_of_pos hvalid, List.flatMap_cons, List.flatMap_cons, ih]

/-- `Append` leaves out what is no character. -/
theorem appendTaken_filter (cs : List UInt32) (s : ElString) :
    s.appendTaken (cs.filter IsValidChar) = s.appendTaken cs := by
  rw [appendTaken, appendTaken, flatMap_utf8_filter, List.filter_filter]
  simp only [Bool.and_self]

theorem ofArray_filter (array : List UInt32) :
    ofArray array 0 array.length =
      ofArray (array.filter IsValidChar) 0 (array.filter IsValidChar).length := by
  rw [ofArray_eq, ofArray_eq, appendTaken_filter]

/-- The string made from an array holds those of the elements that are characters. -/
theorem spells_ofArray {array : List UInt32} (hfits : array.length < 2147483648)
    (hne : ∀ c ∈ array, c ≠ 0) :
    (ofArray array 0 array.length).Spells (array.filter IsValidChar) := by
  have hchar : ∀ c ∈ array.filter IsValidChar, c ≠ 0 ∧ IsValidChar c = true := by
    intro c hc
    obtain ⟨hmem, hvalid⟩ := List.mem_filter.mp hc
    exact ⟨hne c hmem, hvalid⟩
  have hfits' : (array.filter IsValidChar).length < 2147483648 :=
    Nat.lt_of_le_of_lt (List.length_filter_le _ _) hfits
  rw [ofArray_eq, appendTaken]
  split_ifs with hbytes hempty
  · -- nothing is appended to the empty string
    refine ⟨?_, hchar, (absurd · (not_isCounted_of_zero rfl)), hfits'⟩
    rw [flatMap_utf8_filter, hbytes]
    rfl
  · refine ⟨?_, hchar, fun _ => ?_, hfits'⟩
    · rw [flatMap_utf8_filter, RealAppend, if_neg hbytes]
      rfl
    · rw [counted_SetCounted, UInt32.toNat_ofNat']
      omega
  · exact absurd rfl hempty

/-- The string of the given characters. -/
def spelled (cs : List UInt32) : ElString := { mString := some (cs.flatMap utf8 ++ [0]) }

theorem spells_spelled (cs : List UInt32) (hchar : (cs.all fun c => c ≠ 0 ∧ IsValidChar c) = true)
    (hfits : cs.length < 2147483648) : (spelled cs).Spells cs where
  string := rfl
  char c hc := of_decide_eq_true (List.all_eq_true.mp hchar c hc)
  counted h := absurd h (not_isCounted_of_zero rfl)
  fits := hfits

/-- The string made from the bytes of a string holds the same characters. -/
theorem Spells.ofBytes (h : s.Spells cs) (hne : cs ≠ []) :
    (ofBytes (s.GetBytes 0 s.GetByteLength) 0).Spells cs := by
  have hempty : ¬ s.IsNullOrEmpty = true := fun hempty => hne (h.isNullOrEmpty_iff.mp hempty)
  have hlength : s.GetByteLength = (cs.flatMap utf8).length := by
    have hbytes := h.length_bytes
    rw [h.data, List.length_append, List.length_singleton, Nat.add_sub_cancel] at hbytes
    rw [h.getByteLength, hbytes]
  have hpos : 0 < (cs.flatMap utf8).length := by
    obtain ⟨c, cs, rfl⟩ := List.exists_cons_of_ne_nil hne
    rw [List.flatMap_cons, List.length_append, length_utf8]
    exact Nat.add_pos_left ((pos_GetByteCount_iff c).mpr (h.char c List.mem_cons_self).2) _
  have hbytes : s.GetBytes 0 s.GetByteLength = cs.flatMap utf8 := by
    rw [GetBytes, h.data, hlength, if_neg (by omega), Int.toNat_zero, List.drop_zero,
      List.take_append_of_le_length (by omega)]
    exact List.take_of_length_le (by omega)
  rw [hbytes, ElString.ofBytes, if_pos ⟨le_refl 0, by omega⟩]
  refine ⟨?_, h.char, (absurd · (not_isCounted_of_zero rfl)), h.fits⟩
  rw [Int.toNat_zero, List.drop_zero, _allocFromUTF8, if_neg (List.length_pos_iff.mp hpos)]

/-- The characters are read from the string. -/
structure Reads (env : Platform) (s : ElString) (cs : List UInt32) : Prop where
  getLength : s.GetLength.1 = cs.length
  getChar : ∀ (i : ℕ) (hi : i < cs.length), s.GetChar env i = cs[i]
  getChars : (s.GetCharsFrom env 0).1 = cs

theorem Spells.reads (h : s.Spells cs) (env : Platform) : Reads env s cs :=
  ⟨h.getLength.1, fun _ hi => h.getChar env hi, h.getCharsFrom env⟩

/-- **The round trip through UTF-8.** What is no character is dropped from the array, the others are
read from the string in their order, also from one that is made from its bytes. An `ArrayOf<Char32>`
keeps the number of its bytes in an `Int32`. -/
theorem reads_ofArray (env : Platform) (array : List UInt32)
    (hsize : 4 * array.length < 2147483648) :
    ofArray array 0 array.length =
      ofArray (array.filter IsValidChar) 0 (array.filter IsValidChar).length ∧
    ((∀ c ∈ array, c ≠ 0) → Reads env (ofArray array 0 array.length) (array.filter IsValidChar)) ∧
    (array ≠ [] → (∀ c ∈ array, c ≠ 0 ∧ IsValidChar c = true) →
      Reads env (ofArray array 0 array.length) array ∧
      (ofArray array 0 array.length).GetByteLength = (array.map GetByteCount).sum ∧
      Reads env (ofBytes ((ofArray array 0 array.length).GetBytes 0
        (ofArray array 0 array.length).GetByteLength) 0) array) := by
  have hspells (hne : ∀ c ∈ array, c ≠ 0) := spells_ofArray (by omega) hne
  refine ⟨ofArray_filter array, fun hne => (hspells hne).reads env, fun hnil hchar => ?_⟩
  have hspells := hspells fun c hc => (hchar c hc).1
  rw [List.filter_eq_self.mpr fun c hc => (hchar c hc).2] at hspells
  exact ⟨hspells.reads env, hspells.getByteLength, (hspells.ofBytes hnil).reads env⟩

/-- One character of each length. -/
theorem reads_ofArray_four :
    Reads ⟨true, fun b => b = 32, id, id⟩ (ofArray [0x41, 0xE9, 0x20AC, 0x1F600] 0 4)
      [0x41, 0xE9, 0x20AC, 0x1F600] ∧
    (ofArray [0x41, 0xE9, 0x20AC, 0x1F600] 0 4).GetByteLength = 10 := by
  have hchar : ∀ c ∈ [0x41, 0xE9, 0x20AC, 0x1F600], c ≠ 0 ∧ IsValidChar c = true := by
    simp only [List.forall_mem_cons, List.not_mem_nil, false_implies, implies_true, and_true]
    decide
  obtain ⟨hreads, hlength, -⟩ := (reads_ofArray ⟨true, fun b => b = 32, id, id⟩
    [0x41, 0xE9, 0x20AC, 0x1F600] (by decide)).2.2 (List.cons_ne_nil _ _) hchar
  exact ⟨hreads, hlength.trans (by decide)⟩

end ElString

end ElastosCar
