import ElastosCar.Strings.IgnoreCase
import ElastosCar.Strings.ForwardSearch

/-!
# Regions of two strings

`RegionMatches` and `RegionMatchesIgnoreCase` check two ranges by the numbers of their characters.
The first then takes the byte index of the other range in the string itself, and compares as many
bytes as there are characters in the ranges; the second takes substrings and compares these.

* `RegionSpared`, `FoldRegionSpared`: where the answer is right, of the two functions.
* `regions_iff`: it is right there only.
-/

namespace ElastosCar.ElString

/-! ### The functions -/

/-- `string + i`, up to the terminator. -/
def pointer (string : Option (List UInt8)) (i : ℤ) : Option (List UInt8) :=
  match string with
  | none => none
  | some data => if 0 ≤ i ∧ i < data.length then some (data.drop i.toNat) else none

/-- `!strncmp(str1, str2, n)`. What is behind the terminators cannot be read. -/
def strncmpZero : List UInt8 → List UInt8 → ℕ → Option Bool
  | _, _, 0 => some true
  | b :: str1, b' :: str2, n + 1 =>
    if b ≠ b' then some false else if b = 0 then some true else strncmpZero str1 str2 n
  | _, _, _ + 1 => none

/-- What a `size_t` is made of an `Int32`. -/
def sizeOfInt (n : ℤ) : ℕ := (n % 4294967296).toNat

/-- The two functions but for their ends. The counts that the lengths leave are not returned. -/
def regionOf (compare : ElString → ElString → Option Bool) (thisStart : ℤ) (other : ElString)
    (start length : ℤ) (s : ElString) : Option Bool :=
  if s.mString = none ∨ other.mString = none then some false
  else if other.IsNullOrEmpty ∧ s.IsNullOrEmpty then some true
  else
    let otherStr := other.GetLength
    if start < 0 ∨ (otherStr.1 : ℤ) < int32 (start + length) then some false
    else
      let str := s.GetLength
      if thisStart < 0 ∨ (str.1 : ℤ) < int32 (thisStart + length) then some false
      else if length = 0 then some true
      else compare str.2 otherStr.2

def RegionMatches (thisStart : ℤ) (other : ElString) (start length : ℤ) : ElString → Option Bool :=
  regionOf (fun s other => do
    let str1 ← pointer s.mString (s.ToByteIndex thisStart)
    -- `ToByteIndex(start)` of this string
    let str2 ← pointer other.mString (s.ToByteIndex start)
    strncmpZero str1 str2 (sizeOfInt length)) thisStart other start length

def RegionMatchesIgnoreCase (env : Platform) (thisStart : ℤ) (other : ElString)
    (start length : ℤ) : ElString → Option Bool :=
  regionOf (fun s other => do
    let subStr1 := (s.Substring thisStart (int32 (thisStart + length))).1
    let subStr2 := (other.Substring start (int32 (start + length))).1
    let r ← CompareIgnoreCase env subStr2.mString subStr1
    return r = 0) thisStart other start length

/-! ### Regions of characters -/

/-- The range lies inside of a string with so many characters. -/
def InRange (n : ℕ) (start length : ℤ) : Prop := 0 ≤ start ∧ 0 ≤ length ∧ start + length ≤ n

/-- Both ranges lie inside of their strings, and the characters there are the same. -/
def RegionsMatch (f : UInt32 → UInt32) (cs ds : List UInt32) (thisStart start length : ℤ) : Prop :=
  InRange cs.length thisStart length ∧ InRange ds.length start length ∧
    (charRange cs thisStart (thisStart + length)).map f =
      (charRange ds start (start + length)).map f

/-- What is not refused. -/
def RegionAdmitted (cs ds : List UInt32) (thisStart start length : ℤ) : Prop :=
  (0 ≤ start ∧ int32 (start + length) ≤ ds.length) ∧
    0 ≤ thisStart ∧ int32 (thisStart + length) ≤ cs.length

def IsInt32 (n : ℤ) : Prop := -2147483648 ≤ n ∧ n < 2147483648

/-- There is an answer, and it tells whether. -/
def Answers (r : Option Bool) (P : Prop) : Prop := ∃ b, r = some b ∧ (b = true ↔ P)

variable {env : Platform} {s other : ElString} {cs ds : List UInt32} {c d : UInt32}
  {thisStart start length : ℤ} {f : UInt32 → UInt32}

theorem answers_some_iff {b : Bool} {P : Prop} : Answers (some b) P ↔ (b = true ↔ P) := by
  constructor
  · rintro ⟨b', heq, hiff⟩
    rwa [Option.some.inj heq]
  · intro hiff
    exact ⟨b, rfl, hiff⟩

theorem not_answers_none {P : Prop} : ¬Answers none P := by
  rintro ⟨b, heq, -⟩
  exact absurd heq nofun

/-- A sum of two numbers that are not negative keeps its value, or becomes negative. -/
theorem int32_add_cases (hstart : IsInt32 start) (hlength : IsInt32 length) (hpos : 0 ≤ start) :
    start + length < 2147483648 ∧ int32 (start + length) = start + length ∨
      2147483648 ≤ start + length ∧ int32 (start + length) = start + length - 4294967296 := by
  obtain ⟨hlo, hhi⟩ := hstart
  obtain ⟨hlo', hhi'⟩ := hlength
  rw [int32, Int.bmod_def]
  split_ifs <;> omega

theorem InRange.int32_eq {n : ℕ} (h : InRange n start length) (hn : n < 2147483648) :
    int32 (start + length) = start + length := by
  obtain ⟨hstart, hlength, hle⟩ := h
  exact ElString.int32_eq (by omega) (by omega)

theorem RegionsMatch.admitted (h : RegionsMatch f cs ds thisStart start length)
    (hfits : cs.length < 2147483648) (hfits' : ds.length < 2147483648) :
    RegionAdmitted cs ds thisStart start length := by
  obtain ⟨hthis, hother, -⟩ := h
  refine ⟨⟨hother.1, ?_⟩, hthis.1, ?_⟩
  · rw [hother.int32_eq hfits']
    exact hother.2.2
  · rw [hthis.int32_eq hfits]
    exact hthis.2.2

theorem charRange_of_le (cs : List UInt32) {start last : ℤ} (h : last ≤ start) :
    charRange cs start last = [] := by
  rw [charRange]
  split_ifs
  · rfl
  · refine List.drop_eq_nil_of_le ?_
    rw [List.length_take]
    omega

theorem charRange_self (cs : List UInt32) (start : ℤ) : charRange cs start (start + 0) = [] :=
  charRange_of_le cs (by omega)

theorem regionsMatch_nil_iff :
    RegionsMatch f [] [] thisStart start length ↔ thisStart = 0 ∧ start = 0 ∧ length = 0 := by
  constructor
  · rintro ⟨⟨h, hlength, hle⟩, ⟨h', -, hle'⟩, -⟩
    rw [List.length_nil, Nat.cast_zero] at hle hle'
    omega
  · rintro ⟨rfl, rfl, rfl⟩
    exact ⟨⟨le_rfl, le_rfl, le_rfl⟩, ⟨le_rfl, le_rfl, le_rfl⟩, rfl⟩

/-- Of no characters, all regions match. -/
theorem RegionAdmitted.match_zero (h : RegionAdmitted cs ds thisStart start 0)
    (hthis : IsInt32 thisStart) (hstart : IsInt32 start) (f : UInt32 → UInt32) :
    RegionsMatch f cs ds thisStart start 0 := by
  obtain ⟨⟨hpos, hle⟩, hpos', hle'⟩ := h
  have hzero : IsInt32 0 := ⟨by decide, by decide⟩
  refine ⟨⟨hpos', le_rfl, ?_⟩, ⟨hpos, le_rfl, ?_⟩, ?_⟩
  · have hcases := int32_add_cases hthis hzero hpos'
    have hlt := hthis.2
    omega
  · have hcases := int32_add_cases hstart hzero hpos
    have hlt := hstart.2
    omega
  · rw [charRange_self, charRange_self]

/-! ### What is checked -/

/-- **The checks**, of strings of characters. -/
theorem regionOf_eq (h : s.Spells cs) (hother : other.Spells ds)
    (compare : ElString → ElString → Option Bool) (thisStart start length : ℤ) :
    (cs = [] → ds = [] → regionOf compare thisStart other start length s = some true) ∧
    (¬(cs = [] ∧ ds = []) →
      (¬RegionAdmitted cs ds thisStart start length →
        regionOf compare thisStart other start length s = some false) ∧
      (RegionAdmitted cs ds thisStart start length →
        regionOf compare thisStart other start length s =
          if length = 0 then some true else compare s.GetLength.2 other.GetLength.2)) := by
  have hnull : ¬(s.mString = none ∨ other.mString = none) := by
    rw [h.string, hother.string]
    simp
  have hlength := h.getLength.1
  have hlength' := hother.getLength.1
  rw [regionOf, if_neg hnull]
  refine ⟨fun hcs hds => ?_, fun hempty => ?_⟩
  · exact if_pos ⟨hother.isNullOrEmpty_iff.mpr hds, h.isNullOrEmpty_iff.mpr hcs⟩
  rw [if_neg fun hboth =>
    hempty ⟨h.isNullOrEmpty_iff.mp hboth.2, hother.isNullOrEmpty_iff.mp hboth.1⟩]
  dsimp only
  rw [hlength, hlength', RegionAdmitted]
  constructor
  · intro hnot
    split_ifs with hguard hguard'
    · rfl
    · rfl
    all_goals exact absurd ⟨by omega, by omega⟩ hnot
  · rintro ⟨hguard, hguard'⟩
    rw [if_neg (by omega), if_neg (by omega)]

/-! ### The bytes that are compared -/

theorem strncmpZero_eq {str1 str2 : List UInt8} (h : 0 ∉ str1) (h' : 0 ∉ str2) (n : ℕ) :
    strncmpZero (str1 ++ [0]) (str2 ++ [0]) n =
      some (decide ((str1 ++ [0]).take n = (str2 ++ [0]).take n)) := by
  induction n generalizing str1 str2 with
  | zero => simp [strncmpZero]
  | succ n ih =>
    rcases str1 with _ | ⟨b, str1⟩ <;> rcases str2 with _ | ⟨b', str2⟩
    · simp [strncmpZero]
    · have hne : (0 : UInt8) ≠ b' := fun heq => h' (heq ▸ List.mem_cons_self)
      simp [strncmpZero, hne]
    · have hne : b ≠ 0 := fun heq => h (heq ▸ List.mem_cons_self)
      simp [strncmpZero, hne]
    · rw [List.mem_cons, not_or] at h h'
      have hne : ¬b = 0 := fun heq => h.1 heq.symm
      rw [List.cons_append, List.cons_append, strncmpZero, List.take_succ_cons,
        List.take_succ_cons]
      by_cases heq : b = b'
      · rw [if_neg (not_not.mpr heq), if_neg hne, ih h.2 h'.2, heq]
        simp only [List.cons.injEq, true_and]
      · rw [if_pos heq]
        simp [heq]

theorem sizeOfInt_natCast {n : ℕ} (hn : n < 2147483648) : sizeOfInt n = n := by
  rw [sizeOfInt]
  omega

/-- The bytes of a string that come from a place on. -/
theorem pointer_eq (h : s.Spells cs) {i : ℕ} :
    pointer s.mString i = if i ≤ (cs.flatMap utf8).length then some ((cstr cs).drop i) else none := by
  have hlength : (cstr cs).length = (cs.flatMap utf8).length + 1 := by
    rw [List.length_append, List.length_singleton]
  rw [h.string, pointer, hlength, Int.toNat_natCast]
  by_cases hle : i ≤ (cs.flatMap utf8).length
  · rw [if_pos (by omega), if_pos hle]
  · rw [if_neg (by omega), if_neg hle]

/-- **What `RegionMatches` compares**, where it does not refuse. -/
theorem compareBytes_eq (h : s.Spells cs) (hother : other.Spells ds) (i j : ℕ) (length : ℤ) :
    (do
      let str1 ← pointer s.mString (s.ToByteIndex i)
      let str2 ← pointer other.mString (s.ToByteIndex j)
      strncmpZero str1 str2 (sizeOfInt length)) =
    if i < cs.length ∧ j < cs.length ∧ charOffset cs j ≤ (ds.flatMap utf8).length then
      some (decide (((cstr cs).drop (charOffset cs i)).take (sizeOfInt length) =
        ((cstr ds).drop (charOffset cs j)).take (sizeOfInt length)))
    else none := by
  have hnone : pointer s.mString (-1) = none ∧ pointer other.mString (-1) = none := by
    rw [h.string, hother.string, pointer, pointer, if_neg (by omega), if_neg (by omega)]
    exact ⟨rfl, rfl⟩
  rw [ToByteIndex, ToByteIndex]
  by_cases hi : i < cs.length
  · rw [h.charIndexToByteIndex hi, pointer_eq h, if_pos (Code.offset_le utf8 cs i)]
    by_cases hj : j < cs.length
    · rw [h.charIndexToByteIndex hj, pointer_eq hother]
      by_cases hle : charOffset cs j ≤ (ds.flatMap utf8).length
      · have hdrop (cs : List UInt32) {k : ℕ} (hk : k ≤ (cs.flatMap utf8).length) :
            (cstr cs).drop k = (cs.flatMap utf8).drop k ++ [0] :=
          List.drop_append_of_le_length hk
        rw [if_pos hle, if_pos ⟨hi, hj, hle⟩, hdrop ds hle, hdrop cs (Code.offset_le utf8 cs i)]
        simp only [Option.bind_eq_bind, Option.bind_some]
        exact strncmpZero_eq (fun hmem => h.zero_notMem (List.mem_of_mem_drop hmem))
          (fun hmem => hother.zero_notMem (List.mem_of_mem_drop hmem)) _
      · rw [if_neg hle, if_neg fun hall => hle hall.2.2]
        rfl
    · rw [h.charIndexToByteIndex_none (.inr (by omega)), hnone.2, if_neg fun hall => hj hall.2.1]
      rfl
  · rw [h.charIndexToByteIndex_none (.inr (by omega)), hnone.1, if_neg fun hall => hi hall.1]
    rfl

/-- Where `RegionMatches` is right. The strings are not both empty, but for the numbers zero. Where
the regions match, the character of the other range has a byte index in the string itself, and there
stand the bytes that stand at its own. Where they do not, and the ranges are not refused, the
characters have byte indices in the string, that of the other range lies in the other string, and
the bytes differ within their number. -/
structure RegionSpared (cs ds : List UInt32) (thisStart start length : ℤ) : Prop where
  empty : cs = [] → ds = [] → thisStart = 0 ∧ start = 0 ∧ length = 0
  equal : RegionsMatch id cs ds thisStart start length → length ≠ 0 → start < cs.length ∧
    charOffset cs start.toNat ≤ (ds.flatMap utf8).length ∧
    ((cstr ds).drop (charOffset cs start.toNat)).take (sizeOfInt length) =
      ((cstr ds).drop (charOffset ds start.toNat)).take (sizeOfInt length)
  unequal : ¬RegionsMatch id cs ds thisStart start length →
    RegionAdmitted cs ds thisStart start length → thisStart < cs.length ∧ start < cs.length ∧
    charOffset cs start.toNat ≤ (ds.flatMap utf8).length ∧
    ((cstr cs).drop (charOffset cs thisStart.toNat)).take (sizeOfInt length) ≠
      ((cstr ds).drop (charOffset cs start.toNat)).take (sizeOfInt length)

/-- The bytes of a range are the first at its place. -/
theorem take_drop_cstr (hcs : IsText cs) {i n : ℕ} (h : i + n ≤ cs.length) :
    ((cstr cs).drop (charOffset cs i)).take n =
      ((charRange cs i (i + n : ℕ)).flatMap utf8).take n := by
  have hle : n ≤ charOffset ((cs.drop i).take n) n := Code.le_offset utf8
    (fun c hc => utf8_ne_nil (hcs c (List.mem_of_mem_drop (List.mem_of_mem_take hc))).2)
    (by rw [List.length_take, List.length_drop]; omega)
  rw [charOffset, Code.offset_of_length_le (by rw [List.length_take]; omega)] at hle
  rw [charOffset, Code.drop_offset, charRange_eq, Nat.add_sub_cancel_left,
    Code.flatMap_split utf8 (cs.drop i) n, List.append_assoc, List.take_append_of_le_length hle]

/-- Regions that match have the same bytes at their own places. -/
theorem RegionsMatch.take_eq (hcs : IsText cs) (hds : IsText ds) {i j n : ℕ}
    (h : RegionsMatch id cs ds i j n) :
    ((cstr cs).drop (charOffset cs i)).take n = ((cstr ds).drop (charOffset ds j)).take n := by
  obtain ⟨⟨-, -, hle⟩, ⟨-, -, hle'⟩, heq⟩ := h
  rw [List.map_id, List.map_id] at heq
  rw [take_drop_cstr hcs (by omega), take_drop_cstr hds (by omega)]
  push_cast
  rw [heq]

/-- **`RegionMatches` is right** where it is spared, and there only. -/
theorem regionMatches_iff (h : s.Spells cs) (hother : other.Spells ds) (hthis : IsInt32 thisStart)
    (hstart : IsInt32 start) :
    Answers (RegionMatches thisStart other start length s)
        (RegionsMatch id cs ds thisStart start length) ↔
      RegionSpared cs ds thisStart start length := by
  obtain ⟨hboth, hchecks⟩ := regionOf_eq h hother
    (fun s other => do
      let str1 ← pointer s.mString (s.ToByteIndex thisStart)
      let str2 ← pointer other.mString (s.ToByteIndex start)
      strncmpZero str1 str2 (sizeOfInt length)) thisStart start length
  rw [RegionMatches]
  by_cases hempty : cs = [] ∧ ds = []
  · obtain ⟨rfl, rfl⟩ := hempty
    rw [hboth rfl rfl, answers_some_iff, eq_self_iff_true, true_iff]
    constructor
    · intro hmatch
      have hzero := regionsMatch_nil_iff.mp hmatch
      exact ⟨fun _ _ => hzero, fun _ hne => absurd hzero.2.2 hne, fun hnot => absurd hmatch hnot⟩
    · intro hspared
      exact regionsMatch_nil_iff.mpr (hspared.empty rfl rfl)
  obtain ⟨hrefused, hadmitted⟩ := hchecks hempty
  by_cases hadmit : RegionAdmitted cs ds thisStart start length
  · rw [hadmitted hadmit]
    by_cases hlength : length = 0
    · subst hlength
      have hmatch := hadmit.match_zero hthis hstart id
      rw [if_pos rfl, answers_some_iff, eq_self_iff_true, true_iff, iff_true_left hmatch]
      exact ⟨fun hcs hds => absurd ⟨hcs, hds⟩ hempty, fun _ hne => absurd rfl hne,
        fun hnot => absurd hmatch hnot⟩
    · -- the bytes are compared
      obtain ⟨i, rfl⟩ := Int.eq_ofNat_of_zero_le hadmit.2.1
      obtain ⟨j, rfl⟩ := Int.eq_ofNat_of_zero_le hadmit.1.1
      rw [if_neg hlength, compareBytes_eq h.getLength.2 hother.getLength.2]
      have hbytes (hmatch : RegionsMatch id cs ds i j length) : i < cs.length ∧
          ((cstr cs).drop (charOffset cs i)).take (sizeOfInt length) =
            ((cstr ds).drop (charOffset ds j)).take (sizeOfInt length) := by
        obtain ⟨n, rfl⟩ := Int.eq_ofNat_of_zero_le hmatch.1.2.1
        have hle := hmatch.1.2.2
        have hfits := h.fits
        rw [sizeOfInt_natCast (by omega)]
        exact ⟨by omega, hmatch.take_eq h.char hother.char⟩
      constructor
      · intro hanswers
        split_ifs at hanswers with hplaces
        · rw [answers_some_iff, decide_eq_true_iff] at hanswers
          obtain ⟨hi, hj, hle⟩ := hplaces
          refine ⟨fun hcs hds => absurd ⟨hcs, hds⟩ hempty, fun hmatch hne => ?_, fun hnot _ => ?_⟩
          · exact ⟨Int.ofNat_lt.mpr hj, hle, (hanswers.mpr hmatch).symm.trans (hbytes hmatch).2⟩
          · exact ⟨Int.ofNat_lt.mpr hi, Int.ofNat_lt.mpr hj, hle, fun heq => hnot (hanswers.mp heq)⟩
        · exact absurd hanswers not_answers_none
      · intro hspared
        by_cases hmatch : RegionsMatch id cs ds i j length
        · obtain ⟨hj, hle, heq⟩ := hspared.equal hmatch hlength
          obtain ⟨hi, heq'⟩ := hbytes hmatch
          rw [Int.toNat_natCast] at hle heq
          rw [if_pos ⟨hi, Int.ofNat_lt.mp hj, hle⟩, answers_some_iff, decide_eq_true_iff]
          exact iff_of_true (heq'.trans heq.symm) hmatch
        · obtain ⟨hi, hj, hle, hne⟩ := hspared.unequal hmatch hadmit
          rw [Int.toNat_natCast] at hle
          rw [if_pos ⟨Int.ofNat_lt.mp hi, Int.ofNat_lt.mp hj, hle⟩, answers_some_iff,
            decide_eq_true_iff]
          exact iff_of_false hne hmatch
  · rw [hrefused hadmit, answers_some_iff]
    have hnot : ¬RegionsMatch id cs ds thisStart start length :=
      fun hmatch => hadmit (hmatch.admitted h.fits hother.fits)
    refine iff_of_true (iff_of_false Bool.false_ne_true hnot) ?_
    exact ⟨fun hcs hds => absurd ⟨hcs, hds⟩ hempty, fun hmatch => absurd hmatch hnot,
      fun _ hadmit' => absurd hadmit' hadmit⟩

/-! ### The characters that are compared -/

/-- No ASCII character is in upper case the first byte of another one. -/
def FirstSpared (env : Platform) : Prop :=
  ∀ c d, c < 0x80 → 0x80 ≤ d → IsValidChar d = true →
    toUpper env c ≠ toUpper env (ofChar env.signed (lead d))

/-- No ASCII character stands against another one. -/
def Unmixed (cs ds : List UInt32) : Prop := ∀ p ∈ cs.zip ds, p.1 < 0x80 → p.2 < 0x80

theorem unmixed_cons_iff : Unmixed (c :: cs) (d :: ds) ↔ (c < 0x80 → d < 0x80) ∧ Unmixed cs ds := by
  rw [Unmixed, List.zip_cons_cons, List.forall_mem_cons, Unmixed]

/-- Of characters that are the same in upper case, the loop finds those that differ which are ASCII
in the string only. -/
theorem walkSpared_iff (hds : IsText ds)
    (heq : cs.map (toUpper env) = ds.map (toUpper env)) :
    WalkSpared env cs ds ↔ Unmixed cs ds := by
  induction cs generalizing ds with
  | nil => exact iff_of_true trivial nofun
  | cons c cs ih =>
    rcases ds with _ | ⟨d, ds⟩
    · exact absurd heq (List.cons_ne_nil _ _)
    obtain ⟨⟨-, hvalid⟩, hds⟩ := hds.cons
    rw [List.map_cons, List.map_cons, List.cons.injEq] at heq
    rw [WalkSpared, unmixed_cons_iff, ih hds heq.2, imp_iff_right heq.1]
    refine and_congr_left fun _ => ⟨fun hpair hc => ?_, fun himp hc hd => ?_⟩
    · by_contra hlarge
      exact (hpair hc (UInt32.not_lt.mp hlarge)).1 heq.1
    · exact absurd (himp hc) (UInt32.not_lt.mpr hd)

/-- Where characters are not spared, the loop finds them. -/
theorem FirstSpared.walk_differs (henv : FirstSpared env) {n : ℕ} (hcs : IsText cs)
    (hds : IsText ds) (hspared : ¬WalkSpared env cs ds) (hn : cs.length < n) :
    ∃ r, r ≠ 0 ∧ walk env n (cstr cs) (cstr ds) = some (.differs r) := by
  induction cs generalizing ds n with
  | nil => exact absurd trivial hspared
  | cons c cs ih =>
    rcases ds with _ | ⟨d, ds⟩
    · exact absurd trivial hspared
    obtain ⟨n, rfl⟩ := Nat.exists_eq_add_of_lt hn
    obtain ⟨⟨-, hvalid⟩, hcs⟩ := hcs.cons
    obtain ⟨⟨-, hvalid'⟩, hds⟩ := hds.cons
    rw [WalkSpared, Classical.not_and_iff_not_or_not, Classical.not_imp] at hspared
    by_cases hpair : WalkPair env c d
    · obtain ⟨heq, hrest⟩ := hspared.resolve_left (not_not.mpr hpair)
      rw [hpair.walk_cons hvalid hvalid', if_pos heq]
      exact ih hcs hds hrest (by rw [List.length_cons]; omega)
    · -- an ASCII character against the first byte of another one
      rw [WalkPair, Classical.not_imp, Classical.not_imp] at hpair
      obtain ⟨hc, hd, -⟩ := hpair
      have hne : c ≠ d := by
        rintro rfl
        exact absurd hc (UInt32.not_lt.mpr hd)
      have hbyte : ¬eqCharIgnoreCase env (lead c) (lead d) = true := by
        rw [eqCharIgnoreCase, eqIgnoreCase_iff, ofChar_lead hc]
        exact henv c d hc hd hvalid'
      rw [walk_cons_ascii hvalid hvalid' hc, if_neg hbyte]
      exact ⟨_, charDifference_ne_zero hvalid hvalid' hne, rfl⟩

/-- **The comparison** tells whether the characters are the same in upper case, and unmixed. -/
theorem FirstSpared.compareIgnoreCase (henv : FirstSpared env) (h : s.Spells cs)
    (hother : other.Spells ds) :
    ∃ r, CompareIgnoreCase env other.mString s = some r ∧
      (r = 0 ↔ cs.map (toUpper env) = ds.map (toUpper env) ∧ Unmixed cs ds) := by
  have hds : IsText ds := hother.char
  by_cases hspared : WalkSpared env cs ds
  · rw [compareIgnoreCase_eq h hother hspared]
    obtain ⟨r, hr, hiff⟩ := compare_walkChars_eq_zero_iff h.char hds
    exact ⟨r, hr, hiff.trans (and_iff_left_of_imp fun heq =>
      (walkSpared_iff hds heq).mp hspared).symm⟩
  · have hnonempty : ¬((cstr cs).headD 0 = 0 ∧ (cstr ds).headD 0 = 0) := by
      rintro ⟨hcs, -⟩
      obtain rfl := h.headD_eq_zero_iff.mp hcs
      exact hspared trivial
    obtain ⟨r, hne, hr⟩ := henv.walk_differs h.char hds hspared (IsText.length_lt h.char)
    rw [CompareIgnoreCase.eq_def, h.string, hother.string]
    dsimp only
    rw [if_neg hnonempty, terminated_append h.zero_notMem, terminated_append hother.zero_notMem, hr]
    refine ⟨r, rfl, iff_of_false hne ?_⟩
    rintro ⟨heq, hunmixed⟩
    exact hspared ((walkSpared_iff hds heq).mpr hunmixed)

/-- Where `RegionMatchesIgnoreCase` is right. The strings are not both empty, but for the numbers
zero. A length that is negative is refused, and the two sums are not both beyond 32 bits. In regions
that match, no ASCII character stands against another one of the other string. -/
structure FoldRegionSpared (env : Platform) (cs ds : List UInt32) (thisStart start length : ℤ) :
    Prop where
  empty : cs = [] → ds = [] → thisStart = 0 ∧ start = 0 ∧ length = 0
  nonneg : RegionAdmitted cs ds thisStart start length → 0 ≤ length
  sum : thisStart + length < 2147483648 ∨ start + length < 2147483648
  unmixed : RegionsMatch (toUpper env) cs ds thisStart start length →
    Unmixed (charRange cs thisStart (thisStart + length)) (charRange ds start (start + length))

/-- The characters of a range whose end is not refused. -/
theorem length_charRange (cs : List UInt32) {i n : ℕ} (h : i + n ≤ cs.length) :
    (charRange cs i ((i : ℤ) + n)).length = n := by
  rw [← Nat.cast_add, charRange_eq, List.length_take, List.length_drop]
  omega

/-- **What `RegionMatchesIgnoreCase` compares**, where it does not refuse. -/
theorem FirstSpared.compareSubstrings (henv : FirstSpared env) (h : s.Spells cs)
    (hother : other.Spells ds) (start last start' last' : ℤ) (P : Prop) :
    Answers (do
      let subStr1 := (s.Substring start last).1
      let subStr2 := (other.Substring start' last').1
      let r ← CompareIgnoreCase env subStr2.mString subStr1
      return r = 0) P ↔
      ((charRange cs start last).map (toUpper env) = (charRange ds start' last').map (toUpper env) ∧
        Unmixed (charRange cs start last) (charRange ds start' last') ↔ P) := by
  obtain ⟨r, hr, hiff⟩ := henv.compareIgnoreCase (h.substring start last).1
    (hother.substring start' last').1
  rw [← hiff]
  dsimp only
  rw [hr]
  simp only [Option.bind_eq_bind, Option.bind_some]
  exact answers_some_iff.trans (by rw [decide_eq_true_iff])

/-- **`RegionMatchesIgnoreCase` is right** where it is spared, and there only. -/
theorem regionMatchesIgnoreCase_iff (henv : FirstSpared env) (h : s.Spells cs)
    (hother : other.Spells ds) (hthis : IsInt32 thisStart) (hstart : IsInt32 start)
    (hint : IsInt32 length) :
    Answers (RegionMatchesIgnoreCase env thisStart other start length s)
        (RegionsMatch (toUpper env) cs ds thisStart start length) ↔
      FoldRegionSpared env cs ds thisStart start length := by
  obtain ⟨hboth, hchecks⟩ := regionOf_eq h hother
    (fun s other => do
      let subStr1 := (s.Substring thisStart (int32 (thisStart + length))).1
      let subStr2 := (other.Substring start (int32 (start + length))).1
      let r ← CompareIgnoreCase env subStr2.mString subStr1
      return r = 0) thisStart start length
  have hfits := h.fits
  have hfits' := hother.fits
  rw [RegionMatchesIgnoreCase]
  by_cases hempty : cs = [] ∧ ds = []
  · obtain ⟨rfl, rfl⟩ := hempty
    rw [hboth rfl rfl, answers_some_iff, eq_self_iff_true, true_iff, regionsMatch_nil_iff]
    constructor
    · rintro ⟨rfl, rfl, rfl⟩
      exact ⟨fun _ _ => ⟨rfl, rfl, rfl⟩, fun _ => le_rfl, .inl (by decide), fun _ => nofun⟩
    · intro hspared
      exact hspared.empty rfl rfl
  obtain ⟨hrefused, hadmitted⟩ := hchecks hempty
  have hnonempty : cs = [] → ds = [] → thisStart = 0 ∧ start = 0 ∧ length = 0 :=
    fun hcs hds => absurd ⟨hcs, hds⟩ hempty
  by_cases hadmit : RegionAdmitted cs ds thisStart start length
  swap
  · have hnot : ¬RegionsMatch (toUpper env) cs ds thisStart start length :=
      fun hmatch => hadmit (hmatch.admitted hfits hfits')
    rw [hrefused hadmit, answers_some_iff]
    refine iff_of_true (iff_of_false Bool.false_ne_true hnot) ⟨hnonempty,
      fun hadmit' => absurd hadmit' hadmit, ?_, fun hmatch => absurd hmatch hnot⟩
    -- sums that are both negative would not be refused
    by_contra hsums
    have hlt := hint.2
    have hlt' := hthis.2
    have hlt'' := hstart.2
    have hcases := int32_add_cases hthis hint (by omega)
    have hcases' := int32_add_cases hstart hint (by omega)
    exact hadmit ⟨⟨by omega, by omega⟩, by omega, by omega⟩
  rw [hadmitted hadmit]
  by_cases hzero : length = 0
  · subst hzero
    have hmatch := hadmit.match_zero hthis hstart (toUpper env)
    rw [if_pos rfl, answers_some_iff, eq_self_iff_true, true_iff, iff_true_left hmatch]
    refine ⟨hnonempty, fun _ => le_rfl, .inl ?_, fun _ => ?_⟩
    · rw [Int.add_zero]
      exact hthis.2
    · rw [charRange_self, charRange_self]
      nofun
  rw [if_neg hzero, henv.compareSubstrings h.getLength.2 hother.getLength.2]
  obtain ⟨i, rfl⟩ := Int.eq_ofNat_of_zero_le hadmit.2.1
  obtain ⟨j, rfl⟩ := Int.eq_ofNat_of_zero_le hadmit.1.1
  obtain ⟨⟨-, hle'⟩, -, hle⟩ := id hadmit
  have hcases := int32_add_cases hthis hint (by omega)
  have hcases' := int32_add_cases hstart hint (by omega)
  have hlt := hint.2
  rcases lt_or_ge length 0 with hneg | hpos
  · -- both substrings are empty
    rw [charRange_of_le cs (by omega), charRange_of_le ds (by omega)]
    refine iff_of_false (fun hiff => ?_) fun hspared => ?_
    · exact absurd (hiff.mp ⟨rfl, nofun⟩).1.2.1 (Int.not_le.mpr hneg)
    · exact absurd (hspared.nonneg hadmit) (Int.not_le.mpr hneg)
  obtain ⟨n, rfl⟩ := Int.eq_ofNat_of_zero_le hpos
  rcases hcases with ⟨hsmall, hsum⟩ | ⟨hlarge, hsum⟩ <;>
    rcases hcases' with ⟨hsmall', hsum'⟩ | ⟨hlarge', hsum'⟩
  · rw [hsum] at hle
    rw [hsum'] at hle'
    have hmatch : RegionsMatch (toUpper env) cs ds i j n ↔
        (charRange cs i (i + n)).map (toUpper env) = (charRange ds j (j + n)).map (toUpper env) :=
      ⟨fun hmatch => hmatch.2.2, fun heq => ⟨⟨by omega, hpos, hle⟩, ⟨by omega, hpos, hle'⟩, heq⟩⟩
    rw [hsum, hsum', hmatch, and_iff_left_iff_imp]
    constructor
    · intro hunmixed
      exact ⟨hnonempty, fun _ => hpos, .inl (by omega), fun h => hunmixed (hmatch.mp h)⟩
    · intro hspared heq
      exact hspared.unmixed (hmatch.mpr heq)
  · -- only the substring of the other string is empty
    rw [hsum] at hle
    have hlength := length_charRange cs (i := i) (n := n) (by omega)
    have hne : (charRange cs i (i + n)).map (toUpper env) ≠ [] := by
      refine List.ne_nil_of_length_pos ?_
      rw [List.length_map, hlength]
      omega
    have hnot : ¬RegionsMatch (toUpper env) cs ds i j n :=
      fun hmatch => absurd hmatch.2.1.2.2 (by omega)
    rw [hsum, charRange_of_le ds (by omega)]
    refine iff_of_true (iff_of_false (fun h => hne h.1) hnot) ⟨hnonempty, fun _ => hpos,
      .inl (by omega), fun hmatch => absurd hmatch hnot⟩
  · rw [hsum'] at hle'
    have hlength := length_charRange ds (i := j) (n := n) (by omega)
    have hne : (charRange ds j (j + n)).map (toUpper env) ≠ [] := by
      refine List.ne_nil_of_length_pos ?_
      rw [List.length_map, hlength]
      omega
    have hnot : ¬RegionsMatch (toUpper env) cs ds i j n :=
      fun hmatch => absurd hmatch.1.2.2 (by omega)
    rw [hsum', charRange_of_le cs (by omega)]
    refine iff_of_true (iff_of_false (fun h => hne h.1.symm) hnot) ⟨hnonempty, fun _ => hpos,
      .inr (by omega), fun hmatch => absurd hmatch hnot⟩
  · rw [charRange_of_le cs (by omega), charRange_of_le ds (by omega)]
    refine iff_of_false (fun hiff => ?_) fun hspared => ?_
    · have hinside := (hiff.mp ⟨rfl, nofun⟩).1.2.2
      omega
    · have hsums := hspared.sum
      omega

/-- **The regions of two strings.** The two functions tell whether both ranges lie inside of their
strings with the same characters there, and with characters that are the same in upper case, where
they are spared, and there only. -/
theorem regions_iff (henv : FirstSpared env) (h : s.Spells cs) (hother : other.Spells ds)
    (hthis : IsInt32 thisStart) (hstart : IsInt32 start) (hlength : IsInt32 length) :
    (Answers (RegionMatches thisStart other start length s)
        (RegionsMatch id cs ds thisStart start length) ↔
      RegionSpared cs ds thisStart start length) ∧
    (Answers (RegionMatchesIgnoreCase env thisStart other start length s)
        (RegionsMatch (toUpper env) cs ds thisStart start length) ↔
      FoldRegionSpared env cs ds thisStart start length) :=
  ⟨regionMatches_iff h hother hthis hstart,
    regionMatchesIgnoreCase_iff henv h hother hthis hstart hlength⟩

/-- An ASCII character is one in upper case. -/
theorem toUpper_lt (env : Platform) (h : c < 0x80) : toUpper env c < 0x80 := by
  have hlt : c.toNat < 0x80 := h
  rw [toUpper]
  split_ifs with hletter hsmall
  · have hge : 97 ≤ c.toNat := hletter.1
    have hle : (32 : UInt32) ≤ c := show 32 ≤ c.toNat by omega
    have hsub := UInt32.toNat_sub_of_le c 32 hle
    have hconst : (32 : UInt32).toNat = 32 := rfl
    show (c - 32).toNat < 0x80
    omega
  · exact h
  · have hge : 181 ≤ c.toNat := UInt32.not_lt.mp hsmall
    omega

/-- A platform with ASCII letters only. -/
theorem firstSpared_ascii : FirstSpared ⟨true, fun b => b = 32, id, id⟩ := by
  intro c d hc hd hvalid
  obtain ⟨hlead, -⟩ := utf8_of_le hvalid hd
  have hbytes : ∀ b : UInt8, 0xC0 ≤ b.toNat →
      0x80 ≤ toUpper ⟨true, fun b => b = 32, id, id⟩ (ofChar true b) := by
    decide +kernel
  have hlarge := hbytes (lead d) hlead
  have hsmall := toUpper_lt ⟨true, fun b => b = 32, id, id⟩ hc
  intro heq
  rw [heq] at hsmall
  exact absurd hsmall (UInt32.not_lt.mpr hlarge)

/-- `"é"`, behind `"a"` and behind `"b"`. -/
theorem regions_iff_behind :
    Answers (RegionMatches 1 (spelled [0x62, 0xE9]) 1 1 (spelled [0x61, 0xE9]))
        (RegionsMatch id [0x61, 0xE9] [0x62, 0xE9] 1 1 1) ∧
      Answers (RegionMatchesIgnoreCase ⟨true, fun b => b = 32, id, id⟩ 1 (spelled [0x62, 0xE9]) 1 1
          (spelled [0x61, 0xE9]))
        (RegionsMatch (toUpper ⟨true, fun b => b = 32, id, id⟩) [0x61, 0xE9] [0x62, 0xE9] 1 1 1) := by
  have h := spells_spelled [0x61, 0xE9] (by decide) (by decide)
  have hother := spells_spelled [0x62, 0xE9] (by decide) (by decide)
  have hone : IsInt32 1 := ⟨by decide, by decide⟩
  have hmatch : RegionsMatch id [0x61, 0xE9] [0x62, 0xE9] 1 1 1 :=
    ⟨⟨by decide, by decide, by decide⟩, ⟨by decide, by decide, by decide⟩, by decide⟩
  obtain ⟨hmatches, hignores⟩ := regions_iff firstSpared_ascii h hother hone hone hone
  refine ⟨hmatches.mpr ⟨nofun, fun _ _ => ⟨by decide, by decide, by decide⟩, ?_⟩,
    hignores.mpr ⟨nofun, fun _ => by decide, .inl (by decide), fun _ => ?_⟩⟩
  · exact fun hnot => absurd hmatch hnot
  · exact unmixed_cons_iff.mpr ⟨by decide, nofun⟩

/-- `"é"` and `"è"` have the same first byte. The characters of `"ab"` are the last two of `"éab"`
and of `"xab"`, but their byte index in the first string is not that in the second. A length that
is negative is admitted. -/
theorem not_regions :
    (RegionMatches 0 (spelled [0xE8]) 0 1 (spelled [0xE9]) = some true ∧
      ¬RegionsMatch id [0xE9] [0xE8] 0 0 1) ∧
    (RegionMatches 1 (spelled [0x78, 0x61, 0x62]) 1 2 (spelled [0xE9, 0x61, 0x62]) = some false ∧
      RegionsMatch id [0xE9, 0x61, 0x62] [0x78, 0x61, 0x62] 1 1 2) ∧
    RegionMatchesIgnoreCase ⟨true, fun b => b = 32, id, id⟩ 0 (spelled [0x62]) 0 (-1)
        (spelled [0x61]) = some true ∧
      ¬RegionsMatch (toUpper ⟨true, fun b => b = 32, id, id⟩) [0x61] [0x62] 0 0 (-1) := by
  refine ⟨⟨by decide, fun h => ?_⟩, ⟨by decide, ?_⟩, by decide, fun h => ?_⟩
  · exact absurd h.2.2 (by decide)
  · exact ⟨⟨by decide, by decide, by decide⟩, ⟨by decide, by decide, by decide⟩, by decide⟩
  · exact absurd h.1.2.1 (by decide)

end ElastosCar.ElString
