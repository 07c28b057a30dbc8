import ElastosCar.Lib.Search
import ElastosCar.Strings.Reading
import ElastosCar.Strings.ReverseSearch

/-!
# Searches from a start

`SensitiveIndexOf` and `InsensitiveIndexOf` are two copies of one loop (`searchFrom`), which goes
over the characters of a C string until one can begin the other string (`look`), compares what is
behind it (`rest`), and begins again behind the character where the comparison fails. It counts
bytes, by which it goes on, and characters, which it returns. The lengths are added in 32 bits.

* `searchFrom_ends`: where both parts read within the string, so does the loop, and it ends.
* `searchFrom_isFirst`: where both parts tell whether the other string occurs, the loop finds the
  first place.
* `sensitiveIndexOf_isFirst`: so it is with `SensitiveIndexOf`. The places are those at which a
  `Substring` is the other string.
-/

namespace ElastosCar.ElString

open Search

/-- What 32 bits keep of a sum. -/
def int32 (n : ℤ) : ℤ := Int.bmod n (2 ^ 32)

/-! ### The loop -/

/-- What is found at a place of the string: a character that can begin the other string or cannot,
`j`, and the length of the character; or the function returns. -/
inductive Look where
  | char (found : Bool) (j charlen1 : ℕ)
  | returns
deriving DecidableEq

/-- How the first loop ends: the function returns, or the other string can begin at a character. -/
inductive Found where
  | returns (result : ℤ)
  | breaks (i charStart charlen1 : ℕ)
deriving DecidableEq

section Loop

variable (look : ℕ → Option Look) (rest : ℕ → ℕ → Option (Option (ℕ × ℕ)))
  (byteLength subByteLength : ℕ)

/-- `for (; i < byteLength;)`, and the test of `found` behind it. -/
def findFrom : ℕ → ℕ → ℕ → Option Found
  | 0, _, _ => none
  | n + 1, i, charStart =>
    if i < byteLength then do
      match ← look i with
      | .returns => return .returns (-1)
      | .char found j charlen1 =>
        if found then
          if j = subByteLength then return .returns charStart
          else return .breaks i charStart charlen1
        else findFrom n (i + charlen1) (charStart + 1)
    else return .returns (-1)

/-- `while (subByteLength + byteStart <= byteLength)`. `rest` is given the place and the length of
the character there, and answers `o2` and the length that `charlen1` has then, unless the function
returns. -/
def searchFrom : ℕ → ℕ → ℕ → Option ℤ
  | 0, _, _ => none
  | n + 1, byteStart, charStart =>
    if int32 (subByteLength + byteStart) ≤ byteLength then do
      match ← findFrom look byteLength subByteLength (byteLength + 1) byteStart charStart with
      | .returns result => return result
      | .breaks i charStart charlen1 =>
        if byteLength < int32 (subByteLength + i) then return -1
        else
          match ← rest i charlen1 with
          | none => return -1
          | some (o2, charlen1) =>
            if o2 = subByteLength then return charStart
            else searchFrom n (i + charlen1) (charStart + 1)
    else return -1

/-- What the two functions do with the strings, whose beginnings differ only in a test. -/
def indexFrom (string subString : List UInt8) (startChar : ℕ) : Option ℤ :=
  let byteStart := CharIndexToByteIndex (some (string ++ [0])) startChar
  if byteStart < 0 ∨ string.length < int32 (subString.length + byteStart) then some (-1)
  else searchFrom look rest string.length subString.length (string.length + 1) byteStart.toNat
    startChar

end Loop

/-! ### The end of the loop -/

section Ends

variable {look : ℕ → Option Look} {rest : ℕ → ℕ → Option (Option (ℕ × ℕ))}
  {byteLength subByteLength : ℕ}

/-- A look reads within the string, and passes a byte at least. -/
def Looks (look : ℕ → Option Look) (byteLength : ℕ) : Prop :=
  ∀ i < byteLength, ∃ l, look i = some l ∧ ∀ found j n, l = .char found j n → 1 ≤ n

/-- So does what is behind it. -/
def Rests (rest : ℕ → ℕ → Option (Option (ℕ × ℕ))) (byteLength : ℕ) : Prop :=
  ∀ i < byteLength, ∀ n, 1 ≤ n →
    ∃ o, rest i n = some o ∧ ∀ o2 n', o = some (o2, n') → 1 ≤ n'

theorem findFrom_ends (subByteLength : ℕ) (hlook : Looks look byteLength) {n : ℕ} :
    ∀ i k, byteLength - i < n →
      ∃ f, findFrom look byteLength subByteLength n i k = some f ∧
        ∀ i' k' m, f = .breaks i' k' m → i ≤ i' ∧ i' < byteLength ∧ 1 ≤ m := by
  induction n with
  | zero => exact fun _ _ hn => absurd hn (Nat.not_lt_zero _)
  | succ n ih =>
    intro i k hn
    rw [findFrom]
    by_cases hlt : i < byteLength
    · obtain ⟨l, hl, hpos⟩ := hlook i hlt
      rw [if_pos hlt, hl, Option.bind_eq_bind, Option.bind_some]
      rcases l with ⟨found, j, m⟩ | _
      · have hm := hpos found j m rfl
        dsimp only
        split_ifs with hfound hj
        · exact ⟨_, rfl, nofun⟩
        · refine ⟨_, rfl, fun i' k' m' h => ?_⟩
          obtain ⟨rfl, -, rfl⟩ := Found.breaks.inj h
          exact ⟨le_rfl, hlt, hm⟩
        · obtain ⟨f, hf, hbreaks⟩ := ih (i + m) (k + 1) (by omega)
          refine ⟨f, hf, fun i' k' m' h => ?_⟩
          obtain ⟨hle, hrest⟩ := hbreaks i' k' m' h
          exact ⟨by omega, hrest⟩
      · exact ⟨_, rfl, nofun⟩
    · rw [if_neg hlt]
      exact ⟨_, rfl, nofun⟩

/-- **The loop ends**, and reads within the string. -/
theorem searchFrom_ends (hlook : Looks look byteLength) (hrest : Rests rest byteLength) {n : ℕ} :
    ∀ i k, byteLength - i < n →
      ∃ r, searchFrom look rest byteLength subByteLength n i k = some r := by
  induction n with
  | zero => exact fun _ _ hn => absurd hn (Nat.not_lt_zero _)
  | succ n ih =>
    intro i k hn
    rw [searchFrom]
    split_ifs with hfits
    · obtain ⟨f, hf, hbreaks⟩ := findFrom_ends subByteLength hlook
        (n := byteLength + 1) i k (by omega)
      rw [hf, Option.bind_eq_bind, Option.bind_some]
      rcases f with result | ⟨i', k', m⟩
      · exact ⟨result, rfl⟩
      · obtain ⟨hle, hlt, hm⟩ := hbreaks i' k' m rfl
        obtain ⟨o, ho, hpos⟩ := hrest i' hlt m hm
        dsimp only
        split_ifs
        · exact ⟨_, rfl⟩
        · rw [ho, Option.bind_eq_bind, Option.bind_some]
          rcases o with _ | ⟨o2, m'⟩
          · exact ⟨_, rfl⟩
          · dsimp only
            split_ifs
            · exact ⟨_, rfl⟩
            · have hm' := hpos o2 m' rfl
              exact ih (i' + m') (k' + 1) (by omega)
    · exact ⟨_, rfl⟩

end Ends

/-! ### The first place -/

section First

variable {look : ℕ → Option Look} {rest : ℕ → ℕ → Option (Option (ℕ × ℕ))}
  {cs : List UInt32} {subByteLength start : ℕ} {P : ℕ → Prop}

/-- The sum may be less, but is not more. -/
theorem int32_le {n : ℤ} (h : 0 ≤ n) : int32 n ≤ n := by
  rw [int32, Int.bmod_def]
  split_ifs <;> omega

/-- The two parts tell whether the other string occurs at a character. -/
structure Tells (look : ℕ → Option Look) (rest : ℕ → ℕ → Option (Option (ℕ × ℕ)))
    (cs : List UInt32) (subByteLength : ℕ) (P : ℕ → Prop) (k : ℕ) (hk : k < cs.length) :
    Prop where
  looks : ∃ found j, look (charOffset cs k) = some (.char found j (GetByteCount cs[k])) ∧
    (found = false → ¬P k) ∧ (found = true → j = subByteLength → P k)
  rests : ∀ found j, look (charOffset cs k) = some (.char found j (GetByteCount cs[k])) →
    found = true → j ≠ subByteLength →
      ∃ o2 n, rest (charOffset cs k) (GetByteCount cs[k]) = some (some (o2, n)) ∧
        (o2 = subByteLength ↔ P k) ∧ (¬P k → n = GetByteCount cs[k])
  fits : P k → charOffset cs k + subByteLength ≤ (cs.flatMap utf8).length

/-- No place from the start on and before a character has been one. -/
def NoneBefore (P : ℕ → Prop) (start k : ℕ) : Prop := ∀ i, start ≤ i → i < k → ¬P i

theorem NoneBefore.succ {k : ℕ} (h : NoneBefore P start k) (hk : ¬P k) :
    NoneBefore P start (k + 1) := by
  intro i hi hlt
  rcases Nat.lt_succ_iff_lt_or_eq.mp hlt with hlt | rfl
  · exact h i hi hlt
  · exact hk

variable (hchar : IsText cs) (hend : ∀ k, cs.length ≤ k → ¬P k)
  (htells : ∀ k (hk : k < cs.length), start ≤ k → NoneBefore P start k →
    Tells look rest cs subByteLength P k hk)

include hend htells

/-- Where the other string does not fit, it does not occur, nor behind. -/
theorem isFirst_of_short {k : ℕ} (hk : start ≤ k) (hnone : NoneBefore P start k)
    (hshort : (cs.flatMap utf8).length < charOffset cs k + subByteLength) :
    IsFirst P start (-1) := by
  have hbehind : ∀ i, k ≤ i → ¬P i := by
    intro i
    induction i using Nat.strong_induction_on with
    | _ i ih =>
      intro hi hP
      have hlt : i < cs.length := Nat.lt_of_not_le fun hle => hend i hle hP
      have hbefore : NoneBefore P start i := by
        intro j hj hji
        rcases Nat.lt_or_ge j k with hjk | hjk
        · exact hnone j hj hjk
        · exact ih j hji hjk
      have hfits := (htells i hlt (hk.trans hi) hbefore).fits hP
      have hmono : charOffset cs k ≤ charOffset cs i := Code.offset_mono utf8 cs hi
      omega
  exact (IsFirst.none hbehind).skip hk hnone

include hchar

/-- **The first loop** stops at a place, or at a character where the other string can begin. -/
theorem findFrom_isFirst {n : ℕ} :
    ∀ k, start ≤ k → k ≤ cs.length → NoneBefore P start k → ∀ f,
      findFrom look (cs.flatMap utf8).length subByteLength n (charOffset cs k) k = some f →
      (∀ r, f = .returns r → IsFirst P start r) ∧
      ∀ i k' m, f = .breaks i k' m → ∃ hk : k' < cs.length, start ≤ k' ∧ i = charOffset cs k' ∧
        m = GetByteCount cs[k'] ∧ NoneBefore P start k' ∧
        ∃ j, look i = some (.char true j m) ∧ j ≠ subByteLength := by
  induction n with
  | zero => exact fun _ _ _ _ _ hf => absurd hf nofun
  | succ n ih =>
    intro k hstart hle hnone f hf
    rw [findFrom] at hf
    by_cases hlt : charOffset cs k < (cs.flatMap utf8).length
    · have hk : k < cs.length := by
        refine Nat.lt_of_le_of_ne hle ?_
        rintro rfl
        rw [length_chars] at hlt
        exact absurd hlt (lt_irrefl _)
      obtain ⟨found, j, hl, hnot, hhere⟩ := (htells k hk hstart hnone).looks
      rw [if_pos hlt, hl, Option.bind_eq_bind, Option.bind_some] at hf
      dsimp only at hf
      split_ifs at hf with hfound hj
      · obtain rfl := Option.some.inj hf
        refine ⟨fun r hr => ?_, nofun⟩
        rw [← Found.returns.inj hr]
        exact (IsFirst.here (hhere hfound hj)).skip hstart hnone
      · obtain rfl := Option.some.inj hf
        refine ⟨nofun, fun i k' m h => ?_⟩
        obtain ⟨rfl, rfl, rfl⟩ := Found.breaks.inj h
        exact ⟨hk, hstart, rfl, rfl, hnone, j, hfound ▸ hl, hj⟩
      · have hfalse := hnot (Bool.eq_false_iff.mpr hfound)
        rw [← charOffset_succ hk] at hf
        exact ih (k + 1) (by omega) hk (hnone.succ hfalse) f hf
    · have hk : k = cs.length := by
        by_contra hne
        exact hlt (hchar.charOffset_lt (Nat.lt_of_le_of_ne hle hne))
      rw [if_neg hlt] at hf
      obtain rfl := Option.some.inj hf
      refine ⟨fun r hr => ?_, nofun⟩
      rw [← Found.returns.inj hr]
      exact (IsFirst.none fun i hi => hend i (hk ▸ hi)).skip hstart hnone

/-- **The loop** finds the first place. -/
theorem searchFrom_isFirst {n : ℕ} :
    ∀ k, start ≤ k → k ≤ cs.length → NoneBefore P start k → ∀ r,
      searchFrom look rest (cs.flatMap utf8).length subByteLength n (charOffset cs k) k = some r →
      IsFirst P start r := by
  induction n with
  | zero => exact fun _ _ _ _ _ hr => absurd hr nofun
  | succ n ih =>
    intro k hstart hle hnone r hr
    have hshort : ∀ k, start ≤ k → NoneBefore P start k →
        ((cs.flatMap utf8).length : ℤ) < int32 (subByteLength + charOffset cs k) →
        IsFirst P start (-1) := by
      intro k hstart hnone hlt
      refine isFirst_of_short hend htells hstart hnone ?_
      have hsum := int32_le (n := subByteLength + charOffset cs k) (by omega)
      omega
    rw [searchFrom] at hr
    split_ifs at hr with hfits
    · obtain ⟨f, hf, hr⟩ := Option.bind_eq_some_iff.mp hr
      obtain ⟨hreturns, hbreaks⟩ := findFrom_isFirst hchar hend htells k hstart hle hnone f hf
      rcases f with result | ⟨i, k', m⟩
      · obtain rfl := Option.some.inj hr
        exact hreturns result rfl
      · obtain ⟨hk, hstart, rfl, rfl, hnone, j, hl, hj⟩ := hbreaks i k' m rfl
        dsimp only at hr
        split_ifs at hr with hlong
        · obtain rfl := Option.some.inj hr
          exact hshort k' hstart hnone hlong
        · obtain ⟨o2, m', ho, hiff, hsame⟩ :=
            (htells k' hk hstart hnone).rests true j hl rfl hj
          rw [ho, Option.bind_eq_bind, Option.bind_some] at hr
          dsimp only at hr
          split_ifs at hr with hfound
          · obtain rfl := Option.some.inj hr
            exact (IsFirst.here (hiff.mp hfound)).skip hstart hnone
          · have hnot : ¬P k' := fun hP => hfound (hiff.mpr hP)
            rw [hsame hnot, ← charOffset_succ hk] at hr
            exact ih (k' + 1) (by omega) hk (hnone.succ hnot) r hr
    · obtain rfl := Option.some.inj hr
      exact hshort k hstart hnone (Int.not_le.mp hfits)

/-- **What the two functions do with a start.** -/
theorem indexFrom_isFirst {s : ElString} (h : s.Spells cs) {subString : List UInt8}
    (hlength : subString.length = subByteLength) {r : ℤ}
    (hr : indexFrom look rest (cs.flatMap utf8) subString start = some r) :
    IsFirst P start r := by
  rw [indexFrom, ← h.string, hlength] at hr
  have hfirst : NoneBefore P start start := fun i hi hlt => absurd hi (Nat.not_le.mpr hlt)
  rcases Nat.lt_or_ge start cs.length with hlt | hge
  · rw [h.charIndexToByteIndex hlt, Int.toNat_natCast] at hr
    split_ifs at hr with hguards
    · obtain rfl := Option.some.inj hr
      have hsum := int32_le (n := subByteLength + charOffset cs start) (by omega)
      exact isFirst_of_short hend htells le_rfl hfirst (by omega)
    · exact searchFrom_isFirst hchar hend htells start le_rfl hlt.le hfirst r hr
  · rw [h.charIndexToByteIndex_none (.inr (by omega)), if_pos (.inl (by decide))] at hr
    obtain rfl := Option.some.inj hr
    exact .none fun i hi => hend i (hge.trans hi)

end First

theorem indexFrom_ends {look : ℕ → Option Look} {rest : ℕ → ℕ → Option (Option (ℕ × ℕ))}
    {string : List UInt8} (hlook : Looks look string.length) (hrest : Rests rest string.length)
    (subString : List UInt8) (startChar : ℕ) :
    ∃ r, indexFrom look rest string subString startChar = some r := by
  rw [indexFrom]
  split_ifs
  · exact ⟨-1, rfl⟩
  · exact searchFrom_ends hlook hrest _ _ (by omega)

/-! ### Case-sensitive searches -/

section Sensitive

variable (string subString : List UInt8)

/-- `for (j = 0; j < charlen1; ++j)`, which compares the bytes of a character. -/
def matchChar (i : ℕ) : ℕ → ℕ → Option (Bool × ℕ)
  | 0, j => some (true, j)
  | n + 1, j => do
    let b ← byteAt string (i + j)
    let b' ← byteAt subString j
    if b = b' then matchChar i n (j + 1) else return (false, j)

/-- A pass of the first loop of `SensitiveIndexOf`. -/
def sensitiveLook (i : ℕ) : Option Look := do
  let b ← byteAt string i
  if IsASCII b then
    if string.length + 1 ≤ i + 1 then return .returns
    else
      let b' ← byteAt subString 0
      return .char (b = b') 1 1
  else
    let charlen1 := UTF8SequenceLength b
    if charlen1 = 0 ∨ string.length + 1 ≤ i + charlen1 then return .returns
    else
      let (found, j) ← matchChar string subString i charlen1 0
      return .char found j charlen1

/-- `while (++o2 < subByteLength && string[++o1] == subString[o2])`. -/
def matchBytes : ℕ → ℕ → ℕ → Option ℕ
  | 0, _, _ => none
  | n + 1, o1, o2 =>
    if o2 + 1 < subString.length then do
      let b ← byteAt string (o1 + 1)
      let b' ← byteAt subString (o2 + 1)
      if b = b' then matchBytes n (o1 + 1) (o2 + 1) else return o2 + 1
    else return o2 + 1

def sensitiveRest (i charlen1 : ℕ) : Option (Option (ℕ × ℕ)) := do
  let o2 ← matchBytes string subString subString.length i 0
  return some (o2, charlen1)

end Sensitive

/-- `SensitiveIndexOf`. -/
def SensitiveIndexOf (string subString : Option (List UInt8)) (startChar : ℤ) : Option ℤ :=
  match string, subString with
  | some string, some subString =>
    if subString.headD 0 = 0 then some 0
    else
      let string := string.takeWhile (· ≠ 0)
      let subString := subString.takeWhile (· ≠ 0)
      let startChar := max 0 startChar
      if string.length ≤ startChar ∨ string.length < subString.length then some (-1)
      else indexFrom (sensitiveLook string subString) (sensitiveRest string subString) string
        subString startChar.toNat
  | _, _ => some (-1)

section Sensitive

variable {string subString : List UInt8} {cs ds : List UInt32}

/-- What is compared is the beginning of the other string. -/
theorem matchChar_spec (subString : List UInt8) {i : ℕ} (hzero : 0 ∉ string) {n : ℕ} :
    ∀ j, j ≤ subString.length → i + j + n ≤ string.length →
      ∃ found j', matchChar string subString i n j = some (found, j') ∧
        (found = true ↔ (string.drop (i + j)).take n <+: subString.drop j) ∧
        (found = true → j' = j + n) := by
  induction n with
  | zero =>
    intro j _ _
    exact ⟨true, j, rfl, iff_of_true rfl (by simp), fun _ => rfl⟩
  | succ n ih =>
    intro j hj hn
    have hlt : i + j < string.length := by omega
    have hb : string[i + j] ≠ 0 := fun hb => hzero (hb ▸ List.getElem_mem hlt)
    rw [matchChar, byteAt_of_lt hlt, Option.bind_eq_bind, Option.bind_some,
      List.drop_eq_getElem_cons hlt, List.take_succ_cons]
    rcases Nat.eq_or_lt_of_le hj with rfl | hjlt
    · -- the terminator is no byte of a character
      rw [byteAt_length, Option.bind_some, if_neg hb, List.drop_length]
      refine ⟨false, _, rfl, iff_of_false Bool.false_ne_true fun h => ?_, nofun⟩
      exact absurd (List.prefix_nil.mp h) (List.cons_ne_nil _ _)
    · rw [byteAt_of_lt hjlt, Option.bind_some,
        List.drop_eq_getElem_cons hjlt, List.cons_prefix_cons]
      split_ifs with heq
      · obtain ⟨found, j', hmatch, hiff, hend⟩ := ih (j + 1) hjlt (by omega)
        refine ⟨found, j', hmatch, ?_, fun hfound => by rw [hend hfound]; omega⟩
        rw [hiff, and_iff_right heq]
        rfl
      · exact ⟨false, j, rfl, iff_of_false Bool.false_ne_true fun h => heq h.1, nofun⟩

/-- The loop stops at the terminator at the latest. -/
theorem matchBytes_spec (string : List UInt8) (hzero : 0 ∉ subString) {n : ℕ} :
    ∀ o1 o2, o2 < subString.length → subString.length ≤ o2 + n → o1 < string.length →
      ∃ r, matchBytes string subString n o1 o2 = some r ∧
        (r = subString.length ↔ subString.drop (o2 + 1) <+: string.drop (o1 + 1)) := by
  induction n with
  | zero =>
    intro o1 o2 ho2 hn
    omega
  | succ n ih =>
    intro o1 o2 ho2 hn ho1
    rw [matchBytes]
    by_cases hlt : o2 + 1 < subString.length
    · have hb : subString[o2 + 1] ≠ 0 := fun hb => hzero (hb ▸ List.getElem_mem hlt)
      rw [if_pos hlt, byteAt_of_lt hlt, List.drop_eq_getElem_cons hlt]
      rcases Nat.lt_or_ge (o1 + 1) string.length with hlt' | hge
      swap
      · have hend : o1 + 1 = string.length := by omega
        rw [hend, byteAt_length, Option.bind_eq_bind, Option.bind_some, Option.bind_some,
          if_neg hb.symm, List.drop_length]
        refine ⟨o2 + 1, rfl, iff_of_false (Nat.ne_of_lt hlt) fun h => ?_⟩
        exact absurd (List.prefix_nil.mp h) (List.cons_ne_nil _ _)
      · rw [byteAt_of_lt hlt', Option.bind_eq_bind, Option.bind_some, Option.bind_some,
          List.drop_eq_getElem_cons hlt', List.cons_prefix_cons]
        split_ifs with heq
        · obtain ⟨r, hr, hiff⟩ := ih (o1 + 1) (o2 + 1) hlt (by omega) hlt'
          exact ⟨r, hr, hiff.trans (and_iff_right heq.symm).symm⟩
        · exact ⟨o2 + 1, rfl, iff_of_false (Nat.ne_of_lt hlt) fun h => heq h.1.symm⟩
    · have hend : o2 + 1 = subString.length := by omega
      rw [if_neg hlt, hend, List.drop_length]
      exact ⟨_, rfl, iff_of_true rfl List.nil_prefix⟩

theorem utf8_injective {c d : UInt32} (hc : IsValidChar c = true) (hd : IsValidChar d = true)
    (h : utf8 c = utf8 d) : c = d := by
  have hread := GetCharInternal_utf8 hc false []
  rw [h, GetCharInternal_utf8 hd] at hread
  exact (congrArg Prod.fst hread).symm

/-- The characters occur where their bytes do. -/
theorem occursAt_iff (hcs : IsText cs) (hds : IsText ds) (k : ℕ) :
    OccursAt id cs ds k ↔
      ds.flatMap utf8 <+: (cs.flatMap utf8).drop (charOffset cs k) := by
  have hdrop := Code.drop_offset utf8 cs [] k
  rw [List.append_nil] at hdrop
  rw [OccursAt, List.map_id, List.map_id, charOffset, hdrop]
  refine (Code.flatMap_prefix_iff (fun d hd => isWord_charLen (hds d hd).2 (hds d hd).1)
    (fun c hc => ?_) (t := []) (fun _ h => by cases h) fun d hd c hc => ?_).symm
  · obtain ⟨hne, hvalid⟩ := hcs.drop k c hc
    exact isWord_charLen hvalid hne
  · exact utf8_injective (hds d hd).2 (hcs.drop k c hc).2

/-- What is looked for is whether the other string begins with the character. -/
theorem sensitiveLook_spec (hcs : IsText cs) (hne : subString ≠ []) {k : ℕ} (hk : k < cs.length) :
    ∃ found j, sensitiveLook (cs.flatMap utf8) subString (charOffset cs k) =
        some (.char found j (GetByteCount cs[k])) ∧
      (found = true ↔ utf8 cs[k] <+: subString) ∧ (found = true → j = GetByteCount cs[k]) := by
  obtain ⟨-, hvalid⟩ := hcs.getElem hk
  have hle := charOffset_add_le hk
  have hlt := hcs.charOffset_lt hk
  rw [sensitiveLook, hcs.byteAt hk, Option.bind_eq_bind, Option.bind_some]
  by_cases hascii : IsASCII (lead cs[k]) = true
  · have hsmall := (isASCII_lead_iff hvalid).mp hascii
    have hcount := (getByteCount_eq_one_iff hvalid).mpr hsmall
    obtain ⟨b, r, rfl⟩ := List.exists_cons_of_ne_nil hne
    have hbyte : byteAt (b :: r) 0 = some b := rfl
    have hlead : utf8 cs[k] = [lead cs[k]] := by
      rw [lead, (utf8_of_lt hsmall).1]
      rfl
    rw [if_pos hascii, if_neg (by omega), hbyte, Option.bind_some, hcount]
    refine ⟨_, 1, rfl, ?_, fun _ => rfl⟩
    rw [decide_eq_true_iff, hlead, List.cons_prefix_cons, and_iff_left List.nil_prefix]
  · have hpos := (pos_GetByteCount_iff cs[k]).mpr hvalid
    have htake : ((cs.flatMap utf8).drop (charOffset cs k + 0)).take (GetByteCount cs[k]) =
        utf8 cs[k] := by
      have hdrop := Code.drop_offset utf8 cs [] k
      rw [List.append_nil, List.append_nil, List.drop_eq_getElem_cons hk, List.flatMap_cons]
        at hdrop
      rw [Nat.add_zero, charOffset, hdrop, ← length_utf8, List.take_left]
    obtain ⟨found, j, hmatch, hiff, hj⟩ := matchChar_spec subString
      (i := charOffset cs k) hcs.zero_notMem (n := GetByteCount cs[k]) 0 (Nat.zero_le _) (by omega)
    rw [htake, List.drop_zero] at hiff
    rw [if_neg hascii, sequenceLength_lead hvalid]
    dsimp only
    rw [if_neg (by omega), hmatch]
    exact ⟨found, j, rfl, hiff, fun hfound => by rw [hj hfound, Nat.zero_add]⟩

/-- The parts of `SensitiveIndexOf` tell where the characters occur. -/
theorem sensitive_tells (hcs : IsText cs) (hds : IsText ds) (hne : ds ≠ []) {k : ℕ}
    (hk : k < cs.length) :
    Tells (sensitiveLook (cs.flatMap utf8) (ds.flatMap utf8))
      (sensitiveRest (cs.flatMap utf8) (ds.flatMap utf8)) cs (ds.flatMap utf8).length
      (OccursAt id cs ds) k hk := by
  obtain ⟨d, es, rfl⟩ := List.exists_cons_of_ne_nil hne
  have hd := hds d List.mem_cons_self
  have hsub : (d :: es).flatMap utf8 ≠ [] := by
    rw [List.flatMap_cons]
    exact List.append_ne_nil_of_left_ne_nil (utf8_ne_nil hd.2) _
  obtain ⟨found, j, hlook, hfound, hj⟩ := sensitiveLook_spec hcs hsub hk
  obtain ⟨hne, hvalid⟩ := hcs.getElem hk
  have hdrop := Code.drop_offset utf8 cs [] k
  rw [List.append_nil, List.append_nil, List.drop_eq_getElem_cons hk, List.flatMap_cons] at hdrop
  have hocc : OccursAt id cs (d :: es) k ↔
      (d :: es).flatMap utf8 <+: utf8 cs[k] ++ (cs.drop (k + 1)).flatMap utf8 := by
    rw [occursAt_iff hcs hds, charOffset, hdrop]
  have hlt := hcs.charOffset_lt hk
  refine ⟨⟨found, j, hlook, fun hnot hP => ?_, fun hyes hend => ?_⟩,
    fun found' j' hlook' hyes _ => ?_, fun hP => ?_⟩
  · -- a character is the beginning of the other string, or is not its first
    rw [hocc, List.flatMap_cons, Code.append_prefix_iff (isWord_charLen hd.2 hd.1)
      (isWord_charLen hvalid hne)] at hP
    refine absurd (hfound.mpr ?_) (Bool.eq_false_iff.mp hnot)
    rw [List.flatMap_cons, hP.1]
    exact List.prefix_append _ _
  · have hprefix := hfound.mp hyes
    have hlength : (utf8 cs[k]).length = ((d :: es).flatMap utf8).length := by
      rw [length_utf8, ← hj hyes, hend]
    rw [hocc, ← hprefix.eq_of_length hlength]
    exact List.prefix_append _ _
  · obtain ⟨rfl, rfl, -⟩ := Look.char.inj (Option.some.inj (hlook'.symm.trans hlook))
    have hprefix := hfound.mp hyes
    have hpos := List.length_pos_iff.mpr hsub
    obtain ⟨r, hr, hiff⟩ := matchBytes_spec (cs.flatMap utf8) hds.zero_notMem
      (n := ((d :: es).flatMap utf8).length) (charOffset cs k) 0 hpos (by omega) hlt
    have hfirst : OccursAt id cs (d :: es) k ↔ ((d :: es).flatMap utf8).drop (0 + 1) <+:
        (cs.flatMap utf8).drop (charOffset cs k + 1) := by
      have hbyte := hcs.byteAt hk
      rw [byteAt_of_lt hlt] at hbyte
      obtain ⟨r, hr⟩ := hprefix
      rw [occursAt_iff hcs hds, List.drop_eq_getElem_cons hlt, Option.some.inj hbyte, ← hr,
        utf8_eq_lead_cons hvalid, List.cons_append, List.cons_prefix_cons, and_iff_right rfl]
      rfl
    refine ⟨r, GetByteCount cs[k], ?_, hiff.trans hfirst.symm, fun _ => rfl⟩
    rw [sensitiveRest, hr]
    rfl
  · have hle := ((occursAt_iff hcs hds k).mp hP).length_le
    rw [List.length_drop] at hle
    omega

theorem looks_sensitiveLook (hzero : 0 ∉ string) (hne : subString ≠ []) :
    Looks (sensitiveLook string subString) string.length := by
  intro i hi
  obtain ⟨b, r, rfl⟩ := List.exists_cons_of_ne_nil hne
  have hbyte : byteAt (b :: r) 0 = some b := rfl
  rw [sensitiveLook, byteAt_of_lt hi, Option.bind_eq_bind, Option.bind_some, hbyte]
  dsimp only
  split_ifs with hascii hend hlen
  · exact ⟨_, rfl, nofun⟩
  · refine ⟨_, rfl, fun found j n h => ?_⟩
    obtain ⟨-, -, rfl⟩ := Look.char.inj h
    exact le_rfl
  · exact ⟨_, rfl, nofun⟩
  · obtain ⟨found, j, hmatch, -⟩ := matchChar_spec (b :: r) (i := i) hzero
      (n := UTF8SequenceLength string[i]) 0 (Nat.zero_le _) (by omega)
    rw [hmatch]
    refine ⟨_, rfl, fun found' j' n h => ?_⟩
    obtain ⟨-, -, rfl⟩ := Look.char.inj h
    omega

theorem rests_sensitiveRest (hzero : 0 ∉ subString) (hne : subString ≠ []) :
    Rests (sensitiveRest string subString) string.length := by
  intro i hi n hn
  obtain ⟨r, hr, -⟩ := matchBytes_spec string hzero (n := subString.length) i 0
    (List.length_pos_iff.mpr hne) (by omega) hi
  rw [sensitiveRest, hr]
  refine ⟨_, rfl, fun o2 n' h => ?_⟩
  obtain ⟨-, rfl⟩ := Prod.mk.inj (Option.some.inj h)
  exact hn

/-- What a string occurs at is what a substring tells. -/
theorem substring_eq_iff {s sub : ElString} (h : s.Spells cs) (hsub : sub.Spells ds) (i : ℕ) :
    (s.Substring i (i + sub.GetLength.1 : ℕ)).1.mString = sub.mString ↔
      OccursAt id cs ds i := by
  have hrange : IsText ((cs.drop i).take ds.length) := fun c hc =>
    IsText.drop h.char i c (List.mem_of_mem_take hc)
  rw [(h.substring _ _).2, hsub.string, hsub.getLength.1, charRange_eq, Nat.add_sub_cancel_left,
    Option.some.injEq, List.append_cancel_right_eq, OccursAt, List.map_id, List.map_id,
    List.prefix_iff_eq_take]
  constructor
  · intro heq
    refine (Code.flatMap_inj (fun c hc => ?_) hsub.charWord (fun c hc d hd => ?_) heq).symm
    · exact isWord_charLen (hrange c hc).2 (hrange c hc).1
    · exact utf8_injective (hrange c hc).2 (hsub.char d hd).2
  · intro heq
    rw [← heq]

/-- **The case-sensitive search.** For strings of characters and any start, `SensitiveIndexOf` ends
without an access outside the two strings, and finds the least index from the start on at which the
other string occurs, or `-1`; and so at which a substring of its length is the other string. -/
theorem sensitiveIndexOf_isFirst {s sub : ElString} (h : s.Spells cs) (hsub : sub.Spells ds)
    (hne : ds ≠ []) (startChar : ℤ) :
    ∃ r, SensitiveIndexOf s.mString sub.mString startChar = some r ∧
      IsFirst (OccursAt id cs ds) (max 0 startChar).toNat r ∧
      IsFirst (fun i => (s.Substring i (i + sub.GetLength.1 : ℕ)).1.mString = sub.mString)
        (max 0 startChar).toNat r := by
  have hcs : IsText cs := h.char
  have hds : IsText ds := hsub.char
  have hnil : ds.flatMap utf8 ≠ [] := hsub.flatMap_ne_nil (List.Sublist.refl ds) hne
  have hhead : ¬(ds.flatMap utf8 ++ [0]).headD 0 = 0 := fun h => hne (hsub.headD_eq_zero_iff.mp h)
  have htake := h.takeWhile_data
  have htake' := hsub.takeWhile_data
  rw [h.data] at htake
  rw [hsub.data] at htake'
  have hend : ∀ k, cs.length ≤ k → ¬OccursAt id cs ds k := by
    intro k hk hocc
    have hle := hocc.le hne
    have hpos := List.length_pos_iff.mpr hne
    omega
  simp only [substring_eq_iff h hsub, and_self]
  rw [h.string, hsub.string, SensitiveIndexOf, if_neg hhead, htake, htake']
  dsimp only
  split_ifs with hguards
  · refine ⟨-1, rfl, .none fun i hi hocc => ?_⟩
    have hi' := hocc.le hne
    have hpos := List.length_pos_iff.mpr hne
    have hlength := ((occursAt_iff hcs hds i).mp hocc).length_le
    have hbytes := h.le_charOffset le_rfl
    rw [← length_chars] at hbytes
    rw [List.length_drop] at hlength
    omega
  · obtain ⟨r, hr⟩ := indexFrom_ends (looks_sensitiveLook hcs.zero_notMem hnil)
      (rests_sensitiveRest hds.zero_notMem hnil) (ds.flatMap utf8) (max 0 startChar).toNat
    exact ⟨r, hr, indexFrom_isFirst hcs hend (fun k hk _ _ => sensitive_tells hcs hds hne hk) h
      rfl hr⟩

/-- `"abéabéz"`, searched for `"abéz"`. -/
theorem sensitiveIndexOf_isFirst_mixed :
    ∃ r, SensitiveIndexOf (spelled [0x61, 0x62, 0xE9, 0x61, 0x62, 0xE9, 0x7A]).mString
        (spelled [0x61, 0x62, 0xE9, 0x7A]).mString (-2) = some r ∧
      IsFirst (OccursAt id [0x61, 0x62, 0xE9, 0x61, 0x62, 0xE9, 0x7A] [0x61, 0x62, 0xE9, 0x7A])
        0 r := by
  have h := spells_spelled [0x61, 0x62, 0xE9, 0x61, 0x62, 0xE9, 0x7A] (by decide) (by decide)
  have hsub := spells_spelled [0x61, 0x62, 0xE9, 0x7A] (by decide) (by decide)
  obtain ⟨r, hr, hfirst, -⟩ := sensitiveIndexOf_isFirst h hsub (List.cons_ne_nil _ _) (-2)
  exact ⟨r, hr, hfirst⟩

end Sensitive

end ElastosCar.ElString
