import ElastosCar.Lib.Search
import ElastosCar.Strings.RoundTrip

/-!
# Searches from the end

`LastIndexOf` and `LastIndexOfIgnoreCase` with a `String`. Both read the characters of the two
strings into arrays, look backwards for the first character of the other string, and from there
forwards for the characters behind it, with a loop of its own kind in each of them.

An access outside an array is a failure of the model here, and so is a loop that does not end within
the turns that it is given.

`lastIndexOf_isLast` says that neither of them fails, and that both find the greatest index.
-/

namespace ElastosCar.ElString

open Search

/-! ### The loops -/

/-- `for (Int32 i = start; i >= 0; --i)`, begun with `i` one below the argument. -/
def findBack (isFirst : UInt32 → Bool) (chars : List UInt32) : ℕ → Option ℤ
  | 0 => some (-1)
  | i + 1 => do
    let c ← chars[i]?
    if isFirst c then return i else findBack isFirst chars i

/-- `while (++o2 < end && (*chars)[++o1] == (*subChars)[o2])`. -/
def matchBehind (chars subChars : List UInt32) : ℕ → ℕ → ℕ → Option ℕ
  | 0, _, _ => none
  | n + 1, o1, o2 =>
    if o2 + 1 < subChars.length then do
      let c ← chars[o1 + 1]?
      let d ← subChars[o2 + 1]?
      if c = d then matchBehind chars subChars n (o1 + 1) (o2 + 1) else return o2 + 1
    else return o2 + 1

/-- The loop of `LastIndexOfIgnoreCase`, which counts behind the comparison. -/
def matchFrom (eq : UInt32 → UInt32 → Bool) (chars subChars : List UInt32) :
    ℕ → ℕ → ℕ → Option ℕ
  | 0, _, _ => none
  | n + 1, o1, o2 =>
    if o2 < subChars.length then do
      let c ← chars[o1]?
      let d ← subChars[o2]?
      if eq c d then matchFrom eq chars subChars n (o1 + 1) (o2 + 1) else return o2
    else return o2

/-- `while (TRUE)`. -/
def searchBack (isFirst : UInt32 → Bool) (behind : ℕ → Option ℕ) (chars : List UInt32) (last : ℕ) :
    ℕ → ℤ → Option ℤ
  | 0, _ => none
  | n + 1, start => do
    let index ← findBack isFirst chars (start + 1).toNat
    if index = -1 then return -1
    else
      let o2 ← behind index.toNat
      if o2 = last then return index
      else searchBack isFirst behind chars last n (index - 1)

/-- What the two functions do with the arrays. -/
def lastIndex (eq : UInt32 → UInt32 → Bool) (behind : ℕ → Option ℕ) (chars subChars : List UInt32)
    (start : ℤ) : Option ℤ :=
  let count : ℤ := chars.length
  let subCount : ℤ := subChars.length
  if subCount ≤ count ∧ 0 ≤ start then
    if 0 < subCount then do
      let start := if count - subCount < start then count - subCount else start
      let start := if count ≤ start then count - 1 else start
      let firstChar ← subChars[0]?
      searchBack (eq · firstChar) behind chars subChars.length (chars.length + 1) start
    else return if start < count then start else count
  else return -1

section Platform

variable (env : Platform)

/-- `(*chars)[i] == c || ToUpperCase((*chars)[i]) == ToUpperCase(c)`. -/
def eqIgnoreCase (c d : UInt32) : Bool := c = d || toUpper env c = toUpper env d

/-- `LastIndexOf(const String&, Int32)`. -/
def LastIndexOfString (subString : ElString) (start : ℤ) (s : ElString) : Option ℤ :=
  if s.mString = none ∨ subString.mString = none then some (-1)
  else
    let chars := (s.GetCharsFrom env 0).1
    let subChars := (subString.GetCharsFrom env 0).1
    lastIndex (fun c d => c = d) (fun index => matchBehind chars subChars subChars.length index 0)
      chars subChars start

/-- `LastIndexOfIgnoreCase(const String&, Int32)`. -/
def LastIndexOfIgnoreCase (subString : ElString) (start : ℤ) (s : ElString) : Option ℤ :=
  if s.mString = none ∨ subString.mString = none then some (-1)
  else
    let chars := (s.GetCharsFrom env 0).1
    let subChars := (subString.GetCharsFrom env 0).1
    lastIndex (eqIgnoreCase env)
      (fun index => matchFrom (eqIgnoreCase env) chars subChars subChars.length (index + 1) 1)
      chars subChars start

end Platform

/-! ### What the loops find -/

/-- The characters `ds` occur in `cs` at an index, up to what `f` makes equal. -/
def OccursAt (f : UInt32 → UInt32) (cs ds : List UInt32) (i : ℕ) : Prop :=
  ds.map f <+: (cs.drop i).map f

variable {f : UInt32 → UInt32} {eq : UInt32 → UInt32 → Bool} {isFirst : UInt32 → Bool}
  {chars subChars : List UInt32}

theorem findBack_isLast (isFirst : UInt32 → Bool) {n : ℕ} (hn : n ≤ chars.length) :
    ∃ r, findBack isFirst chars n = some r ∧
      IsLast (fun i => ∃ c, chars[i]? = some c ∧ isFirst c = true) n r := by
  induction n with
  | zero => exact ⟨-1, rfl, .none nofun⟩
  | succ i ih =>
    obtain ⟨r, hr, hlast⟩ := ih (Nat.le_of_succ_le hn)
    have hget : chars[i]? = some chars[i] := List.getElem?_eq_getElem hn
    rw [findBack, hget, Option.bind_eq_bind, Option.bind_some]
    split_ifs with hfirst
    · exact ⟨i, rfl, .here ⟨chars[i], hget, hfirst⟩⟩
    · refine ⟨r, hr, hlast.skip i.le_succ fun j hij hj => ?_⟩
      obtain rfl : j = i := by omega
      rintro ⟨c, hc, hfirst'⟩
      rw [hget] at hc
      exact hfirst (Option.some.inj hc ▸ hfirst')

/-- The increments in front of the comparison make no difference. -/
theorem matchBehind_eq (n o1 o2 : ℕ) : matchBehind chars subChars n o1 o2 =
    matchFrom (fun c d => c = d) chars subChars n (o1 + 1) (o2 + 1) := by
  induction n generalizing o1 o2 with
  | zero => rfl
  | succ n ih =>
    rw [matchBehind, matchFrom]
    simp only [ih, decide_eq_true_eq]

/-- **The loop over the characters behind the first** stays within the two arrays, and comes to the
end of the other string exactly if it has found it. -/
theorem matchFrom_spec (heq : ∀ c d, eq c d = true ↔ f c = f d) {n : ℕ} :
    ∀ o1 o2 : ℕ, o2 ≤ subChars.length → subChars.length - o2 < n →
      o1 + (subChars.length - o2) ≤ chars.length →
      ∃ r, matchFrom eq chars subChars n o1 o2 = some r ∧
        (r = subChars.length ↔ (subChars.drop o2).map f <+: (chars.drop o1).map f) := by
  induction n with
  | zero => exact fun _ _ _ hn => absurd hn (Nat.not_lt_zero _)
  | succ n ih =>
    intro o1 o2 ho2 hn ho1
    rw [matchFrom]
    by_cases hlt : o2 < subChars.length
    · have hlt' : o1 < chars.length := by omega
      rw [if_pos hlt, List.getElem?_eq_getElem hlt', List.getElem?_eq_getElem hlt,
        Option.bind_eq_bind, Option.bind_some, Option.bind_some,
        List.drop_eq_getElem_cons hlt, List.drop_eq_getElem_cons hlt', List.map_cons, List.map_cons,
        List.cons_prefix_cons]
      split_ifs with hc
      · obtain ⟨r, hr, hiff⟩ := ih (o1 + 1) (o2 + 1) hlt (by omega) (by omega)
        exact ⟨r, hr, hiff.trans (and_iff_right ((heq _ _).mp hc).symm).symm⟩
      · refine ⟨o2, rfl, iff_of_false (Nat.ne_of_lt hlt) fun h => hc ((heq _ _).mpr h.1.symm)⟩
    · obtain rfl : o2 = subChars.length := by omega
      rw [if_neg hlt, List.drop_length]
      exact ⟨_, rfl, iff_of_true rfl List.nil_prefix⟩

/-! ### The greatest index -/

/-- The other string ends within the string. -/
theorem OccursAt.le {i : ℕ} (h : OccursAt f chars subChars i) (hne : subChars ≠ []) :
    i + subChars.length ≤ chars.length := by
  have hlength := h.length_le
  rw [List.length_map, List.length_map, List.length_drop] at hlength
  have hpos := List.length_pos_iff.mpr hne
  omega

theorem occursAt_cons_iff {i : ℕ} {d : UInt32} {ds : List UInt32} (hi : i < chars.length) :
    OccursAt f chars (d :: ds) i ↔
      f chars[i] = f d ∧ ds.map f <+: (chars.drop (i + 1)).map f := by
  rw [OccursAt, List.drop_eq_getElem_cons hi, List.map_cons, List.map_cons, List.cons_prefix_cons,
    eq_comm]

section Search

variable {behind : ℕ → Option ℕ} {d : UInt32} {ds : List UInt32}

/-- **The search goes on in front of an index** where the first character is, but not the others. -/
theorem searchBack_isLast (heq : ∀ c d, eq c d = true ↔ f c = f d)
    (hbehind : ∀ i, i + (ds.length + 1) ≤ chars.length → ∃ r, behind i = some r ∧
      (r = ds.length + 1 ↔ ds.map f <+: (chars.drop (i + 1)).map f)) {n : ℕ} :
    ∀ start : ℤ, -1 ≤ start → start + (ds.length + 1) ≤ chars.length → (start + 1).toNat < n →
      ∃ r, searchBack (eq · d) behind chars (ds.length + 1) n start = some r ∧
        IsLast (OccursAt f chars (d :: ds)) (start + 1).toNat r := by
  induction n with
  | zero => exact fun _ _ _ hn => absurd hn (Nat.not_lt_zero _)
  | succ n ih =>
    intro start hstart hle hn
    have hbound : (start + 1).toNat ≤ chars.length := by omega
    obtain ⟨index, hfind, hlast⟩ := findBack_isLast (eq · d) hbound
    have hfirst : ∀ i, OccursAt f chars (d :: ds) i →
        ∃ c, chars[i]? = some c ∧ eq c d = true := by
      intro i hocc
      have hi := hocc.le (List.cons_ne_nil d ds)
      have hlt : i < chars.length := by
        rw [List.length_cons] at hi
        omega
      exact ⟨chars[i], List.getElem?_eq_getElem hlt,
        (heq _ _).mpr ((occursAt_cons_iff hlt).mp hocc).1⟩
    rw [searchBack, hfind, Option.bind_eq_bind, Option.bind_some]
    rcases hlast with ⟨rfl, hnone⟩ | ⟨i, hi, rfl, ⟨c, hc, hcd⟩, hbetween⟩
    · rw [if_pos rfl]
      exact ⟨-1, rfl, .none fun i hi hocc => hnone i hi (hfirst i hocc)⟩
    · obtain ⟨hlt, rfl⟩ := List.getElem?_eq_some_iff.mp hc
      obtain ⟨o2, ho2, hmatch⟩ := hbehind i (by omega)
      have hocc : o2 = ds.length + 1 ↔ OccursAt f chars (d :: ds) i := by
        rw [hmatch, occursAt_cons_iff hlt, and_iff_right ((heq _ _).mp hcd)]
      have hskip : ∀ j, i < j → j < (start + 1).toNat → ¬OccursAt f chars (d :: ds) j :=
        fun j hij hj hoccj => hbetween j hij hj (hfirst j hoccj)
      rw [if_neg (by omega), Int.toNat_natCast, ho2, Option.bind_eq_bind, Option.bind_some]
      split_ifs with hend
      · exact ⟨i, rfl, (IsLast.here (hocc.mp hend)).skip hi hskip⟩
      · obtain ⟨r, hr, hlast⟩ := ih ((i : ℤ) - 1) (by omega) (by omega) (by omega)
        rw [Int.sub_add_cancel, Int.toNat_natCast] at hlast
        refine ⟨r, hr, hlast.skip (Nat.le_of_lt hi) fun j hij hj => ?_⟩
        rcases Nat.eq_or_lt_of_le hij with rfl | hij
        · exact fun hoccj => hend (hocc.mpr hoccj)
        · exact hskip j hij hj

/-- **The clamps of the start** leave out indices only from which the other string does not fit. -/
theorem lastIndex_spec (chars subChars : List UInt32) (behind : ℕ → Option ℕ)
    (heq : ∀ c d, eq c d = true ↔ f c = f d)
    (hbehind : subChars ≠ [] → ∀ i, i + subChars.length ≤ chars.length → ∃ r, behind i = some r ∧
      (r = subChars.length ↔ (subChars.drop 1).map f <+: (chars.drop (i + 1)).map f))
    {start : ℤ} (hstart : 0 ≤ start) :
    ∃ r, lastIndex eq behind chars subChars start = some r ∧
      (subChars = [] → r = min start chars.length) ∧
      (subChars ≠ [] → IsLast (OccursAt f chars subChars) (start.toNat + 1) r) := by
  rw [lastIndex]
  dsimp only
  cases subChars with
  | nil =>
    rw [if_pos ⟨by simp, hstart⟩, if_neg (by simp)]
    refine ⟨_, rfl, fun _ => ?_, fun hne => absurd rfl hne⟩
    split_ifs <;> omega
  | cons d ds =>
    have hlength : ((d :: ds).length : ℤ) = ds.length + 1 := by simp
    by_cases hle : ((d :: ds).length : ℤ) ≤ chars.length
    · rw [if_pos ⟨hle, hstart⟩, if_pos (by omega), List.getElem?_cons_zero, Option.bind_eq_bind,
        Option.bind_some]
      have hbehind := hbehind (List.cons_ne_nil d ds)
      obtain ⟨r, hr, hlast⟩ := searchBack_isLast heq hbehind (n := chars.length + 1)
        (min (chars.length - (ds.length + 1) : ℤ) start) (by omega) (by omega) (by omega)
      have hclamp : (if (chars.length : ℤ) ≤
          (if (chars.length : ℤ) - (d :: ds).length < start then
            (chars.length : ℤ) - (d :: ds).length else start) then (chars.length : ℤ) - 1
          else if (chars.length : ℤ) - (d :: ds).length < start then
            (chars.length : ℤ) - (d :: ds).length else start) =
          min (chars.length - (ds.length + 1) : ℤ) start := by
        split_ifs <;> omega
      rw [hclamp]
      refine ⟨r, hr, nofun, fun _ =>
        IsLast.min (fun i hocc => ?_) (m := chars.length - ds.length) ?_⟩
      · have hi := hocc.le (List.cons_ne_nil d ds)
        rw [List.length_cons] at hi
        omega
      · convert hlast using 1
        omega
    · rw [if_neg fun h => hle h.1]
      refine ⟨-1, rfl, nofun, fun _ => .none fun i _ hocc => ?_⟩
      have hi := hocc.le (List.cons_ne_nil d ds)
      omega

end Search

theorem eqIgnoreCase_iff (env : Platform) (c d : UInt32) :
    eqIgnoreCase env c d = true ↔ toUpper env c = toUpper env d := by
  rw [eqIgnoreCase, Bool.or_eq_true, decide_eq_true_eq, decide_eq_true_eq]
  exact ⟨fun h => h.elim (congrArg _) id, .inr⟩

/-- The loop of `LastIndexOf` compares the characters behind the first. -/
theorem matchBehind_spec (hne : subChars ≠ []) (i : ℕ) (hi : i + subChars.length ≤ chars.length) :
    ∃ r, matchBehind chars subChars subChars.length i 0 = some r ∧
      (r = subChars.length ↔ (subChars.drop 1).map id <+: (chars.drop (i + 1)).map id) := by
  have hpos := List.length_pos_iff.mpr hne
  rw [matchBehind_eq]
  exact matchFrom_spec (fun c d => decide_eq_true_iff) _ _ hpos (by omega) (by omega)

/-- **The searches from the end.** For strings of characters and a start that is not negative, both
functions end without an access outside the two arrays, and find the greatest index from which the
other string occurs, or `-1`. -/
theorem lastIndexOf_isLast {s subString : ElString} {cs ds : List UInt32} (env : Platform)
    (h : s.Spells cs) (hsub : subString.Spells ds) {start : ℤ} (hstart : 0 ≤ start) :
    ∃ r r', LastIndexOfString env subString start s = some r ∧
      LastIndexOfIgnoreCase env subString start s = some r' ∧
      (ds = [] → r = min start cs.length ∧ r' = min start cs.length) ∧
      (ds ≠ [] → IsLast (OccursAt id cs ds) (start.toNat + 1) r ∧
        IsLast (OccursAt (toUpper env) cs ds) (start.toNat + 1) r') := by
  have hstrings : ¬(s.mString = none ∨ subString.mString = none) := by
    rw [h.string, hsub.string]
    exact fun h => h.elim nofun nofun
  have heq : ∀ c d : UInt32, decide (c = d) = true ↔ id c = id d := fun c d => decide_eq_true_iff
  rw [LastIndexOfString, LastIndexOfIgnoreCase, if_neg hstrings, if_neg hstrings,
    h.getCharsFrom env, hsub.getCharsFrom env]
  dsimp only
  obtain ⟨r, hr, hempty, hlast⟩ := lastIndex_spec cs ds
    (fun index => matchBehind cs ds ds.length index 0) heq matchBehind_spec hstart
  obtain ⟨r', hr', hempty', hlast'⟩ := lastIndex_spec cs ds
    (fun index => matchFrom (eqIgnoreCase env) cs ds ds.length (index + 1) 1)
    (eqIgnoreCase_iff env) (fun hne i hi => by
      have hpos := List.length_pos_iff.mpr hne
      exact matchFrom_spec (eqIgnoreCase_iff env) _ _ hpos (by omega) (by omega)) hstart
  exact ⟨r, r', hr, hr', fun hd => ⟨hempty hd, hempty' hd⟩, fun hd => ⟨hlast hd, hlast' hd⟩⟩

/-- `"éAéaé"`, searched for `"éa"` from its last character on. -/
theorem lastIndexOf_isLast_mixed :
    ∃ r r', LastIndexOfString ⟨true, fun b => b = 32, id, id⟩ (spelled [0xE9, 0x61]) 4
        (spelled [0xE9, 0x41, 0xE9, 0x61, 0xE9]) = some r ∧
      LastIndexOfIgnoreCase ⟨true, fun b => b = 32, id, id⟩ (spelled [0xE9, 0x61]) 4
        (spelled [0xE9, 0x41, 0xE9, 0x61, 0xE9]) = some r' ∧
      IsLast (OccursAt id [0xE9, 0x41, 0xE9, 0x61, 0xE9] [0xE9, 0x61]) 5 r ∧
      IsLast (OccursAt (toUpper ⟨true, fun b => b = 32, id, id⟩)
        [0xE9, 0x41, 0xE9, 0x61, 0xE9] [0xE9, 0x61]) 5 r' := by
  have hs := spells_spelled [0xE9, 0x41, 0xE9, 0x61, 0xE9] (by decide) (by decide)
  have hsub := spells_spelled [0xE9, 0x61] (by decide) (by decide)
  obtain ⟨r, r', hr, hr', -, hlast⟩ :=
    lastIndexOf_isLast ⟨true, fun b => b = 32, id, id⟩ hs hsub (Int.natCast_nonneg 4)
  obtain ⟨h, h'⟩ := hlast (List.cons_ne_nil _ _)
  exact ⟨r, r', hr, hr', h, h'⟩

end ElastosCar.ElString
