import ElastosCar.Strings.RoundTrip
import ElastosCar.Strings.Variables

/-!
# The count of a `String`

A count that is set should be what the loop of `GetLength` finds in the bytes. Every change of the
bytes clears the count or sets that of the bytes it has written, and the queries leave the bytes
alone, so that it is enough to look at what each call writes (`step_forall_iff`).

Two of them write a count that is wrong. `ByteIndexOf` sets `--i` at the end, as `GetChars` does, but
has not moved `i`; and the elements of an array that are appended to an empty string are counted
through to the end, while the loop stops at a NUL.
-/

namespace ElastosCar

namespace ElString

/-- A count that is set is what the loop of `GetLength` finds. -/
def CountRight (s : ElString) : Prop := s.IsCounted = true → s.counted = s.countChars

variable {env : Platform} {st st' : ℕ → ElString} {s : ElString}

theorem CountRight.of_zero (h : s.mCharCount = 0) : s.CountRight :=
  fun hcounted => absurd hcounted (not_isCounted_of_zero h)

theorem countChars_lt (hfits : s.data.length < 2147483648) : s.countChars < 2147483647 := by
  rw [countChars]
  rcases eq_or_ne s.data [] with hnil | hne
  · rw [hnil]
    decide
  · have hlt : (Scan.passes charLen s.data).length < _ := Scan.length_passes_lt hne
    omega

theorem CountRight.of_SetCounted {n : ℕ} (h : n = s.countChars)
    (hfits : s.data.length < 2147483648) : (s.SetCounted (UInt32.ofNat n)).CountRight := by
  intro _
  have hlt := countChars_lt hfits
  rw [counted_SetCounted, UInt32.toNat_ofNat', h]
  change s.countChars % 2 ^ 32 % 2147483648 = s.countChars
  omega

/-! ### Queries -/

theorem CountRight.GetLength (h : s.CountRight) (hfits : s.data.length < 2147483648) :
    s.GetLength.2.CountRight := by
  rw [ElString.GetLength]
  split_ifs
  · exact h
  · exact h
  · exact .of_SetCounted rfl hfits

/-- The length is that of the bytes. -/
theorem CountRight.fst_GetLength (h : s.CountRight) :
    s.GetLength.1 = if s.IsNullOrEmpty then 0 else s.countChars := by
  rw [ElString.GetLength]
  split_ifs with hempty hcounted
  · rfl
  · exact h hcounted
  · rfl

theorem fst_GetLength_congr {s' : ElString} (h : s.CountRight) (h' : s'.CountRight)
    (hstring : s'.mString = s.mString) : s'.GetLength.1 = s.GetLength.1 := by
  rw [h'.fst_GetLength, h.fst_GetLength, IsNullOrEmpty, countChars, data, hstring]
  rfl

/-- `ByteIndexOf` never sets the number that the loop would find. -/
theorem countRight_ByteIndexOf (h : s.CountRight) (hfits : s.data.length < 2147483648)
    (target : UInt32) : (s.ByteIndexOf env target).2.CountRight ↔
      s.ByteIndexOfMisses env target = false := by
  rw [snd_ByteIndexOf]
  split_ifs with hmisses
  · refine iff_of_false (fun hright => ?_) (by simp [hmisses])
    have hcount := hright (isCounted_SetCounted _ _)
    rw [counted_SetCounted] at hcount
    have hlt := countChars_lt hfits
    change 2147483647 = s.countChars at hcount
    omega
  · exact iff_of_true h (Bool.not_eq_true _ ▸ hmisses)

/-! ### Appending -/

theorem CountRight.RealAppend (h : s.CountRight) (other : List UInt8) :
    (s.RealAppend other).CountRight := by
  rw [ElString.RealAppend]
  split_ifs
  · exact h
  · exact .of_zero rfl

theorem CountRight.AppendN (h : s.CountRight) (other : List UInt8) :
    (s.AppendN other).CountRight := by
  rw [ElString.AppendN]
  split_ifs
  · exact h
  · exact .of_zero rfl
  · exact h.RealAppend _

/-- The loop of `GetLength` stops at a NUL among the characters. -/
theorem length_passes_chars {cs : List UInt32} (hvalid : ∀ c ∈ cs, IsValidChar c = true) :
    (Scan.passes charLen (cs.flatMap utf8 ++ [0])).length = (cs.takeWhile (· ≠ 0)).length := by
  induction cs with
  | nil => rfl
  | cons c cs ih =>
    by_cases hc : c = 0
    · subst hc
      rfl
    · have hword := isWord_charLen (hvalid c List.mem_cons_self) hc
      have hne : cs.flatMap utf8 ++ [0] ≠ [] :=
        List.append_ne_nil_of_right_ne_nil _ (List.cons_ne_nil 0 [])
      rw [List.flatMap_cons, List.append_assoc, (Scan.passes_word hword hne).1,
        List.takeWhile_cons_of_pos (by simpa using hc), List.length_cons, List.length_cons,
        ih fun c hc => hvalid c (List.mem_cons_of_mem _ hc)]

theorem length_takeWhile_eq_iff {cs : List UInt32} :
    (cs.takeWhile (· ≠ 0)).length = cs.length ↔ 0 ∉ cs := by
  induction cs with
  | nil => exact iff_of_true rfl List.not_mem_nil
  | cons c cs ih =>
    by_cases hc : c = 0
    · subst hc
      exact iff_of_false (by simp) (by simp)
    · rw [List.takeWhile_cons_of_pos (by simpa using hc), List.length_cons, List.length_cons,
        Nat.add_right_cancel_iff, ih, List.mem_cons, not_or]
      exact ⟨fun h => ⟨Ne.symm hc, h⟩, And.right⟩

theorem length_le_length_bytes {cs : List UInt32} (hvalid : ∀ c ∈ cs, IsValidChar c = true) :
    cs.length ≤ (cs.flatMap utf8).length := by
  induction cs with
  | nil => exact le_refl 0
  | cons c cs ih =>
    have hpos := (pos_GetByteCount_iff c).mpr (hvalid c List.mem_cons_self)
    have hle := ih fun c hc => hvalid c (List.mem_cons_of_mem _ hc)
    rw [List.flatMap_cons, List.length_append, length_utf8, List.length_cons]
    omega

theorem zero_mem_filter_iff {cs : List UInt32} : 0 ∈ cs.filter IsValidChar ↔ 0 ∈ cs := by
  rw [List.mem_filter]
  exact and_iff_left rfl

/-- The elements that are appended to an empty string are counted right if none of them is NUL. -/
theorem countRight_appendTaken (h : s.CountRight) (chars : List UInt32)
    (hfits : (s.appendTaken chars).data.length < 2147483648) :
    (s.appendTaken chars).CountRight ↔ (s.IsNullOrEmpty = true → 0 ∉ chars) := by
  have hvalid : ∀ c ∈ chars.filter IsValidChar, IsValidChar c = true :=
    fun c hc => (List.mem_filter.mp hc).2
  rw [appendTaken] at hfits ⊢
  split_ifs at hfits ⊢ with hbytes hempty
  · refine iff_of_true h fun _ hzero => ?_
    rw [List.flatMap_eq_nil_iff] at hbytes
    exact absurd (hbytes 0 hzero) (by decide)
  · have hlength : s.GetByteLength = 0 := by rw [GetByteLength, if_pos hempty]
    have hdata : (s.RealAppend (chars.flatMap utf8)).data =
        (chars.filter IsValidChar).flatMap utf8 ++ [0] := by
      rw [ElString.RealAppend, if_neg hbytes, flatMap_utf8_filter, hlength]
      rfl
    have hcount : (s.RealAppend (chars.flatMap utf8)).countChars =
        ((chars.filter IsValidChar).takeWhile (· ≠ 0)).length := by
      rw [countChars, hdata, length_passes_chars hvalid]
    have hle := length_le_length_bytes hvalid
    change (s.RealAppend (chars.flatMap utf8)).data.length < 2147483648 at hfits
    constructor
    · intro hright _
      have hright := hright (isCounted_SetCounted _ _)
      rw [counted_SetCounted, UInt32.toNat_ofNat'] at hright
      change _ = (s.RealAppend (chars.flatMap utf8)).countChars at hright
      rw [hdata, List.length_append, List.length_singleton] at hfits
      rw [hcount] at hright
      rw [← zero_mem_filter_iff, ← length_takeWhile_eq_iff]
      omega
    · intro hzero
      refine .of_SetCounted ?_ hfits
      rw [hcount, length_takeWhile_eq_iff.mpr (zero_mem_filter_iff.not.mpr (hzero hempty))]
  · exact iff_of_true (.of_zero rfl) fun h => absurd h hempty

/-! ### Formatting -/

/-- `UnlockBuffer` writes over the last byte only, which the loop of `GetLength` does not count. -/
theorem countRight_UnlockBuffer (hzero : s.mCharCount = 0) {numBytes : ℕ}
    (hlength : s.data.length = numBytes + 1) (hfits : s.data.length < 2147483648) :
    (s.UnlockBuffer numBytes).CountRight := by
  have hright := (CountRight.of_zero hzero).GetLength hfits
  rw [UnlockBuffer]
  simp only
  split_ifs
  · obtain ⟨bytes, b, hdata⟩ : ∃ bytes b, s.data = bytes ++ [b] :=
      ⟨_, _, (List.dropLast_concat_getLast (List.ne_nil_of_length_eq_add_one hlength)).symm⟩
    have htake : s.data.take numBytes = bytes := by
      rw [hdata, List.length_append, List.length_singleton, Nat.add_right_cancel_iff] at hlength
      rw [hdata, ← hlength, List.take_left]
    intro hcounted
    have hcount := hright hcounted
    rw [countChars, data, mString_GetLength] at hcount
    change s.GetLength.2.counted = (Scan.passes charLen (s.data.take numBytes ++ [0])).length
    rw [hcount, htake, Scan.length_passes_concat bytes 0 b, ← hdata]
    rfl
  · exact hright

theorem length_UnlockBuffer {numBytes : ℕ} (hlength : s.data.length = numBytes + 1) :
    (s.UnlockBuffer numBytes).data.length = numBytes + 1 := by
  rw [UnlockBuffer]
  simp only
  split_ifs
  · change (s.data.take numBytes ++ [0]).length = numBytes + 1
    rw [List.length_append, List.length_take, List.length_singleton]
    omega
  · rw [data, mString_GetLength]
    exact hlength

/-- What `AppendFormat` makes of the bytes is counted anew. -/
theorem countRight_formatted {data : List UInt8} {numBytes : ℕ} {s' : ElString}
    (hlength : data.length = numBytes + 1)
    (h : UnlockBuffer numBytes { s.ClearCounted with mString := some data } = s')
    (hfits : s'.data.length < 2147483648) : s'.CountRight := by
  subst h
  have hdata : (ElString.data { s.ClearCounted with mString := some data }).length =
      numBytes + 1 := hlength
  rw [length_UnlockBuffer hdata] at hfits
  exact countRight_UnlockBuffer rfl hdata (hdata ▸ hfits)

theorem countRight_AppendFormat {text : Option (List UInt8)} {s' : ElString}
    (h : s.AppendFormat text = some s') (hfits : s'.data.length < 2147483648) : s'.CountRight := by
  have hle := GetByteLength_le s.ClearCounted
  match text with
  | some [] => exact Option.some.inj h ▸ .of_zero rfl
  | some (b :: text) =>
    rw [AppendFormat] at h
    · refine countRight_formatted ?_ (Option.some.inj h) hfits
      rw [List.length_append, List.length_append, List.length_take, List.length_singleton]
      omega
    · exact nofun
  | none =>
    rw [AppendFormat] at h
    obtain ⟨hne, h⟩ := Option.ite_none_left_eq_some.mp h
    refine countRight_formatted ?_ (Option.some.inj h) hfits
    rw [List.length_take]
    omega

/-! ### Every call -/

/-- The calls that leave the count right. -/
def SparesCount (env : Platform) (st : ℕ → ElString) : Action → Prop
  | .construct _ (.chars32 array offset length) => 0 ∉ taken array offset length
  | .change v (.AppendArray array offset length) =>
    (st v).IsNullOrEmpty = true → 0 ∉ taken array offset length
  | .query v (.ByteIndexOf target) => (st v).ByteIndexOfMisses env target = false
  | .derive _ other d => 0 ∉ d.newChars env (st other)
  | _ => True

/-- What every variable keeps. -/
structure Counts (s : ElString) : Prop where
  right : s.CountRight
  fits : s.data.length < 2147483648

theorem Counts.GetLength (h : s.Counts) : s.GetLength.2.Counts := by
  refine ⟨h.right.GetLength h.fits, ?_⟩
  rw [data, mString_GetLength]
  exact h.fits

/-- Nothing is counted in an empty string. -/
theorem countRight_newString (chars : List UInt32)
    (hfits : (appendTaken chars { mString := some [0] }).data.length < 2147483648) :
    (appendTaken chars { mString := some [0] }).CountRight ↔ 0 ∉ chars :=
  (countRight_appendTaken (.of_zero rfl) chars hfits).trans ⟨fun h => h rfl, fun h _ => h⟩

theorem IsPieceOf.countRight {made : ElString} (h : s.IsPieceOf made) : made.CountRight := by
  rcases h with rfl | ⟨bytes, rfl, -⟩ <;> exact .of_zero rfl

theorem countRight_make {v : ℕ} (source : Source) (hfits : source.make.data.length < 2147483648) :
    source.make.CountRight ↔ SparesCount env st (.construct v source) := by
  cases source with
  | null => exact iff_of_true (.of_zero rfl) trivial
  | chars other => exact iff_of_true (.of_zero rfl) trivial
  | charsN other =>
    refine iff_of_true (.of_zero ?_) trivial
    change (ofCharsN other).mCharCount = 0
    match other with
    | none | some [] | some (b :: bytes) => rfl
  | chars32 array offset length =>
    change (ofArray array offset length).CountRight ↔ 0 ∉ taken array offset length
    change (ofArray array offset length).data.length < _ at hfits
    rw [ofArray, AppendArray_snd] at hfits ⊢
    exact countRight_newString _ hfits
  | bytes array offset =>
    refine iff_of_true (.of_zero ?_) trivial
    change (ofBytes array offset).mCharCount = 0
    rw [ofBytes]
    split_ifs <;> rfl
  | bytesN array offset length =>
    refine iff_of_true (.of_zero ?_) trivial
    change (ofBytesN array offset length).mCharCount = 0
    rw [ofBytesN]
    split_ifs <;> rfl

theorem countRight_change {c : Change} {v : ℕ} (h : (st v).CountRight)
    (hresult : c.apply (st v) = some s) (hfits : s.data.length < 2147483648) :
    s.CountRight ↔ SparesCount env st (.change v c) := by
  cases c with
  | SetToChars other =>
    obtain rfl := Option.some.inj hresult
    refine iff_of_true ?_ trivial
    cases other with
    | some other => exact .of_zero rfl
    | none =>
      rw [SetToChars]
      split_ifs
      · exact h
      · exact .of_SetCounted (n := 0) rfl (show 0 < 2147483648 by decide)
  | AppendChars other =>
    obtain rfl := Option.some.inj hresult
    exact iff_of_true (h.AppendN _) trivial
  | AppendChar ch =>
    obtain rfl := Option.some.inj hresult
    refine iff_of_true ?_ trivial
    rw [AppendChar]
    split_ifs
    · exact h.AppendN _
    · exact h
  | AppendArray array offset length =>
    obtain rfl := Option.some.inj hresult
    rw [AppendArray_snd] at hfits ⊢
    exact countRight_appendTaken h _ hfits
  | AppendFormat text => exact iff_of_true (countRight_AppendFormat hresult hfits) trivial

theorem countRight_combine {c : Combination} {other : ElString} (h : s.CountRight)
    (hother : other.CountRight) : (c.apply other s).CountRight := by
  cases c with
  | SetTo => exact hother
  | AppendString =>
    change (AppendString other s).CountRight
    rw [AppendString]
    split_ifs
    · exact hother
    · exact h.RealAppend _
  | AppendFrom charOffset =>
    change (AppendFrom other charOffset s).2.CountRight
    rw [AppendFrom]
    simp only
    split_ifs
    · exact h
    · exact h
    · exact h.AppendN _
  | AppendRange offset numOfChars =>
    change (AppendRange other offset numOfChars s).2.CountRight
    rw [AppendRange]
    simp only
    split_ifs
    · exact h
    · exact h
    · exact h
    · exact h.AppendN _

theorem countRight_query {v : ℕ} (h : (st v).Counts) (q : Query) :
    (q.leaves env (st v)).CountRight ↔ SparesCount env st (.query v q) := by
  by_cases hq : ∃ target, q = .ByteIndexOf target
  · obtain ⟨target, rfl⟩ := hq
    exact countRight_ByteIndexOf h.right h.fits target
  · have hspares : SparesCount env st (.query v q) := by
      cases q with
      | ByteIndexOf target => exact absurd ⟨target, rfl⟩ hq
      | _ => trivial
    refine iff_of_true ?_ hspares
    rcases leaves_cases env q (st v) with hleaves | hleaves | ⟨target, rfl, -⟩
    · rw [hleaves]
      exact h.right
    · rw [hleaves]
      exact h.GetLength.right
    · exact absurd ⟨target, rfl⟩ hq

theorem countRight_derive {v other : ℕ} {d : Derivation} (h : (st other).Counts)
    (hfits : (d.apply env (st other)).1.data.length < 2147483648) :
    (d.apply env (st other)).1.CountRight ↔ SparesCount env st (.derive v other d) := by
  change _ ↔ 0 ∉ d.newChars env (st other)
  rcases fst_apply_cases env d (st other) with hnew | ⟨hnil, hleft | hpiece⟩
  · rw [hnew] at hfits ⊢
    exact countRight_newString _ hfits
  · rw [hnil, hleft]
    exact iff_of_true h.GetLength.right List.not_mem_nil
  · rw [hnil]
    exact iff_of_true hpiece.countRight List.not_mem_nil

/-- What a call writes has its count right if it is one of those that leave the counts right. -/
theorem countRight_result {a : Action} (hst : ∀ u, (st u).Counts) (hresult : result env st a = some s)
    (hfits : s.data.length < 2147483648) : s.CountRight ↔ SparesCount env st a := by
  cases a with
  | construct v source =>
    obtain rfl := Option.some.inj hresult
    exact countRight_make source hfits
  | change v c => exact countRight_change (hst v).right hresult hfits
  | combine v other c =>
    obtain rfl := Option.some.inj hresult
    exact iff_of_true (countRight_combine (hst v).right (hst other).right) trivial
  | query v q =>
    obtain rfl := Option.some.inj hresult
    exact countRight_query (hst v) q
  | derive v other d =>
    obtain rfl := Option.some.inj hresult
    exact countRight_derive (hst other) hfits

/-- The variable whose bytes a call may change. -/
def Action.changed : Action → Option ℕ
  | .query _ _ => none
  | a => some a.target

/-- The counts that are set are right, and the lengths are what they were but for a string that the
call changes. -/
structure CountSound (st : ℕ → ElString) (a : Action) (st' : ℕ → ElString) : Prop where
  right : ∀ u, (st' u).CountRight
  length : ∀ u, a.changed ≠ some u → (st' u).GetLength.1 = (st u).GetLength.1

theorem mString_step {a : Action} {u : ℕ} (hresult : result env st a = some s)
    (h : Function.update (passed env st a) a.target s = st') (hu : a.changed ≠ some u) :
    (st' u).mString = (st u).mString := by
  subst h
  rw [Function.update_apply]
  cases a with
  | query v q =>
    obtain rfl := Option.some.inj hresult
    split_ifs with hv
    · rw [mString_leaves]
      exact congrArg _ (congrArg st hv.symm)
    · rfl
  | derive v other d =>
    rw [if_neg fun hv => hu (congrArg some hv.symm), passed, Function.update_apply]
    split_ifs with hother
    · rcases snd_apply_cases env d (st other) with h | h
      · rw [h, hother]
      · rw [h, hother, mString_GetLength]
    · rfl
  | construct v source => rw [if_neg fun hv => hu (congrArg some hv.symm), passed]; exact fun _ _ _ h => by cases h
  | change v c => rw [if_neg fun hv => hu (congrArg some hv.symm), passed]; exact fun _ _ _ h => by cases h
  | combine v other c => rw [if_neg fun hv => hu (congrArg some hv.symm), passed]; exact fun _ _ _ h => by cases h

/-- One call: exactly the calls that spare the counts leave them right. -/
theorem countSound_iff_sparesCount {a : Action} (hst : ∀ u, (st u).Counts) :
    (∃ st', step env st a = some st' ∧ CountSound st a st') ↔
      (step env st a).isSome ∧ SparesCount env st a := by
  constructor
  · rintro ⟨st', hstep, hsound⟩
    obtain ⟨s, hresult, hfits, h⟩ := step_eq_some_iff.mp hstep
    refine ⟨hstep ▸ rfl, (countRight_result hst hresult hfits).mp ?_⟩
    have htarget := hsound.right a.target
    rwa [← h, Function.update_self] at htarget
  · rintro ⟨hsome, hspares⟩
    obtain ⟨st', hstep⟩ := Option.isSome_iff_exists.mp hsome
    obtain ⟨s, hresult, hfits, h⟩ := step_eq_some_iff.mp hstep
    have hright := (countRight_result hst hresult hfits).mpr hspares
    have hcounts := (step_forall_iff hst (fun s => Counts.GetLength) hresult h).mpr ⟨hright, hfits⟩
    exact ⟨st', hstep, fun u => (hcounts u).right, fun u hu =>
      fst_GetLength_congr (hst u).right (hcounts u).right (mString_step hresult h hu)⟩

/-- **The counts of all strings are right** after every call of a run, and no query changes a length,
exactly if the run spares them. -/
theorem countSound_iff (env : Platform) (as : List Action) :
    Trace.Meets (step env) (fun st a => ∃ st', step env st a = some st' ∧ CountSound st a st')
        fresh as ↔
      Trace.Meets (step env) (fun st a => (step env st a).isSome ∧ SparesCount env st a)
        fresh as := by
  refine Trace.meets_iff (I := fun st => ∀ u, (st u).Counts)
    (fun st a hst => countSound_iff_sparesCount hst) (fun st a st' hst hok hstep => ?_)
    fun u => ⟨.of_zero rfl, show 0 < 2147483648 by decide⟩
  obtain ⟨s, hresult, hfits, h⟩ := step_eq_some_iff.mp hstep
  have hspares := (countSound_iff_sparesCount hst).mp hok
  exact (step_forall_iff hst (fun s => Counts.GetLength) hresult h).mpr
    ⟨(countRight_result hst hresult hfits).mpr hspares.2, hfits⟩

/-- A search for what is not in `abc` makes its length 2147483647. -/
theorem ByteIndexOf_miscounts : ∃ st, Trace.run (step ⟨true, fun b => b = 32, id, id⟩) fresh
      [.construct 0 (.chars (some ⟨[97, 98, 99], by decide⟩)), .query 0 (.ByteIndexOf 120)] =
        some st ∧
    ¬ (st 0).CountRight ∧ (st 0).countChars = 3 ∧ (st 0).GetLength.1 = 2147483647 := by
  have hrun : (Trace.run (step ⟨true, fun b => b = 32, id, id⟩) fresh
      [.construct 0 (.chars (some ⟨[97, 98, 99], by decide⟩)), .query 0 (.ByteIndexOf 120)]).map
        (fun st => ((st 0).IsCounted, (st 0).counted, (st 0).countChars, (st 0).GetLength.1)) =
      some (true, 2147483647, 3, 2147483647) := by
    decide +kernel
  obtain ⟨st, hst, hvalues⟩ := Option.map_eq_some_iff.mp hrun
  simp only [Prod.mk.injEq] at hvalues
  obtain ⟨hset, hcounted, hchars, hlength⟩ := hvalues
  refine ⟨st, hst, fun hright => ?_, hchars, hlength⟩
  have hcount := hright hset
  rw [hcounted, hchars] at hcount
  exact absurd hcount (by decide)

end ElString

end ElastosCar
