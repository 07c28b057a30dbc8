import ElastosCar.Strings.RoundTrip
import ElastosCar.Strings.Variables

/-!
# The terminator of a `String`

The functions that measure a string with `strlen` agree with those that use the size of its buffer
where the last byte of the buffer is the only NUL (`Terminated`). A string is made from bytes or from
characters that are given, and the buffer holds a NUL more where one of them is NUL; nothing looks
for that but `Append(const char*, Int32)`, and not for an empty string.

Only `AppendFormat` can lose the terminator: where `vsnprintf` fails, the buffer is made a byte
shorter, and the last byte that is left is overwritten if the number of the bytes is not the number
of the characters.
-/

namespace ElastosCar

namespace ElString

def strlen (data : List UInt8) : ℕ := (data.takeWhile (· ≠ 0)).length

/-- The last byte of the buffer is NUL, and no other is. -/
def Terminated (s : ElString) : Prop :=
  ∀ data, s.mString = some data → ∃ bytes, data = bytes ++ [0] ∧ 0 ∉ bytes

variable {env : Platform} {st st' : ℕ → ElString} {s : ElString}

theorem terminated_of_mString {s' : ElString} (h : s'.mString = s.mString) :
    s'.Terminated ↔ s.Terminated := by
  rw [Terminated, Terminated, h]

theorem terminated_iff {bytes : List UInt8} (h : s.mString = some (bytes ++ [0])) :
    s.Terminated ↔ 0 ∉ bytes := by
  constructor
  · intro hterminated
    obtain ⟨bytes', hbytes, hzero⟩ := hterminated _ h
    rwa [List.append_cancel_right hbytes]
  · intro hzero data hdata
    exact ⟨bytes, Option.some.inj (hdata.symm.trans h), hzero⟩

theorem terminated_null (h : s.mString = none) : s.Terminated :=
  fun _ hdata => nomatch h.symm.trans hdata

/-- What leaves `AppendFormat` with one NUL, at the end. -/
def FormatSpared (s : ElString) : Option (List UInt8) → Prop
  | some text => 0 ∉ text
  | none => ∃ b ∈ s.data.take (s.GetByteLength - 1), IsASCII b = false

namespace Terminated

/-- `GetByteLength` is `strlen`. -/
theorem getByteLength (h : s.Terminated) : s.GetByteLength = strlen s.data := by
  rw [GetByteLength, IsNullOrEmpty, data]
  cases hstring : s.mString with
  | none => rfl
  | some data =>
    obtain ⟨bytes, rfl, hzero⟩ := h data hstring
    have hstrlen : strlen (bytes ++ [0]) = bytes.length := by
      rw [strlen, List.takeWhile_append_of_pos]
      · simp
      · intro b hb
        exact decide_eq_true (ne_of_mem_of_not_mem hb hzero)
    rw [Option.getD_some, hstrlen]
    cases bytes with
    | nil => rfl
    | cons b bytes =>
      have hb : b ≠ 0 := ne_of_mem_of_not_mem List.mem_cons_self hzero
      simp [hb]

theorem take_getByteLength (h : s.Terminated) : 0 ∉ s.data.take s.GetByteLength := by
  intro hmem
  cases hstring : s.mString with
  | none =>
    rw [data, hstring] at hmem
    simp at hmem
  | some data =>
    obtain ⟨bytes, rfl, hzero⟩ := h data hstring
    have hle := GetByteLength_le s
    rw [ElString.data, hstring, Option.getD_some, List.length_append, List.length_singleton,
      Nat.add_sub_cancel] at hle
    rw [ElString.data, hstring, Option.getD_some, List.take_append_of_le_length hle] at hmem
    exact hzero (List.mem_of_mem_take hmem)

theorem dropLast (h : s.Terminated) : 0 ∉ s.data.dropLast := by
  cases hstring : s.mString with
  | none =>
    rw [data, hstring]
    exact List.not_mem_nil
  | some data =>
    obtain ⟨bytes, rfl, hzero⟩ := h data hstring
    rwa [ElString.data, hstring, Option.getD_some, List.dropLast_concat]

theorem getByteLength_eq_zero_iff (h : s.Terminated) :
    s.GetByteLength = 0 ↔ s.IsNullOrEmpty = true := by
  rw [GetByteLength]
  split_ifs with hempty
  · exact iff_of_true rfl hempty
  · refine iff_of_false (fun hzero => hempty ?_) hempty
    cases hstring : s.mString with
    | none => rw [IsNullOrEmpty, hstring]; rfl
    | some data =>
      obtain ⟨bytes, rfl, -⟩ := h data hstring
      rw [hstring, Option.elim_some, List.length_append, List.length_singleton,
        Nat.add_sub_cancel, List.length_eq_zero_iff] at hzero
      rw [IsNullOrEmpty, hstring, hzero]
      rfl

/-! ### Appending -/

theorem RealAppend_iff (h : s.Terminated) (other : List UInt8) :
    (s.RealAppend other).Terminated ↔ 0 ∉ other := by
  rw [ElString.RealAppend]
  split_ifs with hnil
  · exact iff_of_true h (hnil ▸ List.not_mem_nil)
  · rw [terminated_iff rfl, List.mem_append, not_or]
    exact and_iff_right h.take_getByteLength

/-- Only an empty string takes a NUL with the bytes. -/
theorem AppendN_iff (h : s.Terminated) (other : List UInt8) :
    (s.AppendN other).Terminated ↔ (s.IsNullOrEmpty = true → 0 ∉ other) := by
  rw [ElString.AppendN]
  split_ifs with hnil hempty
  · exact iff_of_true h fun _ => hnil ▸ List.not_mem_nil
  · rw [h.getByteLength_eq_zero_iff] at hempty
    have hstring : (s.SetToCharsN other).mString = some (other ++ [0]) :=
      congrArg some (_allocFromUTF8_eq other)
    rw [terminated_iff hstring]
    exact ⟨fun hzero _ => hzero, fun hzero => hzero hempty⟩
  · rw [h.getByteLength_eq_zero_iff] at hempty
    refine iff_of_true ((h.RealAppend_iff _).mpr fun hmem => ?_) fun h => absurd h hempty
    exact absurd (List.mem_takeWhile_imp hmem) (by decide)

theorem appendTaken_iff (h : s.Terminated) (chars : List UInt32) :
    (s.appendTaken chars).Terminated ↔ 0 ∉ chars := by
  have hzero : 0 ∉ chars.flatMap utf8 ↔ 0 ∉ chars := by
    rw [List.mem_flatMap]
    constructor
    · exact fun hbytes hmem => hbytes ⟨0, hmem, (zero_mem_utf8_iff 0).mpr rfl⟩
    · rintro hchars ⟨c, hmem, hc⟩
      exact hchars ((zero_mem_utf8_iff c).mp hc ▸ hmem)
  rw [appendTaken]
  split_ifs with hnil hempty
  · refine iff_of_true h (hzero.mp (hnil ▸ List.not_mem_nil))
  · exact (terminated_of_mString rfl).trans ((h.RealAppend_iff _).trans hzero)
  · exact (terminated_of_mString rfl).trans ((h.RealAppend_iff _).trans hzero)

theorem zero_notMem_take_terminated {data : List UInt8} {k : ℕ}
    (hk : k ≤ (data.takeWhile (· ≠ 0)).length) : 0 ∉ (terminated data).take k := by
  intro hmem
  rw [terminated, List.take_append_of_le_length hk] at hmem
  exact absurd (List.mem_takeWhile_imp (List.mem_of_mem_take hmem)) (by decide)

/-- The bytes that `Append` of a range takes end before the terminator that `strlen` finds. -/
theorem zero_notMem_range (data : List UInt8) (startByte k : ℕ) :
    0 ∉ ((terminated data).drop startByte).take (((places (terminated data))[k]?).elim
      ((terminated data).length - 1) (fun p => (terminated data).length - p.length) - startByte) := by
  intro hmem
  have hlength : (terminated data).length = (data.takeWhile (· ≠ 0)).length + 1 :=
    List.length_append
  have hend : ((places (terminated data))[k]?).elim ((terminated data).length - 1)
      (fun p => (terminated data).length - p.length) ≤ (data.takeWhile (· ≠ 0)).length := by
    cases hp : (places (terminated data))[k]? with
    | none => rw [Option.elim_none, hlength, Nat.add_sub_cancel]
    | some p =>
      have hp := (List.mem_filter.mp (List.mem_of_getElem? hp)).2
      have hne : p ≠ [] := by
        rintro rfl
        exact absurd hp (by decide)
      have hpos := List.length_pos_iff.mpr hne
      rw [Option.elim_some]
      omega
  rw [← List.drop_take] at hmem
  exact zero_notMem_take_terminated hend (List.mem_of_mem_drop hmem)

theorem apply_combination {other : ElString} (h : s.Terminated) (hother : other.Terminated)
    (c : Combination) : (c.apply other s).Terminated := by
  cases c with
  | SetTo => exact hother
  | AppendString =>
    change (AppendString other s).Terminated
    rw [AppendString]
    split_ifs
    · exact hother
    · exact (h.RealAppend_iff _).mpr hother.take_getByteLength
  | AppendFrom charOffset =>
    change (AppendFrom other charOffset s).2.Terminated
    rw [AppendFrom]
    simp only
    split_ifs
    · exact h
    · exact h
    · refine (h.AppendN_iff _).mpr fun _ hmem => hother.take_getByteLength ?_
      rw [← List.drop_take] at hmem
      exact List.mem_of_mem_drop hmem
  | AppendRange offset numOfChars =>
    change (AppendRange other offset numOfChars s).2.Terminated
    rw [AppendRange]
    simp only
    split_ifs
    · exact h
    · exact h
    · exact h
    · exact (h.AppendN_iff _).mpr fun _ => zero_notMem_range _ _ _

/-! ### Formatting -/

theorem UnlockBuffer_iff {numBytes : ℕ} {bytes : List UInt8}
    (hdata : s.mString = some (bytes ++ [0])) (hlength : numBytes = bytes.length) :
    (s.UnlockBuffer numBytes).Terminated ↔ 0 ∉ bytes := by
  rw [UnlockBuffer]
  simp only
  split_ifs
  · refine terminated_iff ?_
    rw [data, hdata, Option.getD_some, hlength, List.take_left]
  · rw [terminated_of_mString (mString_GetLength s), terminated_iff hdata]

theorem charLen_eq_one_iff : ∀ b : UInt8, b ≠ 0 → (charLen b = 1 ↔ IsASCII b = true) := by
  decide +kernel

/-- The buffer without its terminator: the last byte is overwritten where the bytes before it are not
one for each character. -/
theorem UnlockBuffer_shorter_iff (hzero : s.mCharCount = 0) {bytes : List UInt8} {b : UInt8}
    (hdata : s.mString = some (bytes ++ [b])) (hmem : 0 ∉ bytes ++ [b]) :
    (s.UnlockBuffer bytes.length).Terminated ↔ ∃ c ∈ bytes, IsASCII c = false := by
  have hne : ∀ c ∈ bytes ++ [b], c ≠ 0 := fun c hc => ne_of_mem_of_not_mem hc hmem
  have hempty : ¬ s.IsNullOrEmpty = true := by
    obtain ⟨c, rest, hcons⟩ := List.exists_cons_of_ne_nil (List.concat_ne_nil b bytes)
    have hc := hne c (hcons ▸ List.mem_cons_self)
    rw [IsNullOrEmpty, hdata, hcons]
    exact fun h => hc (of_decide_eq_true h)
  have hlength : s.GetLength.1 = (Scan.passes charLen (bytes ++ [b])).length := by
    rw [GetLength, if_neg hempty, if_neg (not_isCounted_of_zero hzero), countChars, data, hdata]
    rfl
  have hascii : (Scan.passes charLen (bytes ++ [b])).length = bytes.length ↔
      ¬ ∃ c ∈ bytes, IsASCII c = false := by
    rw [Scan.length_passes_concat_eq_iff]
    constructor
    · rintro hone ⟨c, hc, hnot⟩
      have hc' := (charLen_eq_one_iff c (hne c (List.mem_append_left _ hc))).mp (hone c hc)
      exact Bool.false_ne_true (hnot.symm.trans hc')
    · intro hnot c hc
      refine (charLen_eq_one_iff c (hne c (List.mem_append_left _ hc))).mpr ?_
      by_contra hfalse
      exact hnot ⟨c, hc, Bool.not_eq_true _ ▸ hfalse⟩
  rw [UnlockBuffer]
  simp only
  split_ifs with hcount
  · rw [hlength, ne_comm, ne_eq, hascii, not_not] at hcount
    refine iff_of_true ((terminated_iff ?_).mpr fun h => hmem (List.mem_append_left _ h)) hcount
    rw [data, hdata, Option.getD_some, List.take_left]
  · rw [not_ne_iff, hlength] at hcount
    refine iff_of_false (fun hterminated => ?_) (hascii.mp hcount.symm)
    obtain ⟨bytes', hbytes, -⟩ := hterminated _ ((mString_GetLength s).trans hdata)
    have hlast := (List.append_inj' hbytes rfl).2
    exact hne b (List.mem_append_right _ List.mem_cons_self) (List.singleton_inj.mp hlast)

theorem AppendFormat_iff (h : s.Terminated) {text : Option (List UInt8)} {s' : ElString}
    (hformat : s.AppendFormat text = some s') : s'.Terminated ↔ s.FormatSpared text := by
  have hbytes := h.take_getByteLength
  match text with
  | some [] => exact iff_of_true (Option.some.inj hformat ▸ h) List.not_mem_nil
  | some (b :: text) =>
    rw [AppendFormat] at hformat
    · obtain rfl := Option.some.inj hformat
      refine (UnlockBuffer_iff rfl ?_).trans ?_
      · have hle := GetByteLength_le s.ClearCounted
        rw [List.length_append, List.length_take]
        omega
      · rw [List.mem_append, not_or]
        exact and_iff_right hbytes
    · exact nofun
  | none =>
    rw [AppendFormat] at hformat
    obtain ⟨hne, hformat⟩ := Option.ite_none_left_eq_some.mp hformat
    obtain rfl := Option.some.inj hformat
    have hlength : (s.data.take s.GetByteLength).length = s.GetByteLength := by
      have hle := GetByteLength_le s
      rw [List.length_take]
      omega
    have hpos : s.data.take s.GetByteLength ≠ [] := by
      intro hnil
      rw [hnil] at hlength
      exact hne hlength.symm
    have hsplit := List.dropLast_concat_getLast hpos
    have hinit : (s.data.take s.GetByteLength).dropLast = s.data.take (s.GetByteLength - 1) := by
      rw [List.dropLast_eq_take, List.take_take, hlength, Nat.min_eq_left (Nat.sub_le _ _)]
    have hcount : s.GetByteLength - 1 = (s.data.take (s.GetByteLength - 1)).length := by
      rw [← hinit, List.length_dropLast, hlength]
    rw [← hsplit, hinit] at hbytes
    have hiff := UnlockBuffer_shorter_iff (s := { s.ClearCounted with
      mString := some (s.data.take s.GetByteLength) }) rfl
      (congrArg some (hinit ▸ hsplit.symm)) hbytes
    rw [← hcount] at hiff
    exact hiff

end Terminated

/-! ### Every call -/

/-- The bytes and characters that are given to a constructor hold no NUL. -/
def Source.NulFree : Source → Prop
  | null | chars _ => True
  | charsN other => 0 ∉ other.getD []
  | chars32 array offset length => 0 ∉ taken array offset length
  | bytes array offset => 0 ≤ offset → 0 ∉ array.drop offset.toNat
  | bytesN array offset length =>
    0 ≤ offset → offset + length ≤ array.length → 0 ∉ (array.drop offset.toNat).take length.toNat

/-- The calls that leave one NUL in every buffer, at its end. -/
def SparesTerminator (env : Platform) (st : ℕ → ElString) : Action → Prop
  | .construct _ source => source.NulFree
  | .change v (.AppendChar ch) => ch = 0 → (st v).IsNullOrEmpty = false
  | .change _ (.AppendArray array offset length) => 0 ∉ taken array offset length
  | .change v (.AppendFormat text) => (st v).FormatSpared text
  | .derive _ other d => 0 ∉ d.newChars env (st other)
  | .change _ (.SetToChars _) | .change _ (.AppendChars _) | .combine _ _ _ | .query _ _ => True

theorem terminated_empty : Terminated { mString := some [0] } :=
  (terminated_iff (show _ = some ([] ++ [0]) from rfl)).mpr List.not_mem_nil

theorem terminated_alloc_iff (bytes : List UInt8) :
    Terminated { mString := some (_allocFromUTF8 bytes) } ↔ 0 ∉ bytes :=
  terminated_iff (congrArg some (_allocFromUTF8_eq bytes))

theorem terminated_make_iff (source : Source) : source.make.Terminated ↔ source.NulFree := by
  cases source with
  | null => exact iff_of_true (terminated_null rfl) trivial
  | chars other =>
    refine iff_of_true ?_ trivial
    cases other with
    | none => exact terminated_null rfl
    | some other => exact (terminated_alloc_iff other.chars).mpr other.zero_notMem
  | charsN other =>
    match other with
    | none | some [] => exact iff_of_true (terminated_null rfl) List.not_mem_nil
    | some (b :: bytes) => exact terminated_alloc_iff (b :: bytes)
  | chars32 array offset length =>
    change (ofArray array offset length).Terminated ↔ 0 ∉ taken array offset length
    rw [ofArray, AppendArray_snd]
    exact terminated_empty.appendTaken_iff _
  | bytes array offset =>
    change (ofBytes array offset).Terminated ↔ (0 ≤ offset → 0 ∉ array.drop offset.toNat)
    rw [ofBytes]
    split_ifs with h
    · rw [terminated_alloc_iff]
      exact ⟨fun hzero _ => hzero, fun hzero => hzero h.1⟩
    · refine iff_of_true (terminated_null rfl) fun hoffset => ?_
      rw [List.drop_eq_nil_of_le (by omega)]
      exact List.not_mem_nil
  | bytesN array offset length =>
    change (ofBytesN array offset length).Terminated ↔ (0 ≤ offset → offset + length ≤ array.length →
      0 ∉ (array.drop offset.toNat).take length.toNat)
    rw [ofBytesN]
    split_ifs with h
    · rw [terminated_alloc_iff]
      exact ⟨fun hzero _ _ => hzero, fun hzero => hzero h.1 h.2.2.2⟩
    · refine iff_of_true (terminated_null rfl) fun hoffset hlength => ?_
      rw [Int.toNat_of_nonpos (by omega), List.take_zero]
      exact List.not_mem_nil

theorem terminated_change_iff {c : Change} {v : ℕ} (h : (st v).Terminated)
    (hresult : c.apply (st v) = some s) : s.Terminated ↔ SparesTerminator env st (.change v c) := by
  cases c with
  | SetToChars other =>
    obtain rfl := Option.some.inj hresult
    refine iff_of_true ?_ trivial
    cases other with
    | some other => exact (terminated_alloc_iff other.chars).mpr other.zero_notMem
    | none =>
      rw [SetToChars]
      split_ifs
      · exact h
      · exact terminated_null rfl
  | AppendChars other =>
    obtain rfl := Option.some.inj hresult
    exact iff_of_true ((h.AppendN_iff _).mpr fun _ => other.zero_notMem) trivial
  | AppendChar ch =>
    obtain rfl := Option.some.inj hresult
    change _ ↔ (ch = 0 → (st v).IsNullOrEmpty = false)
    rw [AppendChar]
    split_ifs with hvalid
    · rw [h.AppendN_iff, zero_mem_utf8_iff, ← Bool.not_eq_true]
      exact ⟨fun hne hzero hempty => hne hempty hzero, fun hne hempty hzero => hne hzero hempty⟩
    · refine iff_of_true h fun hzero => absurd ?_ hvalid
      rw [hzero]
      rfl
  | AppendArray array offset length =>
    obtain rfl := Option.some.inj hresult
    rw [AppendArray_snd]
    exact h.appendTaken_iff _
  | AppendFormat text => exact h.AppendFormat_iff hresult

theorem terminated_derive_iff {v other : ℕ} {d : Derivation} (h : (st other).Terminated) :
    (d.apply env (st other)).1.Terminated ↔ SparesTerminator env st (.derive v other d) := by
  change _ ↔ 0 ∉ d.newChars env (st other)
  rcases fst_apply_cases env d (st other) with hnew | ⟨hnil, hleft | hpiece⟩
  · rw [hnew]
    exact terminated_empty.appendTaken_iff _
  · rw [hnil, hleft, terminated_of_mString (mString_GetLength (st other))]
    exact iff_of_true h List.not_mem_nil
  · rw [hnil]
    refine iff_of_true ?_ List.not_mem_nil
    rcases hpiece with hnull | ⟨bytes, hbytes, hzero⟩
    · rw [hnull]
      exact terminated_null rfl
    · rw [hbytes]
      exact (terminated_iff rfl).mpr (hzero h.dropLast)

/-- What a call writes is terminated if it is one of those that leave the terminators alone. -/
theorem terminated_result_iff {a : Action} (hst : ∀ u, (st u).Terminated)
    (hresult : result env st a = some s) : s.Terminated ↔ SparesTerminator env st a := by
  cases a with
  | construct v source =>
    obtain rfl := Option.some.inj hresult
    exact terminated_make_iff source
  | change v c => exact terminated_change_iff (hst v) hresult
  | combine v other c =>
    obtain rfl := Option.some.inj hresult
    exact iff_of_true ((hst v).apply_combination (hst other) c) trivial
  | query v q =>
    obtain rfl := Option.some.inj hresult
    exact iff_of_true ((terminated_of_mString (mString_leaves q (st v))).mpr (hst v)) trivial
  | derive v other d =>
    obtain rfl := Option.some.inj hresult
    exact terminated_derive_iff (hst other)

theorem terminated_step_iff {a : Action} (hst : ∀ u, (st u).Terminated)
    (hstep : step env st a = some st') : (∀ u, (st' u).Terminated) ↔ SparesTerminator env st a := by
  obtain ⟨s, hresult, -, h⟩ := step_eq_some_iff.mp hstep
  rw [step_forall_iff hst (fun s hs => (terminated_of_mString (mString_GetLength s)).mpr hs)
    hresult h]
  exact terminated_result_iff hst hresult

/-- **Every string keeps its terminator**, and `GetByteLength` is `strlen`, after every call of a
run, exactly if the run spares the terminators. -/
theorem terminated_run_iff (env : Platform) (as : List Action) :
    Trace.Meets (step env) (fun st a => ∃ st', step env st a = some st' ∧
        ∀ u, (st' u).Terminated ∧ (st' u).GetByteLength = strlen (st' u).data) fresh as ↔
      Trace.Meets (step env) (fun st a => (step env st a).isSome ∧ SparesTerminator env st a)
        fresh as := by
  refine Trace.meets_iff (I := fun st => ∀ u, (st u).Terminated) (fun st a hst => ?_)
    (fun st a st' hst hok hstep => ?_) fun u => terminated_null rfl
  · constructor
    · rintro ⟨st', hstep, hall⟩
      exact ⟨hstep ▸ rfl, (terminated_step_iff hst hstep).mp fun u => (hall u).1⟩
    · rintro ⟨hsome, hspares⟩
      obtain ⟨st', hstep⟩ := Option.isSome_iff_exists.mp hsome
      have hall := (terminated_step_iff hst hstep).mpr hspares
      exact ⟨st', hstep, fun u => ⟨hall u, (hall u).getByteLength⟩⟩
  · obtain ⟨t, ht, hall⟩ := hok
    obtain rfl := Option.some.inj (hstep.symm.trans ht)
    exact fun u => (hall u).1

/-- Three bytes of which the second is NUL: `GetByteLength` is 3, and `strlen` 1. -/
theorem not_terminated_charsN : ∃ st, Trace.run (step ⟨true, fun b => b = 32, id, id⟩) fresh
      [.construct 0 (.charsN (some [97, 0, 98]))] = some st ∧
    ¬ (st 0).Terminated ∧ (st 0).GetByteLength = 3 ∧ strlen (st 0).data = 1 := by
  obtain ⟨st, hst, hzero⟩ : ∃ st, Trace.run (step ⟨true, fun b => b = 32, id, id⟩) fresh
      [.construct 0 (.charsN (some [97, 0, 98]))] = some st ∧
        st 0 = { mString := some ([97, 0, 98] ++ [0]) } := ⟨_, rfl, rfl⟩
  refine ⟨st, hst, fun hterminated => ?_, by rw [hzero]; rfl, by rw [hzero]; rfl⟩
  rw [hzero] at hterminated
  exact (terminated_iff rfl).mp hterminated (by decide)

end ElString

end ElastosCar
