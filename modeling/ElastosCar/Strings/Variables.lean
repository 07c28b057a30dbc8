import ElastosCar.Lib.Trace
import ElastosCar.Strings.ElString

/-!
# `String` variables

What a program does with its `String` variables: it makes one with a constructor, changes one, copies
or appends one to another, asks one for something, and makes one from another. A query may write the
count of the string that it is asked of, and nothing else.

The variables begin as `String()`. Lengths are `Int32`, so that a call that would need a buffer of
2^31 bytes or more does not go through.
-/

namespace ElastosCar

namespace ElString

/-- A constructor with its arguments. -/
inductive Source
  | null
  | chars (other : Option CString)
  | charsN (other : Option (List UInt8))
  | chars32 (array : List UInt32) (offset length : ℤ)
  | bytes (array : List UInt8) (offset : ℤ)
  | bytesN (array : List UInt8) (offset length : ℤ)
deriving DecidableEq, Repr

def Source.make : Source → ElString
  | null => {}
  | chars other => ofChars other
  | charsN other => ofCharsN other
  | chars32 array offset length => ofArray array offset length
  | bytes array offset => ofBytes array offset
  | bytesN array offset length => ofBytesN array offset length

/-- A change of a string by something that is no `String`. -/
inductive Change
  /-- `operator=(const char*)` -/
  | SetToChars (other : Option CString)
  | AppendChars (other : CString)
  | AppendChar (ch : UInt32)
  | AppendArray (array : List UInt32) (offset length : ℤ)
  | AppendFormat (text : Option (List UInt8))
deriving DecidableEq, Repr

def Change.apply : Change → ElString → Option ElString
  | SetToChars other, s => some (s.SetToChars other)
  | AppendChars other, s => some (s.AppendChars other)
  | AppendChar ch, s => some (s.AppendChar ch).2
  | AppendArray array offset length, s => some (s.AppendArray array offset length).2
  | AppendFormat text, s => s.AppendFormat text

/-- A change of a string by another. -/
inductive Combination
  /-- `SetTo(const String&)`: `operator=`, and the copy constructor -/
  | SetTo
  | AppendString
  | AppendFrom (charOffset : ℤ)
  | AppendRange (offset numOfChars : ℤ)
deriving DecidableEq, Repr

def Combination.apply : Combination → ElString → ElString → ElString
  | SetTo, other, _ => other
  | AppendString, other, s => ElString.AppendString other s
  | AppendFrom charOffset, other, s => (ElString.AppendFrom other charOffset s).2
  | AppendRange offset numOfChars, other, s => (ElString.AppendRange other offset numOfChars s).2

/-- A `const` function that makes no `String`. -/
inductive Query
  | GetByteLength
  | GetLength
  | GetChar (index : ℤ)
  | GetChars (start last : ℤ)
  | GetCharsFrom (start : ℤ)
  | GetChar16s (start last : ℤ)
  | GetBytes (start last : ℤ)
  | ToByteIndex (charIndex : ℤ)
  | ByteIndexOf (target : UInt32)
  | IndexOf (target : UInt32) (start : ℤ)
  | LastIndexOf (target : UInt32) (start : ℤ)
deriving DecidableEq, Repr

/-- A `const` function that makes a `String`. -/
inductive Derivation
  | Substring (start last : ℤ)
  | Replace (oldChar newChar : UInt32)
  | ToLowerCase (offset numOfChars : ℤ)
  | ToUpperCase (offset numOfChars : ℤ)
  | TrimStart
  | TrimEnd
  | Trim
deriving DecidableEq, Repr

section Platform

variable (env : Platform)

/-- What a query leaves of the string. -/
def Query.leaves : Query → ElString → ElString
  | GetLength, s => s.GetLength.2
  | GetChars start last, s => (s.GetChars env start last).2
  | GetCharsFrom start, s => (s.GetCharsFrom env start).2
  | GetChar16s start last, s => (s.GetChar16s env start last).2
  | ByteIndexOf target, s => (s.ByteIndexOf env target).2
  | LastIndexOf target start, s => (s.LastIndexOf env target start).2
  -- the others write nothing
  | GetByteLength, s | GetChar _, s | GetBytes _ _, s | ToByteIndex _, s | IndexOf _ _, s => s

/-- The string that is made, and what is left of the one that it is made from. -/
def Derivation.apply : Derivation → ElString → ElString × ElString
  | Substring start last, s => s.Substring start last
  | Replace oldChar newChar, s => s.Replace env oldChar newChar
  | ToLowerCase offset numOfChars, s => s.ToLowerCase env offset numOfChars
  | ToUpperCase offset numOfChars, s => s.ToUpperCase env offset numOfChars
  | TrimStart, s => (s.TrimStart env, s)
  | TrimEnd, s => (s.TrimEnd env, s)
  | Trim, s => (s.Trim env, s)

/-- The array of the characters from which the string is made anew. -/
def Derivation.newChars : Derivation → ElString → List UInt32
  | Replace oldChar newChar, s =>
    let chars := (s.GetCharsFrom env 0).1
    if oldChar ∈ chars then chars.map fun c => if c = oldChar then newChar else c else []
  | ToLowerCase offset numOfChars, s => (s.GetCharsFrom env 0).1.mapIdx fun i c =>
    if max offset 0 ≤ i ∧ i < max offset 0 + numOfChars then toLower env c else c
  | ToUpperCase offset numOfChars, s => (s.GetCharsFrom env 0).1.mapIdx fun i c =>
    if max offset 0 ≤ i ∧ i < max offset 0 + numOfChars then toUpper env c else c
  | Substring _ _, _ | TrimStart, _ | TrimEnd, _ | Trim, _ => []

end Platform

/-- What is done with the variables. -/
inductive Action
  | construct (v : ℕ) (source : Source)
  | change (v : ℕ) (c : Change)
  | combine (v other : ℕ) (c : Combination)
  | query (v : ℕ) (q : Query)
  | derive (v other : ℕ) (d : Derivation)
deriving DecidableEq, Repr

/-- The variable that is written. -/
def Action.target : Action → ℕ
  | construct v _ | change v _ | combine v _ _ | query v _ | derive v _ _ => v

section Platform

variable (env : Platform) (st : ℕ → ElString)

/-- What is written to it. -/
def result : Action → Option ElString
  | .construct _ source => some source.make
  | .change v c => c.apply (st v)
  | .combine v other c => some (c.apply (st other) (st v))
  | .query v q => some (q.leaves env (st v))
  | .derive _ other d => some (d.apply env (st other)).1

/-- The variables before the write, where a string has been made from another. -/
def passed : Action → ℕ → ElString
  | .derive _ other d => Function.update st other (d.apply env (st other)).2
  | _ => st

/-- An action, where the buffer can be allocated. -/
def step (a : Action) : Option (ℕ → ElString) :=
  (result env st a).bind fun s =>
    if s.data.length < 2147483648 then some (Function.update (passed env st a) a.target s) else none

end Platform

/-- All variables `String()`. -/
def fresh : ℕ → ElString := fun _ => {}

variable {env : Platform} {st st' : ℕ → ElString} {a : Action} {s : ElString}

theorem step_eq_some_iff : step env st a = some st' ↔ ∃ s, result env st a = some s ∧
    s.data.length < 2147483648 ∧ Function.update (passed env st a) a.target s = st' := by
  rw [step, Option.bind_eq_some_iff]
  simp only [Option.ite_none_right_eq_some, Option.some.injEq]

/-! ### What a query leaves -/

theorem mString_GetLength (s : ElString) : s.GetLength.2.mString = s.mString := by
  rw [GetLength]
  split_ifs <;> rfl

theorem GetLength_GetLength (s : ElString) : s.GetLength.2.GetLength.2 = s.GetLength.2 := by
  have hempty : s.GetLength.2.IsNullOrEmpty = s.IsNullOrEmpty := by
    rw [IsNullOrEmpty, mString_GetLength, IsNullOrEmpty]
  rw [GetLength, hempty]
  split_ifs with h hcounted
  · rfl
  · rfl
  · refine absurd ?_ hcounted
    rw [GetLength, if_neg h]
    split_ifs with hc
    · exact hc
    · exact isCounted_SetCounted _ _

theorem snd_GetChars (start last : ℤ) (s : ElString) :
    (s.GetChars env start last).2 = s.GetLength.2 := by
  rw [GetChars]
  split_ifs <;> rfl

theorem snd_GetCharsFrom (start : ℤ) (s : ElString) :
    (s.GetCharsFrom env start).2 = s.GetLength.2 := by
  rw [GetCharsFrom, snd_GetChars, GetLength_GetLength]

/-- `ByteIndexOf` comes to the end of a string that has not been counted, and has not found the
character. -/
def ByteIndexOfMisses (env : Platform) (target : UInt32) (s : ElString) : Bool :=
  IsValidChar target && !s.IsNullOrEmpty &&
    ((Scan.passes readLen s.data).find? fun p => (GetCharInternal env.signed p).1 = target).isNone &&
    reachesEnd s.data && !s.IsCounted

theorem snd_ByteIndexOf (target : UInt32) (s : ElString) : (s.ByteIndexOf env target).2 =
    if s.ByteIndexOfMisses env target then s.SetCounted 0xFFFFFFFF else s := by
  rw [ByteIndexOf, ByteIndexOfMisses]
  cases IsValidChar target <;> cases s.IsNullOrEmpty <;> try rfl
  cases (Scan.passes readLen s.data).find? fun p =>
    decide ((GetCharInternal env.signed p).1 = target) with
  | some p => rfl
  | none => simp

/-- A query leaves the string as it is, counts it, or is a `ByteIndexOf` that sets the count. -/
theorem leaves_cases (env : Platform) (q : Query) (s : ElString) :
    q.leaves env s = s ∨ q.leaves env s = s.GetLength.2 ∨
      ∃ target, q = .ByteIndexOf target ∧ q.leaves env s = (s.ByteIndexOf env target).2 := by
  cases q with
  | GetLength => exact .inr (.inl rfl)
  | GetChars start last => exact .inr (.inl (snd_GetChars start last s))
  | GetCharsFrom start => exact .inr (.inl (snd_GetCharsFrom start s))
  | GetChar16s start last => exact .inr (.inl (snd_GetChars start last s))
  | ByteIndexOf target => exact .inr (.inr ⟨target, rfl, rfl⟩)
  | LastIndexOf target start =>
    change (s.LastIndexOf env target start).2 = s ∨ (s.LastIndexOf env target start).2 = _ ∨ _
    rw [LastIndexOf]
    split_ifs
    · exact .inl rfl
    · exact .inr (.inl (snd_GetChars _ _ s))
  | GetByteLength => exact .inl rfl
  | GetChar index => exact .inl rfl
  | GetBytes start last => exact .inl rfl
  | ToByteIndex charIndex => exact .inl rfl
  | IndexOf target start => exact .inl rfl

/-- So does the making of a string from it. -/
theorem snd_apply_cases (env : Platform) (d : Derivation) (s : ElString) :
    (d.apply env s).2 = s ∨ (d.apply env s).2 = s.GetLength.2 := by
  have hconvert : ∀ f offset numOfChars,
      (s.convert env f offset numOfChars).2 = s.GetLength.2 := by
    intro f offset numOfChars
    rw [convert]
    simp only
    split_ifs <;> exact snd_GetCharsFrom 0 s
  cases d with
  | Substring start last =>
    change (s.Substring start last).2 = s ∨ (s.Substring start last).2 = _
    rw [Substring]
    split_ifs
    · exact .inl rfl
    · exact .inl rfl
    · refine .inr ?_
      simp only
      split_ifs <;> rfl
  | Replace oldChar newChar =>
    refine .inr ?_
    change (s.Replace env oldChar newChar).2 = _
    rw [Replace]
    simp only
    split_ifs <;> exact snd_GetCharsFrom 0 s
  | ToLowerCase offset numOfChars => exact .inr (hconvert _ offset numOfChars)
  | ToUpperCase offset numOfChars => exact .inr (hconvert _ offset numOfChars)
  | TrimStart => exact .inl rfl
  | TrimEnd => exact .inl rfl
  | Trim => exact .inl rfl

theorem mString_leaves (q : Query) (s : ElString) : (q.leaves env s).mString = s.mString := by
  rcases leaves_cases env q s with h | h | ⟨target, -, h⟩
  · rw [h]
  · rw [h, mString_GetLength]
  · rw [h, snd_ByteIndexOf]
    split_ifs <;> rfl

/-! ### What is made from a string -/

theorem _allocFromUTF8_eq (bytes : List UInt8) : _allocFromUTF8 bytes = bytes ++ [0] := by
  rw [_allocFromUTF8]
  split_ifs with h
  · rw [h, List.nil_append]
  · rfl

theorem GetByteLength_le (s : ElString) : s.GetByteLength ≤ s.data.length - 1 := by
  rw [GetByteLength, data]
  split_ifs
  · exact Nat.zero_le _
  · cases s.mString with
    | none => exact le_refl 0
    | some data => exact le_refl _

/-- The string has the bytes, which hold no NUL if the ones of the other do not. -/
def IsPieceOf (s made : ElString) : Prop :=
  made = {} ∨ ∃ bytes, made = { mString := some (bytes ++ [0]) } ∧
    (0 ∉ s.data.dropLast → 0 ∉ bytes)

theorem isPieceOf_empty (s : ElString) : s.IsPieceOf { mString := some [0] } :=
  .inr ⟨[], rfl, fun _ => List.not_mem_nil⟩

theorem isPieceOf_ofCharsN {bytes : List UInt8} {k : ℕ} (hk : k ≤ s.GetByteLength)
    (hbytes : bytes ⊆ s.data.take k) : s.IsPieceOf (ofCharsN (some bytes)) := by
  have htake : s.data.take k ⊆ s.data.dropLast := by
    rw [List.dropLast_eq_take]
    exact (List.take_prefix_take_left (hk.trans (GetByteLength_le s))).subset
  cases bytes with
  | nil => exact .inl rfl
  | cons b bytes =>
    refine .inr ⟨b :: bytes, ?_, fun hzero hmem => hzero (htake (hbytes hmem))⟩
    rw [ofCharsN, _allocFromUTF8_eq]
    exact nofun

theorem isPieceOf_range {p1 p2 : ℕ} (hp2 : p2 ≤ s.GetByteLength) :
    s.IsPieceOf (ofCharsN (some ((s.data.drop p1).take (p2 - p1)))) := by
  rw [← List.drop_take]
  exact isPieceOf_ofCharsN hp2 (List.drop_subset _ _)

theorem withoutEnd_subset (s : ElString) : s.withoutEnd env ⊆ s.data.take s.GetByteLength := by
  intro b hb
  exact List.mem_reverse.mp ((List.dropWhile_sublist _).subset (List.mem_reverse.mp hb))

theorem isPieceOf_Substring (start last : ℤ) (s : ElString) :
    s.IsPieceOf (s.Substring start last).1 := by
  rw [Substring]
  split_ifs with hnull hempty
  · exact .inl rfl
  · exact isPieceOf_empty s
  · have hlength : s.GetByteLength = s.data.length - 1 := by
      obtain ⟨hstart, hlast, hne⟩ : ¬ start < 0 ∧ ¬ last ≤ 0 ∧ ¬ s.IsNullOrEmpty = true := by
        simpa only [not_or] using hempty
      obtain ⟨d, hd⟩ := Option.ne_none_iff_exists'.mp hnull
      rw [GetByteLength, if_neg hne, data, hd]
      rfl
    have hend : ∀ k : ℕ, ((Scan.passes charLen s.data)[k]?).elim s.GetByteLength
        (fun p => s.data.length - p.length) ≤ s.GetByteLength := by
      intro k
      cases hp : (Scan.passes charLen s.data)[k]? with
      | none => exact le_refl _
      | some p =>
        obtain ⟨b, r, rfl, -⟩ := Scan.exists_of_mem_passes (List.mem_of_getElem? hp)
        rw [Option.elim_some, hlength, List.length_cons]
        exact Nat.sub_le_sub_left (Nat.succ_pos _) _
    simp only
    split_ifs with hrange hall
    · exact isPieceOf_empty s
    · refine .inr ⟨_, by rw [_allocFromUTF8_eq], fun _ hmem => ?_⟩
      exact absurd (List.mem_takeWhile_imp hmem) (by decide)
    · exact isPieceOf_range (le_refl _)
    · exact isPieceOf_range (hend _)

/-- The string is made anew from its characters, or from a piece of its bytes, or it is the string
itself. -/
theorem fst_apply_cases (env : Platform) (d : Derivation) (s : ElString) :
    (d.apply env s).1 = appendTaken (d.newChars env s) { mString := some [0] } ∨
    d.newChars env s = [] ∧ ((d.apply env s).1 = s.GetLength.2 ∨ s.IsPieceOf (d.apply env s).1) := by
  have hconvert : ∀ f offset numOfChars, (s.convert env f offset numOfChars).1 = appendTaken
      ((s.GetCharsFrom env 0).1.mapIdx fun i c =>
        if max offset 0 ≤ i ∧ i < max offset 0 + numOfChars then f c else c)
      { mString := some [0] } := by
    intro f offset numOfChars
    rw [convert]
    simp only
    split_ifs with hnil
    · rw [hnil]
      rfl
    · exact ofArray_eq _
  cases d with
  | Substring start last => exact .inr ⟨rfl, .inr (isPieceOf_Substring start last s)⟩
  | Replace oldChar newChar =>
    change (s.Replace env oldChar newChar).1 = _ ∨ _ ∧ ((s.Replace env oldChar newChar).1 = _ ∨ _)
    rw [Replace, Derivation.newChars]
    simp only
    split_ifs with hmem
    · exact .inl (ofArray_eq _)
    · exact .inr ⟨rfl, .inl (snd_GetCharsFrom 0 s)⟩
  | ToLowerCase offset numOfChars => exact .inl (hconvert _ offset numOfChars)
  | ToUpperCase offset numOfChars => exact .inl (hconvert _ offset numOfChars)
  | TrimStart =>
    refine .inr ⟨rfl, .inr ?_⟩
    change s.IsPieceOf (s.TrimStart env)
    rw [TrimStart]
    split_ifs
    · exact .inl rfl
    · exact isPieceOf_empty s
    · exact isPieceOf_ofCharsN (le_refl _) (List.drop_subset _ _)
  | TrimEnd =>
    refine .inr ⟨rfl, .inr ?_⟩
    change s.IsPieceOf (s.TrimEnd env)
    rw [TrimEnd]
    split_ifs
    · exact .inl rfl
    · exact isPieceOf_empty s
    · exact isPieceOf_ofCharsN (le_refl _) (withoutEnd_subset s)
  | Trim =>
    refine .inr ⟨rfl, .inr ?_⟩
    change s.IsPieceOf (s.Trim env)
    rw [Trim]
    split_ifs
    · exact .inl rfl
    · exact isPieceOf_empty s
    · exact isPieceOf_ofCharsN (le_refl _)
        (List.Subset.trans (List.drop_subset _ _) (withoutEnd_subset s))

/-! ### What an action leaves -/

/-- What holds of every string is left so, if it holds of what is written. -/
theorem step_forall_iff {P : ElString → Prop} (hst : ∀ u, P (st u))
    (hlength : ∀ s, P s → P s.GetLength.2) (hresult : result env st a = some s)
    (h : Function.update (passed env st a) a.target s = st') : (∀ u, P (st' u)) ↔ P s := by
  have hpassed : ∀ u, P (passed env st a u) := by
    intro u
    cases a with
    | derive v other d =>
      rw [passed, Function.update_apply]
      split_ifs with hu
      · rcases snd_apply_cases env d (st other) with h | h <;> rw [h]
        · exact hst other
        · exact hlength _ (hst other)
      · exact hst u
    | construct => exact hst u
    | change => exact hst u
    | combine => exact hst u
    | query => exact hst u
  subst h
  constructor
  · intro hall
    have htarget := hall a.target
    rwa [Function.update_self] at htarget
  · intro hs u
    rw [Function.update_apply]
    split_ifs
    · exact hs
    · exact hpassed u

end ElString

end ElastosCar
