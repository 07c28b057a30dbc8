import ElastosCar.Lib.Delegation
import ElastosCar.Types

/-!
# Type descriptors

The type descriptors of a `CLSModule` and `datatype.cpp`: a descriptor names a type, or an alias of
one, with levels of pointers, and the descriptor of an `ArrayOf` has the address of that of its
elements. `GetOriginalType` follows the aliases, and `IsEqualType` compares what it makes of two
descriptors, byte for byte.

`GetOriginalType` fills five of the fields of its result, and of a nested type it copies the
address. So equal types are found equal when their nested types are one descriptor, and the bytes
that are not filled agree (`isEqualType_iff`). -/

namespace ElastosCar

namespace Cls

/-- `CARDataType`. -/
inductive CARDataType
  | char16 | char32 | boolean | float | double | int8 | int16 | int32 | int64 | byte | uint16
  | uint32 | uint64 | emuid | ecode | eguid | eventHandler | array | pvoid | const | interface
  | struct | enum | alias | string | arrayOf
deriving DecidableEq, Repr

/-- The enumerators are numbered from one. -/
def CARDataType.code (t : CARDataType) : UInt32 := UInt32.ofNat (t.ctorIdx + 1)

/-- `TypeDescriptor`, with the bytes that stand between its last two fields. -/
structure TypeDescriptor where
  mType : CARDataType
  mIndex : UInt16 := 0
  mPointer : UInt8 := 0
  mUnsigned : UInt8 := 0
  mSize : UInt32 := 0
  mNested : UInt8 := 0
  padding : UInt8 × UInt8 × UInt8 := (0, 0, 0)
  mNestedType : UInt32 := 0
deriving DecidableEq, Repr

namespace TypeDescriptor

/-- The record in memory. -/
def bytes (t : TypeDescriptor) : List UInt8 :=
  wordBytes t.mType.code ++ toLE 2 t.mIndex.toNat ++ [t.mPointer, t.mUnsigned] ++
    wordBytes t.mSize ++ [t.mNested, t.padding.1, t.padding.2.1, t.padding.2.2] ++
    wordBytes t.mNestedType

/-- The descriptor that this one is an alias of, or `none`. -/
def aliasOf (mAliasDirs : UInt16 → TypeDescriptor) (t : TypeDescriptor) : Option TypeDescriptor :=
  if t.mType = .alias then some (mAliasDirs t.mIndex) else none

end TypeDescriptor

/-- What the descriptors of a `CLSModule` refer to: `mType` of its `AliasDirEntry`s, and the nested
descriptors by their addresses. No descriptor comes back to itself. -/
structure CLSModule where
  mAliasDirs : UInt16 → TypeDescriptor
  nested : UInt32 → TypeDescriptor
  acyclic : WellFounded fun s t : TypeDescriptor =>
    t.aliasOf mAliasDirs = some s ∨ t.aliasOf mAliasDirs = none ∧ t.mNestedType ≠ 0 ∧
      nested t.mNestedType = s

namespace CLSModule

variable (m : CLSModule)

/-- The aliases. -/
def aliases : Delegation TypeDescriptor where
  next := TypeDescriptor.aliasOf m.mAliasDirs
  wf := Subrelation.wf Or.inl m.acyclic

/-- The loop of `GetOriginalType`, with `destDescriptor` so far. -/
def followAliases (srcDescriptor destDescriptor : TypeDescriptor) : TypeDescriptor :=
  match _h : srcDescriptor.aliasOf m.mAliasDirs with
  | some s => followAliases s { destDescriptor with
      mPointer := destDescriptor.mPointer + s.mPointer
      mUnsigned := destDescriptor.mUnsigned ||| s.mUnsigned }
  | none => { destDescriptor with
      mType := srcDescriptor.mType
      mIndex := srcDescriptor.mIndex
      mNestedType := srcDescriptor.mNestedType }
termination_by m.aliases.wf.wrap srcDescriptor
decreasing_by exact _h

/-- `GetOriginalType`; `destDescriptor` is what the record has before. -/
def GetOriginalType (srcDescriptor destDescriptor : TypeDescriptor) : TypeDescriptor :=
  m.followAliases srcDescriptor { destDescriptor with
    mPointer := srcDescriptor.mPointer
    mUnsigned := srcDescriptor.mUnsigned }

/-- `IsEqualType`; `src` and `dest` are what the local records have before. -/
def IsEqualType (src dest descriptor1 descriptor2 : TypeDescriptor) : Bool :=
  (m.GetOriginalType descriptor1 src).bytes = (m.GetOriginalType descriptor2 dest).bytes

end CLSModule

/-! ### Types -/

/-- A type with its aliases expanded, all the way down. -/
inductive TypeExpr
  | plain (type : CARDataType) (index : UInt16) (pointer : ℕ) (isUnsigned : UInt8)
  | nested (type : CARDataType) (index : UInt16) (pointer : ℕ) (isUnsigned : UInt8)
      (elem : TypeExpr)
deriving DecidableEq, Repr

namespace TypeExpr

/-- The levels of pointers, not counting those of nested types. -/
def pointer : TypeExpr → ℕ
  | plain _ _ pointer _ | nested _ _ pointer _ _ => pointer

/-- More levels of pointers, and perhaps unsigned. -/
def add (pointer : ℕ) (isUnsigned : UInt8) : TypeExpr → TypeExpr
  | plain type index p u => plain type index (pointer + p) (isUnsigned ||| u)
  | nested type index p u elem => nested type index (pointer + p) (isUnsigned ||| u) elem

/-- The levels of pointers, counted in a byte. -/
def wrap : TypeExpr → TypeExpr
  | plain type index p u => plain type index (p % 256) u
  | nested type index p u elem => nested type index (p % 256) u elem

end TypeExpr

namespace CLSModule

variable (m : CLSModule)

/-- The type that a descriptor stands for. -/
def expand (t : TypeDescriptor) : TypeExpr :=
  match _h : t.aliasOf m.mAliasDirs with
  | some s => (expand s).add t.mPointer.toNat t.mUnsigned
  | none =>
    if _hn : t.mNestedType = 0 then .plain t.mType t.mIndex t.mPointer.toNat t.mUnsigned
    else .nested t.mType t.mIndex t.mPointer.toNat t.mUnsigned (expand (m.nested t.mNestedType))
termination_by m.acyclic.wrap t
decreasing_by
  · exact .inl _h
  · exact .inr ⟨_h, _hn, rfl⟩

end CLSModule

/-! ### The records -/

theorem CARDataType.code_inj {s t : CARDataType} : s.code = t.code ↔ s = t := by
  have hcode : ∀ t : CARDataType, t.code.toNat = t.ctorIdx + 1 := fun t => by cases t <;> rfl
  have hof : ∀ t : CARDataType, CARDataType.ofNat t.ctorIdx = t := fun t => by cases t <;> rfl
  refine ⟨fun h => ?_, congrArg code⟩
  have heq : s.ctorIdx = t.ctorIdx := by
    have h := congrArg UInt32.toNat h
    rw [hcode, hcode] at h
    exact Nat.succ.inj h
  rw [← hof s, heq, hof t]

theorem wordBytes_inj {v w : UInt32} : wordBytes v = wordBytes w ↔ v = w :=
  ⟨fun h => by rw [← wordOf_wordBytes v, h, wordOf_wordBytes], congrArg wordBytes⟩

theorem TypeDescriptor.bytes_inj {s t : TypeDescriptor} : s.bytes = t.bytes ↔ s = t := by
  refine ⟨fun h => ?_, congrArg bytes⟩
  rw [bytes, bytes] at h
  obtain ⟨h, hnested⟩ := List.append_inj' h (by simp)
  obtain ⟨h, hrest⟩ := List.append_inj' h rfl
  obtain ⟨h, hsize⟩ := List.append_inj' h (by simp)
  obtain ⟨h, hlevels⟩ := List.append_inj' h rfl
  obtain ⟨htype, hindex⟩ := List.append_inj' h (by simp)
  have hindex : s.mIndex = t.mIndex := by
    have h := congrArg ofLE hindex
    rw [ofLE_toLE_of_lt s.mIndex.toNat_lt, ofLE_toLE_of_lt t.mIndex.toNat_lt] at h
    exact UInt16.toNat_inj.mp h
  obtain ⟨type, index, pointer, isUnsigned, size, nested, ⟨p, q, r⟩, nestedType⟩ := s
  obtain ⟨type', index', pointer', isUnsigned', size', nested', ⟨p', q', r'⟩, nestedType'⟩ := t
  simp only [wordBytes_inj, CARDataType.code_inj, List.cons.injEq, and_true] at *
  obtain ⟨rfl, rfl⟩ := hlevels
  obtain ⟨rfl, rfl, rfl, rfl⟩ := hrest
  rw [htype, hindex, hsize, hnested]

namespace CLSModule

variable {m : CLSModule} {s t : TypeDescriptor}

/-! ### What a descriptor stands for -/

section

variable (m) (t : TypeDescriptor)

/-- The descriptor at the end of the aliases. -/
def original : TypeDescriptor := m.aliases.last t

/-- The levels of pointers along the aliases. -/
def levels : ℕ := m.aliases.total (· + ·) (fun t => t.mPointer.toNat) t

/-- The same, counted in a byte. -/
def pointer : UInt8 := m.aliases.total (· + ·) TypeDescriptor.mPointer t

def isUnsigned : UInt8 := m.aliases.total (· ||| ·) TypeDescriptor.mUnsigned t

end

theorem toNat_pointer (t : TypeDescriptor) : (m.pointer t).toNat = m.levels t % 256 := by
  rw [pointer, levels]
  induction t using m.aliases.rec_chain with
  | ends t h =>
    rw [Delegation.total_of_none _ _ h, Delegation.total_of_none _ _ h]
    exact (Nat.mod_eq_of_lt t.mPointer.toNat_lt).symm
  | delegates t s h ih =>
    rw [Delegation.total_of_some _ _ h, Delegation.total_of_some _ _ h, UInt8.toNat_add, ih]
    exact Nat.add_mod_mod _ _ _

theorem followAliases_eq (t dest : TypeDescriptor) (p u : UInt8) :
    m.followAliases t { dest with mPointer := p + t.mPointer, mUnsigned := u ||| t.mUnsigned } =
      { dest with
        mType := (m.original t).mType
        mIndex := (m.original t).mIndex
        mPointer := p + m.pointer t
        mUnsigned := u ||| m.isUnsigned t
        mNestedType := (m.original t).mNestedType } := by
  rw [original, pointer, isUnsigned]
  induction t using m.aliases.rec_chain generalizing p u with
  | ends t h =>
    rw [Delegation.last_of_none h, Delegation.total_of_none _ _ h, Delegation.total_of_none _ _ h,
      followAliases.eq_def]
    split
    · next h' => exact nomatch h.symm.trans h'
    · rfl
  | delegates t s h ih =>
    rw [Delegation.last_of_some h, Delegation.total_of_some _ _ h, Delegation.total_of_some _ _ h,
      followAliases.eq_def]
    split
    · next h' =>
      obtain rfl := Option.some.inj (h.symm.trans h')
      rw [← UInt8.add_assoc, ← UInt8.or_assoc]
      exact ih (p + t.mPointer) (u ||| t.mUnsigned)
    · next h' => exact nomatch h.symm.trans h'

/-- **What `GetOriginalType` fills, and what it leaves.** -/
theorem GetOriginalType_eq (t dest : TypeDescriptor) : m.GetOriginalType t dest =
    { dest with
      mType := (m.original t).mType
      mIndex := (m.original t).mIndex
      mPointer := m.pointer t
      mUnsigned := m.isUnsigned t
      mNestedType := (m.original t).mNestedType } := by
  have h := m.followAliases_eq t dest 0 0
  rwa [UInt8.zero_add, UInt8.zero_or, UInt8.zero_add, UInt8.zero_or] at h

theorem expand_eq (t : TypeDescriptor) : m.expand t =
    if (m.original t).mNestedType = 0 then
      .plain (m.original t).mType (m.original t).mIndex (m.levels t) (m.isUnsigned t)
    else
      .nested (m.original t).mType (m.original t).mIndex (m.levels t) (m.isUnsigned t)
        (m.expand (m.nested (m.original t).mNestedType)) := by
  rw [original, levels, isUnsigned]
  induction t using m.aliases.rec_chain with
  | ends t h =>
    rw [Delegation.last_of_none h, Delegation.total_of_none _ _ h, Delegation.total_of_none _ _ h,
      expand]
    split
    · next h' => exact nomatch h.symm.trans h'
    · split_ifs <;> rfl
  | delegates t s h ih =>
    rw [Delegation.last_of_some h, Delegation.total_of_some _ _ h, Delegation.total_of_some _ _ h,
      expand]
    split
    · next h' =>
      obtain rfl := Option.some.inj (h.symm.trans h')
      rw [ih]
      split_ifs <;> rfl
    · next h' => exact nomatch h.symm.trans h'

/-! ### When equal types are found equal -/

/-- The bytes of a record that `GetOriginalType` does not fill are the same. -/
def SameRest (src dest : TypeDescriptor) : Prop :=
  src.mSize = dest.mSize ∧ src.mNested = dest.mNested ∧ src.padding = dest.padding

/-- The nested types are one descriptor, or there are none. -/
def SameNested (m : CLSModule) (s t : TypeDescriptor) : Prop :=
  (m.original s).mNestedType = (m.original t).mNestedType

theorem eq_iff_wrap {a b : TypeExpr} : a = b ↔ a.wrap = b.wrap ∧ a.pointer = b.pointer := by
  constructor
  · rintro rfl
    exact ⟨rfl, rfl⟩
  · rintro ⟨hwrap, hpointer⟩
    cases a <;> cases b <;> simp_all [TypeExpr.wrap, TypeExpr.pointer]

theorem pointer_expand (t : TypeDescriptor) : (m.expand t).pointer = m.levels t := by
  rw [expand_eq]
  split_ifs <;> rfl

/-- What the filled fields say. -/
theorem wrap_expand_iff (h : SameNested m s t) : (m.expand s).wrap = (m.expand t).wrap ↔
    (m.original s).mType = (m.original t).mType ∧ (m.original s).mIndex = (m.original t).mIndex ∧
      m.pointer s = m.pointer t ∧ m.isUnsigned s = m.isUnsigned t := by
  have hpointer : m.pointer s = m.pointer t ↔ m.levels s % 256 = m.levels t % 256 := by
    rw [← UInt8.toNat_inj, toNat_pointer, toNat_pointer]
  rw [hpointer, expand_eq s, expand_eq t, ← h]
  split_ifs <;> simp only [TypeExpr.wrap, TypeExpr.plain.injEq, TypeExpr.nested.injEq, and_true]

/-- The comparison of the records. -/
theorem isEqualType_eq_true_iff {src dest : TypeDescriptor} :
    m.IsEqualType src dest s t = true ↔
      (m.expand s).wrap = (m.expand t).wrap ∧ SameNested m s t ∧ SameRest src dest := by
  rw [IsEqualType, decide_eq_true_iff, TypeDescriptor.bytes_inj, GetOriginalType_eq,
    GetOriginalType_eq]
  simp only [TypeDescriptor.mk.injEq]
  constructor
  · rintro ⟨htype, hindex, hpointer, hunsigned, hsize, hnested, hpadding, hsame⟩
    exact ⟨(wrap_expand_iff hsame).mpr ⟨htype, hindex, hpointer, hunsigned⟩, hsame, hsize, hnested,
      hpadding⟩
  · rintro ⟨hwrap, hsame, hsize, hnested, hpadding⟩
    obtain ⟨htype, hindex, hpointer, hunsigned⟩ := (wrap_expand_iff hsame).mp hwrap
    exact ⟨htype, hindex, hpointer, hunsigned, hsize, hnested, hpadding, hsame⟩

/-- **Type equality.** `IsEqualType` says whether two descriptors stand for one type just when this
is so: if the types differ in nothing but the levels of pointers, and in those by a multiple of 256,
then they have the same levels if and only if their nested types are one descriptor and the bytes
that are not filled agree. -/
theorem isEqualType_iff (m : CLSModule) (src dest descriptor1 descriptor2 : TypeDescriptor) :
    (m.IsEqualType src dest descriptor1 descriptor2 = true ↔
      m.expand descriptor1 = m.expand descriptor2) ↔
    ((m.expand descriptor1).wrap = (m.expand descriptor2).wrap →
      ((m.expand descriptor1).pointer = (m.expand descriptor2).pointer ↔
        SameNested m descriptor1 descriptor2 ∧ SameRest src dest)) := by
  rw [isEqualType_eq_true_iff, @eq_iff_wrap (m.expand descriptor1)]
  constructor
  · exact fun h hwrap => ⟨fun hp => (h.mpr ⟨hwrap, hp⟩).2, fun hs => (h.mp ⟨hwrap, hs⟩).2⟩
  · exact fun h => and_congr_right fun hwrap => (h hwrap).symm

/-- One type for every alias, and wherever a nested type may be. -/
def ofType (t : TypeDescriptor) (halias : t.mType ≠ .alias) (hnested : t.mNestedType = 0) :
    CLSModule where
  mAliasDirs _ := t
  nested _ := t
  acyclic := by
    have hend : Acc (fun s r : TypeDescriptor => r.aliasOf (fun _ => t) = some s ∨
        r.aliasOf (fun _ => t) = none ∧ r.mNestedType ≠ 0 ∧ t = s) t := by
      refine ⟨_, ?_⟩
      rintro s (h | ⟨-, h, -⟩)
      · rw [TypeDescriptor.aliasOf, if_neg halias] at h
        cases h
      · exact absurd hnested h
    refine ⟨fun r => ⟨_, ?_⟩⟩
    rintro s (h | ⟨-, -, rfl⟩)
    · rw [TypeDescriptor.aliasOf] at h
      split_ifs at h
      exact Option.some.inj h ▸ hend
    · exact hend

/-- Integers wherever a nested type may be. -/
def plainModule : CLSModule := ofType { mType := .int32 } (by decide) rfl

/-- The array type of integers, with two descriptors for them. -/
theorem not_isEqualType_nested :
    ¬(plainModule.IsEqualType { mType := .int8 } { mType := .int8 }
        { mType := .arrayOf, mNestedType := 4 } { mType := .arrayOf, mNestedType := 8 } = true ↔
      plainModule.expand { mType := .arrayOf, mNestedType := 4 } =
        plainModule.expand { mType := .arrayOf, mNestedType := 8 }) := by
  have horiginal : ∀ a : UInt32, plainModule.original { mType := .arrayOf, mNestedType := a } =
      { mType := .arrayOf, mNestedType := a } := fun a => Delegation.last_of_none rfl
  have hexpand : ∀ a ≠ 0, plainModule.expand { mType := .arrayOf, mNestedType := a } =
      .nested .arrayOf 0 0 0 (plainModule.expand { mType := .int32 }) := by
    intro a ha
    rw [expand_eq, horiginal, if_neg ha, levels, isUnsigned, Delegation.total_of_none _ _ rfl,
      Delegation.total_of_none _ _ rfl]
    rfl
  intro h
  have hequal := h.mpr ((hexpand 4 (by decide)).trans (hexpand 8 (by decide)).symm)
  have hsame := (isEqualType_eq_true_iff.mp hequal).2.1
  rw [SameNested, horiginal, horiginal] at hsame
  exact absurd hsame (by decide)

end CLSModule

end Cls

end ElastosCar
