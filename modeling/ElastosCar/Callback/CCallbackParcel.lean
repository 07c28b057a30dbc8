import ElastosCar.Lib.Patch
import ElastosCar.Types

/-!
# The callback parcel

`CCallbackParcel` of `CCallbackParcel.cpp` holds the arguments of a callback: a type for each element,
a buffer of four and eight byte elements, and a data buffer that elements point into. `WriteValue`
appends to all three and grows each when it is full; `GrowDataBuffer` moves the data and adjusts the
pointers it knows of. A parcel has no read functions: the event handler takes the elements from the
buffers itself, and `decode` is what it gets.

Addresses are the machine's, so that a pointer adjusted by mistake is the word the code computes. The
parcel is kept with the memory its elements point to: the `String` objects it has made, and the
character buffers that `String`s share. `none` is an access outside what has been allocated, or a
pointer difference that means nothing.
-/

namespace ElastosCar

/-- `enum Type`. -/
inductive CallbackType
  | Byte | Boolean | Char32 | Int16 | Int32 | Int64 | Float | Double
  | String | Struct | EMuid | EGuid | ArrayOf | ArrayOfString | InterfacePtr
deriving DecidableEq, Repr

/-- `ROUND4(n)`. -/
def ROUND4 (n : ℕ) : ℕ := (n + 3) / 4 * 4

/-- `ROUND8(n)`. -/
def ROUND8 (n : ℕ) : ℕ := (n + 7) / 8 * 8

/-! ### Values -/

/-- An `ArrayOf<T>` argument: the fields of its `CarQuintet`, with `mSize` the length of what `mBuf`
points to. -/
structure ArrayArg where
  mFlags : UInt32
  mReserve : UInt32
  mUsed : UInt32
  payload : List UInt8
deriving DecidableEq, Repr

/-- An `ArrayOf<String>` argument, which must not be null. -/
structure StringsArg where
  mFlags : UInt32
  mReserve : UInt32
  mUsed : UInt32
  strings : List CarString
deriving DecidableEq, Repr

/-- What the `Write` functions take. -/
inductive CallbackValue
  | byte (v : UInt8)
  | boolean (v : UInt8)
  | char (v : UInt32)
  | int16 (v : UInt16)
  | int32 (v : UInt32)
  | int64 (v : UInt64)
  | float (v : UInt32)
  | double (v : UInt64)
  | string (v : CarString)
  | struct (v : List UInt8)
  | emuid (v : EMuid)
  | eguid (v : EGuid)
  | interfacePtr (v : UInt32)
  | arrayOf (v : Option ArrayArg)
  | arrayOfString (v : StringsArg)
deriving DecidableEq, Repr

/-- The `Type_` a `Write` function passes on. -/
def CallbackValue.type : CallbackValue → CallbackType
  | byte _ => .Byte
  | boolean _ => .Boolean
  | char _ => .Char32
  | int16 _ => .Int16
  | int32 _ => .Int32
  | int64 _ => .Int64
  | float _ => .Float
  | double _ => .Double
  | string _ => .String
  | struct _ => .Struct
  | emuid _ => .EMuid
  | eguid _ => .EGuid
  | interfacePtr _ => .InterfacePtr
  | arrayOf _ => .ArrayOf
  | arrayOfString _ => .ArrayOfString

/-- The twenty bytes of a `CarQuintet`. -/
def quintetBytes (mFlags mReserve mUsed : UInt32) (mSize : ℕ) (mBuf : UInt32) : List UInt8 :=
  wordBytes mFlags ++ wordBytes mReserve ++ wordBytes mUsed ++ wordBytes (UInt32.ofNat mSize) ++
    wordBytes mBuf

/-! ### The parcel -/

structure CCallbackParcel where
  /-- The first `mElemCount` bytes of the buffer. -/
  mElemTypes : List CallbackType := []
  mTypeBufCapacity : ℕ := 10
  mElemBuf : Block := fun _ => 0
  /-- `mElemPtr - mElemBuf`. -/
  mElemPtr : ℕ := 0
  mElemBufCapacity : ℕ := 128
  /-- The address of the data buffer. -/
  mDataBuf : UInt32
  data : Block := fun _ => 0
  /-- `mDataPtr - mDataBuf`. -/
  mDataPtr : ℕ := 0
  mDataBufCapacity : ℕ := 128
  /-- The `String` objects made by `new String()`. -/
  strings : UInt32 → Option CarString
  /-- The character data of the `SharedBuffer`s. -/
  shared : UInt32 → Option (List UInt8)
  /-- The `SharedBuffer` of all empty strings. -/
  gElEmptyString : UInt32

/-- What the allocations of a call return. -/
structure Allocs where
  newString : UInt32
  dataBuf : UInt32
  /-- What `malloc` leaves in the data buffer. -/
  dataFill : Block
  shared : ℕ → UInt32

namespace CCallbackParcel

section Walk

-- `_arm` with a GCC from 4 on: elements of eight bytes are aligned
variable (arm : Bool)

/-- The place of an element when `elemPtr` stands behind the one before. -/
def place (elemPtr : ℕ) : CallbackType → ℕ
  | .Int64 | .Double => if arm then ROUND8 elemPtr else elemPtr
  | _ => elemPtr

/-- The size of an element. -/
def width : CallbackType → ℕ
  | .Int64 | .Double => 8
  | _ => 4

/-- The walk of `elemPtr` over the elements. -/
def elemPtrs : ℕ → List CallbackType → List (CallbackType × ℕ)
  | _, [] => []
  | elemPtr, type :: l => (type, place arm elemPtr type) ::
      elemPtrs (place arm elemPtr type + width type) l

end Walk

/-! ### Growing the buffers -/

def GrowTypeBuffer (s : CCallbackParcel) : CCallbackParcel :=
  { s with mTypeBufCapacity := s.mTypeBufCapacity + 10 }

/-- `realloc` keeps the elements, and none of them points into the buffer. -/
def GrowElemBuffer (s : CCallbackParcel) : CCallbackParcel :=
  { s with mElemBufCapacity := s.mElemBufCapacity + 128 }

/-- One pass of the loop of `GrowDataBuffer`, over the element buffer and the new data buffer at the
address `dataBuf`. -/
def rebase (s : CCallbackParcel) (dataBuf : UInt32) (bufs : Block × Block)
    (elem : CallbackType × ℕ) : Option (Block × Block) :=
  let w := bufs.1.word elem.2
  let w' := dataBuf + (w - s.mDataBuf)
  let elemBuf := bufs.1.setWord elem.2 w'
  let offset1 := offsetAt s.mDataBuf w
  -- mUunm of the id, or mBuf of the quintet
  let inner := s.data.word (offset1 + 16)
  let data := bufs.2.setWord (offset1 + 16) (dataBuf + (inner - s.mDataBuf))
  match elem.1 with
  | .Byte | .Boolean | .Char32 | .Int16 | .Int32 | .Float | .InterfacePtr => some bufs
  | .Int64 | .Double => some bufs
  | .String | .Struct | .EMuid => some (elemBuf, bufs.2)
  | .EGuid | .ArrayOf =>
    if offset1 + 20 ≤ s.mDataBufCapacity then some (elemBuf, data) else none
  | .ArrayOfString =>
    if offset1 + 20 ≤ s.mDataBufCapacity then
      let used := if inner ≠ 0 then (s.data.word (offset1 + 12)).toNat / 8 else 0
      let offset2 := offsetAt s.mDataBuf inner
      -- a string that is not null is in a shared buffer, and offset3 is no offset at all
      if ∀ i < used, offset2 + 8 * i + 8 ≤ s.mDataBufCapacity ∧ s.data.word (offset2 + 8 * i) = 0
      then some (elemBuf, data) else none
    else none

/-- What `minSize` adds to the capacity. -/
def growth (minSize : ℕ) : ℕ := if minSize < 128 then 128 else minSize + 128

/-- The data buffer after a move, before the pointers in it are adjusted. -/
def moved (s : CCallbackParcel) (a : Allocs) : Block := fun i =>
  if i < s.mDataPtr then s.data i else a.dataFill i

def GrowDataBuffer (arm : Bool) (a : Allocs) (minSize : ℕ) (s : CCallbackParcel) :
    Option CCallbackParcel :=
  if s.mDataPtr ≤ s.mDataBufCapacity then
    ((elemPtrs arm 0 s.mElemTypes).foldlM (s.rebase a.dataBuf) (s.mElemBuf, s.moved a)).map
      fun bufs => { s with
        mElemBuf := bufs.1
        mDataBuf := a.dataBuf
        data := bufs.2
        mDataBufCapacity := s.mDataBufCapacity + growth minSize }
  else none

/-! ### Writing -/

/-- Store an element of four bytes. -/
def putWord (w : UInt32) (s : CCallbackParcel) : Option CCallbackParcel :=
  if s.mElemPtr + 4 ≤ s.mElemBufCapacity then
    some { s with mElemBuf := s.mElemBuf.setWord s.mElemPtr w, mElemPtr := s.mElemPtr + 4 }
  else none

/-- `case Type_Int64` and `case Type_Double`. -/
def putDword (arm : Bool) (v : UInt64) (s : CCallbackParcel) : Option CCallbackParcel :=
  let s := if s.mElemBufCapacity < s.mElemPtr + 4 + 4 then s.GrowElemBuffer else s
  let s := if arm then { s with mElemPtr := ROUND8 s.mElemPtr } else s
  ((s.putWord v.toUInt32).bind fun s => s.putWord (v >>> 32).toUInt32)

/-- The room check of the cases that use the data buffer. -/
def reserve (arm : Bool) (a : Allocs) (need : ℕ) (s : CCallbackParcel) : Option CCallbackParcel :=
  if s.mDataBufCapacity < s.mDataPtr + need then s.GrowDataBuffer arm a need else some s

/-- The cases `Type_Struct`, `Type_EMuid`, `Type_EGuid` and `Type_ArrayOf`: make room for `need` bytes,
copy the bytes to `mDataPtr`, store a pointer to the copy behind its first `head` bytes, and go on by
`advance`. The bytes may depend on the address they are copied to. -/
def putData (arm : Bool) (a : Allocs) (need head : ℕ) (bytes : UInt32 → List UInt8) (advance : ℕ)
    (s : CCallbackParcel) : Option CCallbackParcel :=
  (s.reserve arm a need).bind fun s =>
    let addr := s.mDataBuf + UInt32.ofNat s.mDataPtr
    if s.mDataPtr + (bytes addr).length ≤ s.mDataBufCapacity then
      { s with
        data := store s.data s.mDataPtr (bytes addr)
        mDataPtr := s.mDataPtr + advance }.putWord (addr + UInt32.ofNat head)
    else none

def putStruct (arm : Bool) (a : Allocs) (v : List UInt8) : CCallbackParcel → Option CCallbackParcel :=
  let size := v.length
  putData arm a (ROUND4 size + 4) 4 (fun _ => wordBytes (UInt32.ofNat size) ++ v) (4 + ROUND4 size)

def putEMuid (arm : Bool) (a : Allocs) (v : EMuid) : CCallbackParcel → Option CCallbackParcel :=
  let size := 16
  putData arm a (ROUND4 size) 0 (fun _ => v.bytes) size

def putEGuid (arm : Bool) (a : Allocs) (size : ℕ) (v : EGuid) :
    CCallbackParcel → Option CCallbackParcel :=
  putData arm a (ROUND4 size) 0 (fun addr => v.bytes (addr + 24) ++ v.mUunm.terminated)
    (ROUND4 size)

def putArrayOf (arm : Bool) (a : Allocs) : Option ArrayArg → CCallbackParcel → Option CCallbackParcel
  | none => putWord 0
  | some v =>
    let size := 20 + v.payload.length
    putData arm a (ROUND4 (size + 4) + 4) 4
      (fun addr => wordBytes (UInt32.ofNat size) ++
        quintetBytes v.mFlags v.mReserve v.mUsed v.payload.length (addr + 24) ++ v.payload)
      (4 + 20 + ROUND4 v.payload.length)

/-- One pass of the loop of `case Type_ArrayOfString`, for the `String` object at the offset `obj`:
first it is assigned the text at `mDataPtr`, then the value is copied into the buffer it has got from
that, or it is assigned null. The object has not been constructed. -/
def assignString (alloc : UInt32) (obj : ℕ) (v : CarString) (s : CCallbackParcel) :
    Option CCallbackParcel :=
  -- SetTo releases what the object holds
  if obj + 8 ≤ s.mDataBufCapacity ∧ s.data.word obj = 0 then
    (cstring (load s.data s.mDataPtr (s.mDataBufCapacity - s.mDataPtr))).bind fun text =>
      let buf := if text.chars.length = 0 then s.gElEmptyString else alloc
      match v with
      | none => some { s with data := (s.data.setWord obj 0).setWord (obj + 4) 0x80000000 }
      | some v =>
        let len := v.chars.length + 1
        if len ≤ text.chars.length + 1 then
          some { s with
            data := (s.data.setWord obj buf).setWord (obj + 4) 0
            shared := Function.update s.shared buf
              (some (v.terminated ++ text.terminated.drop len))
            mDataPtr := s.mDataPtr + ROUND4 len }
        else none
  else none

def assignStrings (a : Allocs) (obj : ℕ) : ℕ → List CarString → CCallbackParcel →
    Option CCallbackParcel
  | _, [], s => some s
  | i, v :: l, s =>
    (assignString (a.shared i) (obj + 8 * i) v s).bind (assignStrings a obj (i + 1) l)

/-- The `size` that `WriteArrayOfString` passes on. -/
def stringsSize (strings : List CarString) : ℕ :=
  20 + 8 * strings.length + (strings.map fun v => v.elim 0 fun v => v.chars.length + 1).sum

def putArrayOfString (arm : Bool) (a : Allocs) (v : StringsArg) (s : CCallbackParcel) :
    Option CCallbackParcel :=
  let size := stringsSize v.strings
  let mSize := 8 * v.strings.length
  (putData arm a (ROUND4 size + 4) 4
    (fun addr => wordBytes (UInt32.ofNat size) ++
      quintetBytes v.mFlags v.mReserve v.mUsed mSize (addr + 24))
    (4 + 20 + ROUND4 mSize) s).bind fun s =>
      assignStrings a (s.mDataPtr - ROUND4 mSize) 0 v.strings s

/-- The switch of `WriteValue`. -/
def put (arm : Bool) (a : Allocs) : CallbackValue → CCallbackParcel → Option CCallbackParcel
  | .byte v | .boolean v => putWord v.toUInt32
  -- sign-extended
  | .int16 v => putWord v.toInt16.toInt32.toUInt32
  | .char v | .int32 v | .float v => putWord v
  | .int64 v | .double v => putDword arm v
  | .string v => fun s =>
    { s with strings := Function.update s.strings a.newString (some v) }.putWord a.newString
  | .interfacePtr v => putWord v
  | .struct v => putStruct arm a v
  | .emuid v => putEMuid arm a v
  -- the `size` that `WriteEGuid` passes on
  | .eguid v => putEGuid arm a (24 + v.mUunm.chars.length + 1) v
  | .arrayOf v => putArrayOf arm a v
  | .arrayOfString v => putArrayOfString arm a v

/-- The room checks at the start of `WriteValue`. -/
def prepare (s : CCallbackParcel) : CCallbackParcel :=
  let s := if s.mTypeBufCapacity ≤ s.mElemTypes.length then s.GrowTypeBuffer else s
  if s.mElemBufCapacity < s.mElemPtr + 4 then s.GrowElemBuffer else s

/-- `WriteValue` around a case of its switch. -/
def writeElem (type : CallbackType) (put : CCallbackParcel → Option CCallbackParcel)
    (s : CCallbackParcel) : Option CCallbackParcel :=
  let s := s.prepare
  if s.mElemTypes.length < s.mTypeBufCapacity then
    (put s).map fun s => { s with mElemTypes := s.mElemTypes ++ [type] }
  else none

def WriteValue (arm : Bool) (v : CallbackValue) (a : Allocs) : CCallbackParcel →
    Option CCallbackParcel :=
  writeElem v.type (put arm a v)

/-! ### Decoding -/

/-- The bytes at an address of the data buffer. -/
def deref (s : CCallbackParcel) (p : UInt32) (n : ℕ) : Option (List UInt8) :=
  let o := offsetAt s.mDataBuf p
  if o + n ≤ s.mDataBufCapacity then some (load s.data o n) else none

/-- The string of a `char` pointer into the data buffer. -/
def derefChars (s : CCallbackParcel) (p : UInt32) : Option CString :=
  let o := offsetAt s.mDataBuf p
  cstring (load s.data o (s.mDataBufCapacity - o))

/-- The value of a `String` object in the data buffer. -/
def derefString (s : CCallbackParcel) (p : UInt32) : Option CarString :=
  (s.deref p 8).bind fun bs =>
    let mString := wordOf (bs.take 4)
    if mString = 0 then some none else ((s.shared mString).bind cstring).map some

/-- The element at a place of the element buffer, its pointers followed. -/
def decodeAt (s : CCallbackParcel) (elem : CallbackType × ℕ) : Option CallbackValue :=
  let w := s.mElemBuf.word elem.2
  let dword := (s.mElemBuf.word (elem.2 + 4)).toUInt64 <<< 32 ||| w.toUInt64
  -- the size that stands before a struct or an array
  let size := (s.deref (w - 4) 4).map fun bs => (wordOf bs).toNat
  match elem.1 with
  | .Byte => some (.byte w.toUInt8)
  | .Boolean => some (.boolean w.toUInt8)
  | .Char32 => some (.char w)
  | .Int16 => some (.int16 w.toUInt16)
  | .Int32 => some (.int32 w)
  | .Int64 => some (.int64 dword)
  | .Float => some (.float w)
  | .Double => some (.double dword)
  | .String => (s.strings w).map .string
  | .Struct => size.bind fun n => (s.deref w n).map .struct
  | .EMuid => (s.deref w 16).map fun bs => .emuid (EMuid.ofBytes bs)
  | .EGuid => (s.deref w 24).bind fun bs =>
      (s.derefChars (wordOf ((bs.drop 16).take 4))).map fun name =>
        .eguid ⟨EMuid.ofBytes (bs.take 16), name, wordOf (bs.drop 20)⟩
  | .InterfacePtr => some (.interfacePtr w)
  | .ArrayOf =>
    if w = 0 then some (.arrayOf none)
    else (s.deref w 20).bind fun bs =>
      (s.deref (wordOf (bs.drop 16)) (wordOf ((bs.drop 12).take 4)).toNat).map fun payload =>
        .arrayOf (some ⟨wordOf (bs.take 4), wordOf ((bs.drop 4).take 4), wordOf ((bs.drop 8).take 4),
          payload⟩)
  | .ArrayOfString => (s.deref w 20).bind fun bs =>
      let length := (wordOf ((bs.drop 12).take 4)).toNat / 8
      ((List.range length).mapM fun i =>
        s.derefString (wordOf (bs.drop 16) + UInt32.ofNat (8 * i))).map fun strings =>
          .arrayOfString ⟨wordOf (bs.take 4), wordOf ((bs.drop 4).take 4),
            wordOf ((bs.drop 8).take 4), strings⟩

/-- The contents of the parcel. -/
def decode (arm : Bool) (s : CCallbackParcel) : Option (List CallbackValue) :=
  (elemPtrs arm 0 s.mElemTypes).mapM s.decodeAt

end CCallbackParcel

end ElastosCar
