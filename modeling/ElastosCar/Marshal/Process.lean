import ElastosCar.Marshal.Memory

/-!
# The marshalling functions

The five functions of `linux_rpc/mshproc.cpp` and `android_linux/mshproc.cpp`. Each is a loop
over the parameters of the method with one `switch` per direction; here each is a step
function, iterated by `process`.

* A step returns `none` where the source goes on to the next parameter, and the code where it
  returns.
* The two files differ in the `[in]` types `STRINGBUF` and `BUFFEROF` on the stub, in the words
  of an `InterfacePack`, and in the release of `[out]` arrays. Their parcels differ in the bytes
  that `WriteStruct` takes. `Marshaller` tells them apart.
* The parcel is behind the `IParcel` interface. A read whose result the source ignores still
  stores its value where it succeeded.
* An `assert` that fails ends the run: the tree is never built with `NDEBUG`.
-/

namespace ElastosCar

/-! ### Signatures -/

/-- `BT_TYPE`. -/
inductive BtType
  | uint8 | uint16 | uint32 | uint64 | emuid | arrayOf | interface | eguid | string | struct
  | bufferOf | stringBuf
  | puint8 | puint16 | puint32 | puint64 | pemuid | peguid | pinterface | pstruct | pstring
  /-- A type that no `switch` has a case for. -/
  | other
deriving DecidableEq, Repr

/-- A `CIBaseType`, decoded. -/
structure Param where
  type : BtType
  isIn : Bool := false
  isOut : Bool := false
  isCallee : Bool := false
  /-- `BT_TYPE_SIZE`: the words of a struct. -/
  size : UInt16 := 0
deriving DecidableEq, Repr

/-- `STRINGBUF`, `BUFFEROF` or `ARRAYOF`. -/
def Param.isArray (t : Param) : Bool :=
  t.type = .bufferOf ∨ t.type = .arrayOf ∨ t.type = .stringBuf

inductive Marshaller
  | rpc
  | ipc
deriving DecidableEq, Repr

/-- The words of an `InterfacePack`. -/
def Marshaller.packWords : Marshaller → ℕ
  | .rpc => 7
  | .ipc => 6

/-- `WriteStruct` of android_linux adds the size of the null tag to the size of the struct, and
takes that many bytes. -/
def Marshaller.structOverrun : Marshaller → ℕ
  | .rpc => 0
  | .ipc => 1

/-- The architecture, for the place of a 64-bit argument. -/
inductive Build
  | x86
  | arm
  | mips
deriving DecidableEq, Repr

/-- Where the 64-bit argument `n` is when `args` is at word `i`. -/
def Build.align64 (b : Build) (phase n i : ℕ) : ℕ :=
  match b with
  | .x86 => i
  -- `ROUND8` of the address
  | .arm => i + (phase + i) % 2
  | .mips => if n % 2 = 0 then i + 1 else i

/-! ### The parcel interface -/

/-- What `ReadInterfacePtr` does: the pointer it stores, if it stores one, and the reference
it has taken. -/
structure ItfSlot where
  stored : Option (Option Itf)
  taken : Option Itf
deriving DecidableEq, Repr

/-- The operations of `IParcel` that the marshalling functions call. -/
structure IParcel (π : Type) where
  writeInt32 : UInt32 → π → ECode × π
  writeInt64 : UInt64 → π → ECode × π
  writeStruct : Option (List UInt8) → UInt32 → π → ECode × π
  writeEMuid : EMuid → π → ECode × π
  /-- The id, and the bits of its `mUunm`. -/
  writeEGuid : EGuid → UInt32 → π → ECode × π
  writeString : CarString → π → ECode × π
  writeArrayOf : Option CarQuintet → π → ECode × π
  writeInterfacePtr : Option Itf → π → ECode × π
  readByte : Run π Fault (ECode × UInt8)
  readInt16 : Run π Fault (ECode × Int16)
  readInt32 : Run π Fault (ECode × UInt32)
  readInt64 : Run π Fault (ECode × UInt64)
  readStruct : Run π Fault (ECode × CRemoteParcel.StructSlot)
  readEMuid : Run π Fault (ECode × EMuid)
  readEGuid : Run π Fault (ECode × Option EGuid)
  readString : Run π Fault (ECode × CarString)
  readArrayOf : Run π Fault (ECode × ArraySlot)
  readInterfacePtr : Run π Fault (ECode × ItfSlot)

/-! ### The loop -/

/-- Process the parameters in order, the first of them having the index `n`. -/
def process {π : Type} (step : ℕ → Param → Marshal π (Option ECode)) :
    (n : ℕ) → List Param → Marshal π ECode
  | _, [] => pure NOERROR
  | n, t :: ts => do
    match ← step n t with
    | some ec => pure ec
    | none => process step (n + 1) ts

/-- The states in which the loop comes to its parameters. -/
def visits {π : Type} (step : ℕ → Param → Marshal π (Option ECode)) :
    (n : ℕ) → List Param → Proc π → List (Proc π)
  | _, [], _ => []
  | n, t :: ts, s =>
    s :: match step n t s with
      | .ok (none, s') => visits step (n + 1) ts s'
      | _ => []

namespace Marshal

variable {π : Type} (m : Marshaller) (b : Build) (P : IParcel π)

/-- `assert(0)`. -/
def unreachable : Marshal π (Option ECode) := throw .assertion

/-- `args += k; break`. -/
def next (k : ℕ) : Marshal π (Option ECode) := do
  bumpArgs k
  pure none

/-- The adjustment of `args` for the 64-bit argument `n`. -/
def align (n : ℕ) : Marshal π Unit := fun s =>
  .ok ((), { s with args := b.align64 s.phase n s.args })

/-- `*(EMuid *)args`. -/
def argEMuid : Marshal π EMuid := do
  let w0 ← argBits 0
  let w1 ← argBits 1
  let w2 ← argBits 2
  let w3 ← argBits 3
  pure ⟨w0, w1, w2, w3⟩

/-- `*(EMuid *)outBuffer`. -/
def outEMuid : Marshal π EMuid := do
  let w0 ← outBits 0
  let w1 ← outBits 1
  let w2 ← outBits 2
  let w3 ← outBits 3
  pure ⟨w0, w1, w2, w3⟩

/-- The words of a struct in the out buffer, as bytes. -/
def outBlock : (k n : ℕ) → Marshal π (List UInt8)
  | _, 0 => pure []
  | k, n + 1 => do
    let w ← outBits k
    let bs ← outBlock (k + 1) n
    pure (wordBytes w ++ bs)

/-- `*(EMuid *)args = id`. -/
def storeEMuid (id : EMuid) : Marshal π Unit := do
  storeArg 0 (.num id.w0)
  storeArg 1 (.num id.w1)
  storeArg 2 (.num id.w2)
  storeArg 3 (.num id.w3)

/-! ### Proxy_ProcessMsh_BufferSize -/

/-- The two sums of `Proxy_ProcessMsh_BufferSize`, in the place of a parcel. -/
structure Sizes where
  inSize : UInt32 := 0
  outSize : UInt32 := 0
deriving DecidableEq, Repr

/-- `inSize += n`. -/
def addIn (n : UInt32) : Marshal Sizes Unit := fun s =>
  .ok ((), { s with parcel := { s.parcel with inSize := s.parcel.inSize + n } })

/-- `outSize += n`. -/
def addOut (n : UInt32) : Marshal Sizes Unit := fun s =>
  .ok ((), { s with parcel := { s.parcel with outSize := s.parcel.outSize + n } })

/-- The bytes of an `[out]` value. -/
def outValueSize (t : Param) : Option UInt32 :=
  match t.type with
  | .puint8 | .puint16 | .puint32 => some 4
  | .puint64 => some 8
  | .pemuid => some 16
  | .peguid => some (16 + 4 + 80)
  | .pstruct => some (4 * t.size.toUInt32)
  | .pstring => some 8
  | .stringBuf | .bufferOf | .arrayOf => some 4
  | .pinterface => some (4 * UInt32.ofNat m.packWords)
  | _ => none

def bufferSizeOut (t : Param) : Marshal Sizes Unit := do
  addOut 4
  match outValueSize m t with
  | none => throw .assertion
  | some size =>
    let w ← arg 0
    if w ≠ .null then addOut size

/-- A pointer: `size` bytes behind it, or the null tag. -/
def addPointee (size : UInt32) : Marshal Sizes (Option ECode) := do
  let w ← arg 0
  addIn (if w ≠ .null then size else 4)
  next 1

/-- The estimate for an array. -/
def arraySize (q : CarQuintet) : UInt32 :=
  match q.payload with
  | .interfaces xs =>
    let usedSize := ((xs.take (q.mUsed / 4).toNat).map fun x =>
      if x.isSome then 4 * UInt32.ofNat m.packWords else 4).sum
    padSize (4 + 20) + max usedSize (padSize q.mSize)
  | _ => padSize (4 + 20 + q.mSize)

/-- An `[in]` parameter. `strlen` is applied to the address of a `String` object, not to its
characters: `rawLen` is what it finds there. -/
def bufferSizeIn (rawLen : Word → UInt32) (n : ℕ) (t : Param) : Marshal Sizes (Option ECode) :=
  match t.type with
  | .uint8 | .uint16 | .uint32 => do
    addIn 4
    next 1
  | .puint8 | .puint16 | .puint32 => addPointee (4 * 2)
  | .uint64 => do
    if b = .mips ∧ n % 2 = 0 then addIn 4
    align b n
    addIn (8 + 1)
    next 2
  | .puint64 => addPointee (4 + 8)
  | .eguid => do
    addIn (16 + 4 + 80)
    next 5
  | .emuid => do
    addIn 16
    next 4
  | .pstruct | .struct => addPointee (4 + 4 * t.size.toUInt32)
  | .peguid => addPointee (4 + 16 + 80 + 4)
  | .pemuid => addPointee (4 + 16)
  | .string => do
    let w ← arg 0
    if w ≠ .null then
      let _ ← deref w
      addIn (4 + 4 + padSize (rawLen w + 1))
    else addIn 4
    next 1
  | .interface => addPointee (4 * UInt32.ofNat m.packWords)
  | .pinterface => do
    let w ← arg 0
    if w ≠ .null then
      match ← deref w with
      | .word w' => addIn (if w' ≠ .null then 4 * UInt32.ofNat m.packWords else 4)
      | _ => throw .wildPointer
    addIn 4
    next 1
  | .stringBuf | .bufferOf | .arrayOf => do
    let w ← arg 0
    if w ≠ .null then
      let q ← derefArray w
      addIn (arraySize m q)
    else addIn 4
    next 1
  | .pstring | .other => unreachable

def bufferSizeStep (rawLen : Word → UInt32) (n : ℕ) (t : Param) :
    Marshal Sizes (Option ECode) := do
  if t.isOut then bufferSizeOut m t
  if t.isIn then bufferSizeIn m b rawLen n t
  else
    let w ← arg 0
    if t.isArray ∧ w ≠ .null then addIn 4
    bumpArgs 1
    addIn 4
    pure none

/-! ### Proxy_ProcessMsh_In -/

/-- An `[in]` or `[in, out]` parameter. -/
def mshInArg (n : ℕ) (t : Param) : Marshal π (Option ECode) :=
  match t.type with
  | .uint8 | .uint16 | .uint32 => do
    let v ← argBits 0
    let _ ← write (P.writeInt32 v)
    next 1
  | .uint64 => do
    align b n
    let lo ← argBits 0
    let hi ← argBits 1
    let _ ← write (P.writeInt64 (dwordOfWords lo hi))
    next 2
  | .struct | .pstruct => do
    let w ← arg 0
    let size := t.size.toUInt32 * 4
    if w = .null then
      let _ ← write (P.writeStruct none size)
      next 1
    else
      let bs ← derefBlock w ((t.size.toNat + m.structOverrun) * 4)
      let _ ← write (P.writeStruct (some bs) size)
      next 1
  | .emuid => do
    let id ← argEMuid
    let _ ← write (P.writeEMuid id)
    next 4
  | .eguid => do
    let id ← argEMuid
    let mUunm ← derefChars (← arg 4)
    let ptr ← argBits 4
    let mCarcode ← argBits 5
    let _ ← write (P.writeEGuid ⟨id, mUunm, mCarcode⟩ ptr)
    next 6
  | .arrayOf => do
    let w ← arg 0
    if w = .null then
      let _ ← write (P.writeArrayOf none)
      next 1
    else
      let q ← derefArray w
      let _ ← write (P.writeArrayOf (some q))
      next 1
  | .string => do
    let s ← derefString (← arg 0)
    let _ ← write (P.writeString s)
    next 1
  | .interface => do
    let x ← asInterface (← arg 0)
    let ec ← write (P.writeInterfacePtr x)
    if failed ec then pure (some ec) else next 1
  | .puint8 | .puint16 | .puint32 | .puint64 | .pemuid | .peguid | .stringBuf | .bufferOf
  | .pinterface => unreachable
  | .pstring | .other => unreachable

/-- An `[out]` parameter: the proxy sends whether it wants the value, and the size of an array
that it allocates itself. -/
def mshInOut (t : Param) : Marshal π (Option ECode) := do
  let w ← arg 0
  let _ ← write (P.writeInt32 (if w = .null then MSH_NULL else MSH_NOT_NULL))
  if t.isArray ∧ ¬ t.isCallee ∧ w ≠ .null then
    let q ← derefArray w
    let _ ← write (P.writeInt32 q.mSize)
    next 1
  else next 1

def mshInStep (n : ℕ) (t : Param) : Marshal π (Option ECode) :=
  if t.isIn then mshInArg m b P n t else mshInOut P t

/-! ### Stub_ProcessUnmsh_In -/

/-- `*args = (UInt32)outBuffer`. -/
def pointToOut : Marshal π Unit := do
  let o ← outPos
  storeArg 0 (.slot o)

/-- The slot of an `[out]` parameter in the out buffer. -/
def layOut (t : Param) : Marshal π (Option ECode) :=
  match t.type with
  | .puint8 | .puint16 | .puint32 => do
    pointToOut
    bumpOut 1
    pure none
  | .puint64 => do
    pointToOut
    bumpOut 2
    pure none
  | .peguid => do
    pointToOut
    bumpOut 4
    let o ← outPos
    storeOut 0 (.slot (o + 1))
    bumpOut 21
    pure none
  | .pemuid => do
    pointToOut
    bumpOut 4
    pure none
  | .pstruct => do
    pointToOut
    bumpOut t.size.toNat
    pure none
  | .pstring => do
    pointToOut
    -- `new((void*)outBuffer) String()`
    storeOut 0 .null
    storeOut 1 (.num 0)
    bumpOut 2
    pure none
  | .stringBuf | .bufferOf | .arrayOf => do
    if ¬ t.isCallee then
      let (_, size) ← read P.readInt32
      let a ← alloc (.rawArray size)
      acquire [.buf a]
      storeOut 0 (.obj a)
      storeArg 0 (.obj a)
      bumpOut 1
      pure none
    else
      storeOut 0 .null
      pointToOut
      bumpOut 1
      pure none
  | .pinterface => do
    storeOut 0 .null
    pointToOut
    bumpOut m.packWords
    pure none
  | _ => pure (some E_INVALID_ARGUMENT)

/-- `ReadArrayOf` to an argument. -/
def readArrayArg : Marshal π Unit := do
  match ← read P.readArrayOf with
  | (_, .untouched) => pure ()
  | (_, .null) => storeArg 0 .null
  | (_, .array q) =>
    let a ← alloc (.array q)
    acquire (q.payload.owned a)
    storeArg 0 (.obj a)

/-- `ReadInterfacePtr` to an argument. -/
def readInterfaceArg : Marshal π ECode := do
  let (ec, slot) ← read P.readInterfacePtr
  acquire (slot.taken.toList.map .itf)
  match slot.stored with
  | none => pure ec
  | some x =>
    storeArg 0 (.ofInterface x)
    pure ec

/-- `ReadEGuid` to an argument. -/
def readEGuidArg : Marshal π Unit := do
  match ← read P.readEGuid with
  | (_, none) => pure ()
  | (_, some id) =>
    let a ← alloc (.chars id.mUunm)
    storeEMuid id.mClsid
    storeArg 4 (.obj a)
    storeArg 5 (.num id.mCarcode)

/-- An `[in]` parameter. -/
def unmshInArg (n : ℕ) (t : Param) : Marshal π (Option ECode) :=
  match t.type with
  | .uint8 | .uint16 | .uint32 => do
    let (ec, v) ← read P.readInt32
    if failed ec then next 1
    else
      storeArg 0 (.num v)
      next 1
  | .uint64 => do
    align b n
    let (ec, v) ← read P.readInt64
    if failed ec then next 2
    else
      storeArg 0 (.num (lowWord v))
      storeArg 1 (.num (highWord v))
      next 2
  | .puint8 | .puint16 | .puint32 | .puint64 => unreachable
  | .emuid => do
    let (ec, id) ← read P.readEMuid
    if failed ec then next 4
    else
      storeEMuid id
      next 4
  | .eguid => do
    readEGuidArg P
    let mUunm ← derefChars (← arg 4)
    next ((24 + pad4 (mUunm.chars.length + 1)) / 4)
  | .pemuid | .peguid | .struct | .pstruct => unreachable
  | .stringBuf | .bufferOf =>
    match m with
    | .ipc => unreachable
    | .rpc => do
      readArrayArg P
      next 1
  | .arrayOf => do
    readArrayArg P
    next 1
  | .string => do
    let (_, str) ← read P.readString
    let a ← alloc (.string str)
    storeArg 0 (.obj a)
    next 1
  | .interface => do
    let ec ← readInterfaceArg P
    if failed ec then pure (some ec) else next 1
  | .pinterface => unreachable
  | .pstring | .other => pure (some E_INVALID_ARGUMENT)

/-- An `[out]` or `[in, out]` parameter. -/
def unmshInOut (t : Param) : Marshal π (Option ECode) := do
  let s ← get
  carAssert s.out.isSome
  let (_, pointValue) ← read P.readInt32
  if pointValue = MSH_NOT_NULL then
    storeOut 0 (.num MSH_NOT_NULL)
    bumpOut 1
    match ← layOut m P t with
    | some ec => pure (some ec)
    | none => next 1
  else if pointValue = MSH_NULL then
    storeOut 0 (.num MSH_NULL)
    bumpOut 1
    storeArg 0 .null
    next 1
  else pure (some E_INVALID_ARGUMENT)

def unmshInStep (n : ℕ) (t : Param) : Marshal π (Option ECode) :=
  if t.isOut then unmshInOut m P t
  else if t.isIn then unmshInArg m b P n t
  else pure (some E_INVALID_ARGUMENT)

/-! ### Stub_ProcessMsh_Out -/

/-- `WriteArrayOf((Handle32)w)`. -/
def writeArrayAt (w : Word) : Marshal π Unit :=
  if w = .null then do
    let _ ← write (P.writeArrayOf none)
    pure ()
  else do
    let q ← derefArray w
    let _ ← write (P.writeArrayOf (some q))
    pure ()

/-- What the loops over the elements of the quintet at `a` release: the references up to
`mUsed`, or the strings up to `mSize`. -/
def releasedElements (a : ℕ) (q : CarQuintet) : List Res :=
  match q.payload with
  | .interfaces xs => (Payload.interfaces (xs.take (q.mUsed / 4).toNat)).owned a
  | pl => pl.owned a

/-- The release of a caller-allocated `[out]` array: the linux_rpc one frees the buffer and
the quintet; the android_linux one first releases the elements, which it looks for through
`args`, already moved to the next parameter. -/
def releaseCallerArray (w : Word) : Marshal π Unit :=
  match m with
  | .rpc =>
    match w with
    | .num 0 => throw .nullPointer
    | .obj a => release [.buf a, .obj a]
    | _ => throw .wildPointer
  | .ipc => do
    let p ← derefArray w
    if p.type = Type_IObject ∨ p.type = Type_String then
      let w' ← arg 0
      let q ← derefArray w'
      release (releasedElements w'.address q)
    release [.buf w.address, .obj w.address]

/-- The release of a callee-allocated `[out]` array: none in linux_rpc, and one by element
type in android_linux, which dereferences the pointer without a test. -/
def releaseCalleeArray (w : Word) : Marshal π Unit :=
  match m with
  | .rpc => pure ()
  | .ipc => do
    let p ← derefArray w
    if p.type = Type_IObject ∨ p.type = Type_String then
      release (p.payload.owned w.address ++ [.obj w.address])

/-- The eighty bytes in the out buffer that the `mUunm` of an `[out]` `EGuid` points to. -/
def derefOutChars (i : ℕ) : Marshal π CString := fun s =>
  match cstring ((List.range 20).flatMap fun k => wordBytes ((s.outBuffer (i + k)).bits s.addr)) with
  | some str => .ok (str, s)
  | none => .error .outOfBounds

/-- `*(EGuid *)outBuffer`, with the bits of its `mUunm`. -/
def outEGuid : Marshal π (EGuid × UInt32) := do
  let id ← outEMuid
  let w ← out 4
  let mUunm ← match w with
    | .slot i => derefOutChars i
    | w => derefChars w
  let ptr ← outBits 4
  let mCarcode ← outBits 5
  pure (⟨id, mUunm, mCarcode⟩, ptr)

/-- The value in the slot of an `[out]` parameter. -/
def mshOutSlot (t : Param) : Marshal π (Option ECode) :=
  match t.type with
  | .puint64 => do
    let lo ← outBits 0
    let hi ← outBits 1
    let _ ← write (P.writeInt64 (dwordOfWords lo hi))
    bumpOut 2
    pure none
  | .pstring => do
    let w ← out 0
    if w ≠ .null then
      let s ← derefChars w
      let _ ← write (P.writeString (some s))
      release [.obj w.address]
    else
      let _ ← write (P.writeInt32 MSH_NULL)
    bumpOut 2
    pure none
  | .stringBuf | .bufferOf => unreachable
  | .arrayOf => do
    let w ← out 0
    writeArrayAt P w
    if ¬ t.isCallee then releaseCallerArray m w else releaseCalleeArray m w
    bumpOut 1
    pure none
  | .pemuid => do
    let id ← outEMuid
    let _ ← write (P.writeEMuid id)
    bumpOut 4
    pure none
  | .pstruct => do
    let bs ← outBlock 0 (t.size.toNat + m.structOverrun)
    let _ ← write (P.writeStruct (some bs) (t.size.toUInt32 * 4))
    bumpOut t.size.toNat
    pure none
  | .peguid => do
    let (id, ptr) ← outEGuid
    let _ ← write (P.writeEGuid id ptr)
    bumpOut 25
    pure none
  | .pinterface => do
    let object ← asInterface (← out 0)
    let ec ← write (P.writeInterfacePtr object)
    if failed ec then pure (some ec)
    else
      release (object.toList.map .itf)
      bumpOut m.packWords
      pure none
  | _ => do
    let v ← outBits 0
    let _ ← write (P.writeInt32 v)
    bumpOut 1
    pure none

/-- An `[out]` or `[in, out]` parameter. -/
def mshOutOut (onlyReleaseIn : Bool) (t : Param) : Marshal π (Option ECode) := do
  bumpArgs 1
  if onlyReleaseIn then pure none
  else
    let tag ← outBits 0
    if tag ≠ MSH_NULL then
      carAssert (tag = MSH_NOT_NULL)
      let _ ← write (P.writeInt32 MSH_NOT_NULL)
      bumpOut 1
      mshOutSlot m P t
    else
      let _ ← write (P.writeInt32 MSH_NULL)
      bumpOut 1
      pure none

/-- An `[in]` parameter: what `Stub_ProcessUnmsh_In` made for it is released. -/
def mshOutIn (n : ℕ) (t : Param) : Marshal π (Option ECode) :=
  match t.type with
  | .uint64 => do
    align b n
    next 2
  | .puint8 | .puint16 | .puint32 | .puint64 | .string | .peguid => do
    free (← arg 0)
    next 1
  | .emuid => next 4
  | .eguid => next 5
  | .pinterface => do
    let w ← arg 0
    if w = .null then next 1
    else
      match ← deref w with
      | .word w' =>
        let x ← asInterface w'
        release (x.toList.map .itf)
        next 1
      | _ => throw .wildPointer
  | .interface => do
    let x ← asInterface (← arg 0)
    release (x.toList.map .itf)
    next 1
  | .stringBuf | .bufferOf | .arrayOf => do
    let w ← arg 0
    if w = .null then next 1
    else
      let q ← derefArray w
      release (releasedElements w.address q ++ [.obj w.address])
      next 1
  | _ => next 1

def mshOutStep (onlyReleaseIn : Bool) (n : ℕ) (t : Param) : Marshal π (Option ECode) :=
  if t.isOut then mshOutOut m P onlyReleaseIn t else mshOutIn b n t

/-! ### Proxy_ProcessUnmsh_Out -/

/-- Replace the variable of the caller that `w` points to. -/
def modify (w : Word) (f : Obj → Option Obj) : Marshal π Unit := do
  match f (← deref w) with
  | some o => assign w o
  | none => throw .wildPointer

/-- `ReadStruct` to the struct at `w`. -/
def readStructTo (w : Word) : Marshal π Unit := do
  match ← read P.readStruct with
  | (_, .untouched) => pure ()
  | (_, .null) => copyTo w (wordBytes 0)
  | (_, .block bs) => copyTo w bs
where
  copyTo (w : Word) (bs : List UInt8) : Marshal π Unit := do
    match ← deref w with
    | .block old =>
      if bs.length ≤ old.length then assign w (.block (bs ++ old.drop bs.length))
      else throw .outOfBounds
    | _ => throw .wildPointer

/-- `ReadArrayOf` to the variable at `w`. -/
def readArrayTo (w : Word) : Marshal π Unit := do
  match ← read P.readArrayOf with
  | (_, .untouched) => pure ()
  | (_, .null) => setHandle w .null
  | (_, .array q) =>
    let a ← alloc (.array q)
    acquire (q.payload.owned a)
    setHandle w (.obj a)
where
  setHandle (w w' : Word) : Marshal π Unit :=
    modify w fun
      | .word _ => some (.word w')
      | _ => none

/-- `memcpy` of the elements `src` over the first of the elements `dst`, where the two are of
one kind. -/
def overlay (dst src : Payload) : Option Payload :=
  match dst, src with
  | .bytes ds, .bytes ss => some (.bytes (ss ++ ds.drop ss.length))
  | .strings ds, .strings ss => some (.strings (ss ++ ds.drop ss.length))
  | .interfaces ds, .interfaces ss => some (.interfaces (ss ++ ds.drop ss.length))
  | _, _ => none

/-- The caller's quintet after the elements of another were copied to its buffer. -/
def copyElements (q p : CarQuintet) : Obj :=
  match overlay q.payload p.payload with
  | none => .rawArray q.mSize
  | some pl =>
    if h : pl.Fits (q.mFlags &&& TypeMask) q.mSize then
      .array ⟨q.mFlags, q.mReserve, p.mUsed, q.mSize, q.mBuf, pl, h⟩
    else .rawArray q.mSize

/-- The array read back is copied to the one that the caller has allocated. -/
def readCallerArray (w : Word) : Marshal π Unit := do
  match ← read P.readArrayOf with
  | (_, .untouched) => throw .wildPointer
  | (_, .null) => throw .nullPointer
  | (_, .array p) =>
    let a ← alloc (.array p)
    let q ← derefArray w
    if p.mSize ≤ q.mSize then
      assign w (copyElements q p)
      release [.obj a]
    else throw .outOfBounds

/-- `ReadInterfacePtr` to the variable at `w`. -/
def readInterfaceTo (w : Word) : Marshal π Unit := do
  let (_, slot) ← read P.readInterfacePtr
  acquire (slot.taken.toList.map .itf)
  match slot.stored with
  | none => pure ()
  | some x => readArrayTo.setHandle w (.ofInterface x)

/-- The value of an `[out]` parameter is read to where the argument `w` points. -/
def unmshOutVar (t : Param) (w : Word) : Marshal π (Option ECode) :=
  match t.type with
  | .puint8 => do
    let (_, v) ← read P.readByte
    modify w fun
      | .byte _ => some (.byte v)
      | _ => none
    pure none
  | .puint16 => do
    let (_, v) ← read P.readInt16
    modify w fun
      | .short _ => some (.short v)
      | _ => none
    pure none
  | .puint32 => do
    let (ec, v) ← read P.readInt32
    modify w fun
      | .word w' => some (.word (if failed ec then w' else .num v))
      | _ => none
    pure none
  | .puint64 => do
    let (ec, v) ← read P.readInt64
    modify w fun
      | .dword v' => some (.dword (if failed ec then v' else v))
      | _ => none
    pure none
  | .pstruct => do
    readStructTo P w
    pure none
  | .pemuid => do
    let (ec, id) ← read P.readEMuid
    modify w fun
      | .emuid id' => some (.emuid (if failed ec then id' else id))
      | _ => none
    pure none
  | .peguid => do
    let (_, id) ← read P.readEGuid
    modify w fun
      | .eguid id' => some (.eguid (id.getD id'))
      | _ => none
    pure none
  | .pstring => do
    let (_, str) ← read P.readString
    modify w fun
      | .string _ => some (.string str)
      | _ => none
    pure none
  | .stringBuf | .bufferOf | .arrayOf => do
    if ¬ t.isCallee then readCallerArray P w else readArrayTo P w
    pure none
  | .pinterface => do
    readInterfaceTo P w
    pure none
  | _ => unreachable

/-- An `[out]` or `[in, out]` parameter. -/
def unmshOutOut (t : Param) : Marshal π (Option ECode) := do
  let w ← arg 0
  let (_, pointValue) ← read P.readInt32
  if w ≠ .null then
    if pointValue ≠ MSH_NOT_NULL then pure (some E_INVALID_ARGUMENT)
    else
      match ← unmshOutVar P t w with
      | some ec => pure (some ec)
      | none => next 1
  else if pointValue ≠ MSH_NULL then pure (some E_INVALID_ARGUMENT)
  else next 1

/-- An `[in]` parameter is skipped. -/
def unmshOutIn (n : ℕ) (t : Param) : Marshal π (Option ECode) :=
  match t.type with
  | .uint64 => do
    align b n
    next 2
  | .emuid => next 4
  | .eguid => next 5
  | _ => next 1

def unmshOutStep (n : ℕ) (t : Param) : Marshal π (Option ECode) :=
  if t.isOut then unmshOutOut P t else unmshOutIn b n t

end Marshal

open Marshal in
/-- `Proxy_ProcessMsh_BufferSize`. -/
def proxyProcessMshBufferSize (m : Marshaller) (b : Build) (rawLen : Word → UInt32)
    (params : List Param) : Marshal Sizes ECode :=
  process (bufferSizeStep m b rawLen) 0 params

open Marshal in
/-- `Proxy_ProcessMsh_In`. -/
def proxyProcessMshIn {π : Type} (m : Marshaller) (b : Build) (P : IParcel π)
    (params : List Param) : Marshal π ECode :=
  process (mshInStep m b P) 0 params

/-- The out buffer behind its `MarshalHeader`. -/
def Proc.skipHeader {π : Type} (s : Proc π) : Proc π := { s with out := s.out.map (· + 4) }

open Marshal in
/-- `Stub_ProcessUnmsh_In`. -/
def stubProcessUnmshIn {π : Type} (m : Marshaller) (b : Build) (P : IParcel π)
    (params : List Param) : Marshal π ECode :=
  fun s => process (unmshInStep m b P) 0 params s.skipHeader

open Marshal in
/-- `Stub_ProcessMsh_Out`. -/
def stubProcessMshOut {π : Type} (m : Marshaller) (b : Build) (P : IParcel π)
    (params : List Param) (onlyReleaseIn : Bool) : Marshal π ECode :=
  fun s => process (mshOutStep m b P onlyReleaseIn) 0 params s.skipHeader

open Marshal in
/-- `Proxy_ProcessUnmsh_Out`. -/
def proxyProcessUnmshOut {π : Type} (b : Build) (P : IParcel π) (params : List Param) :
    Marshal π ECode :=
  process (unmshOutStep b P) 0 params

end ElastosCar
