import ElastosCar.Parcel.ArrayTrip

/-!
# The parcel of the binder marshaller

`CRemoteParcel` of `android_linux` hands every value to an `android::Parcel`. The `Write*`
functions compute a size and call `WriteValue`, whose branch for structs alone uses it, and
`ReadValue` mirrors the branches.

* `android::Parcel` is not in the sources: `AndroidParcel` has its operations, and says of them that
  reads in the order of the writes return what was written.
* A write says what it hands to the parcel and how many bytes it reads of each object at its
  argument; a read says what it leaves in the variable at its argument.
* `WriteStruct` adds the size of the null tag to the size of the struct, and the branch copies so
  many bytes of the struct. `ReadArrayOfString` does nothing on the tag of a null array. These are
  the two that do not come back (`roundTrips_iff_survives`).
-/

namespace ElastosCar

namespace Ipc

open CRemoteParcel (fill length_fill fill_of_length fits_strings eq_zero_of_fits)

/-! ### The parcel below -/

/-- What one write leaves in an `android::Parcel`. -/
inductive Item
  | int32 (v : UInt32)
  /-- Also what `writeDouble` leaves. -/
  | int64 (v : UInt64)
  | float (bits : UInt32)
  | cstring (s : CString)
  | block (bs : List UInt8)
deriving DecidableEq, Repr

/-- A read takes these items off the front of what is unread. -/
def Takes {σ α : Type} (unread : σ → List Item) (r : Run σ Fault α) (items : List Item) (v : α) :
    Prop :=
  ∀ s rest, unread s = items ++ rest → ∃ s', r s = .ok (v, s') ∧ unread s' = rest

/-- `android::Parcel`. Bytes are written and read at the address of an object. -/
structure AndroidParcel where
  /-- A parcel to write to. -/
  Out : Type
  /-- A parcel to read from. -/
  In : Type
  new : Out
  writeInt32 : UInt32 → Out → Out
  writeInt64 : UInt64 → Out → Out
  writeFloat : UInt32 → Out → Out
  writeDouble : UInt64 → Out → Out
  writeCString : CString → Out → Out
  write : List UInt8 → Out → Out
  /-- Back to the start. -/
  rewind : Out → In
  readInt32 : Run In Fault UInt32
  readInt64 : Run In Fault UInt64
  readFloat : Run In Fault UInt32
  readCString : Run In Fault CarString
  read : ℕ → Run In Fault (List UInt8)
  /-- What was written. -/
  written : Out → List Item
  unread : In → List Item
  written_new : written new = []
  written_writeInt32 : ∀ v p, written (writeInt32 v p) = written p ++ [.int32 v]
  written_writeInt64 : ∀ v p, written (writeInt64 v p) = written p ++ [.int64 v]
  written_writeFloat : ∀ v p, written (writeFloat v p) = written p ++ [.float v]
  written_writeDouble : ∀ v p, written (writeDouble v p) = written p ++ [.int64 v]
  written_writeCString : ∀ s p, written (writeCString s p) = written p ++ [.cstring s]
  /-- Nothing is left of a write of no bytes. -/
  written_write : ∀ bs p, written (write bs p) = written p ++ if bs = [] then [] else [.block bs]
  unread_rewind : ∀ p, unread (rewind p) = written p
  takes_readInt32 : ∀ v, Takes unread readInt32 [.int32 v] v
  takes_readInt64 : ∀ v, Takes unread readInt64 [.int64 v] v
  takes_readFloat : ∀ v, Takes unread readFloat [.float v] v
  takes_readCString : ∀ s, Takes unread readCString [.cstring s] (some s)
  takes_read : ∀ bs, Takes unread (read bs.length) [.block bs] bs

/-! ### What is written -/

/-- A value and the operation it is written with. -/
inductive Source
  | byte (v : UInt8)
  | boolean (v : UInt8)
  | char32 (v : UInt32)
  | int16 (v : Int16)
  | int32 (v : UInt32)
  | int64 (v : UInt64)
  | float (bits : UInt32)
  | double (bits : UInt64)
  | string (v : CarString)
  /-- The memory from the address on, unless that is `NULL`, and the size. -/
  | struct (value : Option Block) (size : UInt32)
  | emuid (id : EMuid)
  /-- With the address in `mUunm`. -/
  | eguid (id : EGuid) (ptr : UInt32)
  | arrayOf (array : Option { q : CarQuintet // q.Plain })
  | arrayOfString (array : Option { q : CarQuintet // q.type = Type_String })

namespace Source

/-- The size that the `Write*` function hands to `WriteValue`. -/
def size : Source → UInt32
  | .byte _ | .boolean _ | .char32 _ | .int16 _ | .int32 _ | .float _ => 4
  | .int64 _ | .double _ => 8
  | .string none => 4
  | .string (some s) => 4 + (padSize (UInt32.ofNat s.chars.length + 1) + 4)
  | .struct _ size => size + 4
  | .emuid _ => 16
  | .eguid id _ => 24 + padSize (UInt32.ofNat id.mUunm.chars.length + 1) + 4 * 2
  | .arrayOf none | .arrayOfString none => 4
  | .arrayOf (some q) | .arrayOfString (some q) => 4 + 20 + q.1.mSize

end Source

section Write

variable (P : AndroidParcel)

/-- The loops over `String` elements, and the bytes they read of each string. -/
def writeStrings : List CarString → P.Out → P.Out × List ℕ
  | [], p => (p, [])
  | none :: ss, p => writeStrings ss (P.writeInt32 MSH_NULL p)
  | some s :: ss, p =>
    let (p, reads) := writeStrings ss (P.writeCString s (P.writeInt32 MSH_NOT_NULL p))
    (p, (s.chars.length + 1) :: reads)

/-- The elements of an array without interfaces: the bytes of the buffer that are read, and those of
each string. -/
def writeElements : Payload → P.Out → P.Out × List ℕ
  | .bytes bs, p => (P.write bs p, [bs.length])
  | .strings ss, p =>
    let (p, reads) := writeStrings P ss p
    (p, 8 * ss.length :: reads)
  | .interfaces _, p => (p, [])

/-- `WriteValue`: the parcel, and how many bytes are read of each object. -/
def writeValue (v : Source) (size : UInt32) (p : P.Out) : P.Out × List ℕ :=
  match v with
  | .byte v | .boolean v => (P.writeInt32 v.toUInt32 p, [1])
  | .int16 v => (P.writeInt32 v.toInt32.toUInt32 p, [2])
  | .char32 v | .int32 v => (P.writeInt32 v p, [4])
  | .float bits => (P.writeFloat bits p, [4])
  | .int64 v => (P.writeInt64 v p, [8])
  | .double bits => (P.writeDouble bits p, [8])
  | .string none | .struct none _ | .arrayOf none | .arrayOfString none =>
    (P.writeInt32 MSH_NULL p, [])
  | .string (some s) => (P.writeCString s (P.writeInt32 MSH_NOT_NULL p), [s.chars.length + 1])
  | .struct (some value) _ =>
    let p := P.writeInt32 size (P.writeInt32 MSH_NOT_NULL p)
    (P.write (load value 0 size.toNat) p, [size.toNat])
  | .emuid id => (P.write id.bytes p, [16])
  | .eguid id ptr =>
    (P.writeCString id.mUunm (P.write (id.bytes ptr) p), [24, id.mUunm.chars.length + 1])
  | .arrayOf (some q) =>
    let (p, reads) := writeElements P q.1.payload (P.write q.1.bytes (P.writeInt32 MSH_NOT_NULL p))
    (p, 20 :: reads)
  | .arrayOfString (some q) =>
    let (p, reads) := writeStrings P q.1.strings (P.write q.1.bytes (P.writeInt32 MSH_NOT_NULL p))
    (p, 20 :: 8 * q.1.strings.length :: reads)

/-- The `Write*` function of a value. -/
def Source.write (v : Source) : P.Out → P.Out × List ℕ := writeValue P v v.size

/-- The writes one after the other. -/
def writeValues : List Source → P.Out → P.Out
  | [], p => p
  | v :: vs, p => writeValues vs (v.write P p).1

end Write

/-- The bytes of the elements of an array without interfaces: of the buffer, and of each
string. -/
def elementBytes : Payload → List ℕ
  | .bytes bs => [bs.length]
  | .strings ss => 8 * ss.length :: ss.filterMap fun s => s.map fun s => s.chars.length + 1
  | .interfaces _ => []

/-- The bytes of the objects that a value is made of. -/
def Source.own : Source → List ℕ
  | .byte _ | .boolean _ => [1]
  | .int16 _ => [2]
  | .char32 _ | .int32 _ | .float _ => [4]
  | .int64 _ | .double _ => [8]
  | .string none | .struct none _ | .arrayOf none | .arrayOfString none => []
  | .string (some s) => [s.chars.length + 1]
  | .struct (some _) size => [size.toNat]
  | .emuid _ => [16]
  | .eguid id _ => [24, id.mUunm.chars.length + 1]
  | .arrayOf (some q) => 20 :: elementBytes q.1.payload
  | .arrayOfString (some q) => 20 :: elementBytes q.1.payload

/-! ### What is read -/

/-- The variable that a value is read into; of an array variable, what it holds. -/
inductive Target
  | byte | boolean | char32 | int16 | int32 | int64 | float | double | string | struct | emuid
  | eguid
  | arrayOf (old : Option CarQuintet)
  | arrayOfString (old : Option CarQuintet)

/-- What a read leaves in the variable. -/
inductive Dest
  | byte (v : UInt8)
  | boolean (v : UInt8)
  | char32 (v : UInt32)
  | int16 (v : Int16)
  | int32 (v : UInt32)
  | int64 (v : UInt64)
  | float (bits : UInt32)
  | double (bits : UInt64)
  | string (v : CarString)
  /-- The bytes that are stored from the address on, if any. -/
  | struct (stored : Option (List UInt8))
  | emuid (id : EMuid)
  | eguid (id : EGuid)
  | array (v : Option CarQuintet)

/-- What a read depends on besides the parcel: the loop over interface pointers of `ReadValue`, and
the addresses of new buffers. -/
structure Surroundings (P : AndroidParcel) where
  readInterfaces : (n : ℕ) → Run P.In Fault (ECode × { xs : List (Option Itf) // xs.length = n })
  buf : UInt32

section Read

variable (P : AndroidParcel) (env : Surroundings P)

/-- The loops over the `String` elements of a new array. -/
def readStrings : (n : ℕ) → Run P.In Fault { ss : List CarString // ss.length = n }
  | 0 => pure ⟨[], rfl⟩
  | n + 1 => do
    let tag ← P.readInt32
    let s ← if tag ≠ MSH_NULL then P.readCString else pure none
    let ss ← readStrings n
    pure ⟨s :: ss.1, by simp [ss.2]⟩

/-- The same loop when no array could be allocated: an element is stored through `NULL`. -/
def readNulls : ℕ → Run P.In Fault Unit
  | 0 => pure ()
  | n + 1 => do
    let tag ← P.readInt32
    if tag ≠ MSH_NULL then throw .nullPointer else readNulls n

/-- The elements of a new array of `size` bytes. -/
def readElements (type size : UInt32) :
    Run P.In Fault (ECode × { pl : Payload // pl.Fits type size }) :=
  if hs : type = Type_String then do
    let ss ← readStrings P (size / sizeofString).toNat
    pure (NOERROR, ⟨.strings ss.1, Payload.fits_newStrings hs ss⟩)
  else if hi : type = Type_IObject then do
    let (ec, xs) ← env.readInterfaces (size / 4).toNat
    pure (ec, ⟨.interfaces xs.1, Payload.fits_newInterfaces hi xs⟩)
  else do
    let bs ← P.read size.toNat
    pure (NOERROR, ⟨.bytes (fill size.toNat bs), hs, hi, length_fill _ _⟩)

/-- A new array with the flags and the size that were read. -/
def readAllocated (flags size : UInt32) : Run P.In Fault (ECode × ArraySlot) :=
  if refusesSize size then pure (NOERROR, .null)
  else if size ≠ 0 then do
    let (ec, pl) ← readElements P env (flags &&& TypeMask) size
    pure (ec, .array (.allocated flags size env.buf pl.1
      (Payload.fits_new pl)))
  else
    pure (NOERROR, .array (.allocated flags size env.buf (Payload.zero (flags &&& TypeMask) size)
      (Payload.fits_zeros flags size)))

/-- The branch of `ReadValue` for arrays. -/
def readArrayOf : Run P.In Fault (ECode × ArraySlot) := do
  let tag ← P.readInt32
  if tag ≠ MSH_NULL then
    let q ← P.read 20
    readAllocated P env (wordOf (q.take 4)) (wordOf ((q.drop 12).take 4))
  else pure (NOERROR, .null)

/-- A new string array for the size that was read, rounded down to whole elements. -/
def readAllocatedStrings (size : UInt32) : Run P.In Fault (ECode × ArraySlot) :=
  if refusesSize (size / sizeofString * sizeofString) then do
    readNulls P (size / sizeofString).toNat
    pure (NOERROR, .null)
  else do
    let ss ← readStrings P (size / sizeofString).toNat
    pure (NOERROR, .array (.allocated Type_String (size / sizeofString * sizeofString) env.buf
      (.strings ss.1) (fits_strings ss.2)))

/-- The branch of `ReadValue` for string arrays. There is no code for a null tag. -/
def readArrayOfString : Run P.In Fault (ECode × ArraySlot) := do
  let tag ← P.readInt32
  if tag ≠ MSH_NULL then
    let q ← P.read 20
    readAllocatedStrings P env (wordOf ((q.drop 12).take 4))
  else pure (NOERROR, .untouched)

/-- The branch of `ReadValue` for strings. -/
def readString : Run P.In Fault CarString := do
  let tag ← P.readInt32
  if tag ≠ MSH_NULL then P.readCString else pure none

/-- The branch of `ReadValue` for structs: what is stored. -/
def readStruct : Run P.In Fault (Option (List UInt8)) := do
  let tag ← P.readInt32
  if tag ≠ MSH_NULL then
    let len ← P.readInt32
    let bs ← P.read len.toNat
    pure (some bs)
  -- here `value = NULL` assigns the parameter
  else pure none

/-- The branch of `ReadValue` for `EGuid`s: the name is copied, so it must be there. -/
def readEGuid : Run P.In Fault EGuid := do
  let bs ← P.read 24
  match ← P.readCString with
  | some s => pure ⟨EMuid.ofBytes (bs.take 16), s, wordOf ((bs.drop 20).take 4)⟩
  | none => throw .nullPointer

/-- `ReadValue`. -/
def readValue : Target → Run P.In Fault (ECode × Dest)
  | .byte => do let v ← P.readInt32; pure (NOERROR, .byte v.toUInt8)
  | .boolean => do let v ← P.readInt32; pure (NOERROR, .boolean v.toUInt8)
  | .char32 => do let v ← P.readInt32; pure (NOERROR, .char32 v)
  | .int16 => do let v ← P.readInt32; pure (NOERROR, .int16 v.toUInt16.toInt16)
  | .int32 => do let v ← P.readInt32; pure (NOERROR, .int32 v)
  | .int64 => do let v ← P.readInt64; pure (NOERROR, .int64 v)
  | .float => do let v ← P.readFloat; pure (NOERROR, .float v)
  | .double => do let v ← P.readInt64; pure (NOERROR, .double v)
  | .string => do let v ← readString P; pure (NOERROR, .string v)
  | .struct => do let v ← readStruct P; pure (NOERROR, .struct v)
  | .emuid => do let bs ← P.read 16; pure (NOERROR, .emuid (EMuid.ofBytes bs))
  | .eguid => do let v ← readEGuid P; pure (NOERROR, .eguid v)
  | .arrayOf old => do
    let (ec, slot) ← readArrayOf P env
    pure (ec, .array (slot.after old))
  | .arrayOfString old => do
    let (ec, slot) ← readArrayOfString P env
    pure (ec, .array (slot.after old))

/-- The reads one after the other. -/
def readValues : List Target → Run P.In Fault (List (ECode × Dest))
  | [] => pure []
  | t :: ts => do
    let v ← readValue P env t
    let vs ← readValues ts
    pure (v :: vs)

end Read

/-! ### The round trip -/

/-- The variable for a value; an array variable holds `old`. -/
def Source.target (old : Option CarQuintet) : Source → Target
  | .byte _ => .byte
  | .boolean _ => .boolean
  | .char32 _ => .char32
  | .int16 _ => .int16
  | .int32 _ => .int32
  | .int64 _ => .int64
  | .float _ => .float
  | .double _ => .double
  | .string _ => .string
  | .struct _ _ => .struct
  | .emuid _ => .emuid
  | .eguid _ _ => .eguid
  | .arrayOf _ => .arrayOf old
  | .arrayOfString _ => .arrayOfString old

/-- The variable has the value that was written: of a struct its bytes and no others, of an array
the elements, and `NULL` for a null one. -/
def Source.Same : Source → Dest → Prop
  | .byte v, .byte w | .boolean v, .boolean w => v = w
  | .char32 v, .char32 w | .int32 v, .int32 w | .float v, .float w => v = w
  | .int16 v, .int16 w => v = w
  | .int64 v, .int64 w | .double v, .double w => v = w
  | .string v, .string w => v = w
  | .struct v n, .struct w => w = v.map fun value => load value 0 n.toNat
  | .emuid v, .emuid w => v = w
  | .eguid v _, .eguid w => v = w
  | .arrayOf none, .array w | .arrayOfString none, .array w => w = none
  | .arrayOf (some q), .array w => ∃ x, w = some x ∧ x.SameContents q.1
  | .arrayOfString (some q), .array w => ∃ x, w = some x ∧ x.strings = q.1.strings
  | _, _ => False

/-- **The round trip** of a sequence of values, each with what the variable holds that it is read
into: every write reads the bytes of its value and no others, and the reads succeed and return the
values. -/
def RoundTrips (P : AndroidParcel) (ws : List (Source × Option CarQuintet)) : Prop :=
  (∀ w ∈ ws, ∀ p, (w.1.write P p).2 = w.1.own) ∧
    ∀ env : Surroundings P, ∃ ds s,
      readValues P env (ws.map fun w => w.1.target w.2)
        (P.rewind (writeValues P (ws.map Prod.fst) P.new)) = .ok (ds, s) ∧
      List.Forall₂ (fun w d => d.1 = NOERROR ∧ w.1.Same d.2) ws ds

/-- What comes back: no struct but the null one, no null string array but into a variable that is
null already, and arrays of sizes that can be allocated. -/
def Survives : Source × Option CarQuintet → Prop
  | (.struct (some _) _, _) => False
  | (.arrayOf (some q), _) => refusesSize q.1.mSize = false
  | (.arrayOfString none, old) => old = none
  | (.arrayOfString (some q), _) =>
    refusesSize (q.1.mSize / sizeofString * sizeofString) = false
  | _ => True

/-! ### What goes through the parcel -/

/-- What a write of bytes leaves. -/
def blockItems (bs : List UInt8) : List Item := if bs = [] then [] else [.block bs]

def stringItems : CarString → List Item
  | none => [.int32 MSH_NULL]
  | some s => [.int32 MSH_NOT_NULL, .cstring s]

def elementItems : Payload → List Item
  | .bytes bs => blockItems bs
  | .strings ss => ss.flatMap stringItems
  | .interfaces _ => []

/-- What a value leaves in the parcel. -/
def Source.items : Source → List Item
  | .byte v | .boolean v => [.int32 v.toUInt32]
  | .int16 v => [.int32 v.toInt32.toUInt32]
  | .char32 v | .int32 v => [.int32 v]
  | .float bits => [.float bits]
  | .int64 v | .double v => [.int64 v]
  | .string v => stringItems v
  | .struct none _ | .arrayOf none | .arrayOfString none => [.int32 MSH_NULL]
  | .struct (some value) size =>
    [.int32 MSH_NOT_NULL, .int32 (size + 4)] ++ blockItems (load value 0 (size + 4).toNat)
  | .emuid id => [.block id.bytes]
  | .eguid id ptr => [.block (id.bytes ptr), .cstring id.mUunm]
  | .arrayOf (some q) =>
    [.int32 MSH_NOT_NULL, .block q.1.bytes] ++ elementItems q.1.payload
  | .arrayOfString (some q) =>
    [.int32 MSH_NOT_NULL, .block q.1.bytes] ++ q.1.strings.flatMap stringItems

section Write

variable {P : AndroidParcel}

theorem written_block {bs : List UInt8} (h : bs ≠ []) (p : P.Out) :
    P.written (P.write bs p) = P.written p ++ [.block bs] := by
  rw [P.written_write, if_neg h]

theorem written_writeStrings (ss : List CarString) (p : P.Out) :
    P.written (writeStrings P ss p).1 = P.written p ++ ss.flatMap stringItems := by
  induction ss generalizing p with
  | nil => exact (List.append_nil _).symm
  | cons s ss ih =>
    cases s with
    | none =>
      rw [writeStrings, ih, P.written_writeInt32, List.append_assoc]
      rfl
    | some s =>
      rw [writeStrings]
      dsimp only
      rw [ih, P.written_writeCString, P.written_writeInt32, List.append_assoc, List.append_assoc]
      rfl

theorem written_quintet (q : CarQuintet) (p : P.Out) :
    P.written (P.write q.bytes (P.writeInt32 MSH_NOT_NULL p)) =
      P.written p ++ [.int32 MSH_NOT_NULL, .block q.bytes] := by
  have hne : q.bytes ≠ [] := List.ne_nil_of_length_pos (by rw [q.length_bytes]; decide)
  rw [written_block hne, P.written_writeInt32, List.append_assoc]
  rfl

theorem written_writeElements (pl : Payload) (p : P.Out) :
    P.written (writeElements P pl p).1 = P.written p ++ elementItems pl := by
  cases pl with
  | bytes bs => exact P.written_write bs p
  | strings ss => exact written_writeStrings ss p
  | interfaces xs => exact (List.append_nil _).symm

/-- A write leaves its items. -/
theorem written_writeValue (v : Source) (p : P.Out) :
    P.written (v.write P p).1 = P.written p ++ v.items := by
  cases v with
  | byte v | boolean v | char32 v | int16 v | int32 v => exact P.written_writeInt32 _ p
  | int64 v => exact P.written_writeInt64 v p
  | float bits => exact P.written_writeFloat bits p
  | double bits => exact P.written_writeDouble bits p
  | string v =>
    cases v with
    | none => exact P.written_writeInt32 _ p
    | some s =>
      refine (P.written_writeCString s _).trans ?_
      rw [P.written_writeInt32, List.append_assoc]
      rfl
  | struct value size =>
    cases value with
    | none => exact P.written_writeInt32 _ p
    | some value =>
      refine (P.written_write _ _).trans ?_
      rw [P.written_writeInt32, P.written_writeInt32, List.append_assoc, List.append_assoc]
      rfl
  | emuid id =>
    exact written_block (List.ne_nil_of_length_pos (by rw [id.length_bytes]; decide)) p
  | eguid id ptr =>
    have hne : id.bytes ptr ≠ [] := List.ne_nil_of_length_pos (by rw [id.length_bytes]; decide)
    refine (P.written_writeCString id.mUunm _).trans ?_
    rw [written_block hne, List.append_assoc]
    rfl
  | arrayOf array =>
    cases array with
    | none => exact P.written_writeInt32 _ p
    | some q =>
      refine (written_writeElements q.1.payload _).trans ?_
      rw [written_quintet, List.append_assoc]
      rfl
  | arrayOfString array =>
    cases array with
    | none => exact P.written_writeInt32 _ p
    | some q =>
      refine (written_writeStrings q.1.strings _).trans ?_
      rw [written_quintet, List.append_assoc]
      rfl

theorem written_writeValues (vs : List Source) (p : P.Out) :
    P.written (writeValues P vs p) = P.written p ++ vs.flatMap Source.items := by
  induction vs generalizing p with
  | nil => exact (List.append_nil _).symm
  | cons v vs ih => rw [writeValues, ih, written_writeValue, List.append_assoc, List.flatMap_cons]

/-- The bytes that are read of the strings of an array. -/
theorem writeStrings_snd (ss : List CarString) (p : P.Out) :
    (writeStrings P ss p).2 = ss.filterMap fun s => s.map fun s => s.chars.length + 1 := by
  induction ss generalizing p with
  | nil => rfl
  | cons s ss ih =>
    cases s with
    | none => exact ih _
    | some s => exact congrArg ((s.chars.length + 1) :: ·) (ih _)

theorem payload_eq_strings {q : CarQuintet} (hq : q.type = Type_String) :
    q.payload = .strings q.strings := by
  have hfits := q.fits
  rw [CarQuintet.strings]
  rcases hpayload : q.payload with bs | ss | xs
  · rw [hpayload] at hfits
    exact absurd hq hfits.1
  · rfl
  · rw [hpayload] at hfits
    exact absurd (hq.symm.trans hfits.1) (by decide)

/-- Only a struct is not read as far as it goes. -/
theorem write_own_iff (v : Source) (p : P.Out) :
    (v.write P p).2 = v.own ↔ ∀ value size, v ≠ .struct (some value) size := by
  cases v with
  | byte v | boolean v | char32 v | int16 v | int32 v | int64 v | float v | double v | emuid v =>
    exact iff_of_true rfl nofun
  | eguid id ptr => exact iff_of_true rfl nofun
  | string v => cases v <;> exact iff_of_true rfl nofun
  | struct value size =>
    cases value with
    | none => exact iff_of_true rfl nofun
    | some value =>
      refine iff_of_false (fun h => ?_) fun h => h value size rfl
      have heq : (size + 4).toNat = size.toNat := List.head_eq_of_cons_eq h
      have hlt := size.toNat_lt
      simp only [UInt32.toNat_add, UInt32.reduceToNat] at heq
      omega
  | arrayOf array =>
    cases array with
    | none => exact iff_of_true rfl nofun
    | some q =>
      refine iff_of_true (congrArg (20 :: ·) ?_) nofun
      rcases q.1.payload with bs | ss | xs
      · rfl
      · exact congrArg (8 * ss.length :: ·) (writeStrings_snd ss _)
      · rfl
  | arrayOfString array =>
    cases array with
    | none => exact iff_of_true rfl nofun
    | some q =>
      refine iff_of_true (congrArg (20 :: ·) ?_) nofun
      rw [payload_eq_strings q.2]
      exact congrArg (8 * q.1.strings.length :: ·) (writeStrings_snd q.1.strings _)

end Write

/-! ### The reads -/

namespace Takes

variable {σ α β : Type} {unread : σ → List Item} {r : Run σ Fault α} {f : α → Run σ Fault β}
  {is js : List Item} {v : α} {w : β}

theorem pure (v : α) : Takes unread (pure v) [] v := fun s _ hs => ⟨s, rfl, hs⟩

theorem bind (hr : Takes unread r is v) (hf : Takes unread (f v) js w) :
    Takes unread (r >>= f) (is ++ js) w := by
  intro s rest hs
  rw [List.append_assoc] at hs
  obtain ⟨s', hrun, hs'⟩ := hr s _ hs
  obtain ⟨s'', hrun', hs''⟩ := hf s' rest hs'
  exact ⟨s'', by rw [Run.bind_ok hrun, hrun'], hs''⟩

/-- A read followed by a computation. -/
theorem map (hr : Takes unread r is v) (hf : f v = Pure.pure w) : Takes unread (r >>= f) is w := by
  have hpure : Takes unread (f v) [] w := hf ▸ pure w
  have hbind := hr.bind hpure
  rwa [List.append_nil] at hbind

/-- There is no other result. -/
theorem eq_of_run (hr : Takes unread r is v) {s s' : σ} {rest : List Item} {v' : α}
    (hs : unread s = is ++ rest) (hrun : r s = .ok (v', s')) : v' = v := by
  obtain ⟨s'', hrun', -⟩ := hr s rest hs
  exact congrArg Prod.fst (Except.ok.inj (hrun.symm.trans hrun'))

end Takes

section Read

variable {P : AndroidParcel} {env : Surroundings P}

theorem takes_readString (s : CarString) : Takes P.unread (readString P) (stringItems s) s := by
  cases s with
  | none => exact (P.takes_readInt32 MSH_NULL).bind (Takes.pure none)
  | some s => exact (P.takes_readInt32 MSH_NOT_NULL).bind (P.takes_readCString s)

theorem takes_readStrings (ss : List CarString) {n : ℕ} (hn : ss.length = n) :
    Takes P.unread (readStrings P n) (ss.flatMap stringItems) ⟨ss, hn⟩ := by
  induction ss generalizing n with
  | nil =>
    subst hn
    exact Takes.pure _
  | cons s ss ih =>
    subst hn
    cases s with
    | none =>
      exact (P.takes_readInt32 MSH_NULL).bind ((Takes.pure none).bind ((ih rfl).map rfl))
    | some s =>
      exact (P.takes_readInt32 MSH_NOT_NULL).bind ((P.takes_readCString s).bind ((ih rfl).map rfl))

theorem takes_readElements {type size : UInt32} {pl : Payload} (hfits : pl.Fits type size)
    (htype : type ≠ Type_IObject) (hsize : size ≠ 0) :
    Takes P.unread (readElements P env type size) (elementItems pl) (NOERROR, ⟨pl, hfits⟩) := by
  rw [readElements]
  cases pl with
  | bytes bs =>
    have hlen : bs.length = size.toNat := hfits.2.2
    have hne : bs ≠ [] := by
      rintro rfl
      exact hsize (UInt32.toNat_inj.mp hlen.symm)
    have hread : Takes P.unread (P.read size.toNat) [.block bs] bs := hlen ▸ P.takes_read bs
    rw [dif_neg hfits.1, dif_neg hfits.2.1, elementItems, blockItems, if_neg hne]
    refine hread.map ?_
    simp only [fill_of_length hlen]
  | strings ss =>
    rw [dif_pos hfits.1]
    exact (takes_readStrings ss hfits.2).map rfl
  | interfaces xs => exact absurd hfits.1 htype

/-- The new array has the elements of the one that was written. -/
theorem takes_readAllocated {q : CarQuintet} (hq : q.Plain) (hsize : refusesSize q.mSize = false) :
    Takes P.unread (readAllocated P env q.mFlags q.mSize) (elementItems q.payload)
      (NOERROR, .array (q.copy env.buf)) := by
  simp only [readAllocated, hsize, Bool.false_eq_true, if_false]
  split
  · next h0 => exact (takes_readElements q.fits hq h0).map rfl
  · next h0 =>
    obtain ⟨hpl, -⟩ := eq_zero_of_fits (not_not.mp h0) q.fits
    have hcopy : q.copy env.buf = .allocated q.mFlags q.mSize env.buf
        (Payload.zero (q.mFlags &&& TypeMask) q.mSize) (Payload.fits_zero _ _) := by
      simp only [CarQuintet.copy, CarQuintet.allocated, hpl]
    have hitems : elementItems q.payload = [] := by
      rw [hpl, not_not.mp h0, Payload.zero]
      split
      · rfl
      · split <;> rfl
    rw [hcopy, hitems]
    exact Takes.pure _

theorem takes_header (q : CarQuintet) : Takes P.unread (P.read 20) [.block q.bytes] q.bytes := by
  have h := P.takes_read q.bytes
  rwa [q.length_bytes] at h

/-- The tag and the header, whatever follows. -/
theorem takes_readArrayOf {q : CarQuintet} {items : List Item} {v : ECode × ArraySlot}
    (h : Takes P.unread (readAllocated P env q.mFlags q.mSize) items v) :
    Takes P.unread (readArrayOf P env) ([.int32 MSH_NOT_NULL, .block q.bytes] ++ items) v := by
  refine (P.takes_readInt32 MSH_NOT_NULL).bind ((takes_header q).bind ?_)
  rwa [q.wordOf_take_bytes, q.wordOf_drop_bytes]

theorem takes_readArrayOfString {q : CarQuintet} {items : List Item} {v : ECode × ArraySlot}
    (h : Takes P.unread (readAllocatedStrings P env q.mSize) items v) :
    Takes P.unread (readArrayOfString P env) ([.int32 MSH_NOT_NULL, .block q.bytes] ++ items)
      v := by
  refine (P.takes_readInt32 MSH_NOT_NULL).bind ((takes_header q).bind ?_)
  rwa [q.wordOf_drop_bytes]

theorem length_strings {q : CarQuintet} (hq : q.type = Type_String) :
    q.strings.length = (q.mSize / sizeofString).toNat := by
  have hfits := q.fits
  rw [payload_eq_strings hq] at hfits
  exact hfits.2

/-- What survives is read back. -/
theorem exists_takes_readValue (env : Surroundings P) {v : Source} {old : Option CarQuintet}
    (h : Survives (v, old)) :
    ∃ d, Takes P.unread (readValue P env (v.target old)) v.items (NOERROR, d) ∧ v.Same d := by
  cases v with
  | byte v => exact ⟨.byte v, (P.takes_readInt32 _).map (by simp), rfl⟩
  | boolean v => exact ⟨.boolean v, (P.takes_readInt32 _).map (by simp), rfl⟩
  | char32 v => exact ⟨.char32 v, (P.takes_readInt32 v).map rfl, rfl⟩
  | int16 v =>
    refine ⟨.int16 v, (P.takes_readInt32 _).map ?_, rfl⟩
    rw [CRemoteParcel.toInt16_toInt32]
  | int32 v => exact ⟨.int32 v, (P.takes_readInt32 v).map rfl, rfl⟩
  | int64 v => exact ⟨.int64 v, (P.takes_readInt64 v).map rfl, rfl⟩
  | float bits => exact ⟨.float bits, (P.takes_readFloat bits).map rfl, rfl⟩
  | double bits => exact ⟨.double bits, (P.takes_readInt64 bits).map rfl, rfl⟩
  | string v => exact ⟨.string v, (takes_readString v).map rfl, rfl⟩
  | struct value size =>
    cases value with
    | none =>
      have hread : Takes P.unread (readStruct P) [.int32 MSH_NULL] none :=
        (P.takes_readInt32 MSH_NULL).bind (Takes.pure none)
      exact ⟨.struct none, hread.map rfl, rfl⟩
    | some value => exact h.elim
  | emuid id =>
    have hread := P.takes_read id.bytes
    rw [id.length_bytes] at hread
    exact ⟨.emuid id, hread.map (by simp), rfl⟩
  | eguid id ptr =>
    have hread := P.takes_read (id.bytes ptr)
    rw [id.length_bytes] at hread
    have hname := (P.takes_readCString id.mUunm).map (f := fun
      | some s => (pure ⟨EMuid.ofBytes ((id.bytes ptr).take 16), s,
          wordOf (((id.bytes ptr).drop 20).take 4)⟩ : Run P.In Fault EGuid)
      | none => throw .nullPointer) (congrArg pure (CRemoteParcel.mk_bytes id ptr))
    have heguid : Takes P.unread (readEGuid P) [.block (id.bytes ptr), .cstring id.mUunm] id :=
      hread.bind hname
    exact ⟨.eguid id, heguid.map rfl, rfl⟩
  | arrayOf array =>
    cases array with
    | none =>
      have hread : Takes P.unread (readArrayOf P env) [.int32 MSH_NULL] (NOERROR, .null) :=
        (P.takes_readInt32 MSH_NULL).bind (Takes.pure _)
      exact ⟨.array none, hread.map rfl, rfl⟩
    | some q =>
      have helements : Takes P.unread (readAllocated P env q.1.mFlags q.1.mSize)
          (elementItems q.1.payload) (NOERROR, .array (q.1.copy env.buf)) :=
        takes_readAllocated q.2 h
      have hread := takes_readArrayOf helements
      exact ⟨.array (some (q.1.copy env.buf)), hread.map rfl, _, rfl, q.1.sameContents_copy env.buf⟩
  | arrayOfString array =>
    cases array with
    | none =>
      have hread : Takes P.unread (readArrayOfString P env) [.int32 MSH_NULL]
          (NOERROR, .untouched) :=
        (P.takes_readInt32 MSH_NULL).bind (Takes.pure _)
      exact ⟨.array old, hread.map rfl, h⟩
    | some q =>
      have hsize : refusesSize (q.1.mSize / sizeofString * sizeofString) = false := h
      have hstrings := (takes_readStrings (P := P) q.1.strings (length_strings q.2)).map
        (f := fun ss => pure (NOERROR, ArraySlot.array (.allocated Type_String
          (q.1.mSize / sizeofString * sizeofString) env.buf (.strings ss.1) (fits_strings ss.2))))
        rfl
      have halloc : Takes P.unread (readAllocatedStrings P env q.1.mSize)
          (q.1.strings.flatMap stringItems)
          (NOERROR, .array (.allocated Type_String (q.1.mSize / sizeofString * sizeofString) env.buf
            (.strings q.1.strings) (fits_strings (length_strings q.2)))) := by
        rw [readAllocatedStrings, hsize]
        exact hstrings
      exact ⟨_, (takes_readArrayOfString halloc).map rfl, _, rfl, rfl⟩

/-- What does not survive is not read back, whatever else is in the parcel. A struct that is not
null fails already when it is written. -/
theorem not_same_of_readValue {v : Source} {old : Option CarQuintet} (h : ¬ Survives (v, old))
    (hstruct : ∀ value size, v ≠ .struct (some value) size) {s s' : P.In} {rest : List Item}
    {r : ECode × Dest} (hs : P.unread s = v.items ++ rest)
    (hrun : readValue P env (v.target old) s = .ok (r, s')) : ¬ v.Same r.2 := by
  cases v with
  | byte v | boolean v | char32 v | int16 v | int32 v | int64 v | float v | double v | string v
  | emuid v => exact absurd trivial h
  | eguid id ptr => exact absurd trivial h
  | struct value size =>
    cases value with
    | none => exact absurd trivial h
    | some value => exact absurd rfl (hstruct value size)
  | arrayOf array =>
    cases array with
    | none => exact absurd trivial h
    | some q =>
      have hrefuses : refusesSize q.1.mSize = true := Bool.not_eq_false _ ▸ h
      have hread : Takes P.unread (readArrayOf P env) [.int32 MSH_NOT_NULL, .block q.1.bytes]
          (NOERROR, .null) := by
        have hnone : Takes P.unread (readAllocated P env q.1.mFlags q.1.mSize) []
            (NOERROR, .null) := by
          rw [readAllocated, if_pos hrefuses]
          exact Takes.pure _
        exact takes_readArrayOf hnone
      rw [Source.items, List.append_assoc] at hs
      have hvalue : Takes P.unread (readValue P env (.arrayOf old))
          [.int32 MSH_NOT_NULL, .block q.1.bytes] (NOERROR, .array none) := hread.map rfl
      rw [hvalue.eq_of_run hs hrun]
      rintro ⟨x, hx, -⟩
      cases hx
  | arrayOfString array =>
    cases array with
    | none =>
      have hread : Takes P.unread (readArrayOfString P env) [.int32 MSH_NULL]
          (NOERROR, .untouched) := (P.takes_readInt32 MSH_NULL).bind (Takes.pure _)
      have hvalue : Takes P.unread (readValue P env (.arrayOfString old)) [.int32 MSH_NULL]
          (NOERROR, .array old) := hread.map rfl
      rw [hvalue.eq_of_run hs hrun]
      exact h
    | some q =>
      have hrefuses : refusesSize (q.1.mSize / sizeofString * sizeofString) = true :=
        Bool.not_eq_false _ ▸ h
      obtain ⟨⟨ec, slot⟩, t, hread, hend⟩ := Run.bind_eq_ok hrun
      rw [Source.items, List.append_assoc] at hs
      obtain ⟨s₁, htag, hs₁⟩ := P.takes_readInt32 MSH_NOT_NULL s _ hs
      obtain ⟨s₂, hheader, -⟩ := takes_header q.1 s₁ _ hs₁
      -- the strings that come now cannot be stored anywhere
      have hnull : slot = .null := by
        rw [readArrayOfString, Run.bind_ok htag] at hread
        change (P.read 20 >>= _) s₁ = _ at hread
        rw [Run.bind_ok hheader, q.1.wordOf_drop_bytes, readAllocatedStrings, if_pos hrefuses]
          at hread
        obtain ⟨u, t', -, hpure⟩ := Run.bind_eq_ok hread
        cases hpure
        rfl
      cases hend
      rw [hnull]
      rintro ⟨x, hx, -⟩
      cases hx

end Read

/-! ### Sequences -/

section

variable {P : AndroidParcel}

/-- The reads of a sequence return the values just when all of it survives. -/
theorem readValues_iff (env : Surroundings P) (ws : List (Source × Option CarQuintet))
    (hstruct : ∀ w ∈ ws, ∀ value size, w.1 ≠ .struct (some value) size) {s : P.In}
    (hs : P.unread s = (ws.map Prod.fst).flatMap Source.items) :
    (∃ ds s', readValues P env (ws.map fun w => w.1.target w.2) s = .ok (ds, s') ∧
        List.Forall₂ (fun w d => d.1 = NOERROR ∧ w.1.Same d.2) ws ds) ↔
      ∀ w ∈ ws, Survives w := by
  induction ws generalizing s with
  | nil => exact iff_of_true ⟨[], s, rfl, .nil⟩ (List.forall_mem_nil _)
  | cons w ws ih =>
    obtain ⟨v, old⟩ := w
    rw [List.map_cons, List.flatMap_cons] at hs
    obtain ⟨hv, hws⟩ := List.forall_mem_cons.mp hstruct
    by_cases hsurvives : Survives (v, old)
    · obtain ⟨d, htakes, hsame⟩ := exists_takes_readValue env hsurvives
      obtain ⟨s₁, hread, hs₁⟩ := htakes s _ hs
      rw [List.forall_mem_cons, and_iff_right hsurvives, ← ih hws hs₁, List.map_cons, readValues,
        Run.bind_ok hread]
      constructor
      · rintro ⟨ds, s', hrun, hall⟩
        obtain ⟨ds, t, hrest, hend⟩ := Run.bind_eq_ok hrun
        cases hend
        cases hall with
        | cons _ hall => exact ⟨ds, _, hrest, hall⟩
      · rintro ⟨ds, t, hrest, hall⟩
        exact ⟨_, t, Run.bind_ok hrest, .cons ⟨rfl, hsame⟩ hall⟩
    · refine iff_of_false ?_ fun h => hsurvives (h _ List.mem_cons_self)
      rintro ⟨ds, s', hrun, hall⟩
      rw [List.map_cons, readValues] at hrun
      obtain ⟨d, t, hread, hrest⟩ := Run.bind_eq_ok hrun
      obtain ⟨ds, t', -, hend⟩ := Run.bind_eq_ok hrest
      cases hend
      cases hall with
      | cons hfirst _ => exact not_same_of_readValue hsurvives hv hs hread hfirst.2

theorem unread_writeValues (P : AndroidParcel) (vs : List Source) :
    P.unread (P.rewind (writeValues P vs P.new)) = vs.flatMap Source.items := by
  rw [P.unread_rewind, written_writeValues, P.written_new, List.nil_append]

theorem survives_of_roundTrips {ws : List (Source × Option CarQuintet)} (h : RoundTrips P ws) :
    ∀ w ∈ ws, Survives w := by
  obtain ⟨hown, hread⟩ := h
  have hstruct : ∀ w ∈ ws, ∀ value size, w.1 ≠ .struct (some value) size := fun w hw =>
    (write_own_iff w.1 P.new).mp (hown w hw P.new)
  let env : Surroundings P :=
    ⟨fun n => pure (NOERROR, ⟨List.replicate n none, List.length_replicate⟩), 0⟩
  exact (readValues_iff env ws hstruct (unread_writeValues P _)).mp (hread env)

/-- **Which sequences make the round trip.** -/
theorem roundTrips_iff_survives (P : AndroidParcel) (ws : List (Source × Option CarQuintet)) :
    RoundTrips P ws ↔ ∀ w ∈ ws, Survives w := by
  refine ⟨survives_of_roundTrips, fun h => ?_⟩
  have hstruct : ∀ w ∈ ws, ∀ value size, w.1 ≠ .struct (some value) size := by
    rintro ⟨v, old⟩ hw value size rfl
    exact h _ hw
  exact ⟨fun w hw p => (write_own_iff w.1 p).mpr (hstruct w hw),
    fun env => (readValues_iff env ws hstruct (unread_writeValues P _)).mpr h⟩

end

/-! ### A parcel -/

/-- Take the first item, if it is of the kind that is read. -/
def takeItem {α : Type} (value : Item → Option α) : Run (List Item) Fault α := do
  match ← get with
  | i :: rest =>
    match value i with
    | some v => do set rest; pure v
    | none => throw .assertion
  | [] => throw .assertion

theorem takeItem_cons {α : Type} {value : Item → Option α} {i : Item} {v : α}
    (h : value i = some v) (rest : List Item) : takeItem value (i :: rest) = .ok (v, rest) := by
  rw [takeItem, Run.get_bind]
  dsimp only
  rw [h]
  rfl

theorem takes_takeItem {α : Type} {value : Item → Option α} {i : Item} {v : α}
    (h : value i = some v) : Takes id (takeItem value) [i] v := by
  intro s rest hs
  obtain rfl : s = i :: rest := hs
  exact ⟨rest, takeItem_cons h rest, rfl⟩

/-- The parcel that keeps the items. -/
def itemParcel : AndroidParcel where
  Out := List Item
  In := List Item
  new := []
  writeInt32 v p := p ++ [.int32 v]
  writeInt64 v p := p ++ [.int64 v]
  writeFloat v p := p ++ [.float v]
  writeDouble v p := p ++ [.int64 v]
  writeCString s p := p ++ [.cstring s]
  write bs p := p ++ blockItems bs
  rewind := id
  readInt32 := takeItem fun | .int32 v => some v | _ => none
  readInt64 := takeItem fun | .int64 v => some v | _ => none
  readFloat := takeItem fun | .float v => some v | _ => none
  readCString := takeItem fun | .cstring s => some (some s) | _ => none
  read n := takeItem fun | .block bs => if bs.length = n then some bs else none | _ => none
  written := id
  unread := id
  written_new := rfl
  written_writeInt32 _ _ := rfl
  written_writeInt64 _ _ := rfl
  written_writeFloat _ _ := rfl
  written_writeDouble _ _ := rfl
  written_writeCString _ _ := rfl
  written_write _ _ := rfl
  unread_rewind _ := rfl
  takes_readInt32 _ := takes_takeItem rfl
  takes_readInt64 _ := takes_takeItem rfl
  takes_readFloat _ := takes_takeItem rfl
  takes_readCString _ := takes_takeItem rfl
  takes_read _ := takes_takeItem (if_pos rfl)

/-- A struct of eight bytes is written as twelve, and the null array leaves another array where it
was. -/
theorem not_roundTrips_struct :
    ¬ RoundTrips itemParcel [(.struct (some fun _ => 0) 8, none)] ∧
      ¬ RoundTrips itemParcel [(.arrayOfString none, some ArrayWrite.oneString)] := by
  constructor
  · exact fun h => survives_of_roundTrips h _ List.mem_cons_self
  · intro h
    have hnone := survives_of_roundTrips h _ List.mem_cons_self
    cases hnone

end Ipc

end ElastosCar
