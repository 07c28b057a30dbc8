import ElastosCar.Parcel.Typed

/-!
# Interface pointers in a parcel

`WriteInterfacePtr`. An interface is marshalled by `StdMarshalInterface` into the 28 bytes of
an `InterfacePack` at the position, and an `IParcelable` object then writes itself into the
same parcel with calls of its own. What `StdMarshalInterface` returns and leaves in the
block, and what the object writes, are arguments here.
-/

namespace ElastosCar

/-- The result of `StdMarshalInterface`: its code and the `InterfacePack` it leaves. -/
structure Marshalled where
  ec : ECode
  pack : List UInt8
  length_pack : pack.length = 28

namespace CRemoteParcel

/-- `mObjects[mObjectsSize++] = mDataPos`. -/
def pushObject (p : CRemoteParcel) : CRemoteParcel := { p with mObjects := p.mObjects ++ [p.mDataPos] }

/-- How far `WriteInterfacePtr` comes before a parcelable object takes over. -/
inductive Begun
  /-- It returns an error. -/
  | failed (ec : ECode) (p : CRemoteParcel)
  /-- The null tag is written. -/
  | null (p : CRemoteParcel)
  /-- The tag and the pack are written. -/
  | marshalled (p : CRemoteParcel)

/-- The parcel it leaves. -/
def Begun.parcel : Begun → CRemoteParcel
  | .failed _ p | .null p | .marshalled p => p

/-- It goes on to the object's own writes, if any. -/
def Begun.Continues : Begun → Prop
  | .failed _ _ => False
  | .null _ | .marshalled _ => True

/-- Room for the tag and the pack. -/
def reservePack (env : Allocator) (p : CRemoteParcel) : ECode × CRemoteParcel :=
  if p.mDataPos + 4 + 28 ≤ p.mDataCapacity then (NOERROR, p) else p.growData env 32

/-- Room for one more entry of `mObjects`. -/
def reserveObject (env : Allocator) (p : CRemoteParcel) : Option CRemoteParcel :=
  if p.mObjects.length < p.mObjectsCapacity.toNat then some p
  else
    let newSize := (UInt32.ofNat p.mObjects.length + 2) * 3 / 2
    (env p.requests (newSize * 4).toNat).map fun _ =>
      { p with mObjectsCapacity := newSize, requests := p.requests + 1 }

/-- `WriteInterfacePtr` after `restart_write`, up to the object's own writes. The tag is
stored in host order. -/
def beginInterfaceAt (value : Option Marshalled) (p : CRemoteParcel) : Begun :=
  match value with
  | none => .null ((p.memcpy p.mDataPos.toNat (wordBytes MSH_NULL)).finishWrite 4)
  | some m =>
    let p := (p.memcpy p.mDataPos.toNat (wordBytes MSH_NOT_NULL)).finishWrite 4
    let p := p.memcpy p.mDataPos.toNat m.pack
    if failed m.ec then .failed m.ec p else .marshalled (p.finishWrite 28)

/-- `WriteInterfacePtr` up to the object's own writes. -/
def beginInterface (env : Allocator) (value : Option Marshalled) (p : CRemoteParcel) : Begun :=
  match p.reservePack env with
  | (ec, p) =>
    if failed ec then .failed ec p
    else
      match p.reserveObject env with
      | none => .failed E_OUT_OF_MEMORY { p with requests := p.requests + 1 }
      | some p => p.beginInterfaceAt value

/-- `WriteInterfacePtr`; `writeToParcel` is what the object does when it is an
`IParcelable`. -/
def writeInterfacePtr (env : Allocator) (value : Option Marshalled)
    (writeToParcel : CRemoteParcel → CRemoteParcel) (p : CRemoteParcel) : ECode × CRemoteParcel :=
  match p.beginInterface env value with
  | .failed ec p => (ec, p)
  | .null p => (NOERROR, p.pushObject)
  | .marshalled p => (NOERROR, (writeToParcel p).pushObject)

end CRemoteParcel

end ElastosCar
