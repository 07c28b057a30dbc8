import ElastosCar.Types

/-!
# Module infos

What the class info of a component says: the types of `clsinfo.h`, with each pointer replaced by what it
points to and each count by the length of the array it counts. `mReserved` words and padding say nothing.
-/

namespace ElastosCar.ClsInfo

/-- `CIMethodInfo`; a parameter is one `CIBaseType` word. -/
structure CIMethodInfo where
  mAttribs : UInt8
  mReserved1 : UInt8
  mParams : List UInt32
deriving DecidableEq, Repr

/-- `CIInterfaceInfo`, without the four methods of `IInterface`. -/
structure CIInterfaceInfo where
  mIID : EMuid
  mMethods : List CIMethodInfo
deriving DecidableEq, Repr

/-- `CIClassInfo`. -/
structure CIClassInfo where
  mUunm : CString
  mCLSID : EMuid
  mInterfaces : List CIInterfaceInfo
deriving DecidableEq, Repr

/-- `CIModuleInfo`. -/
structure CIModuleInfo where
  mTotalSize : UInt32
  mClasses : List CIClassInfo
  mInterfaces : List CIInterfaceInfo
  mUunm : CString
deriving DecidableEq, Repr

end ElastosCar.ClsInfo
