import ElastosCar.Cls.Reloc
import ElastosCar.Reflect.MethodInfo
import ElastosCar.Reflect.CallbackArguments
import ElastosCar.Reflect.ArgumentList
import ElastosCar.Reflect.EntryList
import ElastosCar.Reflect.ModuleHandles
import ElastosCar.Reflect.VariableOfCarArray
import ElastosCar.Reflect.StructLayout
import ElastosCar.Reflect.NestedAccessors
import ElastosCar.Ipc.Parcel
import ElastosCar.Parcel.Safety
import ElastosCar.Parcel.Bounds
import ElastosCar.Stub.Accept
import ElastosCar.Stub.Background
import ElastosCar.Stub.CreateObject
import ElastosCar.Stub.Framing
import ElastosCar.Stub.Robust
import ElastosCar.Marshal.Results
import ElastosCar.Marshal.WalkAgreement
import ElastosCar.Marshal.OutLayout
import ElastosCar.Proxy.Connect
import ElastosCar.Proxy.Matching
import ElastosCar.Proxy.Dispatch
import ElastosCar.Proxy.Report
import ElastosCar.Proxy.Recipients
import ElastosCar.Proxy.RemoteClassInfo
import ElastosCar.Rot.Export
import ElastosCar.Rot.Tables
import ElastosCar.Rpc.ThreadPool
import ElastosCar.Rpc.Looper
import ElastosCar.Callback.Wakeup
import ElastosCar.Callback.Senders
import ElastosCar.Callback.ParcelExtent
import ElastosCar.Callback.ParcelClone
import ElastosCar.Callback.Registrations
import ElastosCar.Base.RefBase
import ElastosCar.Base.HashMap
import ElastosCar.Service.Manager
import ElastosCar.Service.Client
import ElastosCar.Meta.Registry
import ElastosCar.Meta.Relocate
import ElastosCar.Lib.Loop
import ElastosCar.Meta.LocalModules
import ElastosCar.Meta.FreeComponents
import ElastosCar.Meta.IdleModules
import ElastosCar.Reflect.VariableOfStruct
import ElastosCar.Reflect.InfoLists
import ElastosCar.Reflect.InfoCache
import ElastosCar.Reflect.TableLocks
import ElastosCar.Reflect.MethodNumbers
import ElastosCar.Lib.Cursor
import ElastosCar.Strings.Counted
import ElastosCar.Strings.RoundTrip
import ElastosCar.Strings.Terminated
import ElastosCar.Lib.Search
import ElastosCar.Strings.ReverseSearch
import ElastosCar.Parcel.ArrayTrip
import ElastosCar.Parcel.Marshall
import ElastosCar.Parcel.Objects
import ElastosCar.Parcel.Determinism
import ElastosCar.Lib.Ring
import ElastosCar.Callback.EventRing
import ElastosCar.Callback.Coalescing
import ElastosCar.Lib.Move
import ElastosCar.Quintet.ArrayOf
import ElastosCar.Quintet.Sizes
import ElastosCar.Lib.Code
import ElastosCar.Strings.Ranges
import ElastosCar.Strings.Reading
import ElastosCar.Strings.ForwardSearch
import ElastosCar.Strings.IgnoreCaseSearch
import ElastosCar.Lib.ThreeWay
import ElastosCar.Strings.IgnoreCase
import ElastosCar.Strings.CaseOrder
import ElastosCar.Strings.CaseEnds
import ElastosCar.Strings.CaseAlphabet
import ElastosCar.Strings.Regions
import ElastosCar.Meta.CreateInstance
import ElastosCar.Base.ObjectContainer
import ElastosCar.Base.ObjectIteration
import ElastosCar.Zener.Ipc
import ElastosCar.Strings.SharedBuffer
import ElastosCar.Strings.SharedStore
import ElastosCar.Strings.SharedAppend
import ElastosCar.Strings.SharedRuns
import ElastosCar.Marshal.Carried
import ElastosCar.Proxy.RemoteCall
import ElastosCar.Ipc.SameResults
import ElastosCar.Rot.Identity
import ElastosCar.Cls.Accessors
