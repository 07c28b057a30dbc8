import ElastosCar.Lib.Cursor
import ElastosCar.Lib.Trace
import ElastosCar.Types

/-!
# Callback registrations

`CallbackContextContainer` of `callback.h` holds the delegates that have been added for an event: a
ring of a `CallbackContextNode` for each callback context, and in each of them a ring of the
delegates added for the context. Both rings keep a cursor, `mCurrent`, for an iteration.

The rings are lists of nodes with their addresses, from `mHead.mNext` on. A cursor may be left at a
node that has been deleted, and `none` is a step that follows it, or that deletes a node of the
ring. What the environment answers is a part of a call: the addresses that `new` returns, and what
`CancelCallbackEvents` does.
-/

namespace ElastosCar

/-- An `EventHandler`: `mThis`, what `GetFuncPtr` returns, and the type of the function, which is in
the low bits of `mFunc`. -/
structure EventHandler where
  mThis : UInt32
  funcPtr : UInt32
  funcType : UInt32
deriving DecidableEq, Repr

/-- `operator ==`. -/
instance : BEq EventHandler := ⟨fun d e => d.mThis = e.mThis && d.funcPtr = e.funcPtr⟩

/-- `MoveNext` of both containers, on a ring of nodes. -/
def moveNext {α : Type} (addr : α → UInt32) (nodes : List α) (mCurrent : Cursor UInt32) :
    Option (ECode × Cursor UInt32) :=
  if mCurrent = .null then some (E_INVALID_OPERATION, .null)
  else if mCurrent = .last addr nodes then some (S_FALSE, .null)
  else if mCurrent.Valid addr nodes then some (NOERROR, mCurrent.next addr nodes)
  else none

/-- `Current` of both containers. -/
def current : Cursor UInt32 → ECode × Option UInt32
  | .null | .head => (E_INVALID_OPERATION, none)
  | .node i => (NOERROR, some i)

/-! ### `DelegateContainer` -/

structure DelegateNode where
  addr : UInt32
  mCallbackContext : UInt32
  mDelegate : EventHandler
deriving DecidableEq, Repr

structure DelegateContainer where
  nodes : List DelegateNode := []
  mCurrent : Cursor UInt32 := .head
deriving DecidableEq, Repr

namespace DelegateContainer

def Dispose (_c : DelegateContainer) : DelegateContainer := ⟨[], .null⟩

def MoveNext (c : DelegateContainer) : Option (ECode × DelegateContainer) :=
  (moveNext DelegateNode.addr c.nodes c.mCurrent).map fun r => (r.1, { c with mCurrent := r.2 })

def Reset (c : DelegateContainer) : DelegateContainer := { c with mCurrent := .head }

/-- `Add`, where `node` is what `new` returns. -/
def Add (callbackContext : UInt32) (delegate : EventHandler) (node : Option UInt32)
    (c : DelegateContainer) : ECode × DelegateContainer :=
  match node with
  | none => (E_OUT_OF_MEMORY, c)
  | some addr => (NOERROR, { c with nodes := c.nodes ++ [⟨addr, callbackContext, delegate⟩] })

/-- `Remove`, where `cancel` is what `CancelCallbackEvents` returns for a context and a delegate. -/
def Remove (delegate : EventHandler) (cancel : UInt32 → EventHandler → ECode)
    (c : DelegateContainer) : ECode × DelegateContainer :=
  match c.nodes.find? fun node => node.mDelegate == delegate with
  | none => (NOERROR, c)
  | some node => (cancel node.mCallbackContext node.mDelegate,
      { nodes := Cursor.remove DelegateNode.addr c.nodes node.addr
        mCurrent := c.mCurrent.back DelegateNode.addr c.nodes node.addr })

end DelegateContainer

/-! ### `CallbackContextNode` -/

structure CallbackContextNode where
  addr : UInt32
  mCallbackContext : UInt32
  mDelegateContainer : DelegateContainer := {}
  mEmpty : Bool := true
deriving DecidableEq, Repr

namespace CallbackContextNode

def Add (delegate : EventHandler) (node : Option UInt32) (n : CallbackContextNode) :
    ECode × CallbackContextNode :=
  let r := n.mDelegateContainer.Add n.mCallbackContext delegate node
  (r.1, { n with mDelegateContainer := r.2, mEmpty := false })

/-- `Remove`, and whether it has called `Detach`. -/
def Remove (delegate : EventHandler) (cancel : UInt32 → EventHandler → ECode)
    (n : CallbackContextNode) : ECode × Bool × CallbackContextNode :=
  let r := n.mDelegateContainer.Remove delegate cancel
  let n := { n with mDelegateContainer := r.2 }
  if failed r.1 then (r.1, false, n)
  else if n.mDelegateContainer.nodes = [] then (NOERROR, true, { n with mEmpty := true })
  else (NOERROR, false, n)

end CallbackContextNode

/-! ### `CallbackContextContainer` -/

structure CallbackContextContainer where
  nodes : List CallbackContextNode := []
  mCurrent : Cursor UInt32 := .head
deriving DecidableEq, Repr

namespace CallbackContextContainer

/-- `Find`, and the search of the functions that take a context. -/
def find? (callbackContext : UInt32) (s : CallbackContextContainer) : Option CallbackContextNode :=
  s.nodes.find? fun n => n.mCallbackContext = callbackContext

/-- A change of a node of the ring. -/
def update (n : CallbackContextNode) (s : CallbackContextContainer) : CallbackContextContainer :=
  { s with nodes := s.nodes.map fun m => if m.addr = n.addr then n else m }

/-- `Detach` of a node. The cursor stays where it is. -/
def detach (i : UInt32) (s : CallbackContextContainer) : CallbackContextContainer :=
  { s with nodes := Cursor.remove CallbackContextNode.addr s.nodes i }

def MoveNext (s : CallbackContextContainer) : Option (ECode × CallbackContextContainer) :=
  (moveNext CallbackContextNode.addr s.nodes s.mCurrent).map fun r =>
    (r.1, { s with mCurrent := r.2 })

def Reset (s : CallbackContextContainer) : CallbackContextContainer := { s with mCurrent := .head }

/-- The context that `Add` takes, where `own` is what `_Impl_CallbackSink_GetCallbackContext`
answers. -/
def contextOf (callbackContext : UInt32) (own : Except ECode UInt32) : Except ECode UInt32 :=
  if callbackContext = 0 then own else .ok callbackContext

/-- `Add`, where `newNode` and `newDelegate` are what `new` returns. -/
def Add (callbackContext : UInt32) (own : Except ECode UInt32) (delegate : EventHandler)
    (newNode newDelegate : Option UInt32) (s : CallbackContextContainer) :
    ECode × CallbackContextContainer :=
  match contextOf callbackContext own with
  | .error ec => (ec, s)
  | .ok callbackContext =>
    match s.find? callbackContext with
    | some n =>
      let r := n.Add delegate newDelegate
      (r.1, s.update r.2)
    | none =>
      match newNode with
      | none => (E_OUT_OF_MEMORY, s)
      | some addr =>
        -- the node is in the ring before the delegate is in the node
        let r := CallbackContextNode.Add delegate newDelegate ⟨addr, callbackContext, {}, true⟩
        (r.1, { s with nodes := s.nodes ++ [r.2] })

/-- `Remove` of a node, which its caller deletes. -/
def RemoveNode (i : UInt32) (s : CallbackContextContainer) : CallbackContextContainer :=
  { s with mCurrent := s.mCurrent.back CallbackContextNode.addr s.nodes i }.detach i

def Remove (callbackContext : UInt32) (delegate : EventHandler)
    (cancel : UInt32 → EventHandler → ECode) (s : CallbackContextContainer) :
    Option (ECode × CallbackContextContainer) :=
  match s.find? callbackContext with
  | none => some (NOERROR, s)
  | some n =>
    let (ec, detached, n') := n.Remove delegate cancel
    let s := if detached then s.detach n.addr else s.update n'
    if failed ec then some (ec, s)
    else if n'.mEmpty && !detached then none
    else some (NOERROR, s)

/-- `Dispose`. The results of `CancelCallbackEvents` are not looked at. -/
def Dispose (callbackContext : UInt32) (s : CallbackContextContainer) : CallbackContextContainer :=
  match s.find? callbackContext with
  | none => s
  | some n =>
    (s.update { n with mDelegateContainer := n.mDelegateContainer.Dispose }).detach n.addr

/-- `MoveNext` of a node of the ring. -/
def NodeMoveNext (i : UInt32) (s : CallbackContextContainer) :
    Option (ECode × CallbackContextContainer) :=
  (s.nodes.find? fun n => n.addr = i).bind fun n =>
    n.mDelegateContainer.MoveNext.map fun r => (r.1, s.update { n with mDelegateContainer := r.2 })

/-- `Reset` of a node of the ring. -/
def NodeReset (i : UInt32) (s : CallbackContextContainer) : Option CallbackContextContainer :=
  (s.nodes.find? fun n => n.addr = i).map fun n =>
    s.update { n with mDelegateContainer := n.mDelegateContainer.Reset }

end CallbackContextContainer

/-! ### Runs -/

/-- A call, with what the environment answers to it. -/
inductive RegistrationCall
  | Add (callbackContext : UInt32) (own : Except ECode UInt32) (delegate : EventHandler)
      (newNode newDelegate : Option UInt32)
  | Remove (callbackContext : UInt32) (delegate : EventHandler)
      (cancel : UInt32 → EventHandler → ECode)
  | RemoveNode (node : UInt32)
  | Dispose (callbackContext : UInt32)
  | MoveNext
  | Current
  | Reset
  | NodeMoveNext (node : UInt32)
  | NodeReset (node : UInt32)

namespace RegistrationCall

/-- What the callers and `new` are relied on for: a node that is passed is in the ring, and a new
node is not where another is. -/
def Legal (s : CallbackContextContainer) : RegistrationCall → Prop
  | Add _ _ _ newNode newDelegate =>
    (∀ a, newNode = some a → a ∉ s.nodes.map CallbackContextNode.addr) ∧
      ∀ a, newDelegate = some a →
        ∀ n ∈ s.nodes, a ∉ n.mDelegateContainer.nodes.map DelegateNode.addr
  | RemoveNode i | NodeMoveNext i | NodeReset i => i ∈ s.nodes.map CallbackContextNode.addr
  | _ => True

def act (s : CallbackContextContainer) :
    RegistrationCall → Option (ECode × CallbackContextContainer)
  | Add callbackContext own delegate newNode newDelegate =>
    some (s.Add callbackContext own delegate newNode newDelegate)
  | Remove callbackContext delegate cancel => s.Remove callbackContext delegate cancel
  | RemoveNode i => some (NOERROR, s.RemoveNode i)
  | Dispose callbackContext => some (NOERROR, s.Dispose callbackContext)
  | MoveNext => s.MoveNext
  | Current => some ((current s.mCurrent).1, s)
  | Reset => some (NOERROR, s.Reset)
  | NodeMoveNext i => s.NodeMoveNext i
  | NodeReset i => (s.NodeReset i).map (NOERROR, ·)

/-- The delegates added and not removed, by context, after a call that has returned `ec`. A delegate
is removed whether or not its events could be cancelled. -/
def record (s : CallbackContextContainer) (ec : ECode) (held : UInt32 → List EventHandler) :
    RegistrationCall → UInt32 → List EventHandler
  | Add callbackContext own delegate _ _ =>
    match CallbackContextContainer.contextOf callbackContext own with
    | .error _ => held
    | .ok c => if ec = NOERROR then Function.update held c (held c ++ [delegate]) else held
  | Remove c delegate _ => Function.update held c ((held c).eraseP (· == delegate))
  | RemoveNode i =>
    match s.nodes.find? fun n => n.addr = i with
    | none => held
    | some n => Function.update held n.mCallbackContext []
  | Dispose c => Function.update held c []
  | _ => held

end RegistrationCall

/-- A container with its history. -/
structure Registrations where
  container : CallbackContextContainer := {}
  /-- The delegates added and not removed, by context. -/
  held : UInt32 → List EventHandler := fun _ => []
  /-- The contexts that have had delegates ever since the last `Reset`. -/
  stayed : Set UInt32 := ∅
  /-- The contexts that `MoveNext` has reached since the last `Reset`. -/
  visited : List UInt32 := []

namespace CallbackContextContainer

/-- The delegates that the container has for a context. -/
def delegates (s : CallbackContextContainer) (c : UInt32) : List EventHandler :=
  (s.find? c).elim [] fun n => n.mDelegateContainer.nodes.map DelegateNode.mDelegate

/-- The contexts that the iteration has still to reach. -/
def toVisit (s : CallbackContextContainer) : List UInt32 :=
  (s.mCurrent.rest CallbackContextNode.addr s.nodes).map CallbackContextNode.mCallbackContext

/-- The context of the node that the cursor stands at. -/
def currentContext (s : CallbackContextContainer) : Option UInt32 :=
  (current s.mCurrent).2.bind fun i =>
    (s.nodes.find? fun n => n.addr = i).map CallbackContextNode.mCallbackContext

end CallbackContextContainer

namespace Registrations

/-- The history after a call that has returned `ec` and left the container as `s`. -/
def next (t : Registrations) (call : RegistrationCall) (ec : ECode) (s : CallbackContextContainer) :
    Registrations :=
  let held := call.record t.container ec t.held
  { container := s
    held := held
    stayed := match call with
      | .Reset => {c | held c ≠ []}
      | _ => t.stayed ∩ {c | held c ≠ []}
    visited := match call with
      | .Reset => []
      | .MoveNext => t.visited ++ s.currentContext.toList
      | _ => t.visited }

/-- A call; `none` if it follows a node that is gone. -/
def step (t : Registrations) (call : RegistrationCall) : Option Registrations :=
  (call.act t.container).map fun r => t.next call r.1 r.2

/-- The container agrees with its history. -/
structure Sound (t : Registrations) : Prop where
  holds : ∀ c, t.container.delegates c = t.held c
  listed : ∀ n ∈ t.container.nodes, n.mDelegateContainer.nodes ≠ []
  current : t.container.mCurrent.Valid CallbackContextNode.addr t.container.nodes
  inner : ∀ n ∈ t.container.nodes,
    n.mDelegateContainer.mCurrent.Valid DelegateNode.addr n.mDelegateContainer.nodes
  /-- A context that has stayed has been visited or is still to be reached, and is so once. -/
  once : ∀ c ∈ t.stayed, t.visited.count c + t.container.toVisit.count c = 1

end Registrations

end ElastosCar
