import Sylar.FiberModel
import Mathlib.Data.Fintype.Basic

/-!
The event table of the I/O manager and the operations on it.

Each operation is the section of the source that runs under the mutex of one `FdContext`,
that of the descriptor it is called for. The `FdContext` of a descriptor is an object of its
own, created empty before its first use, so the table is a function of the descriptor here;
how the vector `fdContexts_` grows is modelled apart. The kernel's epoll set is part of the
state: every call of `epoll_ctl` has an argument that lets it fail.
-/

namespace Sylar.IoModel

open Sylar.FiberModel

abbrev Fd := Fin 2147483648

abbrev Mask := BitVec 32

inductive Event
  | none | read | write
  deriving DecidableEq, Repr

def Event.bits : Event → Mask
  | .none => 0x0
  | .read => 0x1
  | .write => 0x4

def EPOLLIN : Mask := 0x001
def EPOLLOUT : Mask := 0x004
def EPOLLERR : Mask := 0x008
def EPOLLHUP : Mask := 0x010
def EPOLLET : Mask := 0x80000000

/-! ### The kernel's side -/

inductive EpollCtlOp
  | add | mod | del
  deriving DecidableEq, Repr

def EpollCtlOp.choose (cond : Mask) (yes no : EpollCtlOp) : EpollCtlOp :=
  if cond = 0 then no else yes

/-- `epoll_data_t`: the tickle pipe is registered with its descriptor, every other
descriptor with the address of its `FdContext`. -/
inductive EpollData
  | fd (fd : Fd)
  | ptr (ctx : Fd)
  deriving DecidableEq

structure EpollEvent where
  events : Mask
  data : EpollData
  deriving DecidableEq

abbrev Epoll := Fd → Option EpollEvent

/-- `epoll_ctl`: no new set when the call returns non-zero. Besides failing when the
environment says so, it refuses to add a member or to change what is not a member. -/
def epollCtl (ok : Bool) (epoll : Epoll) (op : EpollCtlOp) (fd : Fd) (event : EpollEvent) :
    Option Epoll :=
  match op with
  | .add => if ok ∧ (epoll fd).isNone then some (Function.update epoll fd (some event)) else none
  | .mod => if ok ∧ (epoll fd).isSome then some (Function.update epoll fd (some event)) else none
  | .del => if ok ∧ (epoll fd).isSome then some (Function.update epoll fd none) else none

/-! ### Contexts -/

variable {S F C : Type}

structure EventContext (S F C : Type) where
  scheduler : Option S := none
  fiber : Option F := none
  cb : Option C := none

structure FdContext (S F C : Type) where
  read : EventContext S F C := {}
  write : EventContext S F C := {}
  fd : Fd := 0
  events : Mask := 0

/-- The places where the process stops: the assertions, and the call through a null
scheduler. -/
inductive Fault
  | triggerEvent | getContext | nullScheduler | addEvent | eventContext | fiberState | cancelAll
  deriving DecidableEq, Repr

/-- A call of `schedule` made by `triggerEvent`, and the registration it comes from. -/
structure Handoff (S F C : Type) where
  fd : Fd
  event : Event
  scheduler : S
  entry : FiberAndThread F C

namespace FdContext

def getContext (c : FdContext S F C) : Event → Except Fault (EventContext S F C)
  | .read => .ok c.read
  | .write => .ok c.write
  | .none => .error .getContext

/-- Writing through the reference that `getContext` returns. -/
def setContext (c : FdContext S F C) (event : Event) (ctx : EventContext S F C) :
    FdContext S F C :=
  match event with
  | .read => { c with read := ctx }
  | .write => { c with write := ctx }
  | .none => c

/-- `schedule(&ctx.cb)` or `schedule(&ctx.fiber)` swaps the callback or fiber out of the
context and into the entry. -/
def triggerEvent (c : FdContext S F C) (event : Event) :
    Except Fault (FdContext S F C × Handoff S F C) :=
  if c.events &&& event.bits = 0 then .error .triggerEvent
  else
    let c := { c with events := c.events &&& ~~~event.bits }
    match c.getContext event with
    | .error e => .error e
    | .ok ctx =>
      match ctx.scheduler with
      | none => .error .nullScheduler
      | some s =>
        if ctx.cb.isSome then
          .ok (c.setContext event { ctx with cb := none, scheduler := none },
            ⟨c.fd, event, s, { cb := ctx.cb }⟩)
        else
          .ok (c.setContext event { ctx with fiber := none, scheduler := none },
            ⟨c.fd, event, s, { fiber := ctx.fiber }⟩)

end FdContext

/-! ### The manager -/

structure IOManager (S F C : Type) where
  fdContexts : Fd → FdContext S F C
  epoll : Epoll
  pendingEventCount : UInt64
  /-- `tickleFds_[0]`. -/
  tickleFd : Fd

/-- The thread that makes a call: its scheduler, and its running fiber with that fiber's
state. -/
structure Caller (S F : Type) where
  scheduler : Option S
  fiber : F
  state : State

/-- What a call leaves: the manager, what it returns (`true` for the `0` of `addEvent`),
whether its `epoll_ctl` succeeded if it made one, and its calls of `schedule`. -/
structure Out (S F C : Type) where
  m : IOManager S F C
  ret : Bool
  ctl : Option Bool := none
  handoffs : List (Handoff S F C) := []

namespace IOManager

def setFdContext (m : IOManager S F C) (fd : Fd) (c : FdContext S F C) : IOManager S F C :=
  { m with fdContexts := Function.update m.fdContexts fd c }

/-- `contextResize` makes every context empty, with its own index as descriptor; the
constructor registers the read end of the tickle pipe. -/
def init (tickleFd : Fd) : IOManager S F C where
  fdContexts := fun fd => { fd := fd }
  epoll := fun fd => if fd = tickleFd then some ⟨EPOLLIN ||| EPOLLET, .fd tickleFd⟩ else none
  pendingEventCount := 0
  tickleFd := tickleFd

/-- The part of `addEvent` that fills in the context of the new registration. -/
def fillContext (ctx : EventContext S F C) (cb : Option C) (caller : Caller S F) :
    Except Fault (EventContext S F C) :=
  if ctx.scheduler.isSome || ctx.fiber.isSome || ctx.cb.isSome then .error .eventContext
  else
    let ctx := { ctx with scheduler := caller.scheduler }
    if cb.isSome then .ok { ctx with cb := cb }
    else if caller.state = .exec then .ok { ctx with fiber := some caller.fiber }
    else .error .fiberState

def addEvent (m : IOManager S F C) (fd : Fd) (event : Event) (cb : Option C)
    (caller : Caller S F) (ok : Bool) : Except Fault (Out S F C) :=
  let c := m.fdContexts fd
  if c.events &&& event.bits ≠ 0 then .error .addEvent
  else
    let op := EpollCtlOp.choose c.events .mod .add
    match epollCtl ok m.epoll op fd ⟨EPOLLET ||| c.events ||| event.bits, .ptr fd⟩ with
    | none => .ok ⟨m, false, some false, []⟩
    | some epoll =>
      let m := { m with epoll := epoll, pendingEventCount := m.pendingEventCount + 1 }
      let c := { c with events := c.events ||| event.bits }
      match (c.getContext event).bind fun ctx => fillContext ctx cb caller with
      | .error e => .error e
      | .ok ctx => .ok ⟨m.setFdContext fd (c.setContext event ctx), true, some true, []⟩

def delEvent (m : IOManager S F C) (fd : Fd) (event : Event) (ok : Bool) :
    Except Fault (Out S F C) :=
  let c := m.fdContexts fd
  if c.events &&& event.bits = 0 then .ok ⟨m, false, none, []⟩
  else
    let new_events := c.events &&& ~~~event.bits
    let op := EpollCtlOp.choose new_events .mod .del
    match epollCtl ok m.epoll op fd ⟨EPOLLET ||| new_events, .ptr fd⟩ with
    | none => .ok ⟨m, false, some false, []⟩
    | some epoll =>
      let m := { m with epoll := epoll, pendingEventCount := m.pendingEventCount - 1 }
      let c := { c with events := new_events }
      match c.getContext event with
      | .error e => .error e
      -- `resetContext`
      | .ok _ => .ok ⟨m.setFdContext fd (c.setContext event {}), true, some true, []⟩

/-- `fd_ctx->triggerEvent(event); --pendingEventCount_;` -/
def trigger (m : IOManager S F C) (fd : Fd) (event : Event) :
    Except Fault (IOManager S F C × Handoff S F C) :=
  match (m.fdContexts fd).triggerEvent event with
  | .error e => .error e
  | .ok (c, h) =>
    let m := { m with pendingEventCount := m.pendingEventCount - 1 }
    .ok (m.setFdContext fd c, h)

def triggerIf (b : Bool) (m : IOManager S F C) (fd : Fd) (event : Event) :
    Except Fault (IOManager S F C × List (Handoff S F C)) :=
  if b then (m.trigger fd event).map fun r => (r.1, [r.2]) else .ok (m, [])

def cancelEvent (m : IOManager S F C) (fd : Fd) (event : Event) (ok : Bool) :
    Except Fault (Out S F C) :=
  let c := m.fdContexts fd
  if c.events &&& event.bits = 0 then .ok ⟨m, false, none, []⟩
  else
    let new_events := c.events &&& ~~~event.bits
    let op := EpollCtlOp.choose new_events .mod .del
    match epollCtl ok m.epoll op fd ⟨EPOLLET ||| new_events, .ptr fd⟩ with
    | none => .ok ⟨m, false, some false, []⟩
    | some epoll =>
      match { m with epoll := epoll }.trigger fd event with
      | .error e => .error e
      | .ok (m, h) => .ok ⟨m, true, some true, [h]⟩

def cancelAll (m : IOManager S F C) (fd : Fd) (ok : Bool) : Except Fault (Out S F C) :=
  if (m.fdContexts fd).events = 0 then .ok ⟨m, false, none, []⟩
  else
    match epollCtl ok m.epoll .del fd ⟨0, .ptr fd⟩ with
    | none => .ok ⟨m, false, some false, []⟩
    | some epoll => do
      let m := { m with epoll := epoll }
      let (m, h₁) ← triggerIf ((m.fdContexts fd).events &&& Event.bits .read != 0) m fd .read
      let (m, h₂) ← triggerIf ((m.fdContexts fd).events &&& Event.bits .write != 0) m fd .write
      if (m.fdContexts fd).events = 0 then pure ⟨m, true, some true, h₁ ++ h₂⟩
      else throw .cancelAll

/-- `EPOLLERR` and `EPOLLHUP` stand for every registered event. -/
def withErrors (registered events : Mask) : Mask :=
  if events &&& (EPOLLERR ||| EPOLLHUP) = 0 then events
  else events ||| ((EPOLLIN ||| EPOLLOUT) &&& registered)

def realEvents (registered events : Mask) : Mask :=
  (if withErrors registered events &&& EPOLLIN = 0 then 0 else Event.bits .read) |||
    (if withErrors registered events &&& EPOLLOUT = 0 then 0 else Event.bits .write)

/-- The dispatch loop of `idle` on one entry of the batch, whose `data.ptr` is the context
of `fd`. It returns nothing; `ret` says whether it got past its two `continue`s. -/
def dispatch (m : IOManager S F C) (fd : Fd) (events : Mask) (ok : Bool) :
    Except Fault (Out S F C) :=
  let c := m.fdContexts fd
  let real_events := realEvents c.events events
  if c.events &&& real_events = 0 then .ok ⟨m, false, none, []⟩
  else
    let left_events := c.events &&& ~~~real_events
    let op := EpollCtlOp.choose left_events .mod .del
    match epollCtl ok m.epoll op c.fd ⟨EPOLLET ||| left_events, .ptr fd⟩ with
    | none => .ok ⟨m, false, some false, []⟩
    | some epoll => do
      let m := { m with epoll := epoll }
      let (m, h₁) ← triggerIf (real_events &&& Event.bits .read != 0) m fd .read
      let (m, h₂) ← triggerIf (real_events &&& Event.bits .write != 0) m fd .write
      pure ⟨m, true, some true, h₁ ++ h₂⟩

end IOManager

end Sylar.IoModel
