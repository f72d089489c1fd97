import Sylar.FiberModel

/-!
The worker loop of the scheduler, with the idle fiber of the I/O manager.

Each worker is a thread in `run`. Its program counter stands between two accesses to what the
threads share: the queue under the mutex, the two counters, the states of the fibers and the
tickle pipe. A call of `schedule` is one step under the mutex and leaves a call of `tickle`
behind when it needs one; `tickle` reads the counter in one step and writes in another. What a
fiber does while it runs is not part of the model, apart from the ways it can leave its
worker; what it calls are steps that may come at any moment.

Entries get a number when they are queued, and the numbers of those a worker is done with are
kept. The program has neither; they are there to follow an entry through a run.
-/

namespace Sylar.SchedulerModel

open Sylar.FiberModel FiberAndThread

variable {W F C : Type}

/-- What is left of a call of `tickle`: to look for an idle thread, or to write the byte. -/
inductive Tick
  | none | ask | write
  deriving DecidableEq

/-- What `IOManager::stopping` reads next: the timers, the number of events, and in
`Scheduler::stopping` the rest. -/
inductive Stage
  | timer | pending | final
  deriving DecidableEq

/-- Where a worker is in `run`. From `picked` to `back` and `dropping` it has taken the entry
`n`; `cb` says whether the fiber is its `cb_fiber`, and `how` is the state the fiber was in
when it left. -/
inductive Pc (F C : Type)
  | off
  | scan
  | picked (n : ℕ) (ft : FiberAndThread F C)
  | entering (n : ℕ) (f : F) (cb : Bool)
  | running (n : ℕ) (f : F) (cb : Bool)
  | leaving (n : ℕ) (f : F) (cb : Bool) (how : State)
  | back (n : ℕ) (f : F) (cb : Bool) (how : State)
  | after (f : F) (cb : Bool) (how : State)
  | hold (f : F) (cb : Bool)
  | requeue (f : F) (cb : Bool)
  | dropping (n : ℕ)
  | missed
  | stopCheck (stage : Stage)
  | waiting
  | handling (tickled : Bool)
  | leavingIdle
  | exited

structure Worker (F C : Type) where
  pc : Pc F C := .off
  tickle : Tick := .none
  cbFiber : Option F := none
  /-- The idle fiber is in state `TERM`. -/
  idleTerm : Bool := false

structure Scheduler (W F C : Type) where
  fibers : List (ℕ × FiberAndThread F C) := []
  activeThreadCount : ℤ := 0
  idleThreadCount : ℤ := 0
  stopping : Bool := false
  autoStop : Bool := false
  /-- The state of each fiber that exists. -/
  state : F → Option State := fun _ => none
  worker : W → Worker F C := fun _ => {}
  /-- The unread bytes in the tickle pipe. -/
  pipe : ℕ := 0
  /-- The calls of `tickle` outside `run` that have still to look for an idle thread. -/
  asking : ℕ := 0
  /-- The calls of `tickle` outside `run` that have still to write. -/
  writing : ℕ := 0
  /-- Every entry that was queued, in order. -/
  issued : List (FiberAndThread F C) := []
  finished : List ℕ := []

namespace Scheduler

def scheduleNoLock (s : Scheduler W F C) (ft : FiberAndThread F C) : Scheduler W F C × Bool :=
  (if ft.isWork then
      { s with fibers := s.fibers ++ [(s.issued.length, ft)], issued := s.issued ++ [ft] }
    else s, s.fibers.isEmpty)

def scheduleAll (s : Scheduler W F C) : List (FiberAndThread F C) → Scheduler W F C × Bool
  | [] => (s, false)
  | ft :: fts =>
    let r := s.scheduleNoLock ft
    let r' := r.1.scheduleAll fts
    (r'.1, r.2 || r'.2)

/-- A call of either `schedule` up to its `tickle`. -/
def schedule (s : Scheduler W F C) (fts : List (FiberAndThread F C)) : Scheduler W F C :=
  let r := s.scheduleAll fts
  { r.1 with asking := if r.2 then r.1.asking + 1 else r.1.asking }

def hasIdleThreads (s : Scheduler W F C) : Bool := s.idleThreadCount > 0

end Scheduler

/-- The pin of an entry keeps it from the thread. -/
def pinned (tid : ℤ) (ft : FiberAndThread F C) : Bool := ft.thread ≠ -1 ∧ ft.thread ≠ tid

/-- `it->fiber_ && it->fiber_->getState() == Fiber::EXEC`. -/
def executing (state : F → Option State) (ft : FiberAndThread F C) : Bool :=
  ft.fiber.any fun f => state f = some .exec

/-- What a scan of the queue finds: the entry it takes, what is left, and `tickle_me`. -/
structure Scan (F C : Type) where
  taken : Option (ℕ × FiberAndThread F C)
  rest : List (ℕ × FiberAndThread F C)
  tickleMe : Bool

def scan (tid : ℤ) (state : F → Option State) : List (ℕ × FiberAndThread F C) → Scan F C
  | [] => ⟨none, [], false⟩
  | e :: q =>
    if pinned tid e.2 then
      let r := scan tid state q
      ⟨r.taken, e :: r.rest, true⟩
    else if executing state e.2 then
      let r := scan tid state q
      ⟨r.taken, e :: r.rest, r.tickleMe⟩
    else ⟨some e, q, !q.isEmpty⟩

def resettable (st : Option State) : Bool :=
  st = some .term ∨ st = some .except ∨ st = some .init

def ended (st : Option State) : Bool := st = some .term ∨ st = some .except

inductive Act (F : Type)
  | start
  | scan
  | ask
  | write
  /-- The choice between the branches of `run`; `f` is the fiber made for a callback. -/
  | branch (f : F)
  | swapIn
  | yieldToReady
  | yieldToHold
  /-- `MainFunc` writes the last state. -/
  | finish (thrown : Bool)
  | swapOut
  /-- `activeThreadCount_--`. -/
  | decrement
  | readState
  | writeHold
  | requeue
  | goIdle
  /-- A read in `IOManager::stopping`, and whether the condition holds. -/
  | check (b : Bool)
  | checkFinal
  | wake (tickled : Bool)
  | drain
  | swapOutIdle
  | leaveIdle

inductive Action (W F C : Type)
  | worker (w : W) (a : Act F)
  | create (f : F)
  | schedule (fc : FiberOrCb F C) (thread : ℤ)
  | scheduleAll (fcs : List (FiberOrCb F C))
  /-- A call of `tickle` from `stop` or `onTimerInsertedAtFront`. -/
  | tickle
  | ask
  | write
  /-- The assignments of `stop`. -/
  | setAutoStop
  | setStopping

variable [DecidableEq W] [DecidableEq F]

namespace Scheduler

def setWorker (s : Scheduler W F C) (w : W) (v : Worker F C) : Scheduler W F C :=
  { s with worker := Function.update s.worker w v }

def setPc (s : Scheduler W F C) (w : W) (pc : Pc F C) : Scheduler W F C :=
  s.setWorker w { s.worker w with pc := pc }

def setState (s : Scheduler W F C) (f : F) (st : State) : Scheduler W F C :=
  { s with state := Function.update s.state f (some st) }

def release (s : Scheduler W F C) (n : ℕ) : Scheduler W F C :=
  { s with activeThreadCount := s.activeThreadCount - 1, finished := s.finished ++ [n] }

def scanStep (s : Scheduler W F C) (tid : ℤ) (w : W) : Scheduler W F C :=
  let r := scan tid s.state s.fibers
  let tick : Tick := if r.tickleMe then .ask else .none
  match r.taken with
  | some (n, ft) =>
    { s with fibers := r.rest, activeThreadCount := s.activeThreadCount + 1 }.setWorker w
      { s.worker w with pc := .picked n ft, tickle := tick }
  | none => s.setWorker w { s.worker w with pc := .missed, tickle := tick }

/-- The step from `picked`: the fiber is swapped in unless it has ended; a callback gets the
worker's `cb_fiber`, which is `reset` if there is one and new otherwise. -/
def branchStep (s : Scheduler W F C) (w : W) (n : ℕ) (ft : FiberAndThread F C) (new : F) :
    Option (Scheduler W F C) :=
  match ft.fiber.filter fun f => !ended (s.state f), ft.cb with
  | some f, _ => some (s.setPc w (.entering n f false))
  | none, none => some (s.setPc w (.dropping n))
  | none, some _ =>
    match (s.worker w).cbFiber with
    | some f =>
      if resettable (s.state f) then some ((s.setState f .init).setPc w (.entering n f true))
      else none
    | none =>
      if s.state new = none then
        some ((s.setState new .init).setWorker w
          { s.worker w with pc := .entering n new true, cbFiber := some new })
      else none

/-- The step from `after`. The two reads of the state are one here. A `cb_fiber` that has
ended is `reset` and kept. -/
def readStateStep (s : Scheduler W F C) (w : W) (f : F) (cb : Bool) : Scheduler W F C :=
  if s.state f = some .ready then s.setPc w (.requeue f cb)
  else if ended (s.state f) then (if cb then s.setState f .init else s).setPc w .scan
  else s.setPc w (.hold f cb)

/-- The worker's `cb_fiber` after it has handed the fiber on. -/
def dropCb (v : Worker F C) (cb : Bool) : Option F := if cb then none else v.cbFiber

def stoppingFinal (s : Scheduler W F C) : Bool :=
  s.autoStop ∧ s.stopping ∧ s.fibers.isEmpty ∧ s.activeThreadCount = 0

/-- One step of a worker. No state follows a failed assertion. -/
def work (s : Scheduler W F C) (tid : ℤ) (w : W) (a : Act F) : Option (Scheduler W F C) :=
  let v := s.worker w
  match a, v.tickle, v.pc with
  | .ask, .ask, _ =>
    some (s.setWorker w { v with tickle := if s.hasIdleThreads then .write else .none })
  | .write, .write, _ =>
    some ({ s with pipe := s.pipe + 1 }.setWorker w { v with tickle := .none })
  | .start, .none, .off => some (s.setPc w .scan)
  | .scan, .none, .scan => some (s.scanStep tid w)
  | .branch new, .none, .picked n ft => s.branchStep w n ft new
  | .swapIn, .none, .entering n f cb =>
    if s.state f = some .exec then none
    else some ((s.setState f .exec).setPc w (.running n f cb))
  | .yieldToReady, .none, .running n f cb =>
    if s.state f = some .exec then
      some ((s.setState f .ready).setPc w (.leaving n f cb .ready))
    else none
  | .yieldToHold, .none, .running n f cb =>
    if s.state f = some .exec then some (s.setPc w (.leaving n f cb .exec)) else none
  | .finish thrown, .none, .running n f cb =>
    let st : State := if thrown then .except else .term
    some ((s.setState f st).setPc w (.leaving n f cb st))
  | .swapOut, .none, .leaving n f cb how => some (s.setPc w (.back n f cb how))
  | .decrement, .none, .back n f cb how => some ((s.release n).setPc w (.after f cb how))
  | .decrement, .none, .dropping n => some ((s.release n).setPc w .scan)
  | .readState, .none, .after f cb _ => some (s.readStateStep w f cb)
  | .writeHold, .none, .hold f cb =>
    some ((s.setState f .hold).setWorker w { v with pc := .scan, cbFiber := dropCb v cb })
  | .requeue, .none, .requeue f cb =>
    let r := s.scheduleNoLock (make (.fiber (some f)) (-1))
    some (r.1.setWorker w
      { v with pc := .scan, tickle := if r.2 then .ask else .none, cbFiber := dropCb v cb })
  | .goIdle, .none, .missed =>
    if v.idleTerm then some (s.setPc w .exited)
    else some ({ s with idleThreadCount := s.idleThreadCount + 1 }.setPc w (.stopCheck .timer))
  | .check b, .none, .stopCheck .timer =>
    some (s.setPc w (if b then .stopCheck .pending else .waiting))
  | .check b, .none, .stopCheck .pending =>
    some (s.setPc w (if b then .stopCheck .final else .waiting))
  | .checkFinal, .none, .stopCheck .final =>
    if s.stoppingFinal then
      some (s.setWorker w { v with pc := .leavingIdle, idleTerm := true })
    else some (s.setPc w .waiting)
  | .wake tickled, .none, .waiting =>
    if tickled = true ∧ s.pipe = 0 then none else some (s.setPc w (.handling tickled))
  | .drain, .none, .handling true => some ({ s with pipe := 0 }.setPc w (.handling false))
  | .swapOutIdle, .none, .handling false => some (s.setPc w .leavingIdle)
  | .leaveIdle, .none, .leavingIdle =>
    some ({ s with idleThreadCount := s.idleThreadCount - 1 }.setPc w .scan)
  | _, _, _ => none

/-- An entry can be made from a fiber that exists. -/
def known (s : Scheduler W F C) (ft : FiberAndThread F C) : Bool :=
  ft.fiber.all fun f => (s.state f).isSome

def step (tid : W → ℤ) (s : Scheduler W F C) : Action W F C → Option (Scheduler W F C)
  | .worker w a => s.work (tid w) w a
  | .create f => if s.state f = none then some (s.setState f .init) else none
  | .schedule fc thread =>
    if s.known (make fc thread) then some (s.schedule [make fc thread]) else none
  | .scheduleAll fcs =>
    if fcs.all fun fc => s.known (make fc (-1)) then
      some (s.schedule (fcs.map fun fc => make fc (-1)))
    else none
  | .tickle => some { s with asking := s.asking + 1 }
  | .ask =>
    if s.asking = 0 then none
    else some { s with
      asking := s.asking - 1
      writing := if s.hasIdleThreads then s.writing + 1 else s.writing }
  | .write =>
    if s.writing = 0 then none
    else some { s with writing := s.writing - 1, pipe := s.pipe + 1 }
  | .setAutoStop => some { s with autoStop := true }
  | .setStopping => some { s with stopping := true }

end Scheduler

end Sylar.SchedulerModel
