import Sylar.OneFiber

/-!
Several schedulers, and a fiber that goes from one to another by `switchTo`.

The schedulers are those of the worker loop, each with its queue and its workers; the states of
the fibers are shared. All of them take their steps in any order. One fiber is followed, which may
be one that a worker makes for a callback. After its first entry nobody queues it but its own calls
of `switchTo`. What it does is a step of its own, from one access to what the threads share to the
next: the call of `schedule` in `switchTo` and the yield after it are two steps.

The phase is the program counter of the fiber; `scopes` are the `caller_` of the
`SchedulerSwitcher` objects in scope, the innermost first. The returns from `switchTo` and the ends
of the scopes are noted down.
-/

namespace Sylar.SwitchSystem

open Sylar.FiberModel FiberAndThread Sylar.SchedulerModel Scheduler Sylar.SchedulerSteps
open Sylar.OneFiber

variable {K W F C : Type}

/-- A call of `switchTo`, and whether it is the one in `~SchedulerSwitcher`. -/
structure Goal (K : Type) where
  target : K
  thread : ℤ
  closing : Bool

def Goal.Met (tid : K → W → ℤ) (g : Goal K) (k : K) (w : W) : Prop :=
  k = g.target ∧ (g.thread = -1 ∨ g.thread = tid k w)

inductive Phase (K : Type)
  | unborn
  | made
  /-- In `YieldToHold`, or before its first step. -/
  | away (goal : Option (Goal K))
  | on
  /-- In `switchTo`, before `YieldToHold`. -/
  | yielding (goal : Goal K)
  /-- It has ended, or nobody wakes it. -/
  | done

/-- What is noted down, and the worker the fiber is on. -/
inductive Event (K W : Type)
  | returned (goal : Goal K) (k : K) (w : W)
  | scopeEnded (caller : K) (k : K) (w : W)

/-- The fiber is on a worker of the scheduler the event is about. -/
def Event.Sound (tid : K → W → ℤ) : Event K W → Prop
  | returned g k w => g.Met tid k w
  | scopeEnded caller k _ => k = caller

def Event.worker : Event K W → K × W
  | returned _ k w | scopeEnded _ k w => (k, w)

structure System (K W F C : Type) where
  sched : K → Scheduler W F C := fun _ => {}
  /-- The state of each fiber that exists. -/
  state : F → Option State := fun _ => none
  phase : Phase K := .unborn
  scopes : List K := []
  log : List (Event K W) := []

inductive BodyAct (K : Type)
  /-- It begins, or returns from `YieldToHold`. -/
  | resume
  | switchTo (target : K) (thread : ℤ)
  /-- A `SchedulerSwitcher` is made. -/
  | openScope (target : Option K)
  | closeScope
  /-- The yield in `switchTo`. -/
  | yieldToHold
  /-- A yield outside `switchTo`. -/
  | rest
  | finish (thrown : Bool)

inductive Step (K W F C : Type)
  | others (k : K) (a : Action W F C)
  /-- The first entry of the fiber. -/
  | launch (k : K) (thread : ℤ)
  | body (k : K) (w : W) (a : BodyAct K)

/-- The worker has the fiber's context on its thread: the fiber runs, or has not got through the
swap away from it. -/
def OnStack (me : F) : Pc F C → Prop
  | .running _ f _ | .leaving _ f _ _ => f = me
  | _ => False

section Defs

variable [DecidableEq K] [DecidableEq W] [DecidableEq F]

/-- A step that is not the fiber's own, and does not queue it. -/
def foreign (me : F) (s : Scheduler W F C) : Action W F C → Bool
  | .worker w _ =>
    match role me (s.worker w).pc with
    | some (.running _) => false
    | _ => true
  | .schedule fc thread => (make fc thread).fiber ≠ some me
  | .scheduleAll fcs => fcs.all fun fc => (make fc (-1)).fiber ≠ some me
  | _ => true

def phaseAfter (me : F) (p : Phase K) (s s' : Scheduler W F C) : Action W F C → Phase K
  | .create f => if f = me then .made else p
  | .worker w _ =>
    if begins (role me (s.worker w).pc) (role me (s'.worker w).pc) then .away none else p
  | _ => p

namespace System

def view (s : System K W F C) (k : K) : Scheduler W F C := { s.sched k with state := s.state }

def put (s : System K W F C) (k : K) (r : Scheduler W F C) : System K W F C :=
  { s with sched := Function.update s.sched k r, state := r.state }

def enqueue (s : System K W F C) (me : F) (k : K) (thread : ℤ) : System K W F C :=
  s.put k ((s.view k).schedule [make (.fiber (some me)) thread])

/-- `switchTo` returns, and with it `~SchedulerSwitcher`. -/
def back (s : System K W F C) (g : Goal K) (k : K) (w : W) : System K W F C :=
  match g.closing, s.scopes with
  | true, c :: scopes =>
    { s with
      phase := .on
      scopes := scopes
      log := s.log ++ [.returned g k w, .scopeEnded c k w] }
  | _, _ => { s with phase := .on, log := s.log ++ [.returned g k w] }

/-- `Scheduler::switchTo`, by a fiber on the worker `w` of `k`. -/
def switchTo (s : System K W F C) (tid : K → W → ℤ) (me : F) (k : K) (w : W) (g : Goal K) :
    System K W F C :=
  if k = g.target ∧ (g.thread = -1 ∨ g.thread = tid k w) then s.back g k w
  else { s.enqueue me g.target g.thread with phase := .yielding g }

def body (s : System K W F C) (tid : K → W → ℤ) (me : F) (k : K) (w : W) (a : BodyAct K) :
    Option (System K W F C) :=
  match a, s.phase with
  | .resume, .away none => some { s with phase := .on }
  | .resume, .away (some g) => some (s.back g k w)
  | .switchTo target thread, .on => some (s.switchTo tid me k w ⟨target, thread, false⟩)
  | .openScope none, .on => some { s with scopes := k :: s.scopes }
  | .openScope (some target), .on =>
    some ({ s with scopes := k :: s.scopes }.switchTo tid me k w ⟨target, -1, false⟩)
  | .closeScope, .on => s.scopes.head?.map fun c => s.switchTo tid me k w ⟨c, -1, true⟩
  | .yieldToHold, .yielding g =>
    ((s.view k).work (tid k w) w .yieldToHold).map fun r =>
      { s.put k r with phase := .away (some g) }
  | .rest, .on =>
    ((s.view k).work (tid k w) w .yieldToHold).map fun r => { s.put k r with phase := .done }
  | .finish thrown, .on =>
    if s.scopes.isEmpty then
      ((s.view k).work (tid k w) w (.finish thrown)).map fun r =>
        { s.put k r with phase := .done }
    else none
  | _, _ => none

def step (tid : K → W → ℤ) (me : F) (s : System K W F C) : Step K W F C → Option (System K W F C)
  | .others k a =>
    if foreign me (s.view k) a then
      ((s.view k).step (tid k) a).map fun r =>
        { s.put k r with phase := phaseAfter me s.phase (s.view k) r a }
    else none
  | .launch k thread =>
    match s.phase with
    | .made => some { s.enqueue me k thread with phase := .away none }
    | _ => none
  | .body k w a =>
    match role me ((s.sched k).worker w).pc with
    | some (.running _) => s.body tid me k w a
    | _ => none

end System

end Defs

end Sylar.SwitchSystem
