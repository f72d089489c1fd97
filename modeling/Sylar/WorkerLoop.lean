import Sylar.SchedulerSteps

/-!
One worker in `Scheduler::run`, with the functions that run on its fibers.

A `Fiber` object is named by a serial number and has its state and its function `cb_`. A fiber
in state `INIT` has a fresh context, so that the next switch to it calls `cb_` from `MainFunc`;
a suspended one goes on with the function it is in the middle of, which is still its `cb_`. The
worker keeps one object for its callbacks and gives it a new function each time.

What a function does is not part of the model: while it runs it may take any of the steps it
could take, and any thread may call `schedule` at any moment. A pointer to a fiber carries the
function that ran on the fiber when the pointer was taken, which the program does not have; it
is there to say whom the pointer was meant for. `tickle` is left out.
-/

namespace Sylar.WorkerLoop

open Sylar.FiberModel FiberAndThread Sylar.SchedulerSteps
open Sylar.SchedulerModel (scan ended resettable)

/-- A function: that of a callback, by the number of its entry, or the one a fiber was made
with. -/
inductive Body
  | cb (n : ℕ)
  | fiber (f : ℕ)
  deriving DecidableEq

/-- A `Fiber::ptr`, and the function it was taken for. -/
structure Ref where
  fiber : ℕ
  body : Body
  deriving DecidableEq

/-- The fields of a `Fiber`, and whether `run` made it for its callbacks. -/
structure Fiber where
  state : State := .init
  cb : Option Body := none
  ofRun : Bool := false

/-- An entry of the queue: a fiber, or a function that is not empty. -/
abbrev Entry := FiberAndThread Ref Unit

/-- The assertions: that a fiber to switch to is not `EXEC`, that one to reset has ended or not
begun, that one that yields is `EXEC`, and that the end of `MainFunc` is not reached. -/
inductive Fault
  | swapIn | reset | yield | neverReach
  deriving DecidableEq

inductive Mark
  /-- An entry for the function is queued. -/
  | queued (b : Body)
  /-- The entry of a callback leaves the queue. -/
  | taken (n : ℕ)
  /-- `MainFunc` calls the function, after a switch that was meant for `r`. -/
  | started (r b : Body)
  /-- A switch that was meant for `r` lets the function go on. -/
  | resumed (r b : Body)
  /-- The function calls `YieldToHold`. -/
  | held (b : Body)
  | ended (b : Body)
  deriving DecidableEq

/-- Where the worker is. In `running` and `back` a fiber has been switched to, which is
`cb_fiber` when `cb` is set. -/
inductive Pc
  | scan
  | picked (n : ℕ) (ft : Entry)
  | missed
  | running (f : ℕ) (cb : Bool)
  | back (f : ℕ) (cb : Bool)
  | idling
  | exited
  | fault (e : Fault)
  deriving DecidableEq

structure Loop where
  /-- The queue, with the number of each entry. -/
  fibers : List (ℕ × Entry) := []
  issued : ℕ := 0
  heap : ℕ → Fiber := fun _ => {}
  /-- The number of fiber objects made. -/
  made : ℕ := 0
  cbFiber : Option ℕ := none
  /-- The state of the idle fiber. -/
  idle : State := .init
  activeThreadCount : ℤ := 0
  idleThreadCount : ℤ := 0
  autoStop : Bool := false
  stopping : Bool := false
  /-- The fibers that wait in event contexts. -/
  events : List Ref := []
  pc : Pc := .scan
  log : List Mark := []

namespace Loop

def state (s : Loop) (f : ℕ) : State := (s.heap f).state

def setFiber (s : Loop) (f : ℕ) (v : Fiber) : Loop := { s with heap := Function.update s.heap f v }

def setState (s : Loop) (f : ℕ) (st : State) : Loop := s.setFiber f { s.heap f with state := st }

def note (s : Loop) (marks : List Mark) : Loop := { s with log := s.log ++ marks }

def goto (s : Loop) (pc : Pc) : Loop := { s with pc := pc }

@[simp] lemma goto_pc (s : Loop) (pc : Pc) : (s.goto pc).pc = pc := rfl

/-! ### `schedule` -/

/-- The function an entry with the number is for. -/
def meant (n : ℕ) (ft : Entry) : Body :=
  match ft.fiber with
  | some r => r.body
  | none => .cb n

def scheduleNoLock (s : Loop) (ft : Entry) : Loop :=
  if ft.isWork then
    { s with
      fibers := s.fibers ++ [(s.issued, ft)]
      issued := s.issued + 1
      log := s.log ++ [.queued (meant s.issued ft)] }
  else s

/-- What a pointer to a fiber that was made with a function is. Any other number is no such
fiber, and stands for a null pointer. -/
def pointer (s : Loop) (f : ℕ) : Option Ref :=
  if f < s.made ∧ (s.heap f).ofRun = false then some ⟨f, .fiber f⟩ else none

def entry (s : Loop) (fc : FiberOrCb ℕ Unit) (thread : ℤ) : Entry :=
  match fc with
  | .fiber f => make (.fiber (f.bind s.pointer)) thread
  | .cb c => make (.cb c) thread

/-- The calls that any thread can make at any moment. -/
inductive Call
  | schedule (fc : FiberOrCb ℕ Unit) (thread : ℤ)
  /-- `new Fiber(cb)`. -/
  | create
  /-- An event is triggered, and its fiber scheduled. -/
  | trigger (i : ℕ)
  /-- `delEvent`. -/
  | delEvent (i : ℕ)

def call (s : Loop) : Call → Loop
  | .schedule fc thread => s.scheduleNoLock (s.entry fc thread)
  | .create => { s.setFiber s.made { cb := some (.fiber s.made) } with made := s.made + 1 }
  | .trigger i =>
    match s.events[i]? with
    | some r =>
      { s with events := s.events.eraseIdx i }.scheduleNoLock (make (.fiber (some r)) (-1))
    | none => s
  | .delEvent i => { s with events := s.events.eraseIdx i }

/-! ### The fibers -/

/-- `Fiber::swapIn`, up to the moment a function runs. An empty function throws at once. -/
def swapIn (s : Loop) (f : ℕ) (cb : Bool) (r : Body) : Except Fault Loop :=
  match s.state f, (s.heap f).cb with
  | .exec, _ => .error .swapIn
  | .init, none => .ok ((s.setState f .except).goto (.back f cb))
  | .init, some b =>
    .ok (((s.setState f .exec).note [.started r b]).goto (.running f cb))
  | .hold, some b | .ready, some b =>
    .ok (((s.setState f .exec).note [.resumed r b]).goto (.running f cb))
  | _, _ => .error .neverReach

def reset (s : Loop) (f : ℕ) (cb : Option Body) : Except Fault Loop :=
  if resettable (some (s.state f)) then
    .ok (s.setFiber f { s.heap f with state := .init, cb := cb })
  else .error .reset

def body (s : Loop) (f : ℕ) : Body := (s.heap f).cb.getD (.fiber f)

inductive BodyAct
  | ret
  | throw
  | yieldToReady
  | yieldToHold
  /-- `schedule(Fiber::GetThis(), thread)`. -/
  | scheduleThis (thread : ℤ)
  /-- `addEvent` with the running fiber. -/
  | addEvent
  | call (c : Call)

def bodyStep (s : Loop) (f : ℕ) (cb : Bool) : BodyAct → Except Fault Loop
  | .ret =>
    .ok (((s.setFiber f { s.heap f with state := .term, cb := none }).note
      [.ended (s.body f)]).goto (.back f cb))
  | .throw => .ok (((s.setState f .except).note [.ended (s.body f)]).goto (.back f cb))
  | .yieldToReady =>
    if s.state f = .exec then .ok ((s.setState f .ready).goto (.back f cb)) else .error .yield
  | .yieldToHold =>
    if s.state f = .exec then .ok ((s.note [.held (s.body f)]).goto (.back f cb))
    else .error .yield
  | .scheduleThis thread =>
    .ok (s.scheduleNoLock (make (.fiber (some ⟨f, s.body f⟩)) thread))
  | .addEvent => .ok { s with events := s.events ++ [⟨f, s.body f⟩] }
  | .call c => .ok (s.call c)

/-! ### `run` -/

def scanStep (s : Loop) (tid : ℤ) : Loop :=
  let r := scan tid (fun r : Ref => some (s.state r.fiber)) s.fibers
  match r.taken with
  | some (n, ft) =>
    ({ s with fibers := r.rest, activeThreadCount := s.activeThreadCount + 1 }.note
      (if ft.cb.isSome then [.taken n] else [])).goto (.picked n ft)
  | none => s.goto .missed

/-- `cb_fiber->reset(ft.cb_)` or `cb_fiber.reset(new Fiber(ft.cb_))`. -/
def takeCbFiber (s : Loop) (n : ℕ) : Except Fault (Loop × ℕ) :=
  match s.cbFiber with
  | some f => (s.reset f (some (.cb n))).map fun s => (s, f)
  | none =>
    .ok ({ s.setFiber s.made { cb := some (.cb n), ofRun := true } with
      made := s.made + 1
      cbFiber := some s.made }, s.made)

def branch (s : Loop) (n : ℕ) (ft : Entry) : Except Fault Loop :=
  match ft.fiber.filter fun r => !ended (some (s.state r.fiber)), ft.cb with
  | some r, _ => s.swapIn r.fiber false r.body
  | none, some _ => do
    let (s, f) ← s.takeCbFiber n
    s.swapIn f true (.cb n)
  | none, none => .ok ({ s with activeThreadCount := s.activeThreadCount - 1 }.goto .scan)

/-- The branches of `run` from the return of `swapIn` on. -/
def after (s : Loop) (f : ℕ) (cb : Bool) : Except Fault Loop :=
  let s := { s with activeThreadCount := s.activeThreadCount - 1 }
  let dropped := if cb then none else s.cbFiber
  if s.state f = .ready then
    .ok ({ s.scheduleNoLock (make (.fiber (some ⟨f, s.body f⟩)) (-1)) with
      cbFiber := dropped }.goto .scan)
  else if ended (some (s.state f)) then
    (if cb then s.reset f none else .ok s).map fun s => s.goto .scan
  else .ok ({ s.setState f .hold with cbFiber := dropped }.goto .scan)

def stoppingFinal (s : Loop) : Bool :=
  s.autoStop ∧ s.stopping ∧ s.fibers.isEmpty ∧ s.activeThreadCount = 0

def idleIn (s : Loop) : Except Fault Loop :=
  match s.idle with
  | .exec => .error .swapIn
  | .except => .error .neverReach
  | .term => .ok (s.goto .exited)
  | _ => .ok ({ s with idle := .exec, idleThreadCount := s.idleThreadCount + 1 }.goto .idling)

/-- The idle fiber looks whether it can end, and yields if not; `more` is what a scheduler of a
derived class asks beside `Scheduler::stopping`. -/
def idleOut (s : Loop) (more : Bool) : Except Fault Loop :=
  if s.idle = .exec then
    .ok ({ s with
      idle := if s.stoppingFinal ∧ more then .term else .hold
      idleThreadCount := s.idleThreadCount - 1 }.goto .scan)
  else .error .yield

/-- The next step of the worker, unless a function runs or `run` is over. -/
def turn (s : Loop) (tid : ℤ) (more : Bool) : Option (Except Fault Loop) :=
  match s.pc with
  | .scan => some (.ok (s.scanStep tid))
  | .picked n ft => some (s.branch n ft)
  | .missed => some s.idleIn
  | .back f cb => some (s.after f cb)
  | .idling => some (s.idleOut more)
  | .running .. | .exited | .fault _ => none

/-- A failed assertion stops the worker. -/
def settle (s : Loop) : Except Fault Loop → Loop
  | .ok s' => s'
  | .error e => s.goto (.fault e)

inductive Act
  | turn (more : Bool)
  | body (a : BodyAct)
  | call (c : Call)
  /-- The assignments of `stop`. -/
  | setAutoStop
  | setStopping

def Act.answer : Act → Option Bool
  | .turn more => some more
  | _ => none

def step (tid : ℤ) (s : Loop) : Act → Option Loop
  | .turn more => (s.turn tid more).map s.settle
  | .body a =>
    match s.pc with
    | .running f cb => some (s.settle (s.bodyStep f cb a))
    | _ => none
  | .call c => some (s.call c)
  | .setAutoStop => some { s with autoStop := true }
  | .setStopping => some { s with stopping := true }

end Loop

open Loop

/-! ### What a step can do -/

/-- The assertions that can fail, and where. -/
inductive Broken (s : Loop) : Prop
  | swapIn (n : ℕ) (ft : Entry) (r : Ref) (hpc : s.pc = .picked n ft) (hr : ft.fiber = some r)
      (h : s.state r.fiber = .exec ∨ ((s.heap r.fiber).cb = none ∧
        (s.state r.fiber = .hold ∨ s.state r.fiber = .ready)))
  | reset (n : ℕ) (ft : Entry) (f : ℕ) (hpc : s.pc = .picked n ft) (hf : s.cbFiber = some f)
      (h : s.state f ≠ .term ∧ s.state f ≠ .except ∧ s.state f ≠ .init)
  | yield (f : ℕ) (cb : Bool) (hpc : s.pc = .running f cb) (h : s.state f ≠ .exec)
  | idleIn (hpc : s.pc = .missed) (h : s.idle = .exec ∨ s.idle = .except)
  | idleOut (hpc : s.pc = .idling) (h : s.idle ≠ .exec)

/-- The fiber of the entry, if it has one, is not switched to. -/
def NoFiber (s : Loop) (ft : Entry) : Prop :=
  ∀ r, ft.fiber = some r → s.state r.fiber = .term ∨ s.state r.fiber = .except

/-- The steps: those of the worker by itself, with the answer that its idle fiber gets from a
derived class, and the others. -/
inductive Trans (tid : ℤ) (s : Loop) : Option Bool → Loop → Prop
  | fault {k : Option Bool} (e : Fault) (h : Broken s) : Trans tid s k (s.goto (.fault e))
  | call (c : Call) : Trans tid s none (s.call c)
  | flags (autoStop stopping : Bool) (ha : s.autoStop = true → autoStop = true)
      (hs : s.stopping = true → stopping = true) :
      Trans tid s none { s with autoStop := autoStop, stopping := stopping }
  | take {more : Bool} (n : ℕ) (ft : Entry) (q₁ q₂ : List (ℕ × Entry)) (hpc : s.pc = .scan)
      (hq : s.fibers = q₁ ++ (n, ft) :: q₂)
      (hno : ∀ x ∈ q₁, ¬ Eligible tid (fun r : Ref => some (s.state r.fiber)) x.2)
      (he : Eligible tid (fun r : Ref => some (s.state r.fiber)) ft) :
      Trans tid s (some more) (({ s with
        fibers := q₁ ++ q₂, activeThreadCount := s.activeThreadCount + 1 }.note
          (if ft.cb.isSome then [.taken n] else [])).goto (.picked n ft))
  | miss {more : Bool} (hpc : s.pc = .scan)
      (hno : ∀ x ∈ s.fibers, ¬ Eligible tid (fun r : Ref => some (s.state r.fiber)) x.2) :
      Trans tid s (some more) (s.goto .missed)
  | drop {more : Bool} (n : ℕ) (ft : Entry) (hpc : s.pc = .picked n ft) (hf : NoFiber s ft)
      (hcb : ft.cb = none) :
      Trans tid s (some more) ({ s with activeThreadCount := s.activeThreadCount - 1 }.goto .scan)
  | empty {more : Bool} (n : ℕ) (ft : Entry) (r : Ref) (hpc : s.pc = .picked n ft)
      (hr : ft.fiber = some r) (hst : s.state r.fiber = .init) (hcb : (s.heap r.fiber).cb = none) :
      Trans tid s (some more) ((s.setState r.fiber .except).goto (.back r.fiber false))
  | start {more : Bool} (n : ℕ) (ft : Entry) (r : Ref) (b : Body) (hpc : s.pc = .picked n ft)
      (hr : ft.fiber = some r) (hst : s.state r.fiber = .init)
      (hcb : (s.heap r.fiber).cb = some b) :
      Trans tid s (some more)
        (((s.setState r.fiber .exec).note [.started r.body b]).goto (.running r.fiber false))
  | resume {more : Bool} (n : ℕ) (ft : Entry) (r : Ref) (b : Body) (hpc : s.pc = .picked n ft)
      (hr : ft.fiber = some r) (hst : s.state r.fiber = .hold ∨ s.state r.fiber = .ready)
      (hcb : (s.heap r.fiber).cb = some b) :
      Trans tid s (some more)
        (((s.setState r.fiber .exec).note [.resumed r.body b]).goto (.running r.fiber false))
  | reuse {more : Bool} (n : ℕ) (ft : Entry) (f : ℕ) (hpc : s.pc = .picked n ft) (hf : NoFiber s ft)
      (hcb : ft.cb.isSome) (hc : s.cbFiber = some f)
      (hst : s.state f = .term ∨ s.state f = .except ∨ s.state f = .init) :
      Trans tid s (some more) (((s.setFiber f
        { s.heap f with state := .exec, cb := some (.cb n) }).note
          [.started (.cb n) (.cb n)]).goto (.running f true))
  | fresh {more : Bool} (n : ℕ) (ft : Entry) (hpc : s.pc = .picked n ft) (hf : NoFiber s ft)
      (hcb : ft.cb.isSome) (hc : s.cbFiber = none) :
      Trans tid s (some more) (({ s.setFiber s.made ⟨.exec, some (.cb n), true⟩ with
        made := s.made + 1, cbFiber := some s.made }.note
          [.started (.cb n) (.cb n)]).goto (.running s.made true))
  | ret (f : ℕ) (cb : Bool) (hpc : s.pc = .running f cb) :
      Trans tid s none (((s.setFiber f { s.heap f with state := .term, cb := none }).note
        [.ended (s.body f)]).goto (.back f cb))
  | throw (f : ℕ) (cb : Bool) (hpc : s.pc = .running f cb) :
      Trans tid s none (((s.setState f .except).note [.ended (s.body f)]).goto (.back f cb))
  | ready (f : ℕ) (cb : Bool) (hpc : s.pc = .running f cb) (hst : s.state f = .exec) :
      Trans tid s none ((s.setState f .ready).goto (.back f cb))
  | hold (f : ℕ) (cb : Bool) (hpc : s.pc = .running f cb) (hst : s.state f = .exec) :
      Trans tid s none ((s.note [.held (s.body f)]).goto (.back f cb))
  | this (f : ℕ) (cb : Bool) (thread : ℤ) (hpc : s.pc = .running f cb) :
      Trans tid s none (s.scheduleNoLock (make (.fiber (some ⟨f, s.body f⟩)) thread))
  | addEvent (f : ℕ) (cb : Bool) (hpc : s.pc = .running f cb) :
      Trans tid s none { s with events := s.events ++ [⟨f, s.body f⟩] }
  | requeue {more : Bool} (f : ℕ) (cb : Bool) (hpc : s.pc = .back f cb) (hst : s.state f = .ready) :
      Trans tid s (some more)
        ({ ({ s with activeThreadCount := s.activeThreadCount - 1 }.scheduleNoLock
          (make (.fiber (some ⟨f, s.body f⟩)) (-1))) with
            cbFiber := if cb then none else s.cbFiber }.goto .scan)
  | finish {more : Bool} (f : ℕ) (hpc : s.pc = .back f true)
      (hst : s.state f = .term ∨ s.state f = .except) :
      Trans tid s (some more) (({ s with activeThreadCount := s.activeThreadCount - 1 }.setFiber f
        { s.heap f with state := .init, cb := none }).goto .scan)
  | quit {more : Bool} (f : ℕ) (hpc : s.pc = .back f false)
      (hst : s.state f = .term ∨ s.state f = .except) :
      Trans tid s (some more) ({ s with activeThreadCount := s.activeThreadCount - 1 }.goto .scan)
  | park {more : Bool} (f : ℕ) (cb : Bool) (hpc : s.pc = .back f cb)
      (hst : s.state f ≠ .ready ∧ s.state f ≠ .term ∧ s.state f ≠ .except) :
      Trans tid s (some more)
        ({ { s with activeThreadCount := s.activeThreadCount - 1 }.setState f .hold with
          cbFiber := if cb then none else s.cbFiber }.goto .scan)
  | exit {more : Bool} (hpc : s.pc = .missed) (hi : s.idle = .term) :
      Trans tid s (some more) (s.goto .exited)
  | idleIn {more : Bool} (hpc : s.pc = .missed)
      (hi : s.idle ≠ .exec ∧ s.idle ≠ .except ∧ s.idle ≠ .term) :
      Trans tid s (some more)
        ({ s with idle := .exec, idleThreadCount := s.idleThreadCount + 1 }.goto .idling)
  | idleOut (more : Bool) (hpc : s.pc = .idling) (hi : s.idle = .exec) :
      Trans tid s (some more) ({ s with
        idle := if s.stoppingFinal ∧ more then .term else .hold
        idleThreadCount := s.idleThreadCount - 1 }.goto .scan)

lemma ended_iff (st : State) : ended (some st) = true ↔ st = .term ∨ st = .except := by
  cases st <;> simp [ended]

lemma resettable_iff (st : State) :
    resettable (some st) = true ↔ st = .term ∨ st = .except ∨ st = .init := by
  cases st <;> simp [resettable]

variable {tid : ℤ} {s s' : Loop} {k : Option Bool}

lemma scanStep_trans {more : Bool} (hpc : s.pc = .scan) :
    Trans tid s (some more) (s.scanStep tid) := by
  unfold scanStep
  dsimp only
  cases ht : (scan tid (fun r : Ref => some (s.state r.fiber)) s.fibers).taken with
  | none => exact .miss hpc (scan_none ht)
  | some e =>
    obtain ⟨q₁, q₂, hq, hrest, hno, he, -⟩ := scan_taken ht
    have htake : Trans tid s (some more) _ := .take e.1 e.2 q₁ q₂ hpc hq hno he
    rw [← hrest] at htake
    exact htake

lemma swapIn_trans {more : Bool} {n : ℕ} {ft : Entry} {r : Ref} (hpc : s.pc = .picked n ft)
    (hr : ft.fiber = some r) (hne : ¬ (s.state r.fiber = .term ∨ s.state r.fiber = .except)) :
    Trans tid s (some more) (s.settle (s.swapIn r.fiber false r.body)) := by
  unfold swapIn
  cases hst : s.state r.fiber <;> cases hcb : (s.heap r.fiber).cb
  case init.none => exact .empty n ft r hpc hr hst hcb
  case init.some b => exact .start n ft r b hpc hr hst hcb
  case hold.none => exact .fault _ (.swapIn n ft r hpc hr (.inr ⟨hcb, .inl hst⟩))
  case hold.some b => exact .resume n ft r b hpc hr (.inl hst) hcb
  case exec.none => exact .fault _ (.swapIn n ft r hpc hr (.inl hst))
  case exec.some b => exact .fault _ (.swapIn n ft r hpc hr (.inl hst))
  case term.none => exact absurd (.inl hst) hne
  case term.some b => exact absurd (.inl hst) hne
  case ready.none => exact .fault _ (.swapIn n ft r hpc hr (.inr ⟨hcb, .inr hst⟩))
  case ready.some b => exact .resume n ft r b hpc hr (.inr hst) hcb
  case except.none => exact absurd (.inr hst) hne
  case except.some b => exact absurd (.inr hst) hne

lemma swapIn_init {f : ℕ} {b : Body} (hst : s.state f = .init) (hcb : (s.heap f).cb = some b)
    (cb : Bool) (r : Body) : s.swapIn f cb r =
      .ok (((s.setState f .exec).note [.started r b]).goto (.running f cb)) := by
  unfold swapIn
  rw [hst, hcb]

lemma enterCb_fresh {n : ℕ} (hc : s.cbFiber = none) :
    (s.takeCbFiber n).bind (fun p => p.1.swapIn p.2 true (.cb n)) =
      .ok (({ s.setFiber s.made ⟨.exec, some (.cb n), true⟩ with
        made := s.made + 1, cbFiber := some s.made }.note
          [.started (.cb n) (.cb n)]).goto (.running s.made true)) := by
  have htake : s.takeCbFiber n = .ok ({ s.setFiber s.made
      { cb := some (.cb n), ofRun := true } with
        made := s.made + 1, cbFiber := some s.made }, s.made) := by
    unfold takeCbFiber
    rw [hc]
  rw [htake, Except.bind, swapIn_init (b := .cb n) (by simp [Loop.state, setFiber])
    (by simp [setFiber])]
  simp [Loop.setState, setFiber, note, goto]

lemma enterCb_reuse {n f : ℕ} (hc : s.cbFiber = some f)
    (hst : s.state f = .term ∨ s.state f = .except ∨ s.state f = .init) :
    (s.takeCbFiber n).bind (fun p => p.1.swapIn p.2 true (.cb n)) =
      .ok (((s.setFiber f { s.heap f with state := .exec, cb := some (.cb n) }).note
        [.started (.cb n) (.cb n)]).goto (.running f true)) := by
  have htake : s.takeCbFiber n =
      .ok (s.setFiber f { s.heap f with state := .init, cb := some (.cb n) }, f) := by
    unfold takeCbFiber reset
    rw [hc]
    simp only [if_pos ((resettable_iff _).mpr hst), Except.map]
  rw [htake, Except.bind, swapIn_init (b := .cb n) (by simp [Loop.state, setFiber])
    (by simp [setFiber])]
  simp [Loop.setState, setFiber, note, goto]

lemma noFiber_of_filter {ft : Entry}
    (h : (ft.fiber.filter fun r => !ended (some (s.state r.fiber))) = none) : NoFiber s ft := by
  intro r hr
  rw [hr] at h
  by_contra hne
  simp [Option.filter, ended_iff, hne] at h

lemma branch_cb {n : ℕ} {ft : Entry} (hf : (ft.fiber.filter fun r =>
    !ended (some (s.state r.fiber))) = none) (hcb : ft.cb.isSome) :
    s.branch n ft = (s.takeCbFiber n).bind fun p => p.1.swapIn p.2 true (.cb n) := by
  obtain ⟨u, hu⟩ := Option.isSome_iff_exists.mp hcb
  unfold branch
  rw [hf, hu]
  rfl

lemma branch_trans {more : Bool} {n : ℕ} {ft : Entry} (hpc : s.pc = .picked n ft) :
    Trans tid s (some more) (s.settle (s.branch n ft)) := by
  cases hf : ft.fiber.filter fun r => !ended (some (s.state r.fiber)) with
  | some r =>
    obtain ⟨hr, hne⟩ := Option.filter_eq_some_iff.mp hf
    unfold branch
    rw [hf]
    refine swapIn_trans hpc hr fun h => ?_
    rw [(ended_iff _).mpr h] at hne
    cases hne
  | none =>
    have hno := noFiber_of_filter hf
    by_cases hcb : ft.cb.isSome
    · rw [branch_cb hf hcb]
      cases hc : s.cbFiber with
      | none =>
        rw [enterCb_fresh hc]
        exact .fresh n ft hpc hno hcb hc
      | some f =>
        by_cases hst : s.state f = .term ∨ s.state f = .except ∨ s.state f = .init
        · rw [enterCb_reuse hc hst]
          exact .reuse n ft f hpc hno hcb hc hst
        · have htake : s.takeCbFiber n = .error .reset := by
            unfold takeCbFiber reset
            rw [hc]
            simp only [if_neg (mt (resettable_iff _).mp hst), Except.map]
          rw [htake]
          simp only [not_or] at hst
          exact .fault _ (.reset n ft f hpc hc hst)
    · have hnone : ft.cb = none := by simpa using hcb
      unfold branch
      rw [hf, hnone]
      exact .drop n ft hpc hno hnone

lemma bodyStep_trans {f : ℕ} {cb : Bool} (hpc : s.pc = .running f cb) (a : BodyAct) :
    Trans tid s none (s.settle (s.bodyStep f cb a)) := by
  cases a with
  | ret => exact .ret f cb hpc
  | throw => exact .throw f cb hpc
  | yieldToReady =>
    by_cases hst : s.state f = .exec
    · simp only [bodyStep, if_pos hst]
      exact .ready f cb hpc hst
    · simp only [bodyStep, if_neg hst]
      exact .fault _ (.yield f cb hpc hst)
  | yieldToHold =>
    by_cases hst : s.state f = .exec
    · simp only [bodyStep, if_pos hst]
      exact .hold f cb hpc hst
    · simp only [bodyStep, if_neg hst]
      exact .fault _ (.yield f cb hpc hst)
  | scheduleThis thread => exact .this f cb thread hpc
  | addEvent => exact .addEvent f cb hpc
  | call c => exact .call c

lemma after_trans {more : Bool} {f : ℕ} {cb : Bool} (hpc : s.pc = .back f cb) :
    Trans tid s (some more) (s.settle (s.after f cb)) := by
  unfold after
  dsimp only
  split
  · rename_i hst
    exact .requeue f cb hpc hst
  · rename_i hst
    split
    · rename_i hend
      have hend' : s.state f = .term ∨ s.state f = .except := (ended_iff _).mp hend
      cases cb with
      | false => exact .quit f hpc hend'
      | true =>
        have hreset :
            ({ s with activeThreadCount := s.activeThreadCount - 1 } : Loop).reset f none =
              .ok ({ s with activeThreadCount := s.activeThreadCount - 1 }.setFiber f
                { s.heap f with state := .init, cb := none }) :=
          if_pos ((resettable_iff _).mpr (hend'.imp id Or.inl))
        rw [if_pos rfl, hreset]
        exact .finish f hpc hend'
    · rename_i hend
      have hend' : ¬ (s.state f = .term ∨ s.state f = .except) := fun h =>
        hend ((ended_iff _).mpr h)
      exact .park f cb hpc ⟨hst, fun h => hend' (.inl h), fun h => hend' (.inr h)⟩

lemma idleIn_trans {more : Bool} (hpc : s.pc = .missed) :
    Trans tid s (some more) (s.settle s.idleIn) := by
  unfold Loop.idleIn
  cases hi : s.idle with
  | exec => exact .fault _ (.idleIn hpc (.inl hi))
  | except => exact .fault _ (.idleIn hpc (.inr hi))
  | term => exact .exit hpc hi
  | init => exact .idleIn hpc (by simp [hi])
  | hold => exact .idleIn hpc (by simp [hi])
  | ready => exact .idleIn hpc (by simp [hi])

lemma idleOut_trans (hpc : s.pc = .idling) (more : Bool) :
    Trans tid s (some more) (s.settle (s.idleOut more)) := by
  unfold Loop.idleOut
  split
  · rename_i hi
    exact .idleOut more hpc hi
  · rename_i hi
    exact .fault _ (.idleOut hpc hi)

lemma turn_trans {more : Bool} {r : Except Fault Loop} (h : s.turn tid more = some r) :
    Trans tid s (some more) (s.settle r) := by
  unfold turn at h
  cases hpc : s.pc with
  | scan =>
    rw [hpc] at h
    obtain rfl := Option.some.inj h
    exact scanStep_trans hpc
  | picked n ft =>
    rw [hpc] at h
    obtain rfl := Option.some.inj h
    exact branch_trans hpc
  | missed =>
    rw [hpc] at h
    obtain rfl := Option.some.inj h
    exact idleIn_trans hpc
  | back f cb =>
    rw [hpc] at h
    obtain rfl := Option.some.inj h
    exact after_trans hpc
  | idling =>
    rw [hpc] at h
    obtain rfl := Option.some.inj h
    exact idleOut_trans hpc more
  | running f cb => rw [hpc] at h; cases h
  | exited => rw [hpc] at h; cases h
  | fault e => rw [hpc] at h; cases h

/-- **Every step is one of these.** -/
theorem step_trans {a : Act} (h : step tid s a = some s') : Trans tid s a.answer s' := by
  cases a with
  | turn more =>
    obtain ⟨r, hr, rfl⟩ := Option.map_eq_some_iff.mp h
    exact turn_trans hr
  | body a =>
    simp only [step] at h
    split at h
    · rename_i f cb hpc
      obtain rfl := Option.some.inj h
      exact bodyStep_trans hpc a
    · cases h
  | call c =>
    obtain rfl := Option.some.inj h
    exact .call c
  | setAutoStop =>
    obtain rfl := Option.some.inj h
    exact .flags true s.stopping (fun _ => rfl) id
  | setStopping =>
    obtain rfl := Option.some.inj h
    exact .flags s.autoStop true id fun _ => rfl

/-- What `schedule`, the event contexts and `new Fiber` keep is kept by every call. -/
lemma call_rule {P : Loop → Prop} (c : Call) (h : P s)
    (hschedule : ∀ s ft, P s → P (s.scheduleNoLock ft))
    (hevents : ∀ (s : Loop) es, P s → P { s with events := es }) (hcreate : P (s.call .create)) :
    P (s.call c) := by
  cases c with
  | schedule fc thread => exact hschedule s _ h
  | create => exact hcreate
  | trigger i =>
    simp only [Loop.call]
    split
    · exact hschedule _ _ (hevents s _ h)
    · exact h
  | delEvent i => exact hevents s _ h

lemma schedule_cases (s : Loop) (ft : Entry) : s.scheduleNoLock ft = s ∨ (ft.isWork ∧
    s.scheduleNoLock ft = { s with
      fibers := s.fibers ++ [(s.issued, ft)], issued := s.issued + 1,
      log := s.log ++ [.queued (meant s.issued ft)] }) := by
  unfold scheduleNoLock
  split
  · rename_i hw
    exact .inr ⟨hw, rfl⟩
  · exact .inl rfl

lemma schedule_same (s : Loop) (ft : Entry) :
    (s.scheduleNoLock ft).heap = s.heap ∧ (s.scheduleNoLock ft).made = s.made ∧
    (s.scheduleNoLock ft).cbFiber = s.cbFiber ∧ (s.scheduleNoLock ft).pc = s.pc ∧
    (s.scheduleNoLock ft).idle = s.idle := by
  rcases schedule_cases s ft with he | ⟨-, he⟩ <;> rw [he] <;> exact ⟨rfl, rfl, rfl, rfl, rfl⟩

/-! ### Pointers to fibers -/

def current : Pc → Option ℕ
  | .running f _ | .back f _ => some f
  | _ => none

def pickedRef : Pc → Option Ref
  | .picked _ ft => ft.fiber
  | _ => none

/-- Somebody has the pointer: the queue, an event context, or `run`. -/
def Points (s : Loop) (r : Ref) : Prop :=
  (∃ e ∈ s.fibers, e.2.fiber = some r) ∨ r ∈ s.events ∨ pickedRef s.pc = some r

/-- A pointer that is made in this state: one to a fiber that was made with a function, or one to
the fiber that has been switched to and is in the middle of its function. -/
def Fresh (s : Loop) (r : Ref) : Prop :=
  (∃ f, s.pointer f = some r) ∨ ∃ f, current s.pc = some f ∧
    (s.state f = .ready ∨ ∃ cb, s.pc = .running f cb) ∧ r = ⟨f, s.body f⟩

lemma points_schedule {ft : Entry} {r : Ref} (h : Points (s.scheduleNoLock ft) r) :
    Points s r ∨ ft.fiber = some r := by
  unfold scheduleNoLock at h
  split at h
  · rcases h with ⟨e, he, hr⟩ | h | h
    · rcases List.mem_append.mp he with he | he
      · exact .inl (.inl ⟨e, he, hr⟩)
      · rw [List.mem_singleton.mp he] at hr
        exact .inr hr
    · exact .inl (.inr (.inl h))
    · exact .inl (.inr (.inr h))
  · exact .inl h

lemma points_call {c : Call} {r : Ref} (h : Points (s.call c) r) : Points s r ∨ Fresh s r := by
  cases c with
  | schedule fc thread =>
    refine (points_schedule h).imp id fun hr => .inl ?_
    cases fc with
    | fiber f =>
      cases f with
      | none => cases hr
      | some f => exact ⟨f, hr⟩
    | cb c => cases hr
  | create => exact .inl h
  | trigger i =>
    left
    simp only [Loop.call] at h
    split at h
    · rename_i r' hget
      rcases points_schedule h with hp | hr
      · rcases hp with hp | hp | hp
        · exact .inl hp
        · exact .inr (.inl (List.mem_of_mem_eraseIdx hp))
        · exact .inr (.inr hp)
      · obtain rfl : r' = r := Option.some.inj hr
        exact .inr (.inl (List.mem_of_getElem? hget))
    · exact h
  | delEvent i =>
    left
    rcases h with hp | hp | hp
    · exact .inl hp
    · exact .inr (.inl (List.mem_of_mem_eraseIdx hp))
    · exact .inr (.inr hp)

/-- A step that leaves the queue and the events, and has no entry in hand at its end. -/
lemma points_kept {r : Ref} (h : Points s' r) (hq : s'.fibers = s.fibers)
    (he : s'.events = s.events) (hpc : pickedRef s'.pc = none) : Points s r := by
  rcases h with ⟨e, hmem, hr⟩ | h | h
  · exact .inl ⟨e, hq ▸ hmem, hr⟩
  · exact .inr (.inl (he ▸ h))
  · rw [hpc] at h
    cases h

/-- **A pointer is passed on or made.** -/
lemma points_trans (ht : Trans tid s k s') {r : Ref} (h : Points s' r) :
    Points s r ∨ Fresh s r := by
  cases ht with
  | fault e hb => exact .inl (points_kept h rfl rfl rfl)
  | call c => exact points_call h
  | flags autoStop stopping ha hs => exact .inl h
  | take n ft q₁ q₂ hpc hq hno he =>
    left
    rcases h with ⟨e, hmem, hr⟩ | h | h
    · refine .inl ⟨e, ?_, hr⟩
      rw [hq]
      have hmem : e ∈ q₁ ++ q₂ := hmem
      rcases List.mem_append.mp hmem with hm | hm
      · exact List.mem_append_left _ hm
      · exact List.mem_append_right _ (List.mem_cons_of_mem _ hm)
    · exact .inr (.inl h)
    · refine .inl ⟨(n, ft), ?_, h⟩
      rw [hq]
      simp
  | this f cb thread hpc =>
    refine (points_schedule h).imp id fun hr => .inr ⟨f, by rw [hpc]; rfl, .inr ⟨cb, hpc⟩, ?_⟩
    exact (Option.some.inj hr).symm
  | addEvent f cb hpc =>
    rcases h with hp | hp | hp
    · exact .inl (.inl hp)
    · rcases List.mem_append.mp hp with hp | hp
      · exact .inl (.inr (.inl hp))
      · exact .inr (.inr ⟨f, by rw [hpc]; rfl, .inr ⟨cb, hpc⟩, List.mem_singleton.mp hp⟩)
    · exact .inl (.inr (.inr hp))
  | requeue f cb hpc hst =>
    have hp : Points ({ s with activeThreadCount := s.activeThreadCount - 1 }.scheduleNoLock
        (make (.fiber (some ⟨f, s.body f⟩)) (-1))) r := by
      rcases h with hp | hp | hp
      · exact .inl hp
      · exact .inr (.inl hp)
      · cases hp
    refine (points_schedule hp).imp (fun hp => ?_) fun hr =>
      .inr ⟨f, by rw [hpc]; rfl, .inl hst, ?_⟩
    · exact hp
    · exact (Option.some.inj hr).symm
  | miss hpc hno => exact .inl (points_kept h rfl rfl rfl)
  | drop n ft hpc hf hcb => exact .inl (points_kept h rfl rfl rfl)
  | empty n ft r hpc hr hst hcb => exact .inl (points_kept h rfl rfl rfl)
  | start n ft r b hpc hr hst hcb => exact .inl (points_kept h rfl rfl rfl)
  | resume n ft r b hpc hr hst hcb => exact .inl (points_kept h rfl rfl rfl)
  | reuse n ft f hpc hf hcb hc hst => exact .inl (points_kept h rfl rfl rfl)
  | fresh n ft hpc hf hcb hc => exact .inl (points_kept h rfl rfl rfl)
  | ret f cb hpc => exact .inl (points_kept h rfl rfl rfl)
  | throw f cb hpc => exact .inl (points_kept h rfl rfl rfl)
  | ready f cb hpc hst => exact .inl (points_kept h rfl rfl rfl)
  | hold f cb hpc hst => exact .inl (points_kept h rfl rfl rfl)
  | finish f hpc hst => exact .inl (points_kept h rfl rfl rfl)
  | quit f hpc hst => exact .inl (points_kept h rfl rfl rfl)
  | park f cb hpc hst => exact .inl (points_kept h rfl rfl rfl)
  | exit hpc hi => exact .inl (points_kept h rfl rfl rfl)
  | idleIn hpc hi => exact .inl (points_kept h rfl rfl rfl)
  | idleOut more hpc hi => exact .inl (points_kept h rfl rfl rfl)

end Sylar.WorkerLoop
