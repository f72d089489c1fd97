import Sylar.Lib.OrdSet
import Mathlib.Logic.Function.Basic

/-!
Timers and the set that keeps them in the order of their deadlines.

A `Timer` object is named by a serial number that is never used again, and carries the
address its pointers compare by; an address may come back once its object is gone. The set
`timers_` is the list of its members in order. Every operation is what the source does
under the manager's write lock, and the clock it reads is an argument.
-/

namespace Sylar.TimerModel

open Lib

variable {C : Type}

structure Timer (C : Type) where
  recurring : Bool := false
  ms : UInt64 := 0
  next : UInt64 := 0
  cb : Option C := none
  addr : ℕ := 0

/-- `Timer::Comparator::operator()`, on pointers that may be null. -/
def comparator (lhs rhs : Option (Timer C)) : Bool :=
  match lhs, rhs with
  | none, none => false
  | none, some _ => true
  | some _, none => false
  | some l, some r =>
    if l.next < r.next then true
    else if r.next < l.next then false
    else decide (l.addr < r.addr)

structure TimerManager (C : Type) where
  /-- The members of `timers_`, in order. -/
  timers : List ℕ := []
  /-- The timer objects made so far, by serial number. -/
  heap : ℕ → Timer C := fun _ => {}
  /-- How many objects have been made. -/
  made : ℕ := 0
  tickled : Bool := false
  previouseTime : UInt64 := 0

/-- Erasing at the end position of a set is undefined. -/
inductive Fault
  | eraseEnd
  deriving DecidableEq

namespace TimerManager

/-- The order of the set, by the current fields of its members. -/
def lt (m : TimerManager C) (a b : ℕ) : Bool := comparator (some (m.heap a)) (some (m.heap b))

def set (m : TimerManager C) (t : ℕ) (v : Timer C) : TimerManager C :=
  { m with heap := Function.update m.heap t v }

/-- `addTimer(val, lock)`: the insertion, and whether `onTimerInsertedAtFront` is called. -/
def addTimerLocked (m : TimerManager C) (t : ℕ) : TimerManager C × Bool :=
  let (l, i) := OrdSet.insert m.lt t m.timers
  let at_front := i == 0 && !m.tickled
  ({ m with timers := l, tickled := m.tickled || at_front }, at_front)

/-- `addTimer(ms, cb, recurring)`: the manager, the new timer, and the notification. -/
def addTimer (m : TimerManager C) (ms : UInt64) (cb : Option C) (recurring : Bool)
    (now : UInt64) (addr : ℕ) : TimerManager C × ℕ × Bool :=
  let m' := { m.set m.made ⟨recurring, ms, now + ms, cb, addr⟩ with made := m.made + 1 }
  let (r, at_front) := m'.addTimerLocked m.made
  (r, m.made, at_front)

def cancel (m : TimerManager C) (t : ℕ) : Except Fault (TimerManager C × Bool) :=
  if (m.heap t).cb.isSome then
    let m' := m.set t { m.heap t with cb := none }
    match OrdSet.find m'.lt t m'.timers with
    | some i => .ok ({ m' with timers := m'.timers.eraseIdx i }, true)
    | none => .error .eraseEnd
  else .ok (m, false)

def refresh (m : TimerManager C) (t : ℕ) (now : UInt64) : TimerManager C × Bool :=
  if (m.heap t).cb.isNone then (m, false)
  else match OrdSet.find m.lt t m.timers with
    | none => (m, false)
    | some i =>
      let m' := { m with timers := m.timers.eraseIdx i }
      let m'' := m'.set t { m.heap t with next := now + (m.heap t).ms }
      ({ m'' with timers := (OrdSet.insert m''.lt t m''.timers).1 }, true)

/-- `Timer::reset`: the manager, the answer, and the notification. -/
def reset (m : TimerManager C) (t : ℕ) (ms : UInt64) (from_now : Bool) (now : UInt64) :
    TimerManager C × Bool × Bool :=
  if (m.heap t).ms = ms ∧ from_now = false then (m, true, false)
  else if (m.heap t).cb.isNone then (m, false, false)
  else match OrdSet.find m.lt t m.timers with
    | none => (m, false, false)
    | some i =>
      let m' := { m with timers := m.timers.eraseIdx i }
      let start := if from_now then now else (m.heap t).next - ms
      let m'' := m'.set t { m.heap t with ms := ms, next := start + ms }
      let (r, at_front) := m''.addTimerLocked t
      (r, true, at_front)

def getNextTimer (m : TimerManager C) (now : UInt64) : TimerManager C × UInt64 :=
  let m' := { m with tickled := false }
  match m.timers with
  | [] => (m', ~~~0)
  | t :: _ =>
    if now ≥ (m.heap t).next then (m', 0) else (m', (m.heap t).next - now)

def detectClockRollover (m : TimerManager C) (now : UInt64) : TimerManager C × Bool :=
  let rollover := decide (now < m.previouseTime) &&
    decide (now < m.previouseTime - 60 * 60 * 1000)
  ({ m with previouseTime := now }, rollover)

/-- One turn of the loop over the expired timers. -/
def expireOne (now : UInt64) (s : TimerManager C × List (Option C)) (t : ℕ) :
    TimerManager C × List (Option C) :=
  let (m, cbs) := s
  let cbs' := cbs ++ [(m.heap t).cb]
  if (m.heap t).recurring then
    let m' := m.set t { m.heap t with next := now + (m.heap t).ms }
    ({ m' with timers := (OrdSet.insert m'.lt t m'.timers).1 }, cbs')
  else (m.set t { m.heap t with cb := none }, cbs')

/-- The position `it` after the loop over equal deadlines: `addr` is the address of the
temporary `now_timer`. -/
def expiredEnd (m : TimerManager C) (now : UInt64) (addr : ℕ) (rollover : Bool) : ℕ :=
  let now_timer : Timer C := { next := now, addr := addr }
  let it := if rollover then m.timers.length
    else OrdSet.lowerBound (fun a => comparator (some (m.heap a)) (some now_timer)) m.timers
  OrdSet.skip (fun a => (m.heap a).next == now) m.timers it

/-- `listExpiredCb`. The second test for an empty set and the first are one here. -/
def listExpiredCb (m : TimerManager C) (now : UInt64) (addr : ℕ) (cbs : List (Option C)) :
    TimerManager C × List (Option C) :=
  match m.timers with
  | [] => (m, cbs)
  | t :: _ =>
    let (m, rollover) := m.detectClockRollover now
    if rollover = false ∧ (m.heap t).next > now then (m, cbs)
    else
      let it := m.expiredEnd now addr rollover
      (m.timers.take it).foldl (expireOne now) ({ m with timers := m.timers.drop it }, cbs)

def hasTimer (m : TimerManager C) : Bool := !m.timers.isEmpty

end TimerManager

end Sylar.TimerModel
