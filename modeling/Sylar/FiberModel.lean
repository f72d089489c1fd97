import Mathlib.Logic.Function.Basic
import Mathlib.Data.Int.Notation
import Mathlib.Tactic.Common

/-!
Fibers as the scheduler sees them, and the entries that carry work through its queue.
-/

namespace Sylar.FiberModel

inductive State
  | init | hold | exec | term | ready | except
  deriving DecidableEq, Repr

variable {F C : Type}

/-- `Scheduler::FiberAndThread`: a fiber or a callback, and the thread it is pinned to. -/
structure FiberAndThread (F C : Type) where
  fiber : Option F := none
  cb : Option C := none
  thread : ℤ := -1
  deriving DecidableEq

/-- What `schedule` is called with: a fiber or a callback, either of which may be null. -/
inductive FiberOrCb (F C : Type)
  | fiber (f : Option F)
  | cb (c : Option C)

namespace FiberAndThread

def make (fc : FiberOrCb F C) (thread : ℤ) : FiberAndThread F C :=
  match fc with
  | .fiber f => { fiber := f, thread := thread }
  | .cb c => { cb := c, thread := thread }

/-- The test of `scheduleNoLock`: an entry without work is not queued. -/
def isWork (ft : FiberAndThread F C) : Bool := ft.fiber.isSome || ft.cb.isSome

end FiberAndThread

end Sylar.FiberModel
