import Sylar.Lib.Runs
import Mathlib.Data.Int.Notation
import Mathlib.Data.List.Nodup
import Mathlib.Logic.ExistsUnique

/-!
The life cycle of a scheduler: `start` and `stop`, called by any number of callers.

`start` holds the mutex from its first line to its last. `stop` writes `stopping_` without it, takes
the threads of the pool for itself later, and waits for them one after another. In between the
other calls go on, and so do the threads.
-/

namespace Sylar.StartStop

open Lib.Runs

inductive Stage
  | running
  /-- Its idle fiber has seen `stopping()`. -/
  | leaving
  | ended
  deriving DecidableEq

structure Worker where
  id : ℤ
  stage : Stage

/-- `rootFiber_`, and where it is in `Scheduler::run`. -/
inductive Root
  /-- There is none without `use_caller`. -/
  | absent
  | fresh
  | inside (stage : Stage)
  deriving DecidableEq

/-- Where a caller is, a thread of the pool going by its number. -/
inductive Pc
  | outside
  /-- In `start`, before the lock. -/
  | lock
  /-- Before `if (!stopping_) return`. -/
  | test
  /-- Before `stopping_ = false`. -/
  | clear
  /-- Before the assertion that `threads_` is empty, and `resize`. -/
  | resize
  /-- In the loop, or behind it at the unlock. -/
  | fill (i : ℕ)
  /-- In `stop`, before `autoStop_ = true`. -/
  | auto
  /-- Before the first test of `rootFiber_`. -/
  | root
  /-- In its branch, before `stopping_ = true`, and then before `stopping()`. -/
  | rootStore
  | rootCheck
  /-- Before the assertion on `GetThis()`. -/
  | caller
  /-- Before the second `stopping_ = true`. -/
  | store
  /-- Before the second `stopping()`. -/
  | check
  /-- Before `rootFiber_->call()`, and in it. -/
  | call
  | called
  | swap
  /-- In the last loop, with what is left of `thrs`. -/
  | join (thrs : List (Option ℕ))
  deriving DecidableEq

inductive Fault
  /-- The assertion that `threads_` is empty. -/
  | threads
  /-- The assertion on `GetThis()`. -/
  | caller
  /-- `rootFiber_` is called when it runs or has ended. -/
  | root
  /-- `join` on a null pointer. -/
  | null
  deriving DecidableEq

structure State (K : Type) where
  threadCount_ : ℕ
  stopping_ : Bool := true
  autoStop_ : Bool := false
  threads_ : List (Option ℕ) := []
  threadIds_ : List ℤ
  /-- None is the -1. -/
  rootThread_ : Option ℤ
  rootFiber_ : Root
  mutex_ : Option K := none
  pc : K → Pc := fun _ => .outside
  /-- The threads by their numbers, which go up to `made`. -/
  worker : ℕ → Worker := fun _ => ⟨0, .running⟩
  made : ℕ := 0
  joined : List ℕ := []
  detached : List ℕ := []
  fault : Option Fault := none

variable {K : Type}

/-- The constructor, where `caller` is the thread for `use_caller`. -/
def make (K : Type) (threads : ℕ) (caller : Option ℤ) : Option (State K) :=
  if 0 < threads then
    some
      { threadCount_ := if caller.isSome then threads - 1 else threads
        threadIds_ := caller.toList
        rootThread_ := caller
        rootFiber_ := if caller.isSome then .fresh else .absent }
  else none

inductive Act (K : Type)
  | start (k : K)
  | stop (k : K)
  /-- The next line of the call. -/
  | next (k : K)
  /-- The constructor of the next thread in `start`, which throws when it is not `ok`. -/
  | thread (k : K) (id : ℤ) (ok : Bool)
  /-- A call of `stopping()` in `stop` returns. -/
  | stopping (k : K) (b : Bool)
  /-- The assertion in `stop`, and whether `GetThis() == this`. -/
  | caller (k : K) (here : Bool)
  /-- `join` on the next thread in `stop`, which throws when it is not `ok`. -/
  | join (k : K) (ok : Bool)
  /-- The idle fiber of the thread sees `stopping()`, and the thread ends. -/
  | notice (n : ℕ)
  | finish (n : ℕ)
  /-- The same for the root fiber. -/
  | rootNotice
  | rootFinish

namespace State

variable (s : State K)

def put [DecidableEq K] (k : K) (p : Pc) : State K := { s with pc := Function.update s.pc k p }

/-- When `stopping()` may return true. It takes the mutex. -/
def Stopping : Prop := s.mutex_ = none ∧ s.autoStop_ = true ∧ s.stopping_ = true

instance : Decidable s.Stopping := inferInstanceAs (Decidable (_ ∧ _ ∧ _))

def setStage (n : ℕ) (stage : Stage) : State K :=
  { s with worker := Function.update s.worker n { s.worker n with stage := stage } }

/-- The lines of `start` and `stop` that depend on nothing else. -/
def next [DecidableEq K] (k : K) : Option (State K) :=
  match s.pc k with
  | .lock => if s.mutex_ = none then some { s.put k .test with mutex_ := some k } else none
  | .test =>
    if s.stopping_ then some (s.put k .clear) else some { s.put k .outside with mutex_ := none }
  | .clear => some { s.put k .resize with stopping_ := false }
  | .resize =>
    if s.threads_ = [] then
      some { s.put k (.fill 0) with threads_ := List.replicate s.threadCount_ none }
    else some { s with fault := some .threads }
  | .fill i =>
    if i < s.threadCount_ then none else some { s.put k .outside with mutex_ := none }
  | .auto => some { s.put k .root with autoStop_ := true }
  | .root =>
    some (s.put k (if s.rootFiber_ ≠ .absent ∧ s.threadCount_ = 0 then .rootStore else .caller))
  | .rootStore => some { s.put k .rootCheck with stopping_ := true }
  | .store =>
    some { s.put k (if s.rootFiber_ = .absent then .swap else .check) with stopping_ := true }
  | .call =>
    if s.rootFiber_ = .fresh then
      some { s.put k .called with rootFiber_ := .inside .running }
    else some { s with fault := some .root }
  | .called => if s.rootFiber_ = .inside .ended then some (s.put k .swap) else none
  | .swap =>
    if s.mutex_ = none then some { s.put k (.join s.threads_) with threads_ := [] } else none
  | .join [] => some (s.put k .outside)
  | .join (none :: _) => some { s with fault := some .null }
  | _ => none

def reset [DecidableEq K] (k : K) (i : ℕ) (id : ℤ) : State K :=
  { s.put k (.fill (i + 1)) with
    threads_ := s.threads_.set i (some s.made)
    threadIds_ := s.threadIds_ ++ [id]
    worker := Function.update s.worker s.made ⟨id, .running⟩
    made := s.made + 1 }

/-- A thread is made in `start`. What is thrown gives up the lock. -/
def thread [DecidableEq K] (k : K) (id : ℤ) (ok : Bool) : Option (State K) :=
  match s.pc k with
  | .fill i =>
    if i < s.threadCount_ then
      some (if ok then s.reset k i id else { s.put k .outside with mutex_ := none })
    else none
  | _ => none

def stopping [DecidableEq K] (k : K) (b : Bool) : Option (State K) :=
  if b = true → s.Stopping then
    match s.pc k with
    | .rootCheck => some (s.put k (if b then .outside else .caller))
    | .check => some (s.put k (if b then .swap else .call))
    | _ => none
  else none

/-- A thread is joined in `stop`. When that throws, `thrs` is destroyed with the threads in it. -/
def join [DecidableEq K] (k : K) (ok : Bool) : Option (State K) :=
  match s.pc k with
  | .join (some n :: thrs) =>
    if ok then
      if (s.worker n).stage = .ended then
        some { s.put k (.join thrs) with joined := n :: s.joined }
      else none
    else some { s.put k .outside with detached := s.detached ++ n :: thrs.reduceOption }
  | _ => none

/-- One step of a process that has not aborted. -/
def act [DecidableEq K] : Act K → Option (State K)
  | .start k => if s.pc k = .outside then some (s.put k .lock) else none
  | .stop k => if s.pc k = .outside then some (s.put k .auto) else none
  | .next k => s.next k
  | .thread k id ok => s.thread k id ok
  | .stopping k b => s.stopping k b
  | .caller k here =>
    if s.pc k = .caller then
      some (if here = s.rootThread_.isSome then s.put k .store
        else { s with fault := some .caller })
    else none
  | .join k ok => s.join k ok
  | .notice n =>
    if n < s.made ∧ (s.worker n).stage = .running ∧ s.Stopping then some (s.setStage n .leaving)
    else none
  | .finish n =>
    if n < s.made ∧ (s.worker n).stage = .leaving then some (s.setStage n .ended) else none
  | .rootNotice =>
    if s.rootFiber_ = .inside .running ∧ s.Stopping then
      some { s with rootFiber_ := .inside .leaving }
    else none
  | .rootFinish =>
    if s.rootFiber_ = .inside .leaving then some { s with rootFiber_ := .inside .ended } else none

end State

def step [DecidableEq K] (s : State K) (a : Act K) : Option (State K) :=
  if s.fault = none then s.act a else none

namespace Pc

def Locked : Pc → Prop
  | test | clear | resize | fill _ => True
  | _ => False

/-- It is a `stop` that has written `stopping_`, and has not taken the threads. -/
def Between : Pc → Prop
  | check | call | called | swap => True
  | _ => False

/-- The threads that a `stop` has taken, and has not joined. -/
def hand : Pc → List (Option ℕ)
  | join thrs => thrs
  | _ => []

end Pc

open Pc

/-- Nothing has aborted, no thread is lost, and the null pointers in the pool are those that a
`start` is about to fill. -/
def Whole (s : State K) : Prop :=
  s.fault = none ∧ s.detached = [] ∧ (none ∈ s.threads_ → ∃ k i, s.pc k = .fill i)

/-- No `start` gets to the pool when a `stop` has written `stopping_` and has not yet taken the
threads in it, nothing throws, `stop` is called where it may be, and the root fiber is called
once. -/
def Cond (s : State K) : Act K → Prop
  | .next k =>
    (s.pc k = .resize → s.threads_ = [] ∨ ∀ k', ¬(s.pc k').Between) ∧
      (s.pc k = .call → s.rootFiber_ = .fresh)
  | .thread _ _ ok | .join _ ok => ok = true
  | .caller _ here => here = s.rootThread_.isSome
  | _ => True

/-- Where the handle of a thread is. -/
inductive Place (K : Type)
  | pool
  | hand (k : K)
  | joined

def Holds (s : State K) (n : ℕ) : Place K → Prop
  | .pool => some n ∈ s.threads_
  | .hand k => some n ∈ (s.pc k).hand
  | .joined => n ∈ s.joined

/-- The numbers of the threads that were made last. -/
def last (s : State K) (count : ℕ) : List ℕ := List.range' (s.made - count) count

/-- What a caller of `start` and `stop` may rely on. -/
structure Sound (s : State K) : Prop where
  /-- Every thread is in the pool, or with one of the calls of `stop`, or has been joined. -/
  placed : ∀ n < s.made, ∃! place, Holds s n place
  /-- A thread is joined once, when it has ended. -/
  once : s.joined.Nodup
  ended : ∀ n ∈ s.joined, (s.worker n).stage = .ended
  ids : s.threadIds_ = s.rootThread_.toList ++ (List.range s.made).map fun n => (s.worker n).id
  /-- When all calls have returned, then either the scheduler has stopped, and all threads that it
  ever had have ended and been joined, -/
  quiet : (∀ k, s.pc k = .outside) →
    (s.stopping_ = true ∧ s.threads_ = [] ∧ ∀ n < s.made, n ∈ s.joined) ∨
    /- or it runs on the threads of the last `start`, and the others have been joined. -/
    (s.stopping_ = false ∧ s.threads_ = (last s s.threadCount_).map some ∧
      (∀ n ∈ last s s.threadCount_, n < s.made ∧ (s.worker n).stage = .running) ∧
      ∀ n < s.made, n ∉ last s s.threadCount_ → n ∈ s.joined)

/-! ### What holds at every moment -/

/-- Where the owner of the mutex is. -/
def holder (s : State K) : Pc :=
  match s.mutex_ with
  | none => .outside
  | some k => s.pc k

/-- The pool, by where the owner of the mutex is. -/
def PoolAt (s : State K) : Pc → Prop
  | .fill i =>
    i ≤ s.threadCount_ ∧ i ≤ s.made ∧
      s.threads_ = (last s i).map some ++ List.replicate (s.threadCount_ - i) none
  | _ => s.threads_ = [] ∨ s.threadCount_ ≤ s.made ∧ s.threads_ = (last s s.threadCount_).map some

/-- The last threads are running, by where the owner of the mutex is. -/
def RecentAt (s : State K) : Pc → Prop
  | .resize => True
  | .fill i => ∀ n ∈ last s i, (s.worker n).stage = .running
  | _ => s.threadCount_ ≤ s.made ∧ ∀ n ∈ last s s.threadCount_, (s.worker n).stage = .running

/-- What holds of `stopping_` and the pool. -/
structure Guarded (s : State K) : Prop where
  owner : ∀ k, s.mutex_ = some k ↔ (s.pc k).Locked
  /-- Who finds the pool taken when the scheduler stops has come between. -/
  taken : s.threads_ ≠ [] → s.stopping_ = true ∨ holder s = .clear ∨ holder s = .resize →
    ∃ k, (s.pc k).Between
  late : holder s = .resize → s.stopping_ = true → s.threadCount_ = 0 ∨ ∃ k, (s.pc k).Between
  pool : PoolAt s (holder s)
  recent : s.stopping_ = false → RecentAt s (holder s)

/-- What holds of the threads. -/
structure Kept (s : State K) : Prop where
  noThreads : ∀ k, s.pc k = .rootStore → s.threadCount_ = 0
  hands : ∀ k, (s.pc k).hand.Nodup ∧ none ∉ (s.pc k).hand
  placed : ∃ place : ℕ → Place K, ∀ n p, Holds s n p ↔ n < s.made ∧ place n = p
  once : s.joined.Nodup
  ended : ∀ n ∈ s.joined, (s.worker n).stage = .ended
  ids : s.threadIds_ = s.rootThread_.toList ++ (List.range s.made).map fun n => (s.worker n).id

structure Inv (s : State K) : Prop where
  guarded : Guarded s
  kept : Kept s

variable {s s' : State K} {k : K} {q : Pc}

lemma holder_eq (h : s.mutex_ = some k) : holder s = s.pc k := by
  rw [holder, h]

lemma holder_free (h : s.mutex_ = none) : holder s = .outside := by
  rw [holder, h]

lemma hand_of_locked {p : Pc} (h : p.Locked) : p.hand = [] := by
  cases p <;> first | rfl | exact h.elim

lemma not_between_of_locked {p : Pc} (h : p.Locked) : ¬p.Between := by
  cases p <;> first | exact id | exact h.elim

lemma pool_nil {p : Pc} (hpool : PoolAt s p) (h : s.threadCount_ = 0) : s.threads_ = [] := by
  have hlast : (last s s.threadCount_).map some = [] := by
    rw [h]
    rfl
  cases p with
  | fill i =>
    obtain ⟨hi, -, hthreads⟩ := hpool
    obtain rfl : i = 0 := by omega
    rw [hthreads, h]
    rfl
  | _ => exact hpool.elim id fun h => h.2.trans hlast

lemma guarded_store (hs : Guarded s) (h : s.threadCount_ = 0 ∨ ∃ k, (s.pc k).Between) :
    Guarded { s with stopping_ := true } := by
  refine ⟨hs.owner, fun hpool _ => ?_, fun _ _ => h, hs.pool, nofun⟩
  exact h.resolve_left fun hzero => hpool (pool_nil hs.pool hzero)

lemma setStage_of_ne {n m : ℕ} (stage : Stage) (h : m ≠ n) :
    (s.setStage n stage).worker m = s.worker m := Function.update_of_ne h _ _

lemma setStage_id {n m : ℕ} (stage : Stage) :
    ((s.setStage n stage).worker m).id = (s.worker m).id := by
  by_cases hmn : m = n
  · subst hmn
    have hself : (s.setStage m stage).worker m = { s.worker m with stage := stage } :=
      Function.update_self _ _ _
    rw [hself]
  · rw [setStage_of_ne stage hmn]

lemma kept_setStage {n : ℕ} {stage : Stage} (hs : Kept s) (h : (s.worker n).stage ≠ .ended) :
    Kept (s.setStage n stage) := by
  refine ⟨hs.noThreads, hs.hands, hs.placed, hs.once, fun m hm => ?_, ?_⟩
  · have hended := hs.ended m hm
    have hmn : m ≠ n := by
      rintro rfl
      exact h hended
    rwa [setStage_of_ne stage hmn]
  · simp only [setStage_id]
    exact hs.ids

/-- A thread that does not run goes on, or the scheduler stops. -/
lemma guarded_setStage {n : ℕ} {stage : Stage} (hs : Guarded s)
    (h : s.stopping_ = true ∨ (s.worker n).stage ≠ .running) : Guarded (s.setStage n stage) := by
  refine ⟨hs.owner, hs.taken, hs.late, hs.pool, fun hstop => ?_⟩
  have hn := h.resolve_left (by rw [show s.stopping_ = false from hstop]; exact nofun)
  have hrecent := hs.recent hstop
  have hkeep {l : List ℕ} (hl : ∀ m ∈ l, (s.worker m).stage = .running) :
      ∀ m ∈ l, ((s.setStage n stage).worker m).stage = .running := by
    intro m hm
    have hmn : m ≠ n := by
      rintro rfl
      exact hn (hl m hm)
    rw [setStage_of_ne stage hmn]
    exact hl m hm
  change RecentAt (s.setStage n stage) (holder s)
  cases hholder : holder s with
  | resize => trivial
  | fill i =>
    rw [hholder] at hrecent
    exact hkeep hrecent
  | _ =>
    rw [hholder] at hrecent
    exact ⟨hrecent.1, hkeep hrecent.2⟩

lemma inv_store (hs : Inv s) (h : s.threadCount_ = 0 ∨ ∃ k, (s.pc k).Between) :
    Inv { s with stopping_ := true } :=
  ⟨guarded_store hs.guarded h,
    ⟨hs.kept.1, hs.kept.2, hs.kept.3, hs.kept.4, hs.kept.5, hs.kept.6⟩⟩

/-- `autoStop_` and `rootFiber_` have no part in the invariant. -/
lemma inv_flags (hs : Inv s) (autoStop : Bool) (root : Root) :
    Inv { s with autoStop_ := autoStop, rootFiber_ := root } := by
  obtain ⟨hguarded, hkept⟩ := hs
  exact ⟨⟨hguarded.1, hguarded.2, hguarded.3, hguarded.4, hguarded.5⟩,
    ⟨hkept.1, hkept.2, hkept.3, hkept.4, hkept.5, hkept.6⟩⟩

lemma nodup_last (c : ℕ) : ((last s c).map some).Nodup :=
  List.Nodup.map (fun _ _ h => Option.some.inj h) List.nodup_range'

lemma whole_of_inv (hs : Inv s) (hfault : s.fault = none) (hdetached : s.detached = []) :
    Whole s := by
  refine ⟨hfault, hdetached, fun hnull => ?_⟩
  have hpool := hs.guarded.pool
  cases hholder : holder s with
  | fill i =>
    cases hmutex : s.mutex_ with
    | none => exact nomatch (holder_free hmutex).symm.trans hholder
    | some k => exact ⟨k, i, (holder_eq hmutex).symm.trans hholder⟩
  | _ =>
    rw [hholder] at hpool
    obtain hempty | ⟨-, hthreads⟩ := hpool
    · rw [hempty] at hnull
      cases hnull
    · simp [hthreads] at hnull

def Place.taken (k : K) : Place K → Place K
  | .pool => .hand k
  | place => place

lemma taken_ne_pool (p : Place K) : p.taken k ≠ .pool := by
  cases p <;> exact nofun

lemma taken_eq_hand {p : Place K} : p.taken k = .hand k ↔ p = .pool ∨ p = .hand k := by
  cases p <;> simp [Place.taken]

lemma taken_eq_of_ne {p place : Place K} (hpool : place ≠ .pool) (hhand : place ≠ .hand k) :
    p.taken k = place ↔ p = place := by
  cases p with
  | pool => exact iff_of_false hhand.symm hpool.symm
  | _ => exact Iff.rfl

variable [DecidableEq K]

lemma put_pc (s : State K) (k : K) (q : Pc) : (s.put k q).pc k = q := Function.update_self _ _ _

lemma put_pc_of_ne {j : K} (h : j ≠ k) : (s.put k q).pc j = s.pc j := Function.update_of_ne h _ _

lemma exists_between (hk : (s.pc k).Between → q.Between) (h : ∃ j, (s.pc j).Between) :
    ∃ j, ((s.put k q).pc j).Between := by
  obtain ⟨j, hj⟩ := h
  by_cases hjk : j = k
  · subst hjk
    exact ⟨j, by rw [put_pc]; exact hk hj⟩
  · exact ⟨j, by rwa [put_pc_of_ne hjk]⟩

lemma kept_put (hs : Kept s) (hhand : q.hand = (s.pc k).hand)
    (hstore : q = .rootStore → s.threadCount_ = 0) : Kept (s.put k q) := by
  have hhands : ∀ j, ((s.put k q).pc j).hand = (s.pc j).hand := by
    intro j
    by_cases hjk : j = k
    · subst hjk
      rw [put_pc, hhand]
    · rw [put_pc_of_ne hjk]
  refine ⟨fun j hj => ?_, fun j => ?_, ?_, hs.once, hs.ended, hs.ids⟩
  · by_cases hjk : j = k
    · subst hjk
      exact hstore ((put_pc s j q).symm.trans hj)
    · exact hs.noThreads j ((put_pc_of_ne hjk).symm.trans hj)
  · rw [hhands j]
    exact hs.hands j
  · obtain ⟨place, hplace⟩ := hs.placed
    refine ⟨place, fun n p => ?_⟩
    cases p with
    | hand j => exact (iff_of_eq (congrArg (some n ∈ ·) (hhands j))).trans (hplace n (.hand j))
    | pool => exact hplace n .pool
    | joined => exact hplace n .joined

lemma guarded_put (hs : Guarded s) (hp : ¬(s.pc k).Locked) (hq : ¬q.Locked)
    (hbetween : (s.pc k).Between → q.Between) : Guarded (s.put k q) := by
  have hother : s.mutex_ ≠ some k := fun h => hp ((hs.owner k).mp h)
  have hholder : holder (s.put k q) = holder s := by
    unfold holder
    cases hmutex : s.mutex_ with
    | none => rw [show (s.put k q).mutex_ = none from hmutex]
    | some j =>
      rw [show (s.put k q).mutex_ = some j from hmutex]
      have hjk : j ≠ k := by
        rintro rfl
        exact hother hmutex
      exact put_pc_of_ne hjk
  refine ⟨fun j => ?_, ?_, ?_, ?_, ?_⟩
  · by_cases hjk : j = k
    · subst hjk
      rw [put_pc]
      exact iff_of_false hother hq
    · rw [put_pc_of_ne hjk]
      exact hs.owner j
  · rw [hholder]
    exact fun hpool h => exists_between hbetween (hs.taken hpool h)
  · rw [hholder]
    exact fun hresize hstop => (hs.late hresize hstop).imp_right (exists_between hbetween)
  · rw [hholder]
    exact hs.pool
  · rw [hholder]
    exact hs.recent

lemma guarded_owner (hs : Guarded s) (hp : (s.pc k).Locked) (hq : q.Locked) {t : State K}
    (hpc : t.pc = (s.put k q).pc) (hmutex : t.mutex_ = s.mutex_)
    (htaken : t.threads_ ≠ [] → t.stopping_ = true ∨ q = .clear ∨ q = .resize →
      ∃ j, (s.pc j).Between)
    (hlate : q = .resize → t.stopping_ = true → t.threadCount_ = 0 ∨ ∃ j, (s.pc j).Between)
    (hpool : PoolAt t q) (hrecent : t.stopping_ = false → RecentAt t q) : Guarded t := by
  have hown := (hs.owner k).mpr hp
  have hholder : holder t = q := by
    rw [holder_eq (hmutex.trans hown), hpc, put_pc]
  have hnot : (s.pc k).Between → q.Between := fun h => absurd h (not_between_of_locked hp)
  refine ⟨fun j => ?_, ?_, ?_, ?_, ?_⟩
  · rw [hmutex, hpc]
    by_cases hjk : j = k
    · subst hjk
      rw [put_pc]
      exact iff_of_true hown hq
    · rw [put_pc_of_ne hjk]
      exact hs.owner j
  · rw [hholder, hpc]
    exact fun h h' => exists_between hnot (htaken h h')
  · rw [hholder, hpc]
    exact fun h h' => (hlate h h').imp_right (exists_between hnot)
  · rw [hholder]
    exact hpool
  · rw [hholder]
    exact hrecent

lemma guarded_release (hs : Guarded s) (hp : (s.pc k).Locked)
    (htaken : s.threads_ ≠ [] → s.stopping_ = true → ∃ j, (s.pc j).Between)
    (hpool : PoolAt s .outside) (hrecent : s.stopping_ = false → RecentAt s .outside) :
    Guarded { s.put k .outside with mutex_ := none } := by
  have hown := (hs.owner k).mpr hp
  have hnot : (s.pc k).Between → Pc.outside.Between :=
    fun h => absurd h (not_between_of_locked hp)
  refine ⟨fun j => ?_, fun h h' => ?_, nofun, hpool, hrecent⟩
  · refine iff_of_false nofun ?_
    by_cases hjk : j = k
    · subst hjk
      exact (put_pc s j .outside).symm ▸ id
    · intro hj
      have hj : (s.pc j).Locked := (put_pc_of_ne hjk).symm ▸ hj
      exact hjk (Option.some.inj (((hs.owner j).mpr hj).symm.trans hown))
  · refine exists_between hnot (htaken h (h'.resolve_right ?_))
    rintro (h | h) <;> cases h

lemma guarded_acquire (hs : Guarded s) (hp : ¬(s.pc k).Locked) (hfree : s.mutex_ = none)
    (hnot : ¬(s.pc k).Between) : Guarded { s.put k .test with mutex_ := some k } := by
  have hholder : holder { s.put k .test with mutex_ := some k } = .test := put_pc s k .test
  have hpool := hs.pool
  have hrecent := hs.recent
  rw [holder_free hfree] at hpool hrecent
  refine ⟨fun j => ?_, fun h h' => ?_, ?_, ?_, ?_⟩
  · by_cases hjk : j = k
    · subst hjk
      exact iff_of_true rfl ((put_pc s j .test).symm ▸ trivial)
    · refine iff_of_false (fun h => hjk (Option.some.inj h).symm) fun hj => ?_
      have hj : (s.pc j).Locked := (put_pc_of_ne hjk).symm ▸ hj
      exact nomatch ((hs.owner j).mpr hj).symm.trans hfree
  · rw [hholder] at h'
    refine exists_between (fun h => absurd h hnot) (hs.taken h (Or.inl (h'.resolve_right ?_)))
    rintro (h | h) <;> cases h
  · rw [hholder]
    exact nofun
  · rw [hholder]
    exact hpool
  · rw [hholder]
    exact hrecent

lemma guarded_swap (hs : Guarded s) (hp : s.pc k = .swap) (hfree : s.mutex_ = none) :
    Guarded { s.put k (.join s.threads_) with threads_ := [] } := by
  have hholder : holder { s.put k (.join s.threads_) with threads_ := [] } = .outside :=
    holder_free hfree
  have hrecent := hs.recent
  rw [holder_free hfree] at hrecent
  refine ⟨fun j => ?_, nofun, ?_, ?_, ?_⟩
  · by_cases hjk : j = k
    · subst hjk
      refine iff_of_false (fun h => nomatch hfree.symm.trans h) ?_
      exact (put_pc s j (.join s.threads_)).symm ▸ id
    · exact (put_pc_of_ne (q := .join s.threads_) hjk).symm ▸ hs.owner j
  · rw [hholder]
    exact nofun
  · rw [hholder]
    exact Or.inl rfl
  · rw [hholder]
    exact hrecent

/-! ### The lines of `start` -/

lemma inv_lock (hs : Inv s) (hp : s.pc k = .lock) (hfree : s.mutex_ = none) :
    Inv { s.put k .test with mutex_ := some k } := by
  have hkept := kept_put (q := .test) hs.kept (by rw [hp]; rfl) nofun
  refine ⟨guarded_acquire hs.guarded ?_ hfree ?_, ⟨hkept.1, hkept.2, hkept.3, hkept.4, hkept.5,
    hkept.6⟩⟩ <;> rw [hp] <;> exact id

lemma inv_test (hs : Inv s) (hp : s.pc k = .test) :
    Inv (if s.stopping_ then s.put k .clear else { s.put k .outside with mutex_ := none }) := by
  have hlocked : (s.pc k).Locked := hp ▸ trivial
  have hholder : holder s = .test := (holder_eq ((hs.guarded.owner k).mpr hlocked)).trans hp
  have hpool := hs.guarded.pool
  have hrecent := hs.guarded.recent
  rw [hholder] at hpool hrecent
  have hhand := hand_of_locked hlocked
  split
  case isTrue hstop =>
    refine ⟨guarded_owner hs.guarded hlocked (q := .clear) trivial rfl rfl
      (fun h _ => hs.guarded.taken h (Or.inl hstop)) nofun hpool hrecent, ?_⟩
    exact kept_put hs.kept hhand.symm nofun
  case isFalse hstop =>
    have hkept := kept_put (q := .outside) hs.kept hhand.symm nofun
    refine ⟨guarded_release hs.guarded hlocked (fun _ h => absurd h hstop) hpool hrecent, ?_⟩
    exact ⟨hkept.1, hkept.2, hkept.3, hkept.4, hkept.5, hkept.6⟩

lemma inv_clear (hs : Inv s) (hp : s.pc k = .clear) :
    Inv { s.put k .resize with stopping_ := false } := by
  have hlocked : (s.pc k).Locked := hp ▸ trivial
  have hholder : holder s = .clear := (holder_eq ((hs.guarded.owner k).mpr hlocked)).trans hp
  have hpool := hs.guarded.pool
  rw [hholder] at hpool
  have hkept := kept_put (q := .resize) hs.kept (hand_of_locked hlocked).symm nofun
  refine ⟨guarded_owner hs.guarded hlocked (q := .resize) trivial rfl rfl ?_ nofun hpool
    fun _ => trivial, ⟨hkept.1, hkept.2, hkept.3, hkept.4, hkept.5, hkept.6⟩⟩
  exact fun h _ => hs.guarded.taken h (Or.inr (Or.inl hholder))

lemma not_mem_replicate {c n : ℕ} : some n ∉ List.replicate c none :=
  fun h => nomatch List.eq_of_mem_replicate h

lemma inv_resize (hs : Inv s) (hp : s.pc k = .resize) (hempty : s.threads_ = []) :
    Inv { s.put k (.fill 0) with threads_ := List.replicate s.threadCount_ none } := by
  have hlocked : (s.pc k).Locked := hp ▸ trivial
  have hholder : holder s = .resize := (holder_eq ((hs.guarded.owner k).mpr hlocked)).trans hp
  have hkept := kept_put (q := .fill 0) hs.kept (hand_of_locked hlocked).symm nofun
  refine ⟨guarded_owner hs.guarded hlocked (q := .fill 0) trivial rfl rfl ?_ nofun
    ⟨Nat.zero_le _, Nat.zero_le _, rfl⟩ (fun _ => nofun), ?_⟩
  · rintro hpool (hstop | h | h)
    · refine (hs.guarded.late hholder hstop).resolve_left fun hzero => hpool ?_
      change List.replicate s.threadCount_ none = []
      rw [hzero]
      rfl
    · cases h
    · cases h
  · refine ⟨hkept.1, hkept.2, ?_, hkept.4, hkept.5, hkept.6⟩
    obtain ⟨place, hplace⟩ := hkept.placed
    refine ⟨place, fun n p => ?_⟩
    cases p with
    | pool =>
      refine iff_of_false not_mem_replicate fun h => ?_
      have hmem : some n ∈ s.threads_ := (hplace n .pool).mpr h
      rw [hempty] at hmem
      cases hmem
    | hand j => exact hplace n (.hand j)
    | joined => exact hplace n .joined

lemma set_first_null {a i c : ℕ} :
    ((List.range' a i).map some ++ List.replicate (c + 1) none).set i (some (a + i)) =
      (List.range' a (i + 1)).map some ++ List.replicate c none := by
  rw [List.set_append_right _ _ (by simp), List.range'_1_concat, List.map_append]
  simp [List.replicate_succ]

variable {i : ℕ} {id : ℤ}

lemma reset_worker : (s.reset k i id).worker s.made = ⟨id, .running⟩ := Function.update_self _ _ _

lemma reset_worker_of_ne {n : ℕ} (h : n ≠ s.made) : (s.reset k i id).worker n = s.worker n :=
  Function.update_of_ne h _ _

lemma reset_threads (hpool : PoolAt s (.fill i)) (hi : i < s.threadCount_) :
    (s.reset k i id).threads_ = (last (s.reset k i id) (i + 1)).map some ++
      List.replicate (s.threadCount_ - (i + 1)) none := by
  obtain ⟨-, hmade, hthreads⟩ := hpool
  have hcount : s.threadCount_ - i = s.threadCount_ - (i + 1) + 1 := by omega
  have hlast : last (s.reset k i id) (i + 1) = List.range' (s.made - i) (i + 1) :=
    congrArg (List.range' · (i + 1)) (Nat.add_sub_add_right s.made 1 i)
  have hend : s.made = s.made - i + i := by omega
  change s.threads_.set i (some s.made) = _
  rw [hlast, hthreads, hcount, last]
  nth_rewrite 2 [hend]
  exact set_first_null

lemma mem_last_reset {n : ℕ} (hi : i ≤ s.made) :
    n ∈ last (s.reset k i id) (i + 1) ↔ n ∈ last s i ∨ n = s.made := by
  change n ∈ List.range' (s.made + 1 - (i + 1)) (i + 1) ↔
    n ∈ List.range' (s.made - i) i ∨ n = s.made
  rw [List.mem_range'_1, List.mem_range'_1]
  omega

lemma mem_reset_threads {n : ℕ} (hpool : PoolAt s (.fill i)) (hi : i < s.threadCount_) :
    some n ∈ (s.reset k i id).threads_ ↔ some n ∈ s.threads_ ∨ n = s.made := by
  rw [reset_threads hpool hi, hpool.2.2, List.mem_append, List.mem_append,
    or_iff_left not_mem_replicate, or_iff_left not_mem_replicate]
  simp only [List.mem_map, Option.some.injEq, exists_eq_right, mem_last_reset hpool.2.1]

lemma guarded_reset (hs : Guarded s) (hp : s.pc k = .fill i) (hi : i < s.threadCount_) :
    Guarded (s.reset k i id) := by
  have hlocked : (s.pc k).Locked := hp ▸ trivial
  have hholder : holder s = .fill i := (holder_eq ((hs.owner k).mpr hlocked)).trans hp
  have hpool := hs.pool
  have hrecent := hs.recent
  rw [hholder] at hpool hrecent
  refine guarded_owner hs hlocked (q := .fill (i + 1)) trivial rfl rfl ?_ nofun ?_ ?_
  · rintro hne (hstop | h | h)
    · refine hs.taken (fun hempty => hne ?_) (Or.inl hstop)
      exact (congrArg (List.set · i (some s.made)) hempty).trans rfl
    · cases h
    · cases h
  · exact ⟨hi, Nat.succ_le_succ hpool.2.1, reset_threads hpool hi⟩
  · intro hstop n hn
    by_cases hnew : n = s.made
    · rw [hnew, reset_worker]
    · rw [reset_worker_of_ne hnew]
      exact hrecent hstop n (((mem_last_reset hpool.2.1).mp hn).resolve_right hnew)

lemma kept_reset (hs : Kept s) (hp : s.pc k = .fill i) (hpool : PoolAt s (.fill i))
    (hi : i < s.threadCount_) : Kept (s.reset k i id) := by
  have hkept := kept_put (q := .fill (i + 1)) hs (by rw [hp]; rfl) nofun
  obtain ⟨place, hplace⟩ := hkept.placed
  have hjoined : ∀ n ∈ s.joined, n ≠ s.made := fun n hn =>
    Nat.ne_of_lt ((hplace n .joined).mp hn).1
  refine ⟨hkept.1, hkept.2, ⟨Function.update place s.made .pool, fun n p => ?_⟩, hkept.4,
    fun n hn => ?_, ?_⟩
  · have hplace : Holds (s.put k (.fill (i + 1))) n p ↔ n < s.made ∧ place n = p := hplace n p
    have hmade : (s.reset k i id).made = s.made + 1 := rfl
    by_cases hn : n = s.made
    · subst hn
      rw [Function.update_self, hmade, and_iff_right (Nat.lt_succ_self _)]
      have hnot : ¬Holds (s.put k (.fill (i + 1))) s.made p := fun h =>
        Nat.lt_irrefl _ (hplace.mp h).1
      cases p with
      | pool => exact iff_of_true ((mem_reset_threads hpool hi).mpr (Or.inr rfl)) rfl
      | hand j => exact iff_of_false hnot (fun h => nomatch h)
      | joined => exact iff_of_false hnot (fun h => nomatch h)
    · rw [Function.update_of_ne hn, hmade, show n < s.made + 1 ↔ n < s.made by omega, ← hplace]
      cases p with
      | pool => exact (mem_reset_threads hpool hi).trans (or_iff_left hn)
      | hand j => exact Iff.rfl
      | joined => exact Iff.rfl
  · rw [reset_worker_of_ne (hjoined n hn)]
    exact hkept.ended n hn
  · have hmade : (s.reset k i id).made = s.made + 1 := rfl
    have hsame : (List.range s.made).map (fun n => ((s.reset k i id).worker n).id) =
        (List.range s.made).map fun n => (s.worker n).id :=
      List.map_congr_left fun n hn => by
        rw [reset_worker_of_ne (Nat.ne_of_lt (List.mem_range.mp hn))]
    rw [hmade, List.range_succ, List.map_append, hsame, List.map_singleton, reset_worker,
      ← List.append_assoc]
    exact congrArg (· ++ [id]) hkept.ids

lemma inv_fill (hs : Inv s) (hp : s.pc k = .fill i) (hi : ¬i < s.threadCount_) :
    Inv { s.put k .outside with mutex_ := none } := by
  have hlocked : (s.pc k).Locked := hp ▸ trivial
  have hholder : holder s = .fill i :=
    (holder_eq ((hs.guarded.owner k).mpr hlocked)).trans hp
  have hpool := hs.guarded.pool
  have hrecent := hs.guarded.recent
  rw [hholder] at hpool hrecent
  obtain ⟨hle, hmade, hthreads⟩ := hpool
  obtain rfl : i = s.threadCount_ := by omega
  have hkept := kept_put (q := .outside) hs.kept (hand_of_locked hlocked).symm nofun
  refine ⟨guarded_release hs.guarded hlocked (fun h hstop => hs.guarded.taken h (Or.inl hstop))
    (Or.inr ⟨hmade, ?_⟩) fun hstop => ⟨hmade, hrecent hstop⟩,
    ⟨hkept.1, hkept.2, hkept.3, hkept.4, hkept.5, hkept.6⟩⟩
  rw [hthreads, Nat.sub_self, List.replicate_zero, List.append_nil]

/-! ### The lines of `stop` -/

lemma inv_put (hs : Inv s) (hp : ¬(s.pc k).Locked) (hq : ¬q.Locked) (hhand : q.hand = (s.pc k).hand)
    (hbetween : (s.pc k).Between → q.Between) (hstore : q = .rootStore → s.threadCount_ = 0) :
    Inv (s.put k q) :=
  ⟨guarded_put hs.guarded hp hq hbetween, kept_put hs.kept hhand hstore⟩

lemma holds_swap (hp : s.pc k = .swap) {place : ℕ → Place K}
    (hplace : ∀ n p, Holds s n p ↔ n < s.made ∧ place n = p) (n : ℕ) (p : Place K) :
    Holds { s.put k (.join s.threads_) with threads_ := [] } n p ↔
      n < s.made ∧ (place n).taken k = p := by
  have hother {j : K} (hjk : j ≠ k) : (s.put k (.join s.threads_)).pc j = s.pc j := put_pc_of_ne hjk
  cases p with
  | pool => exact iff_of_false List.not_mem_nil fun h => taken_ne_pool _ h.2
  | hand j =>
    by_cases hjk : j = k
    · subst hjk
      have hnone : ¬(n < s.made ∧ place n = .hand j) := by
        rw [← hplace n (.hand j), Holds, hp]
        exact List.not_mem_nil
      have hself := congrArg (some n ∈ ·.hand) (put_pc s j (.join s.threads_))
      refine (iff_of_eq hself).trans ((hplace n .pool).trans ?_)
      rw [taken_eq_hand, and_or_left, or_iff_left hnone]
    · have hsame := congrArg (some n ∈ ·.hand) (hother hjk)
      refine (iff_of_eq hsame).trans ((hplace n (.hand j)).trans ?_)
      have hne : Place.hand j ≠ .hand k := fun h => hjk (Place.hand.inj h)
      exact and_congr_right' (taken_eq_of_ne (by exact nofun) hne).symm
  | joined =>
    have hne : Place.joined ≠ .hand k := nofun
    exact (hplace n .joined).trans (and_congr_right' (taken_eq_of_ne (by exact nofun) hne).symm)

lemma inv_swap (hs : Inv s) (hp : s.pc k = .swap) (hfree : s.mutex_ = none) :
    Inv { s.put k (.join s.threads_) with threads_ := [] } := by
  have hpool := hs.guarded.pool
  rw [holder_free hfree] at hpool
  have hgood : s.threads_.Nodup ∧ none ∉ s.threads_ := by
    obtain hempty | ⟨-, hthreads⟩ := hpool
    · rw [hempty]
      exact ⟨List.nodup_nil, List.not_mem_nil⟩
    · rw [hthreads]
      exact ⟨nodup_last _, by simp⟩
  have hself : (s.put k (.join s.threads_)).pc k = .join s.threads_ := put_pc s k _
  have hother {j : K} (hjk : j ≠ k) : (s.put k (.join s.threads_)).pc j = s.pc j := put_pc_of_ne hjk
  obtain ⟨place, hplace⟩ := hs.kept.placed
  refine ⟨guarded_swap hs.guarded hp hfree, ⟨fun j hj => ?_, fun j => ?_,
    ⟨fun n => (place n).taken k, holds_swap hp hplace⟩, hs.kept.once, hs.kept.ended, hs.kept.ids⟩⟩
  · by_cases hjk : j = k
    · subst hjk
      exact nomatch hself.symm.trans hj
    · exact hs.kept.noThreads j ((hother hjk).symm.trans hj)
  · change ((s.put k (.join s.threads_)).pc j).hand.Nodup ∧ none ∉ _
    by_cases hjk : j = k
    · subst hjk
      rw [hself]
      exact hgood
    · rw [hother hjk]
      exact hs.kept.hands j

variable {n : ℕ} {thrs : List (Option ℕ)}

lemma holds_join (hp : s.pc k = .join (some n :: thrs)) (hnodup : (some n :: thrs).Nodup)
    {place : ℕ → Place K} (hplace : ∀ m p, Holds s m p ↔ m < s.made ∧ place m = p) (m : ℕ)
    (p : Place K) :
    Holds { s.put k (.join thrs) with joined := n :: s.joined } m p ↔
      m < s.made ∧ Function.update place n .joined m = p := by
  have hmem (m : ℕ) : some m ∈ some n :: thrs ↔ m < s.made ∧ place m = .hand k := by
    rw [← hplace m (.hand k), Holds, hp]
    rfl
  have hn := (hmem n).mp List.mem_cons_self
  have hother {j : K} (hjk : j ≠ k) : (s.put k (.join thrs)).pc j = s.pc j := put_pc_of_ne hjk
  have hself := congrArg (some m ∈ ·.hand) (put_pc s k (.join thrs))
  have hplace := hplace m
  by_cases hmn : m = n
  · subst hmn
    have hnot {p : Place K} (hp : p ≠ .hand k) : ¬Holds s m p := fun h =>
      hp (((hplace p).mp h).2.symm.trans hn.2)
    have hpool : Place.pool ≠ .hand k := nofun
    rw [Function.update_self, and_iff_right hn.1]
    cases p with
    | pool => exact iff_of_false (hnot hpool) nofun
    | hand j =>
      refine iff_of_false ?_ nofun
      by_cases hjk : j = k
      · subst hjk
        exact fun h => (List.nodup_cons.mp hnodup).1 ((iff_of_eq hself).mp h)
      · intro h
        have h := (iff_of_eq (congrArg (some m ∈ ·.hand) (hother hjk))).mp h
        exact hnot (fun h => hjk (Place.hand.inj h)) h
    | joined => exact iff_of_true List.mem_cons_self rfl
  · rw [Function.update_of_ne hmn, ← hplace]
    cases p with
    | pool => exact Iff.rfl
    | hand j =>
      by_cases hjk : j = k
      · subst hjk
        refine (iff_of_eq hself).trans ?_
        rw [Holds, hp]
        simp [hand, hmn]
      · exact iff_of_eq (congrArg (some m ∈ ·.hand) (hother hjk))
    | joined => simp [Holds, hmn]

lemma inv_join (hs : Inv s) (hp : s.pc k = .join (some n :: thrs))
    (hended : (s.worker n).stage = .ended) :
    Inv { s.put k (.join thrs) with joined := n :: s.joined } := by
  have hhands := hs.kept.hands k
  rw [hp] at hhands
  obtain ⟨hnodup, hnull⟩ := hhands
  have hself : (s.put k (.join thrs)).pc k = .join thrs := put_pc s k _
  have hother {j : K} (hjk : j ≠ k) : (s.put k (.join thrs)).pc j = s.pc j := put_pc_of_ne hjk
  have hguarded := guarded_put (q := .join thrs) hs.guarded (by rw [hp]; exact id) id
    (by rw [hp]; exact id)
  obtain ⟨place, hplace⟩ := hs.kept.placed
  have hnew : n ∉ s.joined := by
    intro h
    have h1 : Holds s n (.hand k) := by
      rw [Holds, hp]
      exact List.mem_cons_self
    exact nomatch ((hplace n .joined).mp h).2.symm.trans ((hplace n (.hand k)).mp h1).2
  refine ⟨⟨hguarded.1, hguarded.2, hguarded.3, hguarded.4, hguarded.5⟩, fun j hj => ?_, fun j => ?_,
    ⟨Function.update place n .joined, holds_join hp hnodup hplace⟩,
    List.nodup_cons.mpr ⟨hnew, hs.kept.once⟩, ?_, hs.kept.ids⟩
  · by_cases hjk : j = k
    · subst hjk
      exact nomatch hself.symm.trans hj
    · exact hs.kept.noThreads j ((hother hjk).symm.trans hj)
  · change ((s.put k (.join thrs)).pc j).hand.Nodup ∧ none ∉ _
    by_cases hjk : j = k
    · subst hjk
      rw [hself]
      exact ⟨(List.nodup_cons.mp hnodup).2, fun h => hnull (List.mem_cons_of_mem _ h)⟩
    · rw [hother hjk]
      exact hs.kept.hands j
  · exact List.forall_mem_cons.mpr ⟨hended, hs.kept.ended⟩

/-! ### One step -/

/-- A step that keeps the invariant and breaks nothing. -/
def Good (s s' : State K) : Prop := Inv s' ∧ s'.fault = s.fault ∧ s'.detached = s.detached

/-- A caller moves on from a line that has no part in `Guarded`. -/
lemma good_put (hs : Inv s) {p : Pc} (hp : s.pc k = p) (hp' : ¬p.Locked) (hq : ¬q.Locked)
    (hhand : q.hand = p.hand) (hbetween : p.Between → q.Between)
    (hstore : q = .rootStore → s.threadCount_ = 0) : Good s (s.put k q) := by
  subst hp
  exact ⟨inv_put hs hp' hq hhand hbetween hstore, rfl, rfl⟩

lemma next_step (hs : Inv s) (h : s.next k = some s') :
    (Cond s (.next k) → Good s s') ∧ (s'.fault = none → Cond s (.next k)) := by
  have hplain (hresize : s.pc k ≠ .resize) (hcall : s.pc k ≠ .call) (hgood : Good s s') :
      (Cond s (.next k) → Good s s') ∧ (s'.fault = none → Cond s (.next k)) :=
    ⟨fun _ => hgood, fun _ => ⟨fun h => absurd h hresize, fun h => absurd h hcall⟩⟩
  rw [State.next] at h
  cases hp : s.pc k with
  | lock =>
    simp only [hp] at h hplain
    split at h
    case isFalse => cases h
    case isTrue hfree =>
      cases h
      exact hplain nofun nofun ⟨inv_lock hs hp hfree, rfl, rfl⟩
  | test =>
    simp only [hp] at h hplain
    have hinv := inv_test hs hp
    split at h
    all_goals
      rename_i hstop
      cases h
      simp only [hstop, Bool.false_eq_true, if_true, if_false] at hinv
      exact hplain nofun nofun ⟨hinv, rfl, rfl⟩
  | clear =>
    simp only [hp] at h hplain
    cases h
    exact hplain nofun nofun ⟨inv_clear hs hp, rfl, rfl⟩
  | resize =>
    simp only [hp] at h
    split at h
    case isTrue hempty =>
      cases h
      exact ⟨fun _ => ⟨inv_resize hs hp hempty, rfl, rfl⟩,
        fun _ => ⟨fun _ => Or.inl hempty, fun h => nomatch hp.symm.trans h⟩⟩
    case isFalse hpool =>
      cases h
      -- the pool has threads: it is the turn of a `stop`
      have hlocked : (s.pc k).Locked := hp ▸ trivial
      have hholder := (holder_eq ((hs.guarded.owner k).mpr hlocked)).trans hp
      obtain ⟨j, hj⟩ := hs.guarded.taken hpool (Or.inr (Or.inr hholder))
      exact ⟨fun hcond => ((hcond.1 hp).elim hpool fun h => h j hj).elim, nofun⟩
  | fill i =>
    simp only [hp] at h hplain
    split at h
    case isTrue => cases h
    case isFalse hi =>
      cases h
      exact hplain nofun nofun ⟨inv_fill hs hp hi, rfl, rfl⟩
  | auto =>
    simp only [hp] at h hplain
    cases h
    obtain ⟨hinv, -⟩ := good_put (q := .root) hs hp id id rfl False.elim nofun
    exact hplain nofun nofun ⟨inv_flags hinv true s.rootFiber_, rfl, rfl⟩
  | root =>
    simp only [hp] at h hplain
    cases h
    refine hplain nofun nofun ?_
    split
    case isTrue hroot => exact good_put hs hp id id rfl False.elim fun _ => hroot.2
    case isFalse => exact good_put hs hp id id rfl False.elim nofun
  | rootStore =>
    simp only [hp] at h hplain
    cases h
    have hzero := hs.kept.noThreads k hp
    obtain ⟨hinv, -⟩ := good_put (q := .rootCheck) hs hp id id rfl False.elim nofun
    exact hplain nofun nofun ⟨inv_store hinv (Or.inl hzero), rfl, rfl⟩
  | store =>
    simp only [hp] at h hplain
    cases h
    refine hplain nofun nofun ?_
    have hstore {q : Pc} (hq : q = .swap ∨ q = .check) :
        Good s { s.put k q with stopping_ := true } := by
      have hbetween : q.Between := by rcases hq with rfl | rfl <;> trivial
      have hunlocked : ¬q.Locked := by rcases hq with rfl | rfl <;> exact id
      have hhand : q.hand = [] := by rcases hq with rfl | rfl <;> rfl
      have hnot : q ≠ .rootStore := by rcases hq with rfl | rfl <;> exact nofun
      obtain ⟨hinv, -⟩ := good_put hs hp id hunlocked hhand False.elim fun h => absurd h hnot
      exact ⟨inv_store hinv (Or.inr ⟨k, by rwa [put_pc]⟩), rfl, rfl⟩
    split
    · exact hstore (Or.inl rfl)
    · exact hstore (Or.inr rfl)
  | call =>
    simp only [hp] at h
    split at h
    case isTrue hfresh =>
      cases h
      obtain ⟨hinv, -⟩ := good_put (q := .called) hs hp id id rfl id nofun
      exact ⟨fun _ => ⟨inv_flags hinv s.autoStop_ (.inside .running), rfl, rfl⟩,
        fun _ => ⟨fun h => (nomatch hp.symm.trans h), fun _ => hfresh⟩⟩
    case isFalse hroot =>
      cases h
      exact ⟨fun hcond => absurd (hcond.2 hp) hroot, nofun⟩
  | called =>
    simp only [hp] at h hplain
    split at h
    case isFalse => cases h
    case isTrue =>
      cases h
      exact hplain nofun nofun (good_put hs hp id id rfl id nofun)
  | swap =>
    simp only [hp] at h hplain
    split at h
    case isFalse => cases h
    case isTrue hfree =>
      cases h
      exact hplain nofun nofun ⟨inv_swap hs hp hfree, rfl, rfl⟩
  | join thrs =>
    cases thrs with
    | nil =>
      simp only [hp] at h hplain
      cases h
      exact hplain nofun nofun (good_put hs hp id id rfl id nofun)
    | cons thr thrs =>
      cases thr with
      | none =>
        have hhands := (hs.kept.hands k).2
        rw [hp] at hhands
        exact absurd List.mem_cons_self hhands
      | some n =>
        simp only [hp] at h
        cases h
  | _ =>
    simp only [hp] at h
    cases h

/-- What `start` makes is there, unless a constructor throws. -/
lemma thread_step {ok : Bool} (hs : Inv s) (h : s.thread k id ok = some s') :
    (ok = true → Good s s') ∧ (Whole s' → ok = true) := by
  rw [State.thread] at h
  cases hp : s.pc k with
  | fill i =>
    simp only [hp] at h
    split at h
    case isFalse => cases h
    case isTrue hi =>
      cases h
      have hlocked : (s.pc k).Locked := hp ▸ trivial
      have hholder := (holder_eq ((hs.guarded.owner k).mpr hlocked)).trans hp
      have hpool := hs.guarded.pool
      rw [hholder] at hpool
      cases ok with
      | true =>
        exact ⟨fun _ =>
            ⟨⟨guarded_reset hs.guarded hp hi, kept_reset hs.kept hp hpool hi⟩, rfl, rfl⟩,
          fun _ => rfl⟩
      | false =>
        refine ⟨nofun, fun hwhole => ?_⟩
        -- the next pointer is null, and nobody is there to fill it
        have hnull : none ∈ s.threads_ := by
          have hcount : s.threadCount_ - i ≠ 0 := by omega
          rw [hpool.2.2]
          exact List.mem_append_right _ (List.mem_replicate.mpr ⟨hcount, rfl⟩)
        obtain ⟨j, l, hj⟩ := hwhole.2.2 hnull
        have hj : (s.put k .outside).pc j = .fill l := hj
        by_cases hjk : j = k
        · subst hjk
          exact nomatch (put_pc s j .outside).symm.trans hj
        · rw [put_pc_of_ne hjk] at hj
          have hown := (hs.guarded.owner j).mpr (hj ▸ trivial)
          exact absurd (Option.some.inj (hown.symm.trans ((hs.guarded.owner k).mpr hlocked))) hjk
  | _ =>
    simp only [hp] at h
    cases h

lemma stopping_step {b : Bool} (hs : Inv s) (h : s.stopping k b = some s') : Good s s' := by
  rw [State.stopping] at h
  split at h
  case isFalse => cases h
  case isTrue =>
    cases hp : s.pc k with
    | rootCheck =>
      simp only [hp] at h
      cases h
      split <;> exact good_put hs hp id id rfl False.elim nofun
    | check =>
      simp only [hp] at h
      cases h
      split <;> exact good_put hs hp id id rfl id nofun
    | _ =>
      simp only [hp] at h
      cases h

lemma join_step {ok : Bool} (hs : Inv s) (h : s.join k ok = some s') :
    (ok = true → Good s s') ∧ (Whole s' → ok = true) := by
  rw [State.join] at h
  cases hp : s.pc k with
  | join thrs =>
    match thrs with
    | [] | none :: _ =>
      simp only [hp] at h
      cases h
    | some n :: thrs =>
      simp only [hp] at h
      split at h
      case isTrue hok =>
        split at h
        case isFalse => cases h
        case isTrue hended =>
          cases h
          exact ⟨fun _ => ⟨inv_join hs hp hended, rfl, rfl⟩, fun _ => hok⟩
      case isFalse hok =>
        cases h
        refine ⟨fun h => absurd h hok, fun hwhole => ?_⟩
        exact absurd hwhole.2.1 (List.append_ne_nil_of_right_ne_nil _ (List.cons_ne_nil _ _))
  | _ =>
    simp only [hp] at h
    cases h

lemma inv_step {a : Act K} (hs : Inv s) (hw : Whole s) (h : step s a = some s') :
    (Cond s a → Inv s') ∧ (Whole s' ↔ Cond s a) := by
  have hgood (hgood : Good s s') : Inv s' ∧ Whole s' :=
    ⟨hgood.1, whole_of_inv hgood.1 (hgood.2.1.trans hw.1) (hgood.2.2.trans hw.2.1)⟩
  have hfinish (hyes : Cond s a → Good s s') (hno : Whole s' → Cond s a) :
      (Cond s a → Inv s') ∧ (Whole s' ↔ Cond s a) :=
    ⟨fun hcond => (hgood (hyes hcond)).1, hno, fun hcond => (hgood (hyes hcond)).2⟩
  have hplain (hcond : Cond s a) (hgood : Good s s') := hfinish (fun _ => hgood) fun _ => hcond
  rw [step, if_pos hw.1] at h
  cases a with
  | start k =>
    simp only [State.act] at h
    split at h
    case isFalse => cases h
    case isTrue hp =>
      cases h
      exact hplain trivial (good_put hs hp id id rfl False.elim nofun)
  | stop k =>
    simp only [State.act] at h
    split at h
    case isFalse => cases h
    case isTrue hp =>
      cases h
      exact hplain trivial (good_put hs hp id id rfl False.elim nofun)
  | next k =>
    obtain ⟨hyes, hno⟩ := next_step hs h
    exact hfinish hyes fun hwhole => hno hwhole.1
  | thread k id ok =>
    obtain ⟨hyes, hno⟩ := thread_step hs h
    exact hfinish hyes hno
  | stopping k b => exact hplain trivial (stopping_step hs h)
  | caller k here =>
    simp only [State.act] at h
    split at h
    case isFalse => cases h
    case isTrue hp =>
      by_cases hhere : here = s.rootThread_.isSome
      · rw [if_pos hhere] at h
        cases h
        exact hplain hhere (good_put hs hp id id rfl False.elim nofun)
      · rw [if_neg hhere] at h
        cases h
        exact ⟨fun h => absurd h hhere, fun h => (nomatch h.1), fun h => absurd h hhere⟩
  | join k ok =>
    obtain ⟨hyes, hno⟩ := join_step hs h
    exact hfinish hyes hno
  | notice n =>
    simp only [State.act] at h
    split at h
    case isFalse => cases h
    case isTrue hn =>
      obtain ⟨-, hrunning, -, -, hstop⟩ := hn
      cases h
      refine hplain trivial ⟨⟨guarded_setStage hs.guarded (Or.inl hstop), kept_setStage hs.kept ?_⟩,
        rfl, rfl⟩
      rw [hrunning]
      exact nofun
  | finish n =>
    simp only [State.act] at h
    split at h
    case isFalse => cases h
    case isTrue hn =>
      cases h
      refine hplain trivial ⟨⟨guarded_setStage hs.guarded (Or.inr ?_), kept_setStage hs.kept ?_⟩,
        rfl, rfl⟩ <;> rw [hn.2] <;> exact nofun
  | rootNotice =>
    simp only [State.act] at h
    split at h
    case isFalse => cases h
    case isTrue =>
      cases h
      exact hplain trivial ⟨inv_flags hs s.autoStop_ (.inside .leaving), rfl, rfl⟩
  | rootFinish =>
    simp only [State.act] at h
    split at h
    case isFalse => cases h
    case isTrue =>
      cases h
      exact hplain trivial ⟨inv_flags hs s.autoStop_ (.inside .ended), rfl, rfl⟩

/-! ### Whole runs -/

omit [DecidableEq K] in
lemma inv_make {threads : ℕ} {caller : Option ℤ} (h : make K threads caller = some s) :
    Inv s ∧ Whole s := by
  rw [make] at h
  split at h
  case isFalse => cases h
  case isTrue =>
    cases h
    refine ⟨⟨⟨fun k => iff_of_false nofun id, fun h => absurd rfl h, nofun, Or.inl rfl, nofun⟩,
      ⟨nofun, fun k => ⟨List.nodup_nil, List.not_mem_nil⟩, ⟨fun _ => .pool, fun n p => ?_⟩,
      List.nodup_nil, nofun, ?_⟩⟩, rfl, rfl, nofun⟩
    · refine iff_of_false ?_ fun h => nomatch h.1
      cases p <;> exact List.not_mem_nil
    · exact (List.append_nil _).symm

omit [DecidableEq K] in
lemma sound_of_inv (hs : Inv s) : Sound s := by
  obtain ⟨hguarded, hkept⟩ := hs
  obtain ⟨place, hplace⟩ := hkept.placed
  refine ⟨fun n hn =>
      ⟨place n, (hplace n _).mpr ⟨hn, rfl⟩, fun p hp => ((hplace n p).mp hp).2.symm⟩,
    hkept.once, hkept.ended, hkept.ids, fun hquiet => ?_⟩
  have hbetween : ¬∃ k, (s.pc k).Between := by
    rintro ⟨k, hk⟩
    rw [hquiet k] at hk
    exact hk
  have hfree : s.mutex_ = none := by
    cases hmutex : s.mutex_ with
    | none => rfl
    | some k =>
      have hlocked := (hguarded.owner k).mp hmutex
      rw [hquiet k] at hlocked
      exact hlocked.elim
  have hpool := hguarded.pool
  have hrecent := hguarded.recent
  rw [holder_free hfree] at hpool hrecent
  -- nobody has a thread in hand
  have hjoined {n : ℕ} (hn : n < s.made) (hno : some n ∉ s.threads_) : n ∈ s.joined := by
    have h := (hplace n _).mpr ⟨hn, rfl⟩
    cases hp : place n with
    | pool =>
      rw [hp] at h
      exact absurd h hno
    | hand k =>
      rw [hp, Holds, hquiet k] at h
      cases h
    | joined =>
      rw [hp] at h
      exact h
  by_cases hstop : s.stopping_ = true
  · have hempty : s.threads_ = [] := by
      by_contra hne
      exact hbetween (hguarded.taken hne (Or.inl hstop))
    exact Or.inl ⟨hstop, hempty, fun n hn => hjoined hn (hempty ▸ List.not_mem_nil)⟩
  · have hstop : s.stopping_ = false := Bool.eq_false_iff.mpr hstop
    obtain ⟨hmade, hrunning⟩ := hrecent hstop
    have hlt {n : ℕ} (hn : n ∈ last s s.threadCount_) : n < s.made := by
      have := List.mem_range'_1.mp hn
      omega
    have hthreads : s.threads_ = (last s s.threadCount_).map some := by
      refine hpool.elim (fun hempty => ?_) And.right
      -- a thread of the last `start` that is not in the pool would have been joined
      have hnone : last s s.threadCount_ = [] := by
        refine List.eq_nil_iff_forall_not_mem.mpr fun n hn => ?_
        have hended := hkept.ended n (hjoined (hlt hn) (hempty ▸ List.not_mem_nil))
        rw [hrunning n hn] at hended
        cases hended
      rw [hempty, hnone]
      rfl
    refine Or.inr ⟨hstop, hthreads, fun n hn => ⟨hlt hn, hrunning n hn⟩, fun n hn hold => ?_⟩
    refine hjoined hn ?_
    rw [hthreads]
    simpa using hold

/-- **Any number of callers start and stop a scheduler.** It goes on without an abort and without
losing a thread exactly in the runs in which no `start` gets to the pool between the write to
`stopping_` and the `swap` of a `stop` whose threads are still there, nothing throws, and `stop` is
called where it may be and finds the root fiber fresh. In these runs every thread is in one place,
is joined at most once and not before it has ended; and whenever all calls have returned, then
either all threads have been joined, or exactly those of the last `start` run. -/
theorem life_cycle (threads : ℕ) (caller : Option ℤ) (acts : List (Act K))
    (hm : make K threads caller = some s) (hr : run step s acts = some s') :
    (Always step Whole s acts ↔ Meets step Cond s acts) ∧
      (Meets step Cond s acts → Always step Sound s acts) := by
  obtain ⟨hinv, hwhole⟩ := inv_make hm
  refine ⟨always_iff_meets (I := Inv) (fun _ _ _ hs hw hcond h => (inv_step hs hw h).1 hcond)
    (fun _ _ _ hs hw h => (inv_step hs hw h).2) hinv hwhole hr, fun hmeets => ?_⟩
  intro pre post m hacts hm
  have hboth : Inv m ∧ Whole m := by
    refine run_inv_of_meets (C := Cond) (I := fun s => Inv s ∧ Whole s) ?_ ⟨hinv, hwhole⟩
      (meets_append (hacts ▸ hmeets) hm).1 hm
    intro s a s' hs hcond h
    obtain ⟨hkeep, hiff⟩ := inv_step hs.1 hs.2 h
    exact ⟨hkeep hcond, hiff.mpr hcond⟩
  exact sound_of_inv hboth.1

/-- One caller starts two threads, and the other one stops them. -/
def startStop : List (Act Bool) :=
  [.start false, .next false, .next false, .next false, .next false, .thread false 7 true,
    .thread false 8 true, .next false, .stop true, .next true, .next true, .caller true false,
    .next true, .notice 1, .next true, .notice 0, .finish 0, .finish 1, .join true true,
    .join true true, .next true]

theorem life_cycle_startStop : ∃ s s', make Bool 2 none = some s ∧ run step s startStop = some s' ∧
    Always step Whole s startStop ∧ Always step Sound s startStop := by
  have hplain {s : State Bool} {k : Bool} (hresize : s.pc k ≠ .resize) (hcall : s.pc k ≠ .call) :
      Cond s (.next k) := ⟨fun h => absurd h hresize, fun h => absurd h hcall⟩
  have hmeets : ∀ s, make Bool 2 none = some s → Meets step Cond s startStop := by
    rintro s ⟨rfl⟩
    refine meets_cons trivial rfl <| meets_cons (hplain (by decide) (by decide)) rfl <|
      meets_cons (hplain (by decide) (by decide)) rfl <|
      meets_cons (hplain (by decide) (by decide)) rfl <|
      meets_cons ⟨fun _ => Or.inl rfl, by decide⟩ rfl <| meets_cons rfl rfl <| meets_cons rfl rfl <|
      meets_cons (hplain (by decide) (by decide)) rfl <| meets_cons trivial rfl <|
      meets_cons (hplain (by decide) (by decide)) rfl <|
      meets_cons (hplain (by decide) (by decide)) rfl <| meets_cons rfl rfl <|
      meets_cons (hplain (by decide) (by decide)) rfl <| meets_cons trivial rfl <|
      meets_cons (hplain (by decide) (by decide)) rfl <| meets_cons trivial rfl <|
      meets_cons trivial rfl <| meets_cons trivial rfl <| meets_cons rfl rfl <|
      meets_cons rfl rfl <| meets_cons (hplain (by decide) (by decide)) rfl <| meets_nil _
  obtain ⟨hiff, hsound⟩ := life_cycle 2 none startStop rfl rfl
  exact ⟨_, _, rfl, rfl, hiff.mpr (hmeets _ rfl), hsound (hmeets _ rfl)⟩

end Sylar.StartStop
