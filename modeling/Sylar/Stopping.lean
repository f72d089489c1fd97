import Sylar.RunQueue
import Sylar.IoInv
import Sylar.TimerInv

/-!
Whether `IOManager::stopping` can be believed.

The scheduler, the timers and the event table are put together. `stopping` reads the three
one after another, and what it has read may have changed when it comes to the last of them.
-/

namespace Sylar.Stopping

open Lib Lib.Tally Sylar.FiberModel FiberAndThread Sylar.SchedulerModel Scheduler
open Sylar.SchedulerSteps Sylar.RunQueue Sylar.TimerModel TimerManager
open Sylar.IoModel Sylar.EventTable Sylar.EventOps

variable {W S F C : Type}

/-- An I/O manager: its scheduler, its timers and its events; the callbacks of expired timers
that a worker has still to schedule; and where the thread that called `stop` is in
`stopping`. -/
structure System (W S F C : Type) where
  s : Scheduler W F C
  timers : TimerManager C
  io : IOManager S F C
  cbs : W → List (Option C)
  stopper : Option Stage

def start (now : UInt64) (tickle : Fd) : System W S F C :=
  ⟨{}, TimerInv.init now, IOManager.init tickle, fun _ => [], none⟩

inductive Act (W S F C : Type)
  /-- A step of the scheduler other than the first two reads of `stopping`. -/
  | sched (a : SchedulerModel.Action W F C)
  /-- The fiber that runs on the worker adds a timer. -/
  | addTimer (w : W) (ms : UInt64) (cb : C) (recurring : Bool) (now : UInt64) (addr : ℕ)
  | cancel (t : ℕ)
  | refresh (t : ℕ) (now : UInt64)
  | reset (t : ℕ) (ms : UInt64) (from_now : Bool) (now : UInt64)
  /-- The idle fiber of the worker collects the expired timers, and schedules them. -/
  | expire (w : W) (now : UInt64) (addr : ℕ)
  | flush (w : W)
  /-- The fiber that runs on the worker adds an event. -/
  | addEvent (w : W) (fd : Fd) (event : Event) (cb : Option C) (ok : Bool)
  | delEvent (fd : Fd) (event : Event) (ok : Bool)
  | cancelEvent (fd : Fd) (event : Event) (ok : Bool)
  | cancelAll (fd : Fd) (ok : Bool)
  /-- The idle fiber of the worker handles an entry of its batch. -/
  | dispatch (w : W) (fd : Fd) (events : Mask) (ok : Bool)
  /-- The first two reads of `stopping` in the idle fiber. -/
  | checkTimer (w : W) (now : UInt64)
  | checkPending (w : W)
  /-- The three reads of `stopping` in `stop`. -/
  | enterStopping
  | stopTimer (now : UInt64)
  | stopPending
  | stopFinal

def notify (s : Scheduler W F C) (at_front : Bool) : Scheduler W F C :=
  if at_front then { s with asking := s.asking + 1 } else s

/-- The calls of `schedule` on the scheduler `me`. -/
def handOver [DecidableEq S] (me : S) (s : Scheduler W F C) (hs : List (Handoff S F C)) :
    Scheduler W F C :=
  hs.foldl (fun s h => if h.scheduler = me then s.schedule [h.entry] else s) s

/-- A call on the event table, with its calls of `schedule`. -/
def ioStep [DecidableEq S] (me : S) (st : System W S F C) (a : IoInv.Action S F C) :
    Option (System W S F C) :=
  if IoInv.Proper st.io a then
    match IoInv.call st.io a with
    | .ok out => some { st with io := out.m, s := handOver me st.s out.handoffs }
    | .error _ => none
  else none

def step [DecidableEq W] [DecidableEq F] [DecidableEq S] (tid : W → ℤ) (me : S)
    (st : System W S F C) : Act W S F C → Option (System W S F C)
  | .sched a =>
    match a with
    | .worker _ (.check _) => none
    | .worker w .swapOutIdle =>
      if st.cbs w = [] then
        (Scheduler.step tid st.s (.worker w .swapOutIdle)).map fun s => { st with s := s }
      else none
    | a => (Scheduler.step tid st.s a).map fun s => { st with s := s }
  | .addTimer w ms cb recurring now addr =>
    match (st.s.worker w).pc with
    | .running .. =>
      if ∀ t ∈ st.timers.timers, (st.timers.heap t).addr ≠ addr then
        let r := st.timers.addTimer ms (some cb) recurring now addr
        some { st with timers := r.1, s := notify st.s r.2.2 }
      else none
    | _ => none
  | .cancel t => (TimerInv.step st.timers (.cancel t)).map fun m => { st with timers := m }
  | .refresh t now =>
    (TimerInv.step st.timers (.refresh t now)).map fun m => { st with timers := m }
  | .reset t ms from_now now =>
    (TimerInv.step st.timers (.reset t ms from_now now)).map fun m =>
      { st with timers := m, s := notify st.s (st.timers.reset t ms from_now now).2.2 }
  | .expire w now addr =>
    match (st.s.worker w).pc with
    | .handling _ =>
      let r := st.timers.listExpiredCb now addr (st.cbs w)
      some { st with timers := r.1, cbs := Function.update st.cbs w r.2 }
    | _ => none
  | .flush w =>
    match (st.s.worker w).pc with
    | .handling _ =>
      some { st with
        s := st.s.schedule ((st.cbs w).map fun cb => make (.cb cb) (-1))
        cbs := Function.update st.cbs w [] }
    | _ => none
  | .addEvent w fd event cb ok =>
    match (st.s.worker w).pc with
    | .running _ f _ =>
      (st.s.state f).bind fun state => ioStep me st (.addEvent fd event cb ⟨some me, f, state⟩ ok)
    | _ => none
  | .delEvent fd event ok => ioStep me st (.delEvent fd event ok)
  | .cancelEvent fd event ok => ioStep me st (.cancelEvent fd event ok)
  | .cancelAll fd ok => ioStep me st (.cancelAll fd ok)
  | .dispatch w fd events ok =>
    match (st.s.worker w).pc with
    | .handling _ => ioStep me st (.dispatch fd events ok)
    | _ => none
  | .checkTimer w now =>
    match (st.s.worker w).pc with
    | .stopCheck .timer =>
      let r := st.timers.getNextTimer now
      (st.s.work (tid w) w (.check (r.2 == ~~~0))).map fun s => { st with s := s, timers := r.1 }
    | _ => none
  | .checkPending w =>
    match (st.s.worker w).pc with
    | .stopCheck .pending =>
      (st.s.work (tid w) w (.check (st.io.pendingEventCount == 0))).map fun s => { st with s := s }
    | _ => none
  | .enterStopping =>
    match st.stopper with
    | none => some { st with stopper := some .timer }
    | some _ => none
  | .stopTimer now =>
    match st.stopper with
    | some .timer =>
      let r := st.timers.getNextTimer now
      some { st with
        timers := r.1
        stopper := if r.2 == ~~~0 then some .pending else none }
    | _ => none
  | .stopPending =>
    match st.stopper with
    | some .pending =>
      some { st with stopper := if st.io.pendingEventCount == 0 then some .final else none }
    | _ => none
  | .stopFinal =>
    match st.stopper with
    | some .final => some { st with stopper := none }
    | _ => none

/-! ### What a true answer means and when -/

/-- Some thread has come to the given read of `stopping`. -/
def Checking (st : System W S F C) (stage : Stage) : Prop :=
  (∃ w, (st.s.worker w).pc = .stopCheck stage) ∨ st.stopper = some stage

/-- The worker has decremented for a fiber that is ready, and has still to queue it. -/
def Requeues (s : Scheduler W F C) (w : W) : Prop :=
  (∃ f cb how, (s.worker w).pc = .after f cb how ∧ s.state f = some .ready) ∨
    ∃ f cb, (s.worker w).pc = .requeue f cb

/-- In this step a call of `IOManager::stopping` returns `true`. -/
def Returns (st : System W S F C) : Act W S F C → Prop
  | .sched (.worker w .checkFinal) => (st.s.worker w).pc = .stopCheck .final ∧
      (st.s.worker w).tickle = .none ∧ st.s.stoppingFinal = true
  | .stopFinal => st.stopper = some .final ∧ st.s.stoppingFinal = true
  | _ => False

/-- There is nothing left to do: no timer, no event, no entry, and no worker that has one or
has still to queue one. -/
def Clean (st : System W S F C) : Prop :=
  st.timers.timers = [] ∧ (∀ fd, (st.io.fdContexts fd).events = 0) ∧ st.s.fibers = [] ∧
    ∀ w, held (st.s.worker w).pc = none ∧ ¬ Requeues st.s w

/-- `stop` has not been called, or there is an entry in the queue or in the hands of a
worker. -/
def Busy (s : Scheduler W F C) : Prop :=
  s.autoStop = false ∨ s.stopping = false ∨ s.fibers ≠ [] ∨ ∃ w, held (s.worker w).pc ≠ none

/-- The distance from `now` to the deadline of some timer is the value that stands for none. -/
def Remote (m : TimerManager C) (now : UInt64) : Prop :=
  now = 0 ∧ ∃ t ∈ m.timers, (m.heap t).next = ~~~0

/-- No timer is added after a thread has read the timers in `stopping`, and no event after it
has read their number; a fiber that is on its way back to the queue at the last read is not
all there is; and no deadline is mistaken for none. -/
def Undisturbed (st : System W S F C) : Act W S F C → Prop
  | .addTimer .. => ¬ Checking st .pending ∧ ¬ Checking st .final
  | .addEvent .. => ¬ Checking st .final
  | .checkTimer _ now => ¬ Remote st.timers now
  | .stopTimer now => ¬ Remote st.timers now
  | .sched (.worker _ .checkFinal) => ∀ w, Requeues st.s w → Busy st.s
  | .stopFinal => ∀ w, Requeues st.s w → Busy st.s
  | _ => True

/-! ### The timers -/

lemma getNextTimer_timers (m : TimerManager C) (now : UInt64) :
    (m.getNextTimer now).1.timers = m.timers := by
  unfold getNextTimer
  dsimp only
  split
  · rfl
  · split <;> rfl

/-- The answer that no timer is left is true unless a deadline is mistaken for none. -/
lemma getNextTimer_max {m : TimerManager C} {now : UInt64} (hnow : ¬ Remote m now)
    (h : (m.getNextTimer now).2 = ~~~0) : m.timers = [] := by
  unfold getNextTimer at h
  dsimp only at h
  split at h
  · assumption
  · rename_i t _ ht
    split at h
    · cases h
    · rename_i hge
      have hlt : now.toNat < (m.heap t).next.toNat := by
        rw [ge_iff_le, UInt64.le_iff_toNat_le] at hge
        omega
      have hsub := congrArg UInt64.toNat h
      rw [UInt64.toNat_sub_of_le _ _ (UInt64.le_iff_toNat_le.mpr hlt.le),
        show (~~~0 : UInt64).toNat = 18446744073709551615 from rfl] at hsub
      have hmax := (m.heap t).next.toNat_lt
      have hzero : now.toNat = 0 := by omega
      have hnext : (m.heap t).next.toNat = (~~~0 : UInt64).toNat := by
        rw [show (~~~0 : UInt64).toNat = 18446744073709551615 from rfl]
        omega
      refine absurd ⟨UInt64.toNat_inj.mp hzero, t, ?_, UInt64.toNat_inj.mp hnext⟩ hnow
      rw [ht]
      exact List.mem_cons_self

lemma find_nil {lt : ℕ → ℕ → Bool} (t : ℕ) : OrdSet.find lt t [] = none := rfl

lemma timers_nil {m m' : TimerManager C} {a : TimerInv.Action C} (h : m.timers = [])
    (ha : ∀ ms cb recurring now addr, a ≠ .addTimer ms cb recurring now addr)
    (hs : TimerInv.step m a = some m') : m'.timers = [] := by
  cases a with
  | addTimer ms cb recurring now addr => exact absurd rfl (ha ms cb recurring now addr)
  | cancel t =>
    simp only [TimerInv.step, TimerManager.cancel, TimerManager.set, h, find_nil,
      Option.ite_none_right_eq_some] at hs
    obtain ⟨-, hs⟩ := hs
    by_cases hcb : (m.heap t).cb.isSome
    · simp [hcb] at hs
    · simp only [if_neg hcb, Option.some.injEq] at hs
      rw [← hs, h]
  | refresh t now =>
    simp only [TimerInv.step, TimerManager.refresh, h, find_nil, ite_self,
      Option.ite_none_right_eq_some, Option.some.injEq] at hs
    rw [← hs.2, h]
  | reset t ms from_now now =>
    simp only [TimerInv.step, TimerManager.reset, h, find_nil, ite_self,
      Option.ite_none_right_eq_some, Option.some.injEq] at hs
    rw [← hs.2]
    split <;> exact h
  | listExpiredCb now addr =>
    obtain rfl := Option.some.inj hs
    simp [listExpiredCb, h]

/-! ### The events -/

lemma events_of_pending {tickle : Fd} {m : IOManager S F C} (h : IoInv.Kept tickle m)
    (h0 : m.pendingEventCount = 0) (fd : Fd) : (m.fdContexts fd).events = 0 := by
  obtain ⟨T, -, rfl⟩ := h
  have hsum := pending_toNat tickle T
  rw [h0] at hsum
  have hcount := (tally_eq_zero_iff Slot.count T).mp hsum.symm fd
  refine (mask_eq_zero_iff (T fd)).mpr ?_
  revert hcount
  obtain ⟨_ | _, _ | _⟩ := T fd <;> simp [Slot.count]

lemma call_events {tickle : Fd} {m : IOManager S F C} (h : IoInv.Kept tickle m)
    {a : IoInv.Action S F C} {out : Out S F C} (hp : IoInv.Proper m a)
    (ho : IoInv.call m a = .ok out) :
    IoInv.Kept tickle out.m ∧
      ((∀ fd event cb caller ok, a ≠ .addEvent fd event cb caller ok) →
        (∀ fd, (m.fdContexts fd).events = 0) → ∀ fd, (out.m.fdContexts fd).events = 0) := by
  refine ⟨IoInv.call_kept h hp ho, fun ha h0 fd => ?_⟩
  obtain ⟨T, hq, rfl⟩ := h
  have heff := IoInv.call_effect hq hp
  rw [ho] at heff
  have hnone (fd : Fd) : (T fd).read = none ∧ (T fd).write = none :=
    (mask_eq_zero_iff (T fd)).mp (h0 fd)
  cases heff with
  | nothing ctl => exact h0 fd
  | add x event cb caller s hx => exact absurd hx (ha x event cb caller true)
  | del x event w hx hw =>
    cases event with
    | none => cases hw
    | read => rw [show (T x).get .read = (T x).read from rfl, (hnone x).1] at hw; cases hw
    | write => rw [show (T x).get .write = (T x).write from rfl, (hnone x).2] at hw; cases hw
  | release x r w hx hr hw =>
    refine (mask_eq_zero_iff _).mpr ?_
    by_cases hxf : fd = x
    · subst hxf
      rw [Function.update_self]
      simp [Slot.clear, hnone fd]
    · rw [Function.update_of_ne hxf]
      exact hnone fd

/-! ### The scheduler -/

lemma notify_worker (s : Scheduler W F C) (b : Bool) : (notify s b).worker = s.worker := by
  cases b <;> rfl

lemma schedule_worker (s : Scheduler W F C) (fts : List (FiberAndThread F C)) :
    (s.schedule fts).worker = s.worker := by
  rw [schedule_eq]
  rfl

lemma handOver_worker [DecidableEq S] (me : S) (s : Scheduler W F C)
    (hs : List (Handoff S F C)) : (handOver me s hs).worker = s.worker := by
  induction hs generalizing s with
  | nil => rfl
  | cons h hs ih =>
    refine (ih _).trans ?_
    dsimp only
    split
    · exact schedule_worker s _
    · rfl

lemma notify_inv [Fintype W] {s : Scheduler W F C} (h : RunQueue.Inv s) (b : Bool) :
    RunQueue.Inv (notify s b) := by
  cases b with
  | false => exact h
  | true => exact ⟨h.place, h.queued, h.picked, h.active⟩

lemma schedule_inv [Fintype W] {s : Scheduler W F C} (h : RunQueue.Inv s)
    (fts : List (FiberAndThread F C)) : RunQueue.Inv (s.schedule fts) := by
  rw [schedule_eq]
  exact inv_push h (fts.filter isWork) rfl rfl rfl rfl (fun _ => rfl) fun _ _ _ h => h

lemma handOver_inv [Fintype W] [DecidableEq S] (me : S) {s : Scheduler W F C}
    (h : RunQueue.Inv s) (hs : List (Handoff S F C)) : RunQueue.Inv (handOver me s hs) := by
  induction hs generalizing s with
  | nil => exact h
  | cons x hs ih =>
    refine ih ?_
    dsimp only
    split
    · exact schedule_inv h _
    · exact h

/-- The stages of `stopping` after the first read. -/
def late : Pc F C → Bool
  | .stopCheck .pending | .stopCheck .final => true
  | _ => false

variable [DecidableEq W]

/-- The worker of the step does not come to a later read of `stopping`. -/
lemma late_update {s s' : Scheduler W F C} {w : W} {v : Worker F C}
    (hw : s'.worker = Function.update s.worker w v)
    (hv : late v.pc = true → v.pc = (s.worker w).pc) (x : W)
    (hx : late (s'.worker x).pc = true) : (s'.worker x).pc = (s.worker x).pc := by
  rw [hw] at hx ⊢
  by_cases hxw : x = w
  · subst hxw
    rw [Function.update_self] at hx ⊢
    exact hv hx
  · rw [Function.update_of_ne hxw]

lemma late_step [DecidableEq F] {tid : W → ℤ} {s s' : Scheduler W F C}
    {a : SchedulerModel.Action W F C} (ha : ∀ w b, a ≠ .worker w (.check b))
    (hs : Scheduler.step tid s a = some s') (x : W) (hx : late (s'.worker x).pc = true) :
    (s'.worker x).pc = (s.worker x).pc := by
  cases step_trans hs with
  | move w a p ht h =>
    refine late_update rfl ?_ x hx
    generalize (s.worker w).pc = q at h
    cases h with
    | noTimer | noEvent => exact absurd rfl (ha w true)
    | _ => exact nofun
  | ask | write =>
    refine late_update rfl ?_ x hx
    exact fun _ => rfl
  | decrement w n p ht hpc =>
    refine late_update rfl ?_ x hx
    rcases hpc with ⟨f, cb, how, -, rfl⟩ | ⟨-, rfl⟩ <;> exact nofun
  | take | miss | reuse | fresh | swapIn | leave | park | writeHold | requeue | goIdle | stop
  | drain | leaveIdle =>
    refine late_update rfl ?_ x hx
    exact nofun
  | create | schedule | tickle | askOut | writeOut | flags => rfl

lemma check_cases [DecidableEq F] {tid : W → ℤ} {s s' : Scheduler W F C} {w : W} {b : Bool}
    {stage : Stage} (hpc : (s.worker w).pc = .stopCheck stage)
    (hs : Scheduler.step tid s (.worker w (.check b)) = some s') :
    ∃ p, s' = s.setPc w p ∧ (p = .waiting ∨ b = true ∧
      (stage = .timer ∧ p = .stopCheck .pending ∨ stage = .pending ∧ p = .stopCheck .final)) := by
  have htrans := step_trans hs
  generalize ha : SchedulerModel.Action.worker w (Act.check b) = a at htrans
  cases htrans with
  | move x c p ht h =>
    cases ha
    rw [hpc] at h
    refine ⟨p, rfl, ?_⟩
    cases h with
    | noTimer => exact .inr ⟨rfl, .inl ⟨rfl, rfl⟩⟩
    | noEvent => exact .inr ⟨rfl, .inr ⟨rfl, rfl⟩⟩
    | wait => exact .inl rfl
  | leave x n f cb c st ht hx hc =>
    cases ha
    rw [hpc] at hx
    cases hx
  | schedule fts c hc hk => rcases hc with ⟨fc, t, rfl, -⟩ | ⟨fcs, rfl, -⟩ <;> cases ha
  | flags c auto stop hc => rcases hc with rfl | rfl <;> cases ha
  | _ => cases ha

/-! ### The invariant -/

section Invariant

variable [Fintype W] [DecidableEq F] [DecidableEq S]

/-- What a thread in `stopping` has read is still so. -/
structure Inv (tickle : Fd) (st : System W S F C) : Prop where
  entries : RunQueue.Inv st.s
  kept : IoInv.Kept tickle st.io
  noTimer : Checking st .pending ∨ Checking st .final → st.timers.timers = []
  noEvent : Checking st .final → ∀ fd, (st.io.fdContexts fd).events = 0

omit [DecidableEq W] [DecidableEq F] [DecidableEq S] in
/-- A step in which no thread comes to a later read, and no timer or event is added. -/
lemma inv_frame {tickle : Fd} {st st' : System W S F C} (h : Inv tickle st)
    (hs : RunQueue.Inv st'.s) (hk : IoInv.Kept tickle st'.io)
    (hc : ∀ stage, stage ≠ .timer → Checking st' stage → Checking st stage)
    (ht : st.timers.timers = [] → st'.timers.timers = [])
    (he : (∀ fd, (st.io.fdContexts fd).events = 0) → ∀ fd, (st'.io.fdContexts fd).events = 0) :
    Inv tickle st' :=
  ⟨hs, hk, fun hx => ht (h.noTimer (hx.imp (hc _ nofun) (hc _ nofun))),
    fun hx => he (h.noEvent (hc _ nofun hx))⟩

omit [Fintype W] [DecidableEq W] [DecidableEq F] [DecidableEq S] in
lemma checking_congr {st st' : System W S F C} (hw : st'.s.worker = st.s.worker)
    (hst : st'.stopper = st.stopper) (stage : Stage) (h : Checking st' stage) :
    Checking st stage := by
  unfold Checking at h ⊢
  rwa [hw, hst] at h

omit [Fintype W] [DecidableEq W] [DecidableEq F] [DecidableEq S] in
lemma checking_late {st st' : System W S F C}
    (hw : ∀ x, late (st'.s.worker x).pc = true → (st'.s.worker x).pc = (st.s.worker x).pc)
    (hst : st'.stopper = st.stopper) (stage : Stage) (hne : stage ≠ .timer)
    (h : Checking st' stage) : Checking st stage := by
  rcases h with ⟨x, hx⟩ | h
  · refine .inl ⟨x, ?_⟩
    rw [← hw x ?_, hx]
    rw [hx]
    cases stage <;> first | exact absurd rfl hne | rfl
  · exact .inr (by rw [← hst]; exact h)

omit [Fintype W] in
lemma sched_step {tid : W → ℤ} {me : S} {st st' : System W S F C}
    {a : SchedulerModel.Action W F C} (hs : step tid me st (.sched a) = some st') :
    ∃ s', Scheduler.step tid st.s a = some s' ∧ st' = { st with s := s' } ∧
      ∀ w b, a ≠ .worker w (.check b) := by
  simp only [step] at hs
  split at hs
  · cases hs
  · split at hs
    · obtain ⟨s', hs', rfl⟩ := Option.map_eq_some_iff.mp hs
      exact ⟨s', hs', rfl, nofun⟩
    · cases hs
  · rename_i hne _
    obtain ⟨s', hs', rfl⟩ := Option.map_eq_some_iff.mp hs
    exact ⟨s', hs', rfl, fun w b h => hne w b h⟩

omit [DecidableEq W] [DecidableEq F] in
lemma inv_io {tickle : Fd} {me : S} {st st' : System W S F C} (h : Inv tickle st)
    {a : IoInv.Action S F C} (hs : ioStep me st a = some st')
    (ha : Checking st .final → ∀ fd event cb caller ok, a ≠ .addEvent fd event cb caller ok) :
    Inv tickle st' := by
  simp only [ioStep, Option.ite_none_right_eq_some] at hs
  obtain ⟨hp, hs⟩ := hs
  split at hs
  · rename_i out hout
    obtain rfl := Option.some.inj hs
    obtain ⟨hk, he⟩ := call_events h.kept hp hout
    have hc : ∀ stage, Checking { st with io := out.m, s := handOver me st.s out.handoffs }
        stage → Checking st stage := checking_congr (handOver_worker me st.s _) rfl
    exact ⟨handOver_inv me h.entries _, hk, fun hx => h.noTimer (hx.imp (hc _) (hc _)),
      fun hx => he (ha (hc _ hx)) (h.noEvent (hc _ hx))⟩
  · cases hs

/-- A step of the scheduler that is not one of the first two reads. -/
lemma inv_sched {tickle : Fd} {tid : W → ℤ} {me : S} {st st' : System W S F C}
    {a : SchedulerModel.Action W F C} (h : Inv tickle st)
    (hs : step tid me st (.sched a) = some st') : Inv tickle st' := by
  obtain ⟨s', hs', rfl, ha⟩ := sched_step hs
  exact inv_frame h (RunQueue.step_inv st.s a s' h.entries hs') h.kept
    (checking_late (late_step ha hs') rfl) id id

omit [DecidableEq W] [DecidableEq F] [DecidableEq S] in
/-- A step on the timers that does not add one to an empty set. -/
lemma inv_timers {tickle : Fd} {st : System W S F C} (h : Inv tickle st) (m : TimerManager C)
    (b : Bool) (hm : st.timers.timers = [] → m.timers = []) :
    Inv tickle { st with timers := m, s := notify st.s b } := by
  have hc : ∀ stage, Checking { st with timers := m, s := notify st.s b } stage →
      Checking st stage := checking_congr (notify_worker st.s b) rfl
  exact inv_frame h (notify_inv h.entries b) h.kept (fun stage _ => hc stage) hm id

omit [DecidableEq W] [DecidableEq F] [DecidableEq S] in
/-- A thread makes one of the first two reads of `stopping`, and no other thread moves. -/
lemma inv_read {tickle : Fd} {st st' : System W S F C} (h : Inv tickle st) {stage : Stage}
    {b : Bool} (hat : Checking st stage) (hentries : RunQueue.Inv st'.s)
    (htimers : st'.timers.timers = st.timers.timers) (hio : st'.io = st.io)
    (hc : ∀ x, Checking st' x → Checking st x ∨
      b = true ∧ (stage = .timer ∧ x = .pending ∨ stage = .pending ∧ x = .final))
    (ht : stage = .timer → b = true → st.timers.timers = [])
    (he : stage = .pending → b = true → ∀ fd, (st.io.fdContexts fd).events = 0) :
    Inv tickle st' := by
  refine ⟨hentries, by rw [hio]; exact h.kept, fun hx => htimers.trans ?_, fun hx => ?_⟩
  · rcases hx with hx | hx
    · rcases hc _ hx with hx | ⟨hb, ⟨hstage, -⟩ | ⟨-, hx⟩⟩
      · exact h.noTimer (.inl hx)
      · exact ht hstage hb
      · cases hx
    · rcases hc _ hx with hx | ⟨hb, ⟨-, hx⟩ | ⟨hstage, -⟩⟩
      · exact h.noTimer (.inr hx)
      · cases hx
      · -- the thread has found no timer before
        exact h.noTimer (.inl (hstage ▸ hat))
  · rw [hio]
    rcases hc _ hx with hx | ⟨hb, ⟨-, hx⟩ | ⟨hstage, -⟩⟩
    · exact h.noEvent hx
    · cases hx
    · exact he hstage hb

omit [DecidableEq S] in
/-- A worker makes one of the first two reads of `stopping`. -/
lemma inv_check {tickle : Fd} {tid : W → ℤ} {st : System W S F C} (h : Inv tickle st) {w : W}
    {stage : Stage} {b : Bool} {s' : Scheduler W F C} {m : TimerManager C}
    (hpc : (st.s.worker w).pc = .stopCheck stage)
    (hs : Scheduler.step tid st.s (.worker w (.check b)) = some s')
    (hm : m.timers = st.timers.timers)
    (ht : stage = .timer → b = true → st.timers.timers = [])
    (he : stage = .pending → b = true → ∀ fd, (st.io.fdContexts fd).events = 0) :
    Inv tickle { st with s := s', timers := m } := by
  have hentries := RunQueue.step_inv st.s _ s' h.entries hs
  obtain ⟨p, rfl, hp⟩ := check_cases hpc hs
  refine inv_read h (.inl ⟨w, hpc⟩) hentries hm rfl (fun x hx => ?_) ht he
  rcases hx with ⟨y, hy⟩ | hx
  · by_cases hyw : y = w
    · subst hyw
      obtain rfl : p = .stopCheck x := by simpa [setPc, setWorker] using hy
      rcases hp with hp | ⟨hb, ⟨hstage, hp⟩ | ⟨hstage, hp⟩⟩ <;> cases hp
      · exact .inr ⟨hb, .inl ⟨hstage, rfl⟩⟩
      · exact .inr ⟨hb, .inr ⟨hstage, rfl⟩⟩
    · exact .inl (.inl ⟨y, by simpa [setPc, setWorker, hyw] using hy⟩)
  · exact .inl (.inr hx)

omit [DecidableEq W] [DecidableEq F] [DecidableEq S] in
/-- The thread in `stop` makes one of the first two reads of `stopping`. -/
lemma inv_stop {tickle : Fd} {st : System W S F C} (h : Inv tickle st) {stage next : Stage}
    {b : Bool} {m : TimerManager C} (hst : st.stopper = some stage)
    (hnext : stage = .timer ∧ next = .pending ∨ stage = .pending ∧ next = .final)
    (hm : m.timers = st.timers.timers)
    (ht : stage = .timer → b = true → st.timers.timers = [])
    (he : stage = .pending → b = true → ∀ fd, (st.io.fdContexts fd).events = 0) :
    Inv tickle { st with timers := m, stopper := if b then some next else none } := by
  refine inv_read h (.inr hst) h.entries hm rfl (fun x hx => ?_) ht he
  rcases hx with hx | hx
  · exact .inl (.inl hx)
  · cases b with
    | false => cases hx
    | true =>
      obtain rfl : next = x := Option.some.inj hx
      exact .inr ⟨rfl, hnext⟩

lemma step_inv {tickle : Fd} {tid : W → ℤ} {me : S} (st : System W S F C) (a : Act W S F C)
    (st' : System W S F C) (h : Inv tickle st) (ha : Undisturbed st a)
    (hs : step tid me st a = some st') : Inv tickle st' := by
  cases a with
  | sched a => exact inv_sched h hs
  | addTimer w ms cb recurring now addr =>
    simp only [step] at hs
    split at hs
    · simp only [Option.ite_none_right_eq_some, Option.some.injEq] at hs
      obtain ⟨-, rfl⟩ := hs
      have hc : ∀ stage, Checking { st with
          timers := (st.timers.addTimer ms (some cb) recurring now addr).1
          s := notify st.s (st.timers.addTimer ms (some cb) recurring now addr).2.2 } stage →
          Checking st stage := checking_congr (notify_worker st.s _) rfl
      exact ⟨notify_inv h.entries _, h.kept, fun hx => (hx.elim
        (fun hx => ha.1 (hc _ hx)) fun hx => ha.2 (hc _ hx)).elim, fun hx => h.noEvent (hc _ hx)⟩
    · cases hs
  | cancel t =>
    obtain ⟨m, hm, rfl⟩ := Option.map_eq_some_iff.mp hs
    exact inv_timers h m false fun h0 => timers_nil (a := .cancel t) h0 nofun hm
  | refresh t now =>
    obtain ⟨m, hm, rfl⟩ := Option.map_eq_some_iff.mp hs
    exact inv_timers h m false fun h0 => timers_nil (a := .refresh t now) h0 nofun hm
  | reset t ms from_now now =>
    obtain ⟨m, hm, rfl⟩ := Option.map_eq_some_iff.mp hs
    exact inv_timers h m _ fun h0 => timers_nil (a := .reset t ms from_now now) h0 nofun hm
  | expire w now addr =>
    simp only [step] at hs
    split at hs
    · obtain rfl := Option.some.inj hs
      exact inv_frame h h.entries h.kept (fun _ _ hx => hx)
        (fun h0 => by simp [listExpiredCb, h0]) id
    · cases hs
  | flush w =>
    simp only [step] at hs
    split at hs
    · obtain rfl := Option.some.inj hs
      refine inv_frame h (schedule_inv h.entries _) h.kept (fun stage _ hx => ?_) id id
      refine checking_congr ?_ ?_ stage hx
      · exact schedule_worker st.s _
      · rfl
    · cases hs
  | addEvent w fd event cb ok =>
    simp only [step] at hs
    split at hs
    · obtain ⟨state, -, hs⟩ := Option.bind_eq_some_iff.mp hs
      exact inv_io h hs fun hx => absurd hx ha
    · cases hs
  | delEvent fd event ok => exact inv_io h hs fun _ => nofun
  | cancelEvent fd event ok => exact inv_io h hs fun _ => nofun
  | cancelAll fd ok => exact inv_io h hs fun _ => nofun
  | dispatch w fd events ok =>
    simp only [step] at hs
    split at hs
    · exact inv_io h hs fun _ => nofun
    · cases hs
  | checkTimer w now =>
    simp only [step] at hs
    split at hs
    · rename_i hpc
      obtain ⟨s', hs', rfl⟩ := Option.map_eq_some_iff.mp hs
      exact inv_check h hpc hs' (getNextTimer_timers _ _)
        (fun _ hb => getNextTimer_max ha (beq_iff_eq.mp hb)) nofun
    · cases hs
  | checkPending w =>
    simp only [step] at hs
    split at hs
    · rename_i hpc
      obtain ⟨s', hs', rfl⟩ := Option.map_eq_some_iff.mp hs
      exact inv_check h hpc hs' rfl nofun
        fun _ hb => events_of_pending h.kept (beq_iff_eq.mp hb)
    · cases hs
  | enterStopping =>
    simp only [step] at hs
    split at hs
    · obtain rfl := Option.some.inj hs
      refine inv_frame h h.entries h.kept (fun stage hne hx => ?_) id id
      rcases hx with hx | hx
      · exact .inl hx
      · exact absurd (Option.some.inj hx).symm hne
    · cases hs
  | stopTimer now =>
    simp only [step] at hs
    split at hs
    · rename_i hst
      obtain rfl := Option.some.inj hs
      exact inv_stop h hst (.inl ⟨rfl, rfl⟩) (getNextTimer_timers _ _)
        (fun _ hb => getNextTimer_max ha (beq_iff_eq.mp hb)) nofun
    · cases hs
  | stopPending =>
    simp only [step] at hs
    split at hs
    · rename_i hst
      obtain rfl := Option.some.inj hs
      exact inv_stop h hst (.inr ⟨rfl, rfl⟩) rfl nofun
        fun _ hb => events_of_pending h.kept (beq_iff_eq.mp hb)
    · cases hs
  | stopFinal =>
    simp only [step] at hs
    split at hs
    · obtain rfl := Option.some.inj hs
      refine inv_frame h h.entries h.kept (fun stage _ hx => ?_) id id
      rcases hx with hx | hx
      · exact .inl hx
      · cases hx
    · cases hs

omit [DecidableEq W] [DecidableEq F] [DecidableEq S] in
lemma start_inv (now : UInt64) (tickle : Fd) : Inv tickle (start now tickle : System W S F C) := by
  have hc (stage : Stage) : ¬ Checking (start now tickle : System W S F C) stage := by
    rintro (⟨w, hw⟩ | h)
    · cases hw
    · cases h
  exact ⟨RunQueue.init_inv, IoInv.init_kept tickle, fun _ => rfl, fun hx => absurd hx (hc _)⟩

/-! ### The answer -/

omit [DecidableEq W] [DecidableEq F] in
lemma not_busy {s : Scheduler W F C} (h : RunQueue.Inv s) (hs : s.stoppingFinal = true) :
    s.fibers = [] ∧ (∀ w, held (s.worker w).pc = none) ∧ ¬ Busy s := by
  simp only [stoppingFinal, decide_eq_true_eq, List.isEmpty_iff] at hs
  obtain ⟨hauto, hstop, hq, hact⟩ := hs
  have hnone (w : W) : held (s.worker w).pc = none := by
    have hzero := (tally_eq_zero_iff holding s.worker).mp (by have := h.active; omega) w
    by_contra hne
    simp [holding, hne] at hzero
  refine ⟨hq, hnone, ?_⟩
  rintro (hb | hb | hb | ⟨w, hb⟩)
  · rw [hauto] at hb; cases hb
  · rw [hstop] at hb; cases hb
  · exact hb hq
  · exact hb (hnone w)

omit [DecidableEq W] [DecidableEq F] [DecidableEq S] in
lemma clean_of_inv {tickle : Fd} {st : System W S F C} (h : Inv tickle st)
    (hc : Checking st .final) (hs : st.s.stoppingFinal = true)
    (hq : ∀ w, Requeues st.s w → Busy st.s) : Clean st := by
  obtain ⟨hfibers, hheld, hbusy⟩ := not_busy h.entries hs
  exact ⟨h.noTimer (.inr hc), h.noEvent hc, hfibers, fun w =>
    ⟨hheld w, fun hw => hbusy (hq w hw)⟩⟩

/-- **`stopping` tells the truth when it is not disturbed.** In every run in which no timer is
added between the first read of a call of `stopping` and its last, no event between its second
and its last, and no worker comes to the last read when all that is left is a fiber between the
decrement and its return to the queue: whenever the call returns `true` there is no timer, no
registered event and no entry in the queue, and no worker executes an entry or has still to
queue a fiber. -/
theorem stopping_sound (tid : W → ℤ) (me : S) (now : UInt64) (tickle : Fd)
    (as : List (Act W S F C)) (hm : Runs.Meets (step tid me) Undisturbed (start now tickle) as)
    (pre : List (Act W S F C)) (a : Act W S F C) (post : List (Act W S F C))
    (st : System W S F C) (has : as = pre ++ a :: post)
    (hr : Runs.run (step tid me) (start now tickle) pre = some st) (hret : Returns st a) :
    Clean st := by
  subst has
  obtain ⟨hpre, ha, -⟩ := Runs.meets_append hm hr
  have h : Inv tickle st := Runs.run_inv_of_meets step_inv (start_inv now tickle) hpre hr
  cases a with
  | sched a =>
    cases a with
    | worker w a =>
      cases a with
      | checkFinal => exact clean_of_inv h (.inl ⟨w, hret.1⟩) hret.2.2 ha
      | _ => exact hret.elim
    | _ => exact hret.elim
  | stopFinal => exact clean_of_inv h (.inr hret.1) hret.2 ha
  | _ => exact hret.elim

theorem stopping_sound_last_worker :
    ∃ st : System Unit Unit ℕ ℕ, Runs.run (step (fun _ => 7) ()) (start 0 3)
        [.sched (.worker () .start), .sched (.worker () .scan), .sched .setAutoStop,
          .sched .setStopping, .sched (.worker () .goIdle), .checkTimer () 1,
          .checkPending ()] = some st ∧
      Returns st (.sched (.worker () .checkFinal)) ∧ Clean st := by
  refine ⟨_, rfl, ⟨rfl, rfl, rfl⟩, stopping_sound (fun _ => 7) () 0 3 _ ?_
    [.sched (.worker () .start), .sched (.worker () .scan), .sched .setAutoStop,
      .sched .setStopping, .sched (.worker () .goIdle), .checkTimer () 1, .checkPending ()]
    (.sched (.worker () .checkFinal)) [] _ rfl rfl ⟨rfl, rfl, rfl⟩⟩
  refine Runs.meets_cons trivial rfl (Runs.meets_cons trivial rfl (Runs.meets_cons trivial rfl
    (Runs.meets_cons trivial rfl (Runs.meets_cons trivial rfl (Runs.meets_cons ?_ rfl
      (Runs.meets_cons trivial rfl (Runs.meets_cons ?_ rfl (Runs.meets_nil _))))))))
  · rintro ⟨-, t, ht, -⟩
    cases ht
  · rintro w (⟨f, cb, how, hpc, -⟩ | ⟨f, cb, hpc⟩) <;> cases hpc

/-- A worker has decremented for a fiber that yielded, and has still to queue it, when another
worker makes the last read. -/
theorem ready_fiber_is_not_seen :
    ¬ ∀ (as : List (Act Bool Unit ℕ ℕ)) (st : System Bool Unit ℕ ℕ) (a : Act Bool Unit ℕ ℕ),
      Runs.run (step (fun w => if w then 7 else 8) ()) (start 0 3) as = some st →
        Returns st a → Clean st := by
  intro h
  have hclean := h [.sched (.create 0), .sched (.schedule (.fiber (some 0)) (-1)),
    .sched (.worker true .start), .sched (.worker true .scan), .sched (.worker true (.branch 9)),
    .sched (.worker true .swapIn), .sched (.worker true .yieldToReady),
    .sched (.worker true .swapOut), .sched (.worker true .decrement),
    .sched (.worker false .start), .sched (.worker false .scan), .sched .setAutoStop,
    .sched .setStopping, .sched (.worker false .goIdle), .checkTimer false 1,
    .checkPending false] _ (.sched (.worker false .checkFinal)) rfl ⟨rfl, rfl, rfl⟩
  exact (hclean.2.2.2 true).2 (.inl ⟨0, false, .ready, rfl, rfl⟩)

end Invariant

end Sylar.Stopping
