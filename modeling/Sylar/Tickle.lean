import Sylar.SchedulerSteps

/-!
Whether a queued entry can be left with every worker asleep.

`tickle` writes only when some worker is counted as idle, and `schedule` calls it only on an
empty queue. Both conditions are about a moment that may lie between a worker's scan and its
`epoll_wait`.
-/

namespace Sylar.Tickle

open Lib Sylar.FiberModel FiberAndThread Sylar.SchedulerModel Scheduler Sylar.SchedulerSteps

variable {W F C : Type}

/-- An unpinned entry that a scan by any worker would take. -/
def Runnable (s : Scheduler W F C) : Prop :=
  ∃ e ∈ s.fibers, e.2.thread = -1 ∧ ∀ f, e.2.fiber = some f → s.state f ≠ some .exec

/-- The worker's next scan comes before any fiber it could run. -/
def toScan : Pc F C → Bool
  | .scan | .leaving .. | .back .. | .after .. | .hold .. | .requeue .. | .dropping _
  | .handling _ | .leavingIdle => true
  | _ => false

/-- The worker has scanned in vain and has not come back from `epoll_wait`. -/
def sleepy : Pc F C → Bool
  | .missed | .stopCheck _ | .waiting => true
  | _ => false

def TickleToCome (s : Scheduler W F C) : Prop :=
  s.asking ≠ 0 ∨ s.writing ≠ 0 ∨ ∃ w, (s.worker w).tickle ≠ .none

/-- Someone will look at the queue, or nobody has gone to sleep. -/
def Alarm (s : Scheduler W F C) : Prop :=
  s.pipe ≠ 0 ∨ TickleToCome s ∨ (∃ w, toScan (s.worker w).pc = true) ∨
    ∀ w, sleepy (s.worker w).pc = false

/-- A worker that is blocked, busy with a fiber, not yet started or gone. -/
def away : Pc F C → Bool
  | .waiting | .running .. | .off | .exited => true
  | _ => false

/-- An unpinned runnable entry is queued, a worker is blocked in `epoll_wait`, and nothing is
under way that would wake it. -/
def LostWakeUp (s : Scheduler W F C) : Prop :=
  Runnable s ∧ (∃ w, (s.worker w).pc = .waiting) ∧ s.pipe = 0 ∧ ¬ TickleToCome s ∧
    ∀ w, away (s.worker w).pc = true

lemma not_runnable_of_scan_none {tid : ℤ} {s : Scheduler W F C}
    (h : (scan tid s.state s.fibers).taken = none) : ¬ Runnable s := by
  rintro ⟨e, he, hpin, hex⟩
  exact scan_none h e he ⟨.inl hpin, hex⟩

/-! ### The alarm through a step -/

/-- Whenever an unpinned runnable entry is queued, there is an alarm. -/
def Inv (s : Scheduler W F C) : Prop := Runnable s → Alarm s

lemma alarm_of_asking {s : Scheduler W F C} (h : s.asking ≠ 0) : Alarm s := .inr (.inl (.inl h))

lemma alarm_of_writing {s : Scheduler W F C} (h : s.writing ≠ 0) : Alarm s :=
  .inr (.inl (.inr (.inl h)))

lemma take_alarm {tid : W → ℤ} {s : Scheduler W F C} {w : W} {n : ℕ}
    {ft : FiberAndThread F C} (hscan : (scan (tid w) s.state s.fibers).taken = some (n, ft))
    {s' : Scheduler W F C} (hr : Runnable s')
    (hq : s'.fibers = (scan (tid w) s.state s.fibers).rest) (hst : s'.state = s.state) :
    (scan (tid w) s.state s.fibers).tickleMe = true := by
  obtain ⟨q₁, q₂, -, hrest, hno, -, ht⟩ := scan_taken hscan
  obtain ⟨e, he, hpin, hex⟩ := hr
  rw [hst] at hex
  rw [hq, hrest] at he
  rcases List.mem_append.mp he with he | he
  · exact absurd ⟨.inl hpin, hex⟩ (hno e he)
  · exact ht (List.ne_nil_of_mem he)

lemma schedule_alarm {s : Scheduler W F C} {fts : List (FiberAndThread F C)} (hi : Inv s)
    (hh : (∃ ft ∈ fts, ft.thread = -1 ∧ ft.isWork = true) → s.fibers ≠ [] → Alarm s)
    (hr : Runnable (pushed s (fts.filter isWork))) :
    Alarm { pushed s (fts.filter isWork) with
      asking := s.asking + if s.fibers = [] ∧ fts ≠ [] then 1 else 0 } := by
  by_cases hempty : s.fibers = [] ∧ fts ≠ []
  · exact alarm_of_asking (by simp [hempty])
  rw [if_neg hempty]
  suffices h : Alarm s from h
  obtain ⟨e, he, hpin, hex⟩ := hr
  rcases List.mem_append.mp he with he | he
  · exact hi ⟨e, he, hpin, hex⟩
  · -- the runnable entry is a new one, so the queue had others before it
    obtain ⟨-, hget⟩ := mem_number he
    obtain ⟨hmem, hwork⟩ := List.mem_filter.mp (List.mem_of_getElem? hget)
    exact hh ⟨e.2, hmem, hpin, hwork⟩ fun h0 => hempty ⟨h0, List.ne_nil_of_mem hmem⟩

variable [DecidableEq W]

/-- A `tickle` that finds no idle thread, or an unpinned entry that is queued behind others
without a `tickle`, may stay without effect only when there is an alarm anyway. -/
def Heard (s : Scheduler W F C) : Action W F C → Prop
  | .worker w .ask => s.hasIdleThreads = false →
      Alarm (s.setWorker w { s.worker w with tickle := .none })
  | .ask => s.hasIdleThreads = false → Alarm { s with asking := s.asking - 1 }
  | .schedule fc thread => thread = -1 → (make fc thread).isWork = true → s.fibers ≠ [] → Alarm s
  | .scheduleAll fcs => (∃ fc ∈ fcs, (make fc (-1)).isWork = true) → s.fibers ≠ [] → Alarm s
  | _ => True

lemma alarm_of_tickle {s : Scheduler W F C} {w : W} {v : Worker F C} (h : v.tickle ≠ .none) :
    Alarm (s.setWorker w v) := by
  refine .inr (.inl (.inr (.inr ⟨w, ?_⟩)))
  simpa [setWorker] using h

lemma alarm_of_toScan {s : Scheduler W F C} {w : W} {v : Worker F C}
    (h : toScan v.pc = true) : Alarm (s.setWorker w v) := by
  refine .inr (.inr (.inl ⟨w, ?_⟩))
  simpa [setWorker] using h

/-- A step of a worker that was not on its way to a scan and does not fall asleep. -/
lemma Alarm.update {s s' : Scheduler W F C} (h : Alarm s) {w : W} {v : Worker F C} {p : Pc F C}
    (hw : s'.worker = Function.update s.worker w v) (hpc : (s.worker w).pc = p)
    (hp : s'.pipe = s.pipe) (ha : s'.asking = s.asking) (hwr : s'.writing = s.writing)
    (ht : v.tickle = (s.worker w).tickle) (hold : toScan p = false)
    (hnew : sleepy v.pc = true → sleepy p = true) : Alarm s' := by
  have hother {x : W} (hx : x ≠ w) : s'.worker x = s.worker x := by
    rw [hw, Function.update_of_ne hx]
  have hself : s'.worker w = v := by rw [hw, Function.update_self]
  rcases h with h | (h | h | ⟨x, h⟩) | ⟨x, h⟩ | h
  · exact .inl (by rwa [hp])
  · exact .inr (.inl (.inl (by rwa [ha])))
  · exact .inr (.inl (.inr (.inl (by rwa [hwr]))))
  · refine .inr (.inl (.inr (.inr ⟨x, ?_⟩)))
    by_cases hx : x = w
    · subst hx; rwa [hself, ht]
    · rwa [hother hx]
  · refine .inr (.inr (.inl ⟨x, ?_⟩))
    by_cases hx : x = w
    · subst hx; rw [hpc, hold] at h; cases h
    · rwa [hother hx]
  · refine .inr (.inr (.inr fun x => ?_))
    by_cases hx : x = w
    · subst hx
      rw [hself]
      by_contra hs
      have := hnew (by simpa using hs)
      rw [← hpc, h x] at this
      cases this
    · rw [hother hx]; exact h x

/-- A step that moves a program counter ends on the way to a scan, or leaves the alarm. -/
lemma move_alarm {s : Scheduler W F C} {w : W} {a : Act F} {p : Pc F C}
    (h : Move s (s.worker w).idleTerm a (s.worker w).pc p) (hi : Runnable s → Alarm s)
    (hr : Runnable (s.setPc w p)) : Alarm (s.setPc w p) := by
  have hr : Runnable s := hr
  generalize hpc : (s.worker w).pc = q at h
  cases h with
  | start | drop | yieldToHold | swapOut | ready | quit | toHold | wake | swapOutIdle =>
    exact alarm_of_toScan rfl
  | enter | exit | noTimer | noEvent | wait =>
    exact (hi hr).update rfl hpc rfl rfl rfl rfl rfl (by simp [sleepy])

variable [DecidableEq F]

omit [DecidableEq W] in
/-- A fiber that was not running and is not running now makes no entry runnable. -/
lemma Runnable.of_setState {s s' : Scheduler W F C} {f : F} {st : State}
    (h : Runnable s') (hq : s'.fibers = s.fibers)
    (hst : s'.state = Function.update s.state f (some st)) (hf : s.state f ≠ some .exec) :
    Runnable s := by
  obtain ⟨e, he, hpin, hex⟩ := h
  rw [hq] at he
  refine ⟨e, he, hpin, fun g hg hg' => ?_⟩
  by_cases hgf : g = f
  · subst hgf; exact hf hg'
  · refine hex g hg ?_
    rw [hst, Function.update_of_ne hgf]
    exact hg'

lemma step_inv {tid : W → ℤ} (s : Scheduler W F C) (a : Action W F C) (s' : Scheduler W F C)
    (hi : Inv s) (hh : Heard s a) (hs : step tid s a = some s') : Inv s' := by
  intro hr
  cases step_trans hs with
  | move w a p ht h => exact move_alarm h hi hr
  | ask w t ht hidle =>
    rcases hidle with rfl | ⟨rfl, hidle⟩
    · exact alarm_of_tickle (by simp)
    · exact hh hidle
  | write w ht => exact .inl (Nat.succ_ne_zero _)
  | take w n ft ht hpc hscan =>
    have htick := take_alarm hscan hr rfl rfl
    exact alarm_of_tickle (by simp [htick])
  | miss w t ht hpc hscan =>
    exact absurd hr (not_runnable_of_scan_none (s := s) hscan)
  | reuse w n ft f new ht hpc hslot hst hf =>
    have hne : s.state f ≠ some .exec := fun h => by simp [resettable, h] at hst
    exact (hi (hr.of_setState rfl rfl hne)).update rfl hpc rfl rfl rfl rfl rfl (by simp [sleepy])
  | fresh w n ft new ht hpc hslot hst hf =>
    have hne : s.state new ≠ some .exec := by rw [hst]; exact nofun
    exact (hi (hr.of_setState rfl rfl hne)).update rfl hpc rfl rfl rfl rfl rfl (by simp [sleepy])
  | swapIn w n f cb ht hpc hst =>
    exact (hi (hr.of_setState rfl rfl hst)).update rfl hpc rfl rfl rfl rfl rfl (by simp [sleepy])
  | leave | park | writeHold | requeue | stop | drain | leaveIdle => exact alarm_of_toScan rfl
  | decrement w n p ht hpc =>
    refine alarm_of_toScan ?_
    rcases hpc with ⟨f, cb, how, -, rfl⟩ | ⟨-, rfl⟩ <;> rfl
  | goIdle w ht hpc => exact (hi hr).update rfl hpc rfl rfl rfl rfl rfl (by simp [sleepy])
  | create f hst =>
    have hne : s.state f ≠ some .exec := by rw [hst]; exact nofun
    exact hi (hr.of_setState rfl rfl hne)
  | schedule fts a ha hk =>
    refine schedule_alarm hi ?_ hr
    rintro ⟨ft, hft, hthread, hwork⟩ hne
    rcases ha with ⟨fc, thread, rfl, rfl⟩ | ⟨fcs, rfl, rfl⟩
    · rw [List.mem_singleton.mp hft] at hthread hwork
      refine hh ?_ hwork hne
      cases fc <;> exact hthread
    · obtain ⟨fc, hfc, rfl⟩ := List.mem_map.mp hft
      exact hh ⟨fc, hfc, hwork⟩ hne
  | tickle => exact alarm_of_asking (Nat.succ_ne_zero _)
  | askOut k ha hk =>
    rcases hk with rfl | ⟨rfl, hidle⟩
    · exact alarm_of_writing (Nat.succ_ne_zero _)
    · exact hh hidle
  | writeOut hw => exact .inl (Nat.succ_ne_zero _)
  | flags a auto stop ha => exact hi hr

/-- **No wake-up is lost in a run in which every `tickle` is heard.** If each `tickle` that
finds no idle thread, and each unpinned entry queued behind others, comes when there is an
alarm anyway, then no state of the run has an unpinned runnable entry in the queue, a worker
blocked in `epoll_wait`, no byte in the pipe, no call about to tickle, and every other worker
blocked too or busy with a fiber. -/
theorem no_lost_wakeUp (tid : W → ℤ) (as : List (Action W F C)) (s : Scheduler W F C)
    (hm : Runs.Meets (step tid) Heard {} as) (hr : Runs.run (step tid) {} as = some s) :
    ¬ LostWakeUp s := by
  rintro ⟨hrun, ⟨w, hw⟩, hpipe, htick, haway⟩
  have hinit : Inv ({} : Scheduler W F C) := fun h => by
    obtain ⟨e, he, -⟩ := h
    cases he
  rcases Runs.run_inv_of_meets step_inv hinit hm hr hrun with h | h | ⟨x, h⟩ | h
  · exact h hpipe
  · exact htick h
  · have hx := haway x
    revert h hx
    cases (s.worker x).pc <;> simp [toScan, away]
  · have := h w
    rw [hw] at this
    cases this

theorem no_lost_wakeUp_tickled :
    ∃ s : Scheduler Unit ℕ ℕ, Runs.run (step fun _ => 1) {}
        [.worker () .start, .worker () .scan, .worker () .goIdle, .worker () (.check false),
          .schedule (.cb (some 0)) (-1), .ask, .write] = some s ∧ ¬ LostWakeUp s := by
  refine ⟨_, rfl, no_lost_wakeUp (fun _ => 1) [.worker () .start, .worker () .scan,
    .worker () .goIdle, .worker () (.check false), .schedule (.cb (some 0)) (-1), .ask, .write] _
    ?_ rfl⟩
  refine Runs.meets_cons trivial rfl (Runs.meets_cons trivial rfl (Runs.meets_cons trivial rfl
    (Runs.meets_cons trivial rfl (Runs.meets_cons ?_ rfl (Runs.meets_cons ?_ rfl
      (Runs.meets_cons trivial rfl trivial))))))
  · exact fun _ _ h => absurd rfl h
  · exact fun h => absurd h (by decide)

/-- The worker has scanned the empty queue and is not yet counted as idle when the entry comes,
so the `tickle` is not written; then it blocks. -/
theorem tickle_before_idle_is_lost :
    ¬ ∀ (as : List (Action Unit ℕ ℕ)) (s : Scheduler Unit ℕ ℕ),
      Runs.run (step fun _ => 1) {} as = some s → ¬ LostWakeUp s := fun h =>
  h [.worker () .start, .worker () .scan, .schedule (.cb (some 0)) (-1), .ask,
      .worker () .goIdle, .worker () (.check false)] _ rfl
    ⟨⟨_, .head _, rfl, nofun⟩, ⟨(), rfl⟩, rfl, by rintro (h | h | ⟨w, h⟩) <;> exact h rfl,
      fun _ => rfl⟩

end Sylar.Tickle
