import Sylar.SchedulerModel
import Sylar.Lib.Runs

/-!
What a step of the scheduler can do, said once: the scan, the two forms of `schedule`, and
the list of all steps with their guards.
-/

namespace Sylar.SchedulerSteps

open Sylar.FiberModel FiberAndThread Sylar.SchedulerModel Scheduler

variable {W F C : Type}

/-! ### The scan -/

/-- An entry that a scan by the thread takes when it comes to it. -/
def Eligible (tid : ℤ) (state : F → Option State) (ft : FiberAndThread F C) : Prop :=
  (ft.thread = -1 ∨ ft.thread = tid) ∧ ∀ f, ft.fiber = some f → state f ≠ some .exec

lemma eligible_iff (tid : ℤ) (state : F → Option State) (ft : FiberAndThread F C) :
    Eligible tid state ft ↔ pinned tid ft = false ∧ executing state ft = false := by
  unfold Eligible pinned executing
  cases ft.fiber <;> simp <;> tauto

/-- **The scan takes the earliest eligible entry.** It leaves the others in their order, and
`tickle_me` is set when something is left behind the entry it takes. -/
lemma scan_taken {tid : ℤ} {state : F → Option State} {q : List (ℕ × FiberAndThread F C)}
    {e : ℕ × FiberAndThread F C} (h : (scan tid state q).taken = some e) :
    ∃ q₁ q₂, q = q₁ ++ e :: q₂ ∧ (scan tid state q).rest = q₁ ++ q₂ ∧
      (∀ x ∈ q₁, ¬ Eligible tid state x.2) ∧ Eligible tid state e.2 ∧
      (q₂ ≠ [] → (scan tid state q).tickleMe = true) := by
  induction q with
  | nil => cases h
  | cons x q ih =>
    simp only [scan] at h ⊢
    split at h
    · rename_i hpin
      obtain ⟨q₁, q₂, rfl, hrest, hno, he, ht⟩ := ih h
      refine ⟨x :: q₁, q₂, rfl, by simp [hpin, hrest], ?_, he, by simp [hpin]⟩
      simpa [eligible_iff, hpin] using hno
    · split at h
      · rename_i hpin hexec
        obtain ⟨q₁, q₂, rfl, hrest, hno, he, ht⟩ := ih h
        refine ⟨x :: q₁, q₂, rfl, by simp [hpin, hexec, hrest], ?_, he, ?_⟩
        · simpa [eligible_iff, hexec] using hno
        · simpa [hpin, hexec] using ht
      · rename_i hpin hexec
        obtain rfl := Option.some.inj h
        refine ⟨[], q, rfl, by simp [hpin, hexec], by simp, ?_, by simp [hpin, hexec]⟩
        rw [eligible_iff]
        exact ⟨eq_false_of_ne_true hpin, eq_false_of_ne_true hexec⟩

lemma scan_none {tid : ℤ} {state : F → Option State} {q : List (ℕ × FiberAndThread F C)}
    (h : (scan tid state q).taken = none) : ∀ x ∈ q, ¬ Eligible tid state x.2 := by
  induction q with
  | nil => simp
  | cons x q ih =>
    simp only [scan] at h
    split at h
    · rename_i hpin
      simpa [eligible_iff, hpin] using ih h
    · split at h
      · rename_i hexec
        simpa [eligible_iff, hexec] using ih h
      · cases h

/-! ### `schedule` -/

/-- The entries with their numbers, from `k` on. -/
def number (k : ℕ) : List (FiberAndThread F C) → List (ℕ × FiberAndThread F C)
  | [] => []
  | ft :: fts => (k, ft) :: number (k + 1) fts

lemma mem_number {k : ℕ} {fts : List (FiberAndThread F C)} {e : ℕ × FiberAndThread F C}
    (h : e ∈ number k fts) : k ≤ e.1 ∧ fts[e.1 - k]? = some e.2 := by
  induction fts generalizing k with
  | nil => cases h
  | cons ft fts ih =>
    rcases List.mem_cons.mp h with rfl | h
    · simp
    · obtain ⟨hle, hget⟩ := ih h
      have hsub : e.1 - k = (e.1 - (k + 1)) + 1 := by omega
      exact ⟨by omega, by rw [hsub]; simpa using hget⟩

/-- The state with the entries behind the queue. -/
def pushed (s : Scheduler W F C) (fts : List (FiberAndThread F C)) : Scheduler W F C :=
  { s with fibers := s.fibers ++ number s.issued.length fts, issued := s.issued ++ fts }

lemma pushed_pushed (s : Scheduler W F C) (ft : FiberAndThread F C)
    (fts : List (FiberAndThread F C)) :
    pushed (pushed s [ft]) fts = pushed s (ft :: fts) := by
  simp [pushed, number]

/-- The loop queues the entries that have work, and needs a `tickle` when it starts on an
empty queue. -/
lemma scheduleAll_eq (s : Scheduler W F C) (fts : List (FiberAndThread F C)) :
    (s.scheduleAll fts).1 = pushed s (fts.filter isWork) ∧
      ((s.scheduleAll fts).2 = true ↔ s.fibers = [] ∧ fts ≠ []) := by
  induction fts generalizing s with
  | nil => simp [scheduleAll, pushed, number]
  | cons ft fts ih =>
    have hpush : (s.scheduleNoLock ft).1 = pushed s ([ft].filter isWork) := by
      by_cases hw : ft.isWork <;> simp [scheduleNoLock, pushed, number, hw]
    obtain ⟨h1, h2⟩ := ih (s.scheduleNoLock ft).1
    have hfst : (s.scheduleAll (ft :: fts)).1 = ((s.scheduleNoLock ft).1.scheduleAll fts).1 := rfl
    have hsnd : (s.scheduleAll (ft :: fts)).2 =
        (s.fibers.isEmpty || ((s.scheduleNoLock ft).1.scheduleAll fts).2) := rfl
    rw [hfst, hsnd, h1, Bool.or_eq_true, h2, hpush]
    constructor
    · by_cases hw : ft.isWork
      · simp only [hw, List.filter_cons_of_pos, List.filter_nil, pushed_pushed]
      · simp [hw, pushed, number]
    · simp only [List.isEmpty_iff, ne_eq, reduceCtorEq, not_false_eq_true, and_true,
        or_iff_left_iff_imp, and_imp]
      intro hempty _
      exact (List.append_eq_nil_iff.mp hempty).1

/-- **What a call of `schedule` leaves**: the entries with work behind the queue, and one more
call of `tickle` to come if the queue was empty. -/
lemma schedule_eq (s : Scheduler W F C) (fts : List (FiberAndThread F C)) :
    s.schedule fts = { pushed s (fts.filter isWork) with
      asking := s.asking + if s.fibers = [] ∧ fts ≠ [] then 1 else 0 } := by
  obtain ⟨h1, h2⟩ := scheduleAll_eq s fts
  simp only [schedule, h1, h2]
  split <;> simp [pushed]

/-! ### The list of all steps -/

/-- The steps that only move the program counter `p` of one worker. -/
inductive Move (s : Scheduler W F C) (term : Bool) : Act F → Pc F C → Pc F C → Prop
  | start : Move s term .start .off .scan
  | enter (n : ℕ) (ft : FiberAndThread F C) (f new : F) (hf : ft.fiber = some f)
      (hst : ended (s.state f) = false) :
      Move s term (.branch new) (.picked n ft) (.entering n f false)
  | drop (n : ℕ) (ft : FiberAndThread F C) (new : F)
      (hf : ∀ f, ft.fiber = some f → ended (s.state f) = true) :
      Move s term (.branch new) (.picked n ft) (.dropping n)
  | yieldToHold (n : ℕ) (f : F) (cb : Bool) (hst : s.state f = some .exec) :
      Move s term .yieldToHold (.running n f cb) (.leaving n f cb .exec)
  | swapOut (n : ℕ) (f : F) (cb : Bool) (how : State) :
      Move s term .swapOut (.leaving n f cb how) (.back n f cb how)
  | ready (f : F) (cb : Bool) (how : State) (hst : s.state f = some .ready) :
      Move s term .readState (.after f cb how) (.requeue f cb)
  | quit (f : F) (how : State) (hst : ended (s.state f) = true) :
      Move s term .readState (.after f false how) .scan
  | toHold (f : F) (cb : Bool) (how : State) (hr : s.state f ≠ some .ready)
      (hst : ended (s.state f) = false) :
      Move s term .readState (.after f cb how) (.hold f cb)
  | exit (hterm : term = true) : Move s term .goIdle .missed .exited
  | noTimer : Move s term (.check true) (.stopCheck .timer) (.stopCheck .pending)
  | noEvent : Move s term (.check true) (.stopCheck .pending) (.stopCheck .final)
  | wait (a : Act F) (stage : Stage) : Move s term a (.stopCheck stage) .waiting
  | wake (tickled : Bool) (hp : tickled = true → s.pipe ≠ 0) :
      Move s term (.wake tickled) .waiting (.handling tickled)
  | swapOutIdle : Move s term .swapOutIdle (.handling false) .leavingIdle

variable [DecidableEq W] [DecidableEq F]

/-- **Everything a step can do.** -/
inductive Trans (tid : W → ℤ) (s : Scheduler W F C) : Action W F C → Scheduler W F C → Prop
  | move (w : W) (a : Act F) (p : Pc F C) (ht : (s.worker w).tickle = .none)
      (h : Move s (s.worker w).idleTerm a (s.worker w).pc p) :
      Trans tid s (.worker w a) (s.setPc w p)
  | ask (w : W) (t : Tick) (ht : (s.worker w).tickle = .ask)
      (hidle : t = .write ∨ t = .none ∧ s.hasIdleThreads = false) :
      Trans tid s (.worker w .ask) (s.setWorker w { s.worker w with tickle := t })
  | write (w : W) (ht : (s.worker w).tickle = .write) :
      Trans tid s (.worker w .write)
        ({ s with pipe := s.pipe + 1 }.setWorker w { s.worker w with tickle := .none })
  | take (w : W) (n : ℕ) (ft : FiberAndThread F C) (ht : (s.worker w).tickle = .none)
      (hpc : (s.worker w).pc = .scan)
      (hscan : (scan (tid w) s.state s.fibers).taken = some (n, ft)) :
      Trans tid s (.worker w .scan)
        ({ s with
            fibers := (scan (tid w) s.state s.fibers).rest
            activeThreadCount := s.activeThreadCount + 1 }.setWorker w
          { s.worker w with
            pc := .picked n ft
            tickle := if (scan (tid w) s.state s.fibers).tickleMe then .ask else .none })
  | miss (w : W) (t : Tick) (ht : (s.worker w).tickle = .none)
      (hpc : (s.worker w).pc = .scan) (hscan : (scan (tid w) s.state s.fibers).taken = none) :
      Trans tid s (.worker w .scan) (s.setWorker w { s.worker w with pc := .missed, tickle := t })
  | reuse (w : W) (n : ℕ) (ft : FiberAndThread F C) (f new : F)
      (ht : (s.worker w).tickle = .none) (hpc : (s.worker w).pc = .picked n ft)
      (hslot : (s.worker w).cbFiber = some f) (hst : resettable (s.state f) = true)
      (hf : ∀ g, ft.fiber = some g → ended (s.state g) = true) :
      Trans tid s (.worker w (.branch new)) ((s.setState f .init).setPc w (.entering n f true))
  | fresh (w : W) (n : ℕ) (ft : FiberAndThread F C) (new : F)
      (ht : (s.worker w).tickle = .none) (hpc : (s.worker w).pc = .picked n ft)
      (hslot : (s.worker w).cbFiber = none) (hst : s.state new = none)
      (hf : ∀ g, ft.fiber = some g → ended (s.state g) = true) :
      Trans tid s (.worker w (.branch new)) ((s.setState new .init).setWorker w
        { s.worker w with pc := .entering n new true, cbFiber := some new })
  | swapIn (w : W) (n : ℕ) (f : F) (cb : Bool) (ht : (s.worker w).tickle = .none)
      (hpc : (s.worker w).pc = .entering n f cb) (hst : s.state f ≠ some .exec) :
      Trans tid s (.worker w .swapIn) ((s.setState f .exec).setPc w (.running n f cb))
  | leave (w : W) (n : ℕ) (f : F) (cb : Bool) (a : Act F) (st : State)
      (ht : (s.worker w).tickle = .none) (hpc : (s.worker w).pc = .running n f cb)
      (ha : a = .yieldToReady ∧ st = .ready ∨ st = .term ∨ st = .except) :
      Trans tid s (.worker w a) ((s.setState f st).setPc w (.leaving n f cb st))
  | decrement (w : W) (n : ℕ) (p : Pc F C) (ht : (s.worker w).tickle = .none)
      (hpc : (∃ f cb how, (s.worker w).pc = .back n f cb how ∧ p = .after f cb how) ∨
        ((s.worker w).pc = .dropping n ∧ p = .scan)) :
      Trans tid s (.worker w .decrement) ((s.release n).setPc w p)
  | park (w : W) (f : F) (how : State) (ht : (s.worker w).tickle = .none)
      (hpc : (s.worker w).pc = .after f true how) (hst : ended (s.state f) = true) :
      Trans tid s (.worker w .readState) ((s.setState f .init).setPc w .scan)
  | writeHold (w : W) (f : F) (cb : Bool) (ht : (s.worker w).tickle = .none)
      (hpc : (s.worker w).pc = .hold f cb) :
      Trans tid s (.worker w .writeHold) ((s.setState f .hold).setWorker w
        { s.worker w with pc := .scan, cbFiber := dropCb (s.worker w) cb })
  | requeue (w : W) (f : F) (cb : Bool) (t : Tick) (ht : (s.worker w).tickle = .none)
      (hpc : (s.worker w).pc = .requeue f cb) :
      Trans tid s (.worker w .requeue) ((pushed s [make (.fiber (some f)) (-1)]).setWorker w
        { s.worker w with pc := .scan, tickle := t, cbFiber := dropCb (s.worker w) cb })
  | goIdle (w : W) (ht : (s.worker w).tickle = .none) (hpc : (s.worker w).pc = .missed) :
      Trans tid s (.worker w .goIdle)
        ({ s with idleThreadCount := s.idleThreadCount + 1 }.setPc w (.stopCheck .timer))
  | stop (w : W) (ht : (s.worker w).tickle = .none) (hpc : (s.worker w).pc = .stopCheck .final)
      (hst : s.stoppingFinal = true) :
      Trans tid s (.worker w .checkFinal)
        (s.setWorker w { s.worker w with pc := .leavingIdle, idleTerm := true })
  | drain (w : W) (ht : (s.worker w).tickle = .none) (hpc : (s.worker w).pc = .handling true) :
      Trans tid s (.worker w .drain) ({ s with pipe := 0 }.setPc w (.handling false))
  | leaveIdle (w : W) (ht : (s.worker w).tickle = .none) (hpc : (s.worker w).pc = .leavingIdle) :
      Trans tid s (.worker w .leaveIdle)
        ({ s with idleThreadCount := s.idleThreadCount - 1 }.setPc w .scan)
  | create (f : F) (hst : s.state f = none) : Trans tid s (.create f) (s.setState f .init)
  | schedule (fts : List (FiberAndThread F C)) (a : Action W F C)
      (ha : (∃ fc thread, a = .schedule fc thread ∧ fts = [make fc thread]) ∨
        ∃ fcs, a = .scheduleAll fcs ∧ fts = fcs.map fun fc => make fc (-1))
      (hk : ∀ ft ∈ fts, ∀ f, ft.fiber = some f → s.state f ≠ none) :
      Trans tid s a { pushed s (fts.filter isWork) with
        asking := s.asking + if s.fibers = [] ∧ fts ≠ [] then 1 else 0 }
  | tickle : Trans tid s .tickle { s with asking := s.asking + 1 }
  | askOut (k : ℕ) (ha : s.asking ≠ 0)
      (hk : k = s.writing + 1 ∨ k = s.writing ∧ s.hasIdleThreads = false) :
      Trans tid s .ask { s with asking := s.asking - 1, writing := k }
  | writeOut (hw : s.writing ≠ 0) :
      Trans tid s .write { s with writing := s.writing - 1, pipe := s.pipe + 1 }
  | flags (a : Action W F C) (auto stop : Bool) (ha : a = .setAutoStop ∨ a = .setStopping) :
      Trans tid s a { s with autoStop := auto, stopping := stop }

omit [DecidableEq W] [DecidableEq F] in
lemma known_iff (s : Scheduler W F C) (ft : FiberAndThread F C) :
    s.known ft = true ↔ ∀ f, ft.fiber = some f → s.state f ≠ none := by
  unfold known
  cases ft.fiber <;> simp [Option.isSome_iff_ne_none]

lemma branchStep_trans {tid : W → ℤ} {s s' : Scheduler W F C} {w : W} {n : ℕ}
    {ft : FiberAndThread F C} {new : F} (ht : (s.worker w).tickle = .none)
    (hpc : (s.worker w).pc = .picked n ft) (hs : s.branchStep w n ft new = some s') :
    Trans tid s (.worker w (.branch new)) s' := by
  unfold branchStep at hs
  split at hs
  · rename_i f hfilter
    obtain ⟨hf, hst⟩ := Option.filter_eq_some_iff.mp hfilter
    obtain rfl := Option.some.inj hs
    refine .move w _ _ ht ?_
    rw [hpc]
    exact .enter n ft f new hf (by simpa using hst)
  all_goals
    rename_i hfilter _
    have hf : ∀ f, ft.fiber = some f → ended (s.state f) = true := fun f hf => by
      rw [hf] at hfilter
      simpa [Option.filter_some] using hfilter
  · obtain rfl := Option.some.inj hs
    refine .move w _ _ ht ?_
    rw [hpc]
    exact .drop n ft new hf
  · split at hs
    · rename_i f hslot
      split at hs
      · rename_i hst
        obtain rfl := Option.some.inj hs
        exact .reuse w n ft f new ht hpc hslot hst hf
      · cases hs
    · rename_i hslot
      split at hs
      · rename_i hst
        obtain rfl := Option.some.inj hs
        exact .fresh w n ft new ht hpc hslot hst hf
      · cases hs

lemma readStateStep_trans {tid : W → ℤ} {s : Scheduler W F C} {w : W} {f : F} {cb : Bool}
    {how : State} (ht : (s.worker w).tickle = .none)
    (hpc : (s.worker w).pc = .after f cb how) :
    Trans tid s (.worker w .readState) (s.readStateStep w f cb) := by
  unfold readStateStep
  split
  · rename_i hst
    refine .move w _ _ ht ?_
    rw [hpc]
    exact .ready f cb how hst
  · rename_i hr
    split
    · rename_i hst
      cases cb with
      | true => exact .park w f how ht hpc hst
      | false =>
        refine .move w _ _ ht ?_
        rw [hpc]
        exact .quit f how hst
    · rename_i hst
      refine .move w _ _ ht ?_
      rw [hpc]
      exact .toHold f cb how hr (eq_false_of_ne_true hst)

lemma scanStep_trans {tid : W → ℤ} {s : Scheduler W F C} {w : W}
    (ht : (s.worker w).tickle = .none) (hpc : (s.worker w).pc = .scan) :
    Trans tid s (.worker w .scan) (s.scanStep (tid w) w) := by
  unfold scanStep
  dsimp only
  split
  · rename_i n ft hscan
    exact .take w n ft ht hpc hscan
  · rename_i hscan
    exact .miss w _ ht hpc hscan

lemma requeue_trans {tid : W → ℤ} {s : Scheduler W F C} {w : W} {f : F} {cb : Bool}
    (ht : (s.worker w).tickle = .none) (hpc : (s.worker w).pc = .requeue f cb) (t : Tick) :
    Trans tid s (.worker w .requeue)
      ((s.scheduleNoLock (make (.fiber (some f)) (-1))).1.setWorker w
        { s.worker w with pc := .scan, tickle := t, cbFiber := dropCb (s.worker w) cb }) := by
  have hpush : (s.scheduleNoLock (make (.fiber (some f)) (-1))).1 =
      pushed s [make (.fiber (some f)) (-1)] := rfl
  rw [hpush]
  exact .requeue w f cb t ht hpc

lemma work_trans {tid : W → ℤ} {s s' : Scheduler W F C} {w : W} {a : Act F}
    (hs : s.work (tid w) w a = some s') : Trans tid s (.worker w a) s' := by
  unfold work at hs
  dsimp only at hs
  split at hs
  · -- ask
    rename_i ht
    obtain rfl := Option.some.inj hs
    refine .ask w _ ht ?_
    by_cases hi : s.hasIdleThreads <;> simp [hi]
  · -- write
    rename_i ht
    obtain rfl := Option.some.inj hs
    exact .write w ht
  · -- start
    rename_i ht hpc
    obtain rfl := Option.some.inj hs
    exact .move w _ _ ht (by rw [hpc]; exact .start)
  · -- scan
    rename_i ht hpc
    obtain rfl := Option.some.inj hs
    exact scanStep_trans ht hpc
  · -- branch
    rename_i ht hpc
    exact branchStep_trans ht hpc hs
  · -- swapIn
    rename_i n f cb ht hpc
    split at hs
    · cases hs
    · rename_i hst
      obtain rfl := Option.some.inj hs
      exact .swapIn w n f cb ht hpc hst
  · -- yieldToReady
    rename_i n f cb ht hpc
    split at hs
    · obtain rfl := Option.some.inj hs
      exact .leave w n f cb _ .ready ht hpc (.inl ⟨rfl, rfl⟩)
    · cases hs
  · -- yieldToHold
    rename_i n f cb ht hpc
    split at hs
    · rename_i hst
      obtain rfl := Option.some.inj hs
      exact .move w _ _ ht (by rw [hpc]; exact .yieldToHold n f cb hst)
    · cases hs
  · -- finish
    rename_i thrown n f cb ht hpc
    obtain rfl := Option.some.inj hs
    refine .leave w n f cb _ _ ht hpc (.inr ?_)
    cases thrown <;> simp
  · -- swapOut
    rename_i n f cb how ht hpc
    obtain rfl := Option.some.inj hs
    exact .move w _ _ ht (by rw [hpc]; exact .swapOut n f cb how)
  · -- decrement after a run
    rename_i n f cb how ht hpc
    obtain rfl := Option.some.inj hs
    exact .decrement w n _ ht (.inl ⟨f, cb, how, hpc, rfl⟩)
  · -- decrement of a dropped entry
    rename_i n ht hpc
    obtain rfl := Option.some.inj hs
    exact .decrement w n _ ht (.inr ⟨hpc, rfl⟩)
  · -- readState
    rename_i f cb how ht hpc
    obtain rfl := Option.some.inj hs
    exact readStateStep_trans ht hpc
  · -- writeHold
    rename_i f cb ht hpc
    obtain rfl := Option.some.inj hs
    exact .writeHold w f cb ht hpc
  · -- requeue
    rename_i f cb ht hpc
    obtain rfl := Option.some.inj hs
    exact requeue_trans ht hpc _
  · -- goIdle
    rename_i ht hpc
    split at hs
    · rename_i hterm
      obtain rfl := Option.some.inj hs
      exact .move w _ _ ht (by rw [hpc]; exact .exit hterm)
    · obtain rfl := Option.some.inj hs
      exact .goIdle w ht hpc
  · -- the read of the timers
    rename_i b ht hpc
    obtain rfl := Option.some.inj hs
    refine .move w _ _ ht ?_
    rw [hpc]
    cases b with
    | true => exact .noTimer
    | false => exact .wait _ _
  · -- the read of the number of events
    rename_i b ht hpc
    obtain rfl := Option.some.inj hs
    refine .move w _ _ ht ?_
    rw [hpc]
    cases b with
    | true => exact .noEvent
    | false => exact .wait _ _
  · -- checkFinal
    rename_i ht hpc
    split at hs
    · rename_i hst
      obtain rfl := Option.some.inj hs
      exact .stop w ht hpc hst
    · obtain rfl := Option.some.inj hs
      exact .move w _ _ ht (by rw [hpc]; exact .wait _ _)
  · -- wake
    rename_i tickled ht hpc
    split at hs
    · cases hs
    · rename_i hp
      obtain rfl := Option.some.inj hs
      refine .move w _ _ ht ?_
      rw [hpc]
      exact .wake tickled fun h h0 => hp ⟨h, h0⟩
  · -- drain
    rename_i ht hpc
    obtain rfl := Option.some.inj hs
    exact .drain w ht hpc
  · -- swapOutIdle
    rename_i ht hpc
    obtain rfl := Option.some.inj hs
    exact .move w _ _ ht (by rw [hpc]; exact .swapOutIdle)
  · -- leaveIdle
    rename_i ht hpc
    obtain rfl := Option.some.inj hs
    exact .leaveIdle w ht hpc
  · cases hs

/-- **Inversion of a step.** -/
theorem step_trans {tid : W → ℤ} {s s' : Scheduler W F C} {a : Action W F C}
    (hs : step tid s a = some s') : Trans tid s a s' := by
  cases a with
  | worker w a => exact work_trans hs
  | create f =>
    simp only [step, Option.ite_none_right_eq_some, Option.some.injEq] at hs
    obtain ⟨hst, rfl⟩ := hs
    exact .create f hst
  | schedule fc thread =>
    simp only [step, Option.ite_none_right_eq_some, Option.some.injEq] at hs
    obtain ⟨hk, rfl⟩ := hs
    rw [schedule_eq]
    refine .schedule [make fc thread] _ (.inl ⟨fc, thread, rfl, rfl⟩) fun ft hft => ?_
    rw [List.mem_singleton.mp hft]
    exact (known_iff s _).mp hk
  | scheduleAll fcs =>
    simp only [step, Option.ite_none_right_eq_some, Option.some.injEq, List.all_eq_true] at hs
    obtain ⟨hk, rfl⟩ := hs
    rw [schedule_eq]
    refine .schedule _ _ (.inr ⟨fcs, rfl, rfl⟩) fun ft hft => ?_
    obtain ⟨fc, hfc, rfl⟩ := List.mem_map.mp hft
    exact (known_iff s _).mp (hk fc hfc)
  | tickle =>
    obtain rfl := Option.some.inj hs
    exact .tickle
  | ask =>
    simp only [step] at hs
    split at hs
    · cases hs
    · rename_i ha
      obtain rfl := Option.some.inj hs
      refine .askOut _ ha ?_
      by_cases hi : s.hasIdleThreads <;> simp [hi]
  | write =>
    simp only [step] at hs
    split at hs
    · cases hs
    · rename_i hw
      obtain rfl := Option.some.inj hs
      exact .writeOut hw
  | setAutoStop =>
    obtain rfl := Option.some.inj hs
    exact .flags _ true s.stopping (.inl rfl)
  | setStopping =>
    obtain rfl := Option.some.inj hs
    exact .flags _ s.autoStop true (.inr rfl)

end Sylar.SchedulerSteps
