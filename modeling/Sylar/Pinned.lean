import Sylar.Stopping

/-!
A fiber that is pinned to a thread.

The pin is in the entry of the queue and not in the fiber. The library makes new entries for a
fiber at three places: `run` queues it again after `YieldToReady`, `triggerEvent` schedules the
fiber that waits for an event, and the callback of a sleep schedules the fiber that sleeps. None
of them has the pin.
-/

namespace Sylar.Pinned

open Lib Sylar.FiberModel FiberAndThread Sylar.SchedulerModel Scheduler Sylar.SchedulerSteps
open Sylar.IoModel Sylar.Stopping

variable {W S F C : Type}

/-- A callback: that of a sleep, which is `schedule(fiber, -1)`, or one of the user's. -/
inductive Cb (F C : Type)
  | wake (f : F)
  | user (c : C)

def Cb.isWake : Cb F C → Bool
  | .wake _ => true
  | .user _ => false

/-- An I/O manager and one fiber: whether the user has scheduled it, and the entries whose
callback has made its call of `schedule`. -/
structure St (W S F C : Type) where
  sys : System W S F (Cb F C)
  asked : Bool
  woken : List ℕ

def start (now : UInt64) (tickle : Fd) : St W S F C := ⟨Stopping.start now tickle, false, []⟩

inductive Act (W S F C : Type)
  | sys (a : Stopping.Act W S F (Cb F C))
  /-- The fiber that runs on the worker calls `sleep`, `usleep` or `nanosleep`; its `YieldToHold` is
  a step of its own. -/
  | sleep (w : W) (ms now : UInt64) (addr : ℕ)
  /-- The callback of a sleep runs on the worker and schedules the fiber. -/
  | wake (w : W)

variable [DecidableEq F]

/-- What is scheduled is not the callback of a sleep. -/
def ownWork (fc : FiberOrCb F (Cb F C)) : Bool := (make fc (-1)).cb.all fun c => !c.isWake

/-- What user code may do: the callbacks of sleeps are not its own, the fiber is not made by the
scheduler for a callback, and the user schedules it once, pinned to `t`. -/
def allowed (f : F) (t : ℤ) (asked : Bool) : Stopping.Act W S F (Cb F C) → Bool
  | .sched (.schedule fc thread) =>
    ownWork fc && ((make fc thread).fiber ≠ some f || thread = t && !asked)
  | .sched (.scheduleAll fcs) => fcs.all fun fc => ownWork fc && (make fc (-1)).fiber ≠ some f
  | .sched (.worker _ (.branch new)) => new ≠ f
  | .addTimer _ _ cb _ _ _ => !cb.isWake
  | .addEvent _ _ _ cb _ => cb.all fun c => !c.isWake
  | _ => true

def asks (f : F) : Stopping.Act W S F (Cb F C) → Bool
  | .sched (.schedule fc thread) => (make fc thread).fiber = some f
  | _ => false

/-- The fiber that the callback of the entry wakes up. -/
def wakes (s : Scheduler W F (Cb F C)) (n : ℕ) : Option F :=
  match (s.issued[n]?).bind fun ft => ft.cb with
  | some (.wake f) => some f
  | _ => none

variable [DecidableEq W] [DecidableEq S]

def step (tid : W → ℤ) (me : S) (f : F) (t : ℤ) (st : St W S F C) :
    Act W S F C → Option (St W S F C)
  | .sys a =>
    if allowed f t st.asked a then
      (Stopping.step tid me st.sys a).map fun sys =>
        { st with sys := sys, asked := st.asked || asks f a }
    else none
  | .sleep w ms now addr =>
    match (st.sys.s.worker w).pc with
    | .running _ g _ =>
      (Stopping.step tid me st.sys (.addTimer w ms (.wake g) false now addr)).map fun sys =>
        { st with sys := sys }
    | _ => none
  | .wake w =>
    match (st.sys.s.worker w).pc with
    | .running n _ true =>
      match wakes st.sys.s n with
      | some g =>
        if n ∈ st.woken then none
        else
          (Scheduler.step tid st.sys.s (.schedule (.fiber (some g)) (-1))).map fun s =>
            { st with sys := { st.sys with s := s }, woken := n :: st.woken }
      | none => none
    | _ => none

/-- Each time the fiber is swapped in, it is by the worker with thread id `t`. -/
def OnThread (tid : W → ℤ) (f : F) (t : ℤ) (st : St W S F C) : Act W S F C → Prop
  | .sys (.sched (.worker w .swapIn)) =>
    ∀ n cb, (st.sys.s.worker w).pc = .entering n f cb → tid w = t
  | _ => True

/-- A call on the event table schedules the fiber. -/
def Triggers (me : S) (f : F) (st : St W S F C) (a : IoInv.Action S F (Cb F C)) : Prop :=
  ∃ out, IoInv.call st.sys.io a = .ok out ∧
    ∃ h ∈ out.handoffs, h.scheduler = me ∧ h.entry.fiber = some f

/-- The library puts the fiber back into the queue: as one that is ready, by the end of its
registration, or at the end of its sleep. -/
def PutsBack (me : S) (f : F) (st : St W S F C) : Act W S F C → Prop
  | .sys (.sched (.worker w .requeue)) => ∃ cb, (st.sys.s.worker w).pc = .requeue f cb
  | .sys (.cancelEvent fd event ok) => Triggers me f st (.cancelEvent fd event ok)
  | .sys (.cancelAll fd ok) => Triggers me f st (.cancelAll fd ok)
  | .sys (.dispatch _ fd events ok) => Triggers me f st (.dispatch fd events ok)
  | .wake w => ∃ n g, (st.sys.s.worker w).pc = .running n g true ∧ wakes st.sys.s n = some f
  | _ => False

/-- The library puts the fiber back only if there is no other worker. -/
def Cond (tid : W → ℤ) (me : S) (f : F) (t : ℤ) (st : St W S F C) (a : Act W S F C) : Prop :=
  PutsBack me f st a → ∀ w, tid w = t

/-! ### The scheduler -/

/-- What is on its way to run the fiber is pinned to `t`: its entries in the queue, and the worker
that has taken one. -/
structure Inv (tid : W → ℤ) (f : F) (t : ℤ) (s : Scheduler W F (Cb F C)) : Prop where
  queue : ∀ e ∈ s.fibers, e.2.fiber = some f → e.2.thread = t
  picked : ∀ w n ft, (s.worker w).pc = .picked n ft → ft.fiber = some f → tid w = t
  entering : ∀ w n cb, (s.worker w).pc = .entering n f cb → tid w = t
  slot : ∀ w, (s.worker w).cbFiber ≠ some f

variable {tid : W → ℤ} {me : S} {f : F} {t : ℤ}

omit [DecidableEq F] in
lemma inv_worker {s s' : Scheduler W F (Cb F C)} (h : Inv tid f t s) {w : W}
    {v : Worker F (Cb F C)} (hq : ∀ e ∈ s'.fibers, e.2.fiber = some f → e.2.thread = t)
    (hw : s'.worker = Function.update s.worker w v)
    (hpick : ∀ n ft, v.pc = .picked n ft → ft.fiber = some f → tid w = t)
    (henter : ∀ n cb, v.pc = .entering n f cb → tid w = t) (hslot : v.cbFiber ≠ some f) :
    Inv tid f t s' := by
  have hcases (x : W) : x = w ∧ s'.worker x = v ∨ s'.worker x = s.worker x := by
    rw [hw]
    by_cases hx : x = w
    · exact .inl ⟨hx, by rw [hx, Function.update_self]⟩
    · exact .inr (Function.update_of_ne hx ..)
  refine ⟨hq, fun x n ft => ?_, fun x n cb => ?_, fun x => ?_⟩
  · rcases hcases x with ⟨rfl, hx⟩ | hx
    · rw [hx]
      exact hpick n ft
    · rw [hx]
      exact h.picked x n ft
  · rcases hcases x with ⟨rfl, hx⟩ | hx
    · rw [hx]
      exact henter n cb
    · rw [hx]
      exact h.entering x n cb
  · rcases hcases x with ⟨rfl, hx⟩ | hx
    · rwa [hx]
    · rw [hx]
      exact h.slot x

omit [DecidableEq W] [DecidableEq F] in
lemma mem_pushed {s : Scheduler W F (Cb F C)} {fts : List (FiberAndThread F (Cb F C))}
    {e : ℕ × FiberAndThread F (Cb F C)} (he : e ∈ (pushed s fts).fibers) :
    e ∈ s.fibers ∨ e.2 ∈ fts := by
  rcases List.mem_append.mp he with he | he
  · exact .inl he
  · exact .inr (List.mem_of_getElem? (mem_number he).2)

omit [DecidableEq W] [DecidableEq F] in
lemma inv_pushed {s s' : Scheduler W F (Cb F C)} (h : Inv tid f t s)
    {fts : List (FiberAndThread F (Cb F C))}
    (hft : ∀ ft ∈ fts, ft.fiber = some f → ft.thread = t)
    (hq : s'.fibers = (pushed s fts).fibers) (hw : s'.worker = s.worker) : Inv tid f t s' := by
  refine ⟨fun e he => ?_, by rw [hw]; exact h.picked, by rw [hw]; exact h.entering,
    by rw [hw]; exact h.slot⟩
  rw [hq] at he
  rcases mem_pushed he with he | he
  · exact h.queue e he
  · exact hft e.2 he

omit [DecidableEq W] [DecidableEq F] in
lemma inv_schedule {s : Scheduler W F (Cb F C)} (h : Inv tid f t s)
    {fts : List (FiberAndThread F (Cb F C))}
    (hft : ∀ ft ∈ fts, ft.fiber = some f → ft.thread = t) : Inv tid f t (s.schedule fts) := by
  rw [schedule_eq]
  exact inv_pushed h (fun ft hmem => hft ft (List.mem_of_mem_filter hmem)) rfl rfl

omit [DecidableEq W] [DecidableEq F] in
lemma inv_notify {s : Scheduler W F (Cb F C)} (h : Inv tid f t s) (b : Bool) :
    Inv tid f t (notify s b) := by
  cases b with
  | false => exact h
  | true => exact ⟨h.queue, h.picked, h.entering, h.slot⟩

omit [DecidableEq W] [DecidableEq F] in
lemma inv_handOver {s : Scheduler W F (Cb F C)} (h : Inv tid f t s)
    {hs : List (Handoff S F (Cb F C))}
    (hno : ∀ x ∈ hs, x.scheduler = me → x.entry.fiber ≠ some f) :
    Inv tid f t (handOver me s hs) := by
  induction hs generalizing s with
  | nil => exact h
  | cons x hs ih =>
    refine ih ?_ fun y hy => hno y (List.mem_cons_of_mem x hy)
    dsimp only
    split
    · rename_i hx
      refine inv_schedule h fun ft hft hfiber => ?_
      rw [List.mem_singleton.mp hft] at hfiber
      exact absurd hfiber (hno x List.mem_cons_self hx)
    · exact h

/-- What a step of the scheduler may not do: queue the fiber without its pin, or take it for a
callback. -/
def Keeps (f : F) (t : ℤ) (s : Scheduler W F (Cb F C)) : SchedulerModel.Action W F (Cb F C) → Prop
  | .worker w .requeue => ∀ cb, (s.worker w).pc ≠ .requeue f cb
  | .worker _ (.branch new) => new ≠ f
  | .schedule fc thread => (make fc thread).fiber = some f → thread = t
  | .scheduleAll fcs => ∀ fc ∈ fcs, (make fc (-1)).fiber ≠ some f
  | _ => True

omit [DecidableEq W] [DecidableEq F] in
lemma move_pc {s : Scheduler W F (Cb F C)} {term : Bool} {a : SchedulerModel.Act F}
    {p p' : Pc F (Cb F C)} (h : Move s term a p p') :
    (∀ n ft, p' ≠ .picked n ft) ∧
      ∀ n g cb, p' = .entering n g cb → ∃ ft, p = .picked n ft ∧ ft.fiber = some g := by
  cases h with
  | enter n ft g new hf hst =>
    refine ⟨nofun, fun n' g' cb heq => ?_⟩
    cases heq
    exact ⟨ft, rfl, hf⟩
  | _ => exact ⟨nofun, nofun⟩

omit [DecidableEq F] in
lemma inv_plain {s s' : Scheduler W F (Cb F C)} (h : Inv tid f t s) {w : W}
    {v : Worker F (Cb F C)} (hq : s'.fibers = s.fibers)
    (hw : s'.worker = Function.update s.worker w v) (hpick : ∀ n ft, v.pc ≠ .picked n ft)
    (henter : ∀ n cb, v.pc ≠ .entering n f cb) (hslot : v.cbFiber ≠ some f) : Inv tid f t s' :=
  inv_worker h (by rw [hq]; exact h.queue) hw (fun n ft hpc => absurd hpc (hpick n ft))
    (fun n cb hpc => absurd hpc (henter n cb)) hslot

omit [DecidableEq W] [DecidableEq F] in
lemma dropCb_ne {s : Scheduler W F (Cb F C)} (h : Inv tid f t s) (w : W) (cb : Bool) :
    dropCb (s.worker w) cb ≠ some f := by
  cases cb with
  | true => nofun
  | false => exact h.slot w

/-- **A step of the scheduler keeps the pins.** -/
lemma sched_inv (ht : t ≠ -1) {s s' : Scheduler W F (Cb F C)}
    {a : SchedulerModel.Action W F (Cb F C)} (h : Inv tid f t s) (hk : Keeps f t s a)
    (hs : Scheduler.step tid s a = some s') : Inv tid f t s' := by
  cases step_trans hs with
  | move w a p htick hm =>
    obtain ⟨hpick, henter⟩ := move_pc hm
    refine inv_worker h h.queue rfl (fun n ft hpc => absurd hpc (hpick n ft)) ?_ (h.slot w)
    intro n cb hpc
    obtain ⟨ft, hold, hf⟩ := henter n f cb hpc
    exact h.picked w n ft hold hf
  | ask w tick htick hidle =>
    exact inv_worker h h.queue rfl (h.picked w) (h.entering w) (h.slot w)
  | write w htick =>
    exact inv_worker h h.queue rfl (h.picked w) (h.entering w) (h.slot w)
  | take w n ft htick hpc hscan =>
    obtain ⟨q₁, q₂, hq, hrest, -, helig, -⟩ := scan_taken hscan
    have hmem : (n, ft) ∈ s.fibers := by
      rw [hq]
      exact List.mem_append_right _ List.mem_cons_self
    refine inv_worker h (fun e he => h.queue e ?_) rfl ?_ nofun (h.slot w)
    · have he : e ∈ q₁ ++ q₂ := hrest ▸ he
      rw [hq]
      rcases List.mem_append.mp he with he | he
      · exact List.mem_append_left _ he
      · exact List.mem_append_right _ (List.mem_cons_of_mem _ he)
    · -- the worker takes an entry that is pinned, so it is the one the entry is pinned to
      intro n' ft' heq hf
      cases heq
      have hthread := h.queue _ hmem hf
      rcases helig.1 with hone | hone
      · exact absurd (hthread.symm.trans hone) ht
      · exact hone.symm.trans hthread
  | miss w tick htick hpc hscan => exact inv_plain h rfl rfl nofun nofun (h.slot w)
  | reuse w n ft g new htick hpc hslot hst hf =>
    refine inv_worker h h.queue rfl nofun ?_ (h.slot w)
    intro n' cb heq
    cases heq
    exact absurd hslot (h.slot w)
  | fresh w n ft new htick hpc hslot hst hf =>
    have hne : new ≠ f := hk
    refine inv_worker h h.queue rfl nofun ?_ fun heq => hne (Option.some.inj heq)
    intro n' cb heq
    cases heq
    exact absurd rfl hne
  | decrement w n p htick hpc =>
    rcases hpc with ⟨g, cb, how, -, rfl⟩ | ⟨-, rfl⟩
    · exact inv_plain h rfl rfl nofun nofun (h.slot w)
    · exact inv_plain h rfl rfl nofun nofun (h.slot w)
  | writeHold w g cb htick hpc => exact inv_plain h rfl rfl nofun nofun (dropCb_ne h w cb)
  | requeue w g cb tick htick hpc =>
    have hne : g ≠ f := by
      rintro rfl
      exact hk cb hpc
    have hpush : Inv tid f t (pushed s [make (.fiber (some g)) (-1)]) := by
      refine inv_pushed h (fun ft hft hf => ?_) rfl rfl
      rw [List.mem_singleton.mp hft] at hf
      exact absurd (Option.some.inj hf) hne
    exact inv_plain hpush rfl rfl nofun nofun (dropCb_ne h w cb)
  | swapIn w | leave w | park w | goIdle w | stop w | drain w | leaveIdle w =>
    exact inv_plain h rfl rfl nofun nofun (h.slot w)
  | schedule fts a ha hknown =>
    refine inv_pushed h (fun ft hft hf => ?_) rfl rfl
    have hft := List.mem_of_mem_filter hft
    rcases ha with ⟨fc, thread, rfl, rfl⟩ | ⟨fcs, rfl, rfl⟩
    · rw [List.mem_singleton.mp hft] at hf ⊢
      have hthread : (make fc thread : FiberAndThread F (Cb F C)).thread = thread := by
        cases fc <;> rfl
      rw [hthread]
      exact hk hf
    · obtain ⟨fc, hfc, rfl⟩ := List.mem_map.mp hft
      exact absurd hf (hk fc hfc)
  | create | tickle | askOut | writeOut | flags =>
    exact ⟨h.queue, h.picked, h.entering, h.slot⟩

/-! ### The system -/

omit [DecidableEq W] [DecidableEq F] in
lemma io_inv {sys sys' : System W S F (Cb F C)} (h : Inv tid f t sys.s)
    {a : IoInv.Action S F (Cb F C)} (hs : ioStep me sys a = some sys')
    (hno : ∀ out, IoInv.call sys.io a = .ok out →
      ∀ x ∈ out.handoffs, x.scheduler = me → x.entry.fiber ≠ some f) : Inv tid f t sys'.s := by
  simp only [ioStep, Option.ite_none_right_eq_some] at hs
  obtain ⟨-, hs⟩ := hs
  split at hs
  · rename_i out hout
    cases hs
    exact inv_handOver h (hno out hout)
  · cases hs

omit [DecidableEq W] [DecidableEq S] in
/-- What the user may do keeps the pins, as long as the library does not put the fiber back. -/
lemma keeps_of_allowed {st : St W S F C} {a : SchedulerModel.Action W F (Cb F C)}
    (ha : allowed f t st.asked (.sched a : Stopping.Act W S F (Cb F C)) = true)
    (hno : ¬ PutsBack me f st (.sys (.sched a))) : Keeps f t st.sys.s a := by
  cases a with
  | worker w a =>
    cases a with
    | requeue => exact fun cb hpc => hno ⟨cb, hpc⟩
    | branch new =>
      have hne : new ≠ f := of_decide_eq_true ha
      exact hne
    | _ => trivial
  | schedule fc thread =>
    intro hf
    have hor : (make fc thread).fiber ≠ some f ∨ thread = t ∧ st.asked = false := by
      simpa [allowed] using ((Bool.and_eq_true _ _).mp ha).2
    exact (hor.resolve_left (not_not.mpr hf)).1
  | scheduleAll fcs =>
    intro fc hfc
    have hall := List.all_eq_true.mp ha fc hfc
    exact of_decide_eq_true ((Bool.and_eq_true _ _).mp hall).2
  | _ => trivial

lemma sys_inv (ht : t ≠ -1) {st : St W S F C} {sys' : System W S F (Cb F C)}
    (h : Inv tid f t st.sys.s) {a : Stopping.Act W S F (Cb F C)}
    (ha : allowed f t st.asked a = true) (hno : ¬ PutsBack me f st (.sys a))
    (hs : Stopping.step tid me st.sys a = some sys') : Inv tid f t sys'.s := by
  have hcalls {a : IoInv.Action S F (Cb F C)} (hno : ¬ Triggers me f st a) :
      ∀ out, IoInv.call st.sys.io a = .ok out →
        ∀ x ∈ out.handoffs, x.scheduler = me → x.entry.fiber ≠ some f :=
    fun out hout x hx hme hf => hno ⟨out, hout, x, hx, hme, hf⟩
  cases a with
  | sched a =>
    obtain ⟨s', hs', rfl, -⟩ := sched_step hs
    exact sched_inv ht h (keeps_of_allowed ha hno) hs'
  | addTimer w ms cb recurring now addr =>
    simp only [Stopping.step] at hs
    split at hs
    · split at hs
      · cases hs
        exact inv_notify h _
      · cases hs
    · cases hs
  | cancel x =>
    obtain ⟨m, -, rfl⟩ := Option.map_eq_some_iff.mp hs
    exact h
  | refresh x now =>
    obtain ⟨m, -, rfl⟩ := Option.map_eq_some_iff.mp hs
    exact h
  | reset x ms from_now now =>
    obtain ⟨m, -, rfl⟩ := Option.map_eq_some_iff.mp hs
    exact inv_notify h _
  | expire w now addr =>
    simp only [Stopping.step] at hs
    split at hs
    · cases hs
      exact h
    · cases hs
  | flush w =>
    simp only [Stopping.step] at hs
    split at hs
    · cases hs
      refine inv_schedule h fun ft hft hf => ?_
      obtain ⟨cb, -, rfl⟩ := List.mem_map.mp hft
      cases hf
    · cases hs
  | addEvent w fd event cb ok =>
    simp only [Stopping.step] at hs
    split at hs
    · obtain ⟨state, -, hs⟩ := Option.bind_eq_some_iff.mp hs
      refine io_inv h hs fun out hout x hx => ?_
      rw [IoInv.addEvent_handoffs hout] at hx
      cases hx
    · cases hs
  | delEvent fd event ok =>
    refine io_inv h hs fun out hout x hx => ?_
    rw [IoInv.delEvent_handoffs hout] at hx
    cases hx
  | cancelEvent fd event ok => exact io_inv h hs (hcalls hno)
  | cancelAll fd ok => exact io_inv h hs (hcalls hno)
  | dispatch w fd events ok =>
    simp only [Stopping.step] at hs
    split at hs
    · exact io_inv h hs (hcalls hno)
    · cases hs
  | checkTimer w now =>
    simp only [Stopping.step] at hs
    split at hs
    · obtain ⟨s', hs', rfl⟩ := Option.map_eq_some_iff.mp hs
      exact sched_inv ht h (a := .worker w (.check _)) trivial hs'
    · cases hs
  | checkPending w =>
    simp only [Stopping.step] at hs
    split at hs
    · obtain ⟨s', hs', rfl⟩ := Option.map_eq_some_iff.mp hs
      exact sched_inv ht h (a := .worker w (.check _)) trivial hs'
    · cases hs
  | enterStopping | stopTimer | stopPending | stopFinal =>
    simp only [Stopping.step] at hs
    split at hs
    · cases hs
      exact h
    · cases hs

lemma step_inv (ht : t ≠ -1) {st st' : St W S F C} {a : Act W S F C}
    (h : Inv tid f t st.sys.s) (hno : ¬ PutsBack me f st a)
    (hs : step tid me f t st a = some st') : Inv tid f t st'.sys.s := by
  cases a with
  | sys a =>
    simp only [step, Option.ite_none_right_eq_some] at hs
    obtain ⟨ha, hs⟩ := hs
    obtain ⟨sys', hs', rfl⟩ := Option.map_eq_some_iff.mp hs
    exact sys_inv ht h ha hno hs'
  | sleep w ms now addr =>
    simp only [step] at hs
    split at hs
    · rename_i n g cb hpc
      obtain ⟨sys', hs', rfl⟩ := Option.map_eq_some_iff.mp hs
      simp only [Stopping.step, hpc] at hs'
      split at hs'
      · cases hs'
        exact inv_notify h _
      · cases hs'
    · cases hs
  | wake w =>
    simp only [step] at hs
    split at hs
    · rename_i n g hpc
      split at hs
      · rename_i x hx
        split at hs
        · cases hs
        · obtain ⟨s', hs', rfl⟩ := Option.map_eq_some_iff.mp hs
          refine sched_inv ht h (a := .schedule (.fiber (some x)) (-1)) ?_ hs'
          intro hf
          obtain rfl := Option.some.inj hf
          exact absurd ⟨n, g, hpc, hx⟩ hno
      · cases hs
    · cases hs

/-! ### Runs -/

omit [DecidableEq W] [DecidableEq F] [DecidableEq S] in
lemma start_inv (now : UInt64) (tickle : Fd) :
    Inv tid f t (start now tickle : St W S F C).sys.s := by
  refine ⟨fun e he => absurd he List.not_mem_nil, fun w n ft h => ?_, fun w n cb h => ?_, nofun⟩
  · cases h
  · cases h

/-- **A pinned fiber stays on its thread as long as the library does not put it back.** For any
workers and every run in which the user schedules the fiber once, pinned to `t`: if the library
never queues it again (after `YieldToReady`, by `triggerEvent`, or at the end of a sleep) unless
every worker has the id `t`, then each time it is swapped in, it is by the worker with the id
`t`. -/
theorem onThread_of_not_put_back (tid : W → ℤ) (me : S) (f : F) (t : ℤ) (ht : t ≠ -1)
    (now : UInt64) (tickle : Fd) (as : List (Act W S F C))
    (hc : Runs.Meets (step tid me f t) (Cond tid me f t) (start now tickle) as) :
    Runs.Meets (step tid me f t) (OnThread tid f t) (start now tickle) as := by
  refine Runs.meets_iff_split.mpr fun pre a post st has hr => ?_
  suffices hthread : ∀ w n cb, (st.sys.s.worker w).pc = .entering n f cb → tid w = t by
    unfold OnThread
    split
    · exact hthread _
    · trivial
  rw [has] at hc
  by_cases hall : ∀ w, tid w = t
  · exact fun w _ _ _ => hall w
  · have hinv : Inv tid f t st.sys.s :=
      Runs.run_inv_of_meets (I := fun st => Inv tid f t st.sys.s)
        (fun _ _ _ h hcond hs => step_inv ht h (fun hput => hall (hcond hput)) hs)
        (start_inv now tickle) (Runs.meets_append hc hr).1 hr
    exact hinv.entering

def twoThreads (w : Bool) : ℤ := if w then 7 else 8

/-- The fiber is pinned to 7, and the worker with that id runs it. -/
theorem onThread_of_not_put_back_once :
    (Runs.run (step twoThreads () 0 7) (start 0 3 : St Bool Unit ℕ ℕ)
      [.sys (.sched (.create 0)), .sys (.sched (.schedule (.fiber (some 0)) 7)),
        .sys (.sched (.worker false .start)), .sys (.sched (.worker false .scan)),
        .sys (.sched (.worker true .start)), .sys (.sched (.worker true .scan)),
        .sys (.sched (.worker true (.branch 9))), .sys (.sched (.worker true .swapIn))]).isSome ∧
    Runs.Meets (step twoThreads () 0 7) (OnThread twoThreads 0 7)
      (start 0 3 : St Bool Unit ℕ ℕ)
      [.sys (.sched (.create 0)), .sys (.sched (.schedule (.fiber (some 0)) 7)),
        .sys (.sched (.worker false .start)), .sys (.sched (.worker false .scan)),
        .sys (.sched (.worker true .start)), .sys (.sched (.worker true .scan)),
        .sys (.sched (.worker true (.branch 9))), .sys (.sched (.worker true .swapIn))] := by
  refine ⟨rfl, onThread_of_not_put_back twoThreads () 0 7 (by decide) 0 3 _ ?_⟩
  exact ⟨nofun, fun _ _ => ⟨nofun, fun _ _ => ⟨nofun, fun _ _ => ⟨nofun, fun _ _ =>
    ⟨nofun, fun _ _ => ⟨nofun, fun _ _ => ⟨nofun, fun _ _ => ⟨nofun, fun _ _ => trivial⟩⟩⟩⟩⟩⟩⟩⟩

/-- The fiber is pinned to 7 and yields to be ready; the worker with the id 8 swaps it in. -/
theorem ready_fiber_loses_its_pin :
    ¬ Runs.Meets (step twoThreads () 0 7) (OnThread twoThreads 0 7)
      (start 0 3 : St Bool Unit ℕ ℕ)
      [.sys (.sched (.create 0)), .sys (.sched (.schedule (.fiber (some 0)) 7)),
        .sys (.sched (.worker true .start)), .sys (.sched (.worker true .scan)),
        .sys (.sched (.worker true (.branch 9))), .sys (.sched (.worker true .swapIn)),
        .sys (.sched (.worker true .yieldToReady)), .sys (.sched (.worker true .swapOut)),
        .sys (.sched (.worker true .decrement)), .sys (.sched (.worker true .readState)),
        .sys (.sched (.worker true .requeue)), .sys (.sched (.worker false .start)),
        .sys (.sched (.worker false .scan)), .sys (.sched (.worker false (.branch 9))),
        .sys (.sched (.worker false .swapIn))] := by
  intro h
  have hlast := Runs.meets_iff_split.mp h
    [.sys (.sched (.create 0)), .sys (.sched (.schedule (.fiber (some 0)) 7)),
      .sys (.sched (.worker true .start)), .sys (.sched (.worker true .scan)),
      .sys (.sched (.worker true (.branch 9))), .sys (.sched (.worker true .swapIn)),
      .sys (.sched (.worker true .yieldToReady)), .sys (.sched (.worker true .swapOut)),
      .sys (.sched (.worker true .decrement)), .sys (.sched (.worker true .readState)),
      .sys (.sched (.worker true .requeue)), .sys (.sched (.worker false .start)),
      .sys (.sched (.worker false .scan)), .sys (.sched (.worker false (.branch 9)))]
    (.sys (.sched (.worker false .swapIn))) [] _ rfl rfl
  exact absurd (hlast 1 false rfl) (by decide)

end Sylar.Pinned
