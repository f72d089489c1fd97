import Sylar.SchedulerSteps
import Sylar.Lib.Tally

/-!
Whether a fiber can run on two workers at once.

What keeps a fiber from being swapped in twice is its state, which the scan reads and
`swapIn`, the two yields and `run` write. That is enough as long as there is never more than
one wake-up of a fiber on its way.
-/

namespace Sylar.SwapIn

open Lib Lib.Tally Sylar.FiberModel FiberAndThread Sylar.SchedulerModel Scheduler
open Sylar.SchedulerSteps

variable {W F C : Type} [DecidableEq F]

/-! ### Where a fiber is -/

/-- The worker has taken an entry with the fiber. -/
def pick (f : F) : Pc F C → ℕ
  | .picked _ ft => if ft.fiber = some f then 1 else 0
  | _ => 0

/-- The worker is about to swap the fiber in, or to queue it again. -/
def hot (f : F) : Pc F C → ℕ
  | .entering _ g _ | .requeue g _ => if g = f then 1 else 0
  | _ => 0

/-- The worker has the fiber, whose state is `EXEC`. -/
def runs (f : F) : Pc F C → ℕ
  | .running _ g _ | .hold g _ | .leaving _ g _ .exec | .back _ g _ .exec | .after g _ .exec =>
    if g = f then 1 else 0
  | _ => 0

/-- The worker has the fiber, whose state is `READY`. -/
def yields (f : F) : Pc F C → ℕ
  | .leaving _ g _ .ready | .back _ g _ .ready | .after g _ .ready => if g = f then 1 else 0
  | _ => 0

def ends (f : F) : Pc F C → ℕ
  | .leaving _ g _ how | .back _ g _ how | .after g _ how =>
    if g = f ∧ (how = .term ∨ how = .except) then 1 else 0
  | _ => 0

/-- The fiber that is the worker's `cb_fiber` and is in use. -/
def usedCb : Pc F C → Option F
  | .entering _ f true | .running _ f true | .leaving _ f true _ | .back _ f true _
  | .after f true _ | .hold f true | .requeue f true => some f
  | _ => none

/-- The fiber is kept as `cb_fiber` for the next callback. -/
def parked (f : F) (v : Worker F C) : ℕ :=
  if usedCb v.pc = none ∧ v.cbFiber = some f then 1 else 0

def queued (f : F) (q : List (ℕ × FiberAndThread F C)) : ℕ :=
  q.countP fun e => e.2.fiber = some f

section Pending

variable [Fintype W]

/-- The wake-ups of the fiber that are on their way: its entries in the queue, the workers
that have taken one and not swapped it in, those about to queue it again after
`YieldToReady`, and those that keep it for their next callback. -/
def pending (s : Scheduler W F C) (f : F) : ℕ :=
  queued f s.fibers + tally (fun v => pick f v.pc) s.worker +
    tally (fun v => hot f v.pc + parked f v) s.worker + tally (fun v => yields f v.pc) s.worker

/-- No step makes a second wake-up: a fiber is scheduled, yields to be ready, or is kept as
`cb_fiber`, only when none is on its way. -/
def Single (s : Scheduler W F C) : Action W F C → Prop
  | .worker w .yieldToReady =>
    ∀ n f cb, (s.worker w).pc = .running n f cb → pending s f = 0
  | .worker w .readState =>
    ∀ f how, (s.worker w).pc = .after f true how → ended (s.state f) = true → pending s f = 0
  | .schedule fc thread => ∀ f, (make fc thread).fiber = some f → pending s f = 0
  | .scheduleAll fcs => ∀ f, (∃ fc ∈ fcs, (make fc (-1)).fiber = some f) →
      pending s f = 0 ∧ (fcs.countP fun fc => (make fc (-1)).fiber = some f) = 1
  | _ => True

end Pending

/-- How the numbers for one fiber and its state go together: `q` entries in the queue, `p`
workers with an entry, `h` about to use the fiber, and `r`, `y`, `e` that have it in state
`EXEC`, `READY` and ended. -/
structure Ok (q p h r y e : ℕ) (st : Option State) : Prop where
  one : q + p + h + y ≤ 1
  owner : r + y + e ≤ 1
  apart : r + y + e ≠ 0 → h = 0
  away : r ≠ 0 → p = 0
  exec : r ≠ 0 → st = some .exec
  ready : y ≠ 0 → st = some .ready
  ended : e ≠ 0 → ended st = true
  idle : p + h ≠ 0 → st ≠ some .exec
  absent : st = none → q + p + h + y = 0

namespace Ok

variable {q p h r y e q' p' h' r' y' e' : ℕ} {st : Option State}

lemma le (hok : Ok q p h r y e st) (hq : q' = q) (hp : p' ≤ p) (hh : h' = h) (hr : r' = r)
    (hy : y' = y) (he : e' ≤ e) : Ok q' p' h' r' y' e' st := by
  subst hq hh hr hy
  exact ⟨by have := hok.one; omega, by have := hok.owner; omega,
    fun hne => hok.apart (by omega), fun hne => by have := hok.away hne; omega, hok.exec,
    hok.ready, fun hne => hok.ended (by omega), fun hne => hok.idle (by omega),
    fun hst => by have := hok.absent hst; omega⟩

/-- A scan takes the entry of a fiber that is not running. -/
lemma take (hok : Ok q p h r y e st) (hq : q' + 1 = q) (hp : p' = p + 1) (hh : h' = h)
    (hr : r' = r) (hy : y' = y) (he : e' = e) (hst : st ≠ some .exec) :
    Ok q' p' h' r' y' e' st := by
  subst hq hp hh hr hy he
  have h1 := hok.one
  exact ⟨by omega, hok.owner, hok.apart, fun hne => absurd (hok.exec hne) hst, hok.exec,
    hok.ready, hok.ended, fun _ => hst, fun h0 => by have := hok.absent h0; omega⟩

/-- The worker goes on to swap the fiber in, since it has not ended. -/
lemma enter (hok : Ok q p h r y e st) (hq : q' = q) (hp : p' + 1 = p) (hh : h' = h + 1)
    (hr : r' = r) (hy : y' = y) (he : e' = e) (hst : SchedulerModel.ended st = false) :
    Ok q' p' h' r' y' e' st := by
  subst hq hp hh hr hy he
  have h1 := hok.one
  have hr : r' = 0 := by
    by_contra hne
    have := hok.away hne
    omega
  have he : e' = 0 := by
    by_contra hne
    have := hok.ended hne
    rw [hst] at this
    cases this
  exact ⟨by omega, hok.owner, fun hne => by omega, fun hne => by omega, hok.exec, hok.ready,
    hok.ended, fun _ => hok.idle (by omega), fun h0 => by have := hok.absent h0; omega⟩

lemma swapIn (hok : Ok q p h r y e st) (hq : q' = q) (hp : p' = p) (hh : h' + 1 = h)
    (hr : r' = r + 1) (hy : y' = y) (he : e' = e) : Ok q' p' h' r' y' e' (some .exec) := by
  subst hq hp hh hr hy he
  have h1 := hok.one
  have h2 : r + y' + e' = 0 := by
    by_contra hne
    have := hok.apart hne
    omega
  exact ⟨by omega, by omega, fun _ => by omega, fun _ => by omega, fun _ => rfl,
    fun hne => by omega, fun hne => by omega, fun hne => by omega, nofun⟩

/-- The fiber yields to be ready, with no other wake-up on its way. -/
lemma yield (hok : Ok q p h r y e st) (hq : q' = q) (hp : p' = p) (hh : h' = h)
    (hr : r' + 1 = r) (hy : y' = y + 1) (he : e' = e) (hnone : q + p + h + y = 0) :
    Ok q' p' h' r' y' e' (some .ready) := by
  subst hq hp hh hr hy he
  have h2 := hok.owner
  exact ⟨by omega, by omega, fun _ => by omega, fun hne => by omega, fun hne => by omega,
    fun _ => rfl, fun hne => by omega, fun hne => by omega, nofun⟩

lemma finish {st' : State} (hok : Ok q p h r y e st) (hq : q' = q) (hp : p' = p) (hh : h' = h)
    (hr : r' + 1 = r) (hy : y' = y) (he : e' = e + 1) (hst : st' = .term ∨ st' = .except) :
    Ok q' p' h' r' y' e' (some st') := by
  subst hq hp hh hr hy he
  have h2 := hok.owner
  have h3 := hok.apart (by omega)
  have h4 := hok.away (by omega)
  refine ⟨hok.one, by omega, fun _ => h3, fun hne => by omega, fun hne => by omega,
    fun hne => by omega, fun _ => ?_, fun hne => by omega, nofun⟩
  rcases hst with rfl | rfl <;> rfl

/-- A worker reads `READY` and goes on to queue the fiber. -/
lemma requeue (hok : Ok q p h r y e st) (hq : q' = q) (hp : p' = p) (hh : h' = h + 1)
    (hr : r' = r) (hy : y' + 1 = y) (he : e' = e) : Ok q' p' h' r' y' e' st := by
  subst hq hp hh hr hy he
  have h1 := hok.one
  have h2 := hok.owner
  have h3 := hok.ready (by omega)
  exact ⟨by omega, by omega, fun hne => by omega, fun hne => by omega, fun hne => by omega,
    fun _ => h3, fun hne => by omega, fun _ => by rw [h3]; exact nofun,
    fun h0 => by rw [h3] at h0; cases h0⟩

lemma push (hok : Ok q p h r y e st) (hq : q' = q + 1) (hp : p' = p) (hh : h' + 1 = h)
    (hr : r' = r) (hy : y' = y) (he : e' = e) : Ok q' p' h' r' y' e' st := by
  subst hq hp hh hr hy he
  have h1 := hok.one
  exact ⟨by omega, hok.owner, fun hne => by have := hok.apart hne; omega, hok.away, hok.exec,
    hok.ready, hok.ended, fun hne => hok.idle (by omega),
    fun h0 => by have := hok.absent h0; omega⟩

lemma hold (hok : Ok q p h r y e st) (hq : q' = q) (hp : p' = p) (hh : h' = h)
    (hr : r' + 1 = r) (hy : y' = y) (he : e' = e) : Ok q' p' h' r' y' e' (some .hold) := by
  subst hq hp hh hr hy he
  have h2 := hok.owner
  have h4 := hok.away (by omega)
  exact ⟨hok.one, by omega, fun hne => by omega, fun hne => by omega, fun hne => by omega,
    fun hne => by omega, fun hne => by omega, fun _ => nofun, nofun⟩

/-- A fiber that has ended is kept for the next callback, with no wake-up on its way. -/
lemma park (hok : Ok q p h r y e st) (hq : q' = q) (hp : p' = p) (hh : h' = h + 1)
    (hr : r' = r) (hy : y' = y) (he : e' + 1 = e) (hnone : q + p + h + y = 0) :
    Ok q' p' h' r' y' e' (some .init) := by
  subst hq hp hh hr hy he
  have h2 := hok.owner
  exact ⟨by omega, by omega, fun hne => by omega, fun hne => by omega, fun hne => by omega,
    fun hne => by omega, fun hne => by omega, fun _ => nofun, nofun⟩

/-- A fiber that nobody has is made, or made ready for a callback. -/
lemma init (hok : Ok q p h r y e st) (hq : q' = q) (hp : p' ≤ p) (hh : h' = h) (hr : r' = r)
    (hy : y' = y) (he : e' = e) (hst : st = none ∨ h ≠ 0) : Ok q' p' h' r' y' e' (some .init) := by
  subst hq hh hr hy he
  have h1 := hok.one
  have h2 : r' + y' + e' = 0 := by
    rcases hst with rfl | hne
    · by_contra hne
      rcases (by omega : r' ≠ 0 ∨ y' ≠ 0 ∨ e' ≠ 0) with h | h | h
      · cases hok.exec h
      · cases hok.ready h
      · cases hok.ended h
    · by_contra h0
      exact hne (hok.apart h0)
  exact ⟨by omega, by omega, fun hne => by omega, fun hne => by omega, fun hne => by omega,
    fun hne => by omega, fun hne => by omega, fun _ => nofun, nofun⟩

lemma fresh (hok : Ok q p h r y e none) (hq : q' = q) (hp : p' ≤ p) (hh : h' = h + 1)
    (hr : r' = r) (hy : y' = y) (he : e' = e) : Ok q' p' h' r' y' e' (some .init) := by
  have h1 := hok.absent rfl
  have hinit := hok.init rfl (le_refl p) rfl rfl rfl rfl (.inl rfl)
  have hr0 : r = 0 := by
    by_contra hne
    cases hinit.exec hne
  have hy0 : y = 0 := by
    by_contra hne
    cases hinit.ready hne
  have he0 : e = 0 := by
    by_contra hne
    cases hinit.ended hne
  exact ⟨by omega, by omega, fun hne => by omega, fun hne => by omega, fun hne => by omega,
    fun hne => by omega, fun hne => by omega, fun _ => nofun, nofun⟩

lemma schedule (hok : Ok q p h r y e st) (hq : q' = q + 1) (hst : st ≠ none)
    (hnone : q + p + h + y = 0) : Ok q' p h r y e st := by
  subst hq
  exact ⟨by omega, hok.owner, hok.apart, hok.away, hok.exec, hok.ready, hok.ended, hok.idle,
    fun h0 => absurd h0 hst⟩

end Ok

/-! ### The invariant -/

section Invariant

variable [Fintype W]

/-- The numbers of one fiber. -/
def OkAt (s : Scheduler W F C) (f : F) : Prop :=
  Ok (queued f s.fibers) (tally (fun v => pick f v.pc) s.worker)
    (tally (fun v => hot f v.pc + parked f v) s.worker) (tally (fun v => runs f v.pc) s.worker)
    (tally (fun v => yields f v.pc) s.worker) (tally (fun v => ends f v.pc) s.worker) (s.state f)

/-- A fiber does not leave its worker in state `INIT` or `HOLD`. -/
def Left : Pc F C → Prop
  | .leaving _ _ _ how | .back _ _ _ how | .after _ _ how => how ≠ .init ∧ how ≠ .hold
  | _ => True

/-- The fiber in use as `cb_fiber` is the worker's `cb_fiber`. -/
def Wf (v : Worker F C) : Prop :=
  (∀ f, usedCb v.pc = some f → v.cbFiber = some f) ∧ Left v.pc

structure Inv (s : Scheduler W F C) : Prop where
  ok : ∀ f, OkAt s f
  wf : ∀ w, Wf (s.worker w)

variable [DecidableEq W]

lemma okAt_step {s s' : Scheduler W F C} {w : W} {v : Worker F C} {p : Pc F C} {f : F}
    {q : List (ℕ × FiberAndThread F C)} {st : Option State} (h : OkAt s f)
    (hw : s'.worker = Function.update s.worker w v) (hpc : (s.worker w).pc = p)
    (hq : s'.fibers = q) (hst : s'.state f = st)
    (hok : ∀ P H R Y E P' H' R' Y' E', Ok (queued f s.fibers) P H R Y E (s.state f) →
      queued f s.fibers + P + H + Y = pending s f →
      hot f p + parked f (s.worker w) ≤ H → P' + pick f p = P + pick f v.pc →
      H' + (hot f p + parked f (s.worker w)) = H + (hot f v.pc + parked f v) →
      R' + runs f p = R + runs f v.pc → Y' + yields f p = Y + yields f v.pc →
      E' + ends f p = E + ends f v.pc → Ok (queued f q) P' H' R' Y' E' st) : OkAt s' f := by
  subst hpc
  unfold OkAt
  rw [hw, hq, hst]
  exact hok _ _ _ _ _ _ _ _ _ _ h rfl
    (le_tally (fun v => hot f v.pc + parked f v) s.worker w)
    (tally_update (fun v => pick f v.pc) s.worker w v)
    (tally_update (fun v => hot f v.pc + parked f v) s.worker w v)
    (tally_update (fun v => runs f v.pc) s.worker w v)
    (tally_update (fun v => yields f v.pc) s.worker w v)
    (tally_update (fun v => ends f v.pc) s.worker w v)

/-- A step of the worker that does not touch its `cb_fiber`. -/
lemma okAt_pc {s s' : Scheduler W F C} {w : W} {v : Worker F C} {p : Pc F C} {f : F}
    {q : List (ℕ × FiberAndThread F C)} {st : Option State} (h : OkAt s f)
    (hw : s'.worker = Function.update s.worker w v) (hpc : (s.worker w).pc = p)
    (hq : s'.fibers = q) (hst : s'.state f = st) (hcb : v.cbFiber = (s.worker w).cbFiber)
    (hused : usedCb v.pc = usedCb p)
    (hok : ∀ P H R Y E P' H' R' Y' E', Ok (queued f s.fibers) P H R Y E (s.state f) →
      queued f s.fibers + P + H + Y = pending s f →
      P' + pick f p = P + pick f v.pc → H' + hot f p = H + hot f v.pc →
      R' + runs f p = R + runs f v.pc → Y' + yields f p = Y + yields f v.pc →
      E' + ends f p = E + ends f v.pc → Ok (queued f q) P' H' R' Y' E' st) : OkAt s' f := by
  refine okAt_step h hw hpc hq hst fun P H R Y E P' H' R' Y' E' ok hp _ c1 c2 c3 c4 c5 => ?_
  have hparked : parked f v = parked f (s.worker w) := by
    simp only [parked, hcb, hused, hpc]
  exact hok P H R Y E P' H' R' Y' E' ok hp c1 (by omega) c3 c4 c5

omit [Fintype W] [DecidableEq F] in
lemma wf_update {s s' : Scheduler W F C} {w : W} {v : Worker F C} (h : ∀ w, Wf (s.worker w))
    (hw : s'.worker = Function.update s.worker w v) (hv : Wf v) (x : W) : Wf (s'.worker x) := by
  rw [hw]
  by_cases hxw : x = w
  · subst hxw
    rwa [Function.update_self]
  · rw [Function.update_of_ne hxw]
    exact h x

omit [Fintype W] [DecidableEq F] [DecidableEq W] in
lemma wf_of_used {s : Scheduler W F C} (h : ∀ w, Wf (s.worker w)) {w : W} {v : Worker F C}
    {p : Pc F C} (hpc : (s.worker w).pc = p) (hcb : v.cbFiber = (s.worker w).cbFiber)
    (hused : usedCb v.pc = usedCb p) (hl : Left v.pc) : Wf v := by
  refine ⟨fun f hf => ?_, hl⟩
  rw [hcb]
  exact (h w).1 f (by rw [hpc, ← hused]; exact hf)

/-- Two program counters that are alike for every fiber. -/
structure Alike (p p' : Pc F C) : Prop where
  pick : ∀ f, pick f p' = pick f p
  hot : ∀ f, hot f p' = hot f p
  runs : ∀ f, runs f p' = runs f p
  yields : ∀ f, yields f p' = yields f p
  ends : ∀ f, ends f p' = ends f p
  used : usedCb p' = usedCb p
  left : Left p'

lemma inv_alike {s s' : Scheduler W F C} (h : Inv s) {w : W} {v : Worker F C} {p : Pc F C}
    (hw : s'.worker = Function.update s.worker w v) (hpc : (s.worker w).pc = p)
    (hp : Alike p v.pc) (hcb : v.cbFiber = (s.worker w).cbFiber) (hq : s'.fibers = s.fibers)
    (hst : s'.state = s.state) : Inv s' := by
  refine ⟨fun f => ?_, wf_update h.wf hw (wf_of_used h.wf hpc hcb hp.used hp.left)⟩
  refine okAt_pc (h.ok f) hw hpc hq (congrFun hst f) hcb hp.used
    fun P H R Y E P' H' R' Y' E' ok _ c1 c2 c3 c4 c5 => ?_
  rw [hp.pick] at c1
  rw [hp.hot] at c2
  rw [hp.runs] at c3
  rw [hp.yields] at c4
  rw [hp.ends] at c5
  exact ok.le rfl (by omega) (by omega) (by omega) (by omega) (by omega)

/-! ### The steps -/

lemma inv_take {tid : W → ℤ} {s : Scheduler W F C} (h : Inv s) {w : W} {n : ℕ}
    {ft : FiberAndThread F C} (hpc : (s.worker w).pc = .scan)
    (hscan : (scan (tid w) s.state s.fibers).taken = some (n, ft)) (t : Tick) :
    Inv ({ s with
      fibers := (scan (tid w) s.state s.fibers).rest
      activeThreadCount := s.activeThreadCount + 1 }.setWorker w
        { s.worker w with pc := .picked n ft, tickle := t }) := by
  obtain ⟨q₁, q₂, hq, hrest, -, he, -⟩ := scan_taken hscan
  refine ⟨fun f => ?_, wf_update h.wf rfl ⟨fun f hf => (by cases hf), trivial⟩⟩
  have hcount : queued f (q₁ ++ q₂) + (if ft.fiber = some f then 1 else 0) =
      queued f s.fibers := by
    rw [hq]
    simp only [queued, List.countP_append, List.countP_cons, decide_eq_true_eq]
    omega
  refine okAt_pc (h.ok _) rfl hpc hrest rfl rfl rfl
    fun P H R Y E P' H' R' Y' E' ok _ c1 c2 c3 c4 c5 => ?_
  simp only [pick, hot, runs, yields, ends] at c1 c2 c3 c4 c5
  by_cases hf : ft.fiber = some f
  · rw [if_pos hf] at hcount c1
    exact ok.take hcount c1 c2 c3 c4 c5 (he.2 f hf)
  · rw [if_neg hf] at hcount c1
    exact ok.le hcount c1.le c2 c3 c4 c5.le

lemma inv_enter {s : Scheduler W F C} (h : Inv s) {w : W} {n : ℕ} {ft : FiberAndThread F C}
    (hpc : (s.worker w).pc = .picked n ft) {g : F} (hg : ft.fiber = some g)
    (hst : ended (s.state g) = false) : Inv (s.setPc w (.entering n g false)) := by
  refine ⟨fun f => ?_, wf_update h.wf rfl ⟨fun f hf => (by cases hf), trivial⟩⟩
  refine okAt_pc (h.ok _) rfl hpc rfl rfl rfl rfl
    fun P H R Y E P' H' R' Y' E' ok _ c1 c2 c3 c4 c5 => ?_
  simp only [pick, hot, runs, yields, ends, hg, Option.some.injEq] at c1 c2 c3 c4 c5
  by_cases hf : g = f
  · rw [if_pos hf] at c1 c2
    subst hf
    exact ok.enter rfl c1 c2 c3 c4 c5 hst
  · rw [if_neg hf] at c1 c2
    exact ok.le rfl c1.le c2 c3 c4 c5.le

lemma inv_drop {s : Scheduler W F C} (h : Inv s) {w : W} {n : ℕ} {ft : FiberAndThread F C}
    (hpc : (s.worker w).pc = .picked n ft) : Inv (s.setPc w (.dropping n)) := by
  refine ⟨fun f => ?_, wf_update h.wf rfl ⟨fun f hf => (by cases hf), trivial⟩⟩
  refine okAt_pc (h.ok _) rfl hpc rfl rfl rfl rfl
    fun P H R Y E P' H' R' Y' E' ok _ c1 c2 c3 c4 c5 => ?_
  simp only [pick, hot, runs, yields, ends] at c1 c2 c3 c4 c5
  exact ok.le rfl (by omega) c2 c3 c4 c5.le

lemma inv_swapIn {s : Scheduler W F C} (h : Inv s) {w : W} {n : ℕ} {g : F} {cb : Bool}
    (hpc : (s.worker w).pc = .entering n g cb) :
    Inv ((s.setState g .exec).setPc w (.running n g cb)) := by
  have hused : usedCb (.running n g cb : Pc F C) = usedCb (.entering n g cb : Pc F C) := by
    cases cb <;> rfl
  refine ⟨fun f => ?_, wf_update h.wf rfl (wf_of_used h.wf hpc rfl hused trivial)⟩
  by_cases hf : g = f
  · subst hf
    refine okAt_pc (h.ok _) rfl hpc rfl (Function.update_self ..) rfl hused
      fun P H R Y E P' H' R' Y' E' ok _ c1 c2 c3 c4 c5 => ?_
    simp only [pick, hot, runs, yields, ends, if_true] at c1 c2 c3 c4 c5
    exact ok.swapIn rfl c1 c2 c3 c4 c5
  · refine okAt_pc (h.ok _) rfl hpc rfl (Function.update_of_ne (Ne.symm hf) ..) rfl hused
      fun P H R Y E P' H' R' Y' E' ok _ c1 c2 c3 c4 c5 => ?_
    simp only [pick, hot, runs, yields, ends, if_neg hf] at c1 c2 c3 c4 c5
    exact ok.le rfl c1.le c2 c3 c4 c5.le

/-- The fiber leaves its worker in another state than `EXEC`. -/
lemma inv_leave {s : Scheduler W F C} (h : Inv s) {w : W} {n : ℕ} {g : F} {cb : Bool}
    (hpc : (s.worker w).pc = .running n g cb) {st : State}
    (hst : st = .ready ∧ pending s g = 0 ∨ st = .term ∨ st = .except) :
    Inv ((s.setState g st).setPc w (.leaving n g cb st)) := by
  have hused : usedCb (.leaving n g cb st : Pc F C) = usedCb (.running n g cb : Pc F C) := by
    cases cb <;> rfl
  refine ⟨fun f => ?_, wf_update h.wf rfl (wf_of_used h.wf hpc rfl hused ?_)⟩
  swap
  · rcases hst with ⟨rfl, -⟩ | rfl | rfl <;> exact ⟨nofun, nofun⟩
  by_cases hf : g = f
  · subst hf
    refine okAt_pc (h.ok _) rfl hpc rfl (Function.update_self ..) rfl hused
      fun P H R Y E P' H' R' Y' E' ok hp c1 c2 c3 c4 c5 => ?_
    rcases hst with ⟨rfl, hnone⟩ | rfl | rfl
    · simp [pick, hot, runs, yields, ends] at c1 c2 c3 c4 c5
      exact ok.yield rfl c1 c2 c3 c4 c5 (by omega)
    · simp [pick, hot, runs, yields, ends] at c1 c2 c3 c4 c5
      exact ok.finish rfl c1 c2 c3 c4 c5 (.inl rfl)
    · simp [pick, hot, runs, yields, ends] at c1 c2 c3 c4 c5
      exact ok.finish rfl c1 c2 c3 c4 c5 (.inr rfl)
  · refine okAt_pc (h.ok _) rfl hpc rfl (Function.update_of_ne (Ne.symm hf) ..) rfl hused
      fun P H R Y E P' H' R' Y' E' ok _ c1 c2 c3 c4 c5 => ?_
    rcases hst with ⟨rfl, -⟩ | rfl | rfl <;>
      simp [pick, hot, runs, yields, ends, hf] at c1 c2 c3 c4 c5 <;>
      exact ok.le rfl c1.le c2 c3 c4 c5.le

lemma inv_ready {s : Scheduler W F C} (h : Inv s) {w : W} {g : F} {cb : Bool} {how : State}
    (hpc : (s.worker w).pc = .after g cb how) (hhow : how = .ready) :
    Inv (s.setPc w (.requeue g cb)) := by
  subst hhow
  have hused : usedCb (.requeue g cb : Pc F C) = usedCb (.after g cb .ready : Pc F C) := by
    cases cb <;> rfl
  refine ⟨fun f => ?_, wf_update h.wf rfl (wf_of_used h.wf hpc rfl hused trivial)⟩
  refine okAt_pc (h.ok _) rfl hpc rfl rfl rfl hused
    fun P H R Y E P' H' R' Y' E' ok _ c1 c2 c3 c4 c5 => ?_
  simp only [pick, hot, runs, yields, ends, reduceCtorEq, or_self, and_false, if_false]
    at c1 c2 c3 c4 c5
  by_cases hf : g = f
  · rw [if_pos hf] at c2 c4
    exact ok.requeue rfl c1 c2 c3 c4 c5
  · rw [if_neg hf] at c2 c4
    exact ok.le rfl c1.le c2 c3 c4 c5.le

lemma inv_quit {s : Scheduler W F C} (h : Inv s) {w : W} {g : F} {how : State}
    (hpc : (s.worker w).pc = .after g false how) (hhow : how = .term ∨ how = .except) :
    Inv (s.setPc w .scan) := by
  refine ⟨fun f => ?_, wf_update h.wf rfl ⟨fun f hf => (by cases hf), trivial⟩⟩
  refine okAt_pc (h.ok _) rfl hpc rfl rfl rfl rfl
    fun P H R Y E P' H' R' Y' E' ok _ c1 c2 c3 c4 c5 => ?_
  rcases hhow with rfl | rfl <;> simp [pick, hot, runs, yields, ends] at c1 c2 c3 c4 c5 <;>
    exact ok.le rfl c1.le c2 c3 c4 (by omega)

lemma inv_reuse {s : Scheduler W F C} (h : Inv s) {w : W} {n : ℕ} {ft : FiberAndThread F C}
    {g : F} (hpc : (s.worker w).pc = .picked n ft) (hslot : (s.worker w).cbFiber = some g) :
    Inv ((s.setState g .init).setPc w (.entering n g true)) := by
  refine ⟨fun f => ?_, wf_update h.wf rfl ⟨fun f hf => ?_, trivial⟩⟩
  · by_cases hf : g = f
    · subst hf
      refine okAt_step (h.ok _) rfl hpc rfl (Function.update_self ..)
        fun P H R Y E P' H' R' Y' E' ok _ hle c1 c2 c3 c4 c5 => ?_
      simp only [pick, hot, runs, yields, ends, parked, usedCb, hpc, setState, hslot, and_self,
        if_true, reduceCtorEq, false_and, if_false] at hle c1 c2 c3 c4 c5
      exact ok.init rfl (by omega) (by omega) c3 c4 c5 (.inr (by omega))
    · have hne : ¬ some g = some f := fun h => hf (Option.some.inj h)
      refine okAt_step (h.ok _) rfl hpc rfl (Function.update_of_ne (Ne.symm hf) ..)
        fun P H R Y E P' H' R' Y' E' ok _ _ c1 c2 c3 c4 c5 => ?_
      simp only [pick, hot, runs, yields, ends, parked, usedCb, hpc, setState, hslot, hne,
        and_false, if_neg hf, if_false, reduceCtorEq] at c1 c2 c3 c4 c5
      exact ok.le rfl (by omega) (by omega) c3 c4 c5.le
  · obtain rfl : g = f := Option.some.inj hf
    exact hslot

lemma inv_fresh {s : Scheduler W F C} (h : Inv s) {w : W} {n : ℕ} {ft : FiberAndThread F C}
    {new : F} (hpc : (s.worker w).pc = .picked n ft) (hslot : (s.worker w).cbFiber = none)
    (hst : s.state new = none) :
    Inv ((s.setState new .init).setWorker w
      { s.worker w with pc := .entering n new true, cbFiber := some new }) := by
  refine ⟨fun f => ?_, wf_update h.wf rfl ⟨fun f hf => hf, trivial⟩⟩
  by_cases hf : new = f
  · subst hf
    refine okAt_step (h.ok _) rfl hpc rfl (Function.update_self ..)
      fun P H R Y E P' H' R' Y' E' ok _ _ c1 c2 c3 c4 c5 => ?_
    simp only [pick, hot, runs, yields, ends, parked, usedCb, hpc, hslot, and_false, if_true,
      reduceCtorEq, false_and, if_false] at c1 c2 c3 c4 c5
    rw [hst] at ok
    exact ok.fresh rfl (by omega) (by omega) c3 c4 c5
  · refine okAt_step (h.ok _) rfl hpc rfl (Function.update_of_ne (Ne.symm hf) ..)
      fun P H R Y E P' H' R' Y' E' ok _ _ c1 c2 c3 c4 c5 => ?_
    simp only [pick, hot, runs, yields, ends, parked, usedCb, hpc, hslot, and_false,
      if_neg hf, if_false, reduceCtorEq, false_and] at c1 c2 c3 c4 c5
    exact ok.le rfl (by omega) (by omega) c3 c4 c5.le

lemma inv_park {s : Scheduler W F C} (h : Inv s) {w : W} {g : F} {how : State}
    (hpc : (s.worker w).pc = .after g true how) (hhow : how = .term ∨ how = .except)
    (hnone : pending s g = 0) : Inv ((s.setState g .init).setPc w .scan) := by
  have hslot : (s.worker w).cbFiber = some g := (h.wf w).1 g (by rw [hpc]; rfl)
  refine ⟨fun f => ?_, wf_update h.wf rfl ⟨fun f hf => (by cases hf), trivial⟩⟩
  by_cases hf : g = f
  · subst hf
    refine okAt_step (h.ok _) rfl hpc rfl (Function.update_self ..)
      fun P H R Y E P' H' R' Y' E' ok hp _ c1 c2 c3 c4 c5 => ?_
    rcases hhow with rfl | rfl <;>
      simp [pick, hot, runs, yields, ends, parked, usedCb, hpc, setState, hslot]
        at c1 c2 c3 c4 c5 <;>
      exact ok.park rfl c1 (by omega) c3 c4 c5 (by omega)
  · refine okAt_step (h.ok _) rfl hpc rfl (Function.update_of_ne (Ne.symm hf) ..)
      fun P H R Y E P' H' R' Y' E' ok hp _ c1 c2 c3 c4 c5 => ?_
    rcases hhow with rfl | rfl <;>
      simp [pick, hot, runs, yields, ends, parked, usedCb, hpc, setState, hslot, hf]
        at c1 c2 c3 c4 c5 <;>
      exact ok.le rfl c1.le c2 c3 c4 c5.le

/-- Whether or not the fiber is its `cb_fiber`, the worker keeps no other one for the next
callback when it hands the fiber on. -/
lemma parked_dropCb {v : Worker F C} {g : F} (cb : Bool)
    (hp : usedCb v.pc = if cb then some g else none) (t : Tick) (f : F) :
    parked f ({ v with pc := .scan, tickle := t, cbFiber := dropCb v cb } : Worker F C) =
      parked f v := by
  have hscan : usedCb (.scan : Pc F C) = none := rfl
  cases cb <;> simp [parked, dropCb, hp, hscan]

lemma inv_writeHold {s : Scheduler W F C} (h : Inv s) {w : W} {g : F} {cb : Bool}
    (hpc : (s.worker w).pc = .hold g cb) :
    Inv ((s.setState g .hold).setWorker w
      { s.worker w with pc := .scan, cbFiber := dropCb (s.worker w) cb }) := by
  have hparked := parked_dropCb (v := s.worker w) (g := g) cb (by rw [hpc]; cases cb <;> rfl)
    (s.worker w).tickle
  refine ⟨fun f => ?_, wf_update h.wf rfl ⟨fun f hf => (by cases hf), trivial⟩⟩
  by_cases hf : g = f
  · subst hf
    refine okAt_step (h.ok _) rfl hpc rfl (Function.update_self ..)
      fun P H R Y E P' H' R' Y' E' ok _ _ c1 c2 c3 c4 c5 => ?_
    rw [hparked] at c2
    simp only [pick, hot, runs, yields, ends, if_true] at c1 c2 c3 c4 c5
    exact ok.hold rfl c1 (by omega) c3 c4 c5
  · refine okAt_step (h.ok _) rfl hpc rfl (Function.update_of_ne (Ne.symm hf) ..)
      fun P H R Y E P' H' R' Y' E' ok _ _ c1 c2 c3 c4 c5 => ?_
    rw [hparked] at c2
    simp only [pick, hot, runs, yields, ends, if_neg hf] at c1 c2 c3 c4 c5
    exact ok.le rfl c1.le (by omega) c3 c4 c5.le

lemma inv_requeue {s : Scheduler W F C} (h : Inv s) {w : W} {g : F} {cb : Bool} (t : Tick)
    (hpc : (s.worker w).pc = .requeue g cb) :
    Inv ((pushed s [make (.fiber (some g)) (-1)]).setWorker w
      { s.worker w with pc := .scan, tickle := t, cbFiber := dropCb (s.worker w) cb }) := by
  have hparked := parked_dropCb (v := s.worker w) (g := g) cb (by rw [hpc]; cases cb <;> rfl) t
  refine ⟨fun f => ?_, wf_update h.wf rfl ⟨fun f hf => (by cases hf), trivial⟩⟩
  have hcount : queued f (s.fibers ++ number s.issued.length [make (.fiber (some g)) (-1)]) =
      queued f s.fibers + if g = f then 1 else 0 := by
    simp [queued, number, make, List.countP_cons]
  refine okAt_step (h.ok _) rfl hpc rfl rfl
    fun P H R Y E P' H' R' Y' E' ok _ _ c1 c2 c3 c4 c5 => ?_
  rw [hparked] at c2
  simp only [pick, hot, runs, yields, ends] at c1 c2 c3 c4 c5
  by_cases hf : g = f
  · rw [if_pos hf] at hcount c2
    exact ok.push hcount c1 (by omega) c3 c4 c5
  · rw [if_neg hf] at hcount c2
    exact ok.le hcount c1.le (by omega) c3 c4 c5.le

omit [DecidableEq W] in
lemma inv_create {s : Scheduler W F C} (h : Inv s) {g : F} (hst : s.state g = none) :
    Inv (s.setState g .init) := by
  refine ⟨fun f => ?_, h.wf⟩
  have hok := h.ok f
  unfold OkAt at hok ⊢
  by_cases hf : g = f
  · subst hf
    rw [show (s.setState g .init).state g = some .init from Function.update_self ..]
    rw [hst] at hok
    exact hok.init rfl (le_refl _) rfl rfl rfl rfl (.inl rfl)
  · rw [show (s.setState g .init).state f = s.state f from
      Function.update_of_ne (Ne.symm hf) ..]
    exact hok

omit [DecidableEq W] in
lemma inv_schedule {s : Scheduler W F C} (h : Inv s) {fts : List (FiberAndThread F C)}
    (hk : ∀ ft ∈ fts, ∀ f, ft.fiber = some f → s.state f ≠ none)
    (hs : ∀ f, (∃ ft ∈ fts, ft.fiber = some f) →
      pending s f = 0 ∧ (fts.countP fun ft => ft.fiber = some f) = 1) (k : ℕ) :
    Inv { pushed s (fts.filter isWork) with asking := k } := by
  refine ⟨fun f => ?_, h.wf⟩
  have hcount : queued f (s.fibers ++ number s.issued.length (fts.filter isWork)) =
      queued f s.fibers + fts.countP fun ft => ft.fiber = some f := by
    have hwork (ft : FiberAndThread F C) (hf : ft.fiber = some f) : ft.isWork = true := by
      simp [isWork, hf]
    have hnum (k : ℕ) (l : List (FiberAndThread F C)) : (number k l).countP
        (fun e => e.2.fiber = some f) = l.countP fun ft => ft.fiber = some f := by
      induction l generalizing k with
      | nil => rfl
      | cons ft l ih => simp only [number, List.countP_cons, ih]
    rw [queued, List.countP_append, hnum, List.countP_filter]
    congr 1
    refine List.countP_congr fun ft _ => ?_
    simpa using hwork ft
  have hok := h.ok f
  unfold OkAt at hok ⊢
  by_cases hf : ∃ ft ∈ fts, ft.fiber = some f
  · obtain ⟨hnone, hone⟩ := hs f hf
    obtain ⟨ft, hft, hfib⟩ := hf
    exact hok.schedule (by rw [← hone]; exact hcount) (hk ft hft f hfib) hnone
  · have hzero : (fts.countP fun ft => ft.fiber = some f) = 0 := by
      rw [List.countP_eq_zero]
      intro ft hft
      simpa using fun h => hf ⟨ft, hft, h⟩
    rw [hzero] at hcount
    exact hok.le hcount (le_refl _) rfl rfl rfl (le_refl _)

omit [DecidableEq W] in
/-- The state the fiber left in is the one the worker reads afterwards. -/
lemma after_state {s : Scheduler W F C} (h : Inv s) {w : W} {g : F} {cb : Bool} {how : State}
    (hpc : (s.worker w).pc = .after g cb how) :
    (how = .exec ∧ s.state g = some .exec) ∨ (how = .ready ∧ s.state g = some .ready) ∨
      ((how = .term ∨ how = .except) ∧ ended (s.state g) = true) := by
  have hok := h.ok g
  have hl := (h.wf w).2
  have hr := le_tally (fun v => runs g v.pc) s.worker w
  have hy := le_tally (fun v => yields g v.pc) s.worker w
  have he := le_tally (fun v => ends g v.pc) s.worker w
  rw [hpc] at hl hr hy he
  cases how with
  | init => exact absurd rfl hl.1
  | hold => exact absurd rfl hl.2
  | exec =>
    simp only [runs, if_true] at hr
    exact .inl ⟨rfl, hok.exec (Nat.one_le_iff_ne_zero.mp hr)⟩
  | ready =>
    simp only [yields, if_true] at hy
    exact .inr (.inl ⟨rfl, hok.ready (Nat.one_le_iff_ne_zero.mp hy)⟩)
  | term =>
    simp only [ends, true_or, and_self, if_true] at he
    exact .inr (.inr ⟨.inl rfl, hok.ended (Nat.one_le_iff_ne_zero.mp he)⟩)
  | except =>
    simp only [ends, or_true, and_self, if_true] at he
    exact .inr (.inr ⟨.inr rfl, hok.ended (Nat.one_le_iff_ne_zero.mp he)⟩)

lemma inv_move {s : Scheduler W F C} (h : Inv s) {w : W} {a : Act F} {p : Pc F C}
    (hm : Move s (s.worker w).idleTerm a (s.worker w).pc p) : Inv (s.setPc w p) := by
  have hl := (h.wf w).2
  generalize hpc : (s.worker w).pc = q at hm
  rw [hpc] at hl
  cases hm with
  | start | exit | noTimer | noEvent | wait | wake | swapOutIdle =>
    exact inv_alike h rfl hpc ⟨fun _ => rfl, fun _ => rfl, fun _ => rfl, fun _ => rfl,
      fun _ => rfl, rfl, trivial⟩ rfl rfl rfl
  | enter n ft f new hf hst => exact inv_enter h hpc hf hst
  | drop n ft new hf => exact inv_drop h hpc
  | yieldToHold n f cb hst =>
    refine inv_alike h rfl hpc ⟨fun _ => rfl, fun _ => rfl, fun _ => rfl, fun _ => rfl,
      fun g => by simp [ends], by cases cb <;> rfl, nofun, nofun⟩ rfl rfl rfl
  | swapOut n f cb how =>
    exact inv_alike h rfl hpc ⟨fun _ => rfl, fun _ => rfl, fun _ => by cases how <;> rfl,
      fun _ => by cases how <;> rfl, fun _ => rfl, by cases cb <;> rfl, hl⟩ rfl rfl rfl
  | ready f cb how hst =>
    rcases after_state h hpc with ⟨-, hx⟩ | ⟨hhow, -⟩ | ⟨-, hx⟩
    · rw [hst] at hx; cases hx
    · exact inv_ready h hpc hhow
    · rw [hst] at hx; cases hx
  | quit f how hst =>
    rcases after_state h hpc with ⟨-, hx⟩ | ⟨-, hx⟩ | ⟨hhow, -⟩
    · rw [hx] at hst; cases hst
    · rw [hx] at hst; cases hst
    · exact inv_quit h hpc hhow
  | toHold f cb how hr hst =>
    rcases after_state h hpc with ⟨rfl, -⟩ | ⟨-, hx⟩ | ⟨-, hx⟩
    · exact inv_alike h rfl hpc ⟨fun _ => rfl, fun _ => rfl, fun _ => rfl, fun _ => rfl,
        fun g => by simp [ends], by cases cb <;> rfl, trivial⟩ rfl rfl rfl
    · exact absurd hx hr
    · rw [hst] at hx; cases hx

lemma step_inv {tid : W → ℤ} (s : Scheduler W F C) (a : Action W F C) (s' : Scheduler W F C)
    (h : Inv s) (hc : Single s a) (hs : step tid s a = some s') : Inv s' := by
  cases step_trans hs with
  | move w a p ht hm => exact inv_move h hm
  | ask w t ht hidle =>
    exact inv_alike h rfl rfl ⟨fun _ => rfl, fun _ => rfl, fun _ => rfl, fun _ => rfl,
      fun _ => rfl, rfl, (h.wf w).2⟩ rfl rfl rfl
  | write w ht =>
    exact inv_alike h rfl rfl ⟨fun _ => rfl, fun _ => rfl, fun _ => rfl, fun _ => rfl,
      fun _ => rfl, rfl, (h.wf w).2⟩ rfl rfl rfl
  | take w n ft ht hpc hscan => exact inv_take h hpc hscan _
  | reuse w n ft f new ht hpc hslot hst hf => exact inv_reuse h hpc hslot
  | fresh w n ft new ht hpc hslot hst hf => exact inv_fresh h hpc hslot hst
  | swapIn w n f cb ht hpc hst => exact inv_swapIn h hpc
  | leave w n f cb a st ht hpc ha =>
    refine inv_leave h hpc ?_
    rcases ha with ⟨rfl, rfl⟩ | ha
    · exact .inl ⟨rfl, hc n f cb hpc⟩
    · exact .inr ha
  | decrement w n p ht hpc =>
    rcases hpc with ⟨f, cb, how, hpc, rfl⟩ | ⟨hpc, rfl⟩
    · have hl : Left (.back n f cb how : Pc F C) := by rw [← hpc]; exact (h.wf w).2
      exact inv_alike h rfl hpc ⟨fun _ => rfl, fun _ => rfl, fun _ => by cases how <;> rfl,
        fun _ => by cases how <;> rfl, fun _ => rfl, by cases cb <;> rfl, hl⟩ rfl rfl rfl
    · exact inv_alike h rfl hpc ⟨fun _ => rfl, fun _ => rfl, fun _ => rfl, fun _ => rfl,
        fun _ => rfl, rfl, trivial⟩ rfl rfl rfl
  | park w f how ht hpc hst =>
    rcases after_state h hpc with ⟨-, hx⟩ | ⟨-, hx⟩ | ⟨hhow, -⟩
    · rw [hx] at hst; cases hst
    · rw [hx] at hst; cases hst
    · exact inv_park h hpc hhow (hc f how hpc hst)
  | writeHold w f cb ht hpc => exact inv_writeHold h hpc
  | requeue w f cb t ht hpc => exact inv_requeue h t hpc
  | miss w t ht hpc | goIdle w ht hpc | stop w ht hpc | drain w ht hpc | leaveIdle w ht hpc =>
    exact inv_alike h rfl hpc ⟨fun _ => rfl, fun _ => rfl, fun _ => rfl, fun _ => rfl,
      fun _ => rfl, rfl, trivial⟩ rfl rfl rfl
  | create f hst => exact inv_create h hst
  | schedule fts a ha hk =>
    refine inv_schedule h hk (fun f hf => ?_) _
    rcases ha with ⟨fc, thread, rfl, rfl⟩ | ⟨fcs, rfl, rfl⟩
    · obtain ⟨ft, hft, hfib⟩ := hf
      rw [List.mem_singleton.mp hft] at hfib
      exact ⟨hc f hfib, by simp [hfib]⟩
    · obtain ⟨ft, hft, hfib⟩ := hf
      obtain ⟨fc, hfc, rfl⟩ := List.mem_map.mp hft
      rw [List.countP_map]
      exact hc f ⟨fc, hfc, hfib⟩
  | tickle | askOut | writeOut | flags => exact ⟨h.ok, h.wf⟩

omit [DecidableEq W] in
lemma init_inv : Inv ({} : Scheduler W F C) := by
  have hzero (g : Worker F C → ℕ) (hg : g {} = 0) : tally g (fun _ : W => ({} : Worker F C)) = 0 :=
    tally_const_eq_zero hg
  refine ⟨fun f => ?_, fun w => ⟨nofun, trivial⟩⟩
  unfold OkAt
  rw [hzero _ rfl, hzero _ rfl, hzero _ rfl, hzero _ rfl, hzero _ rfl]
  exact ⟨by simp [queued], by omega, fun _ => rfl, fun _ => rfl, fun h => absurd rfl h,
    fun h => absurd rfl h, fun h => absurd rfl h, fun h => absurd rfl h, fun _ => by simp [queued]⟩

def swappedIn (f : F) : Pc F C → Prop
  | .running _ g _ | .leaving _ g _ _ => g = f
  | _ => False

/-- **A fiber with one wake-up at a time never runs on two workers.** In every run in which no
step makes a second wake-up of a fiber while one is on its way, in every state at most one
worker has a given fiber swapped in, and a worker about to swap a fiber in finds it not
running, as `swapIn` asserts. -/
theorem at_most_one_swappedIn (tid : W → ℤ) (as : List (Action W F C)) (s : Scheduler W F C)
    (hm : Runs.Meets (step tid) Single {} as) (hr : Runs.run (step tid) {} as = some s) :
    (∀ f w w', swappedIn f (s.worker w).pc → swappedIn f (s.worker w').pc → w = w') ∧
    ∀ w n f cb, (s.worker w).pc = .entering n f cb → s.state f ≠ some .exec := by
  have h : Inv s := Runs.run_inv_of_meets step_inv init_inv hm hr
  refine ⟨fun f w w' hw hw' => ?_, fun w n f cb hpc => ?_⟩
  · -- a worker with the fiber swapped in is one of those that have it
    have hhas (x : W) (hx : swappedIn f (s.worker x).pc) :
        runs f (s.worker x).pc + yields f (s.worker x).pc + ends f (s.worker x).pc ≠ 0 := by
      have hl := (h.wf x).2
      revert hx hl
      cases (s.worker x).pc with
      | running n g cb => rintro rfl -; simp [runs]
      | leaving n g cb how => rintro rfl hl; cases how <;> simp_all [runs, yields, ends, Left]
      | _ => exact nofun
    have hsum : tally (fun v => runs f v.pc + yields f v.pc + ends f v.pc) s.worker ≤ 1 := by
      have := (h.ok f).owner
      simpa only [tally, Finset.sum_add_distrib] using this
    exact eq_of_tally_le_one hsum (hhas w hw) (hhas w' hw')
  · have hle := le_tally (fun v => hot f v.pc + parked f v) s.worker w
    have hhot : hot f (.entering n f cb : Pc F C) = 1 := if_pos rfl
    refine (h.ok f).idle ?_
    rw [hpc, hhot] at hle
    omega

theorem at_most_one_swappedIn_requeued :
    ∃ s : Scheduler Bool ℕ ℕ, Runs.run (step fun _ => 1) {}
        [.create 0, .schedule (.fiber (some 0)) (-1), .worker true .start, .worker true .scan,
          .worker true (.branch 9), .worker true .swapIn, .worker true .yieldToReady] = some s ∧
      ∀ f w w', swappedIn f (s.worker w).pc → swappedIn f (s.worker w').pc → w = w' := by
  refine ⟨_, rfl, (at_most_one_swappedIn (fun _ => 1) [.create 0,
    .schedule (.fiber (some 0)) (-1), .worker true .start, .worker true .scan,
    .worker true (.branch 9), .worker true .swapIn, .worker true .yieldToReady] _ ?_ rfl).1⟩
  refine Runs.meets_cons trivial rfl (Runs.meets_cons ?_ rfl (Runs.meets_cons trivial rfl
    (Runs.meets_cons trivial rfl (Runs.meets_cons trivial rfl (Runs.meets_cons trivial rfl
      (Runs.meets_cons ?_ rfl trivial))))))
  · rintro f hf
    cases hf
    decide
  · rintro n f cb hpc
    cases hpc
    decide

/-- The fiber is scheduled a second time while it runs; then it yields to be ready, and another
worker swaps it in before the first one has swapped it out. -/
theorem second_wakeUp_runs_twice :
    ¬ ∀ (as : List (Action Bool ℕ ℕ)) (s : Scheduler Bool ℕ ℕ),
      Runs.run (step fun _ => 1) {} as = some s →
        ∀ f w w', swappedIn f (s.worker w).pc → swappedIn f (s.worker w').pc → w = w' := by
  intro h
  have hall := h [.create 0, .schedule (.fiber (some 0)) (-1), .worker true .start,
    .worker true .scan, .worker true (.branch 9), .worker true .swapIn,
    .schedule (.fiber (some 0)) (-1), .worker true .yieldToReady, .worker false .start,
    .worker false .scan, .worker false (.branch 9), .worker false .swapIn] _ rfl
  have hsame : true = false := hall 0 true false rfl rfl
  cases hsame

end Invariant

end Sylar.SwapIn
