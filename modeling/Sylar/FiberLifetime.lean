import Sylar.SwapIn
import Mathlib.Data.Fintype.Basic

/-!
How long a fiber lives.

Its object is destroyed with the last pointer to it. There are pointers in the queue, with the
workers, on the stack of the fiber itself, and outside of all these: in event contexts, in the
callbacks of timers and in variables. A worker that drops the entry of a fiber that has ended does
so here a step early, before it decrements its counter.

The idle fibers and the main fibers of the threads are not part of the model.
-/

namespace Sylar.FiberLifetime

open Lib Lib.Runs Lib.Tally Sylar.FiberModel FiberAndThread Sylar.SchedulerModel
open Scheduler Sylar.SchedulerSteps Sylar.SwapIn

variable {W F C : Type}

/-! ### The pointers -/

def entryFiber : Pc F C → Option F
  | .picked _ ft => ft.fiber
  | .entering _ f false | .running _ f false | .leaving _ f false _ | .back _ f false _
  | .after f false _ | .hold f false | .requeue f false => some f
  | _ => none

def cbPointer (v : Worker F C) : Option F :=
  match v.pc with
  | .exited => none
  | _ => v.cbFiber

def Holds (f : F) (v : Worker F C) : Prop := entryFiber v.pc = some f ∨ cbPointer v = some f

def Kept (s : Scheduler W F C) (f : F) : Prop :=
  (∃ e ∈ s.fibers, e.2.fiber = some f) ∨ ∃ w, Holds f (s.worker w)

def current : Pc F C → Option F
  | .running _ f _ => some f
  | _ => none

def Running (s : Scheduler W F C) (f : F) : Prop := ∃ w, current (s.worker w).pc = some f

structure Heap (W F C : Type) where
  sched : Scheduler W F C := {}
  outside : F → ℕ := fun _ => 0
  /-- The pointers on the fiber's own stack. -/
  own : F → ℕ := fun _ => 0
  alive : Finset F := ∅
  s_fiber_count : ℤ := 0
  /-- The assertion of a destructor has failed. -/
  failed : Bool := false

def Pointed (h : Heap W F C) (f : F) : Prop := Kept h.sched f ∨ h.outside f ≠ 0 ∨ h.own f ≠ 0

/-- Who makes a pointer to the fiber has one, or is the fiber. -/
def Has (h : Heap W F C) (f : F) : Prop := h.outside f ≠ 0 ∨ Running h.sched f

section Decidable

variable [DecidableEq F]

instance (f : F) (v : Worker F C) : Decidable (Holds f v) := inferInstanceAs (Decidable (_ ∨ _))

variable [Fintype W]

instance (s : Scheduler W F C) (f : F) : Decidable (Kept s f) := inferInstanceAs (Decidable (_ ∨ _))

instance (s : Scheduler W F C) (f : F) : Decidable (Running s f) :=
  inferInstanceAs (Decidable (∃ _, _))

instance (h : Heap W F C) (f : F) : Decidable (Pointed h f) := inferInstanceAs (Decidable (_ ∨ _))

instance (h : Heap W F C) (f : F) : Decidable (Has h f) := inferInstanceAs (Decidable (_ ∨ _))

end Decidable

/-! ### The steps -/

variable [DecidableEq W] [DecidableEq F]

/-- What a switch does to the pointers on the stack of the fiber. `MainFunc` and the two yields have
one each, in a variable `cur`; that of `MainFunc` is reset before the last switch, which does not
return. -/
def switch (own : F → ℕ) (state : F → Option State) : Pc F C → Pc F C → Option (F → ℕ)
  | .entering _ f _, .running _ _ _ =>
    if state f = some .init then some (Function.update own f (own f + 1))
    else if own f = 0 then none
    else some (Function.update own f (own f - 1))
  | .running _ f _, .leaving _ _ _ how =>
    some (Function.update own f (if ended (some how) then own f - 1 else own f + 1))
  | _, _ => some own

/-- The pointers on the stacks after a step to `s'`. -/
def onStacks (h : Heap W F C) (s' : Scheduler W F C) : Action W F C → Option (F → ℕ)
  | .worker w _ => switch h.own h.sched.state (h.sched.worker w).pc (s'.worker w).pc
  | _ => some h.own

/-- The pointers outside after a step: who creates a fiber has one. -/
def outsides (h : Heap W F C) : Action W F C → F → ℕ
  | .create f => Function.update h.outside f (h.outside f + 1)
  | _ => h.outside

/-- The fiber that is made in a step from `s` to `s'`. -/
def made (s s' : Scheduler W F C) : Action W F C → Option F
  | .create f => some f
  | .worker w _ => if (s.worker w).cbFiber = none then (s'.worker w).cbFiber else none
  | _ => none

def scheduled : Action W F C → List F
  | .schedule fc thread => (make fc thread).fiber.toList
  | .scheduleAll fcs => fcs.filterMap fun fc => (make fc (-1)).fiber
  | _ => []

inductive Op (W F C : Type)
  | sched (a : Action W F C)
  /-- Another pointer outside. -/
  | copy (f : F)
  | drop (f : F)

namespace Heap

variable [Fintype W]

/-- The destructors of the fibers without a pointer. -/
def settle (h : Heap W F C) : Heap W F C :=
  let dead := h.alive.filter fun f => ¬Pointed h f
  { h with
    alive := h.alive.filter (Pointed h)
    s_fiber_count := h.s_fiber_count - dead.card
    failed := h.failed || decide (∃ f ∈ dead, resettable (h.sched.state f) = false) }

def act (tid : W → ℤ) (h : Heap W F C) : Op W F C → Option (Heap W F C)
  | .sched a =>
    if ∀ f ∈ scheduled a, Has h f then
      (Scheduler.step tid h.sched a).bind fun s' =>
        (onStacks h s' a).map fun own =>
          { h with
            sched := s'
            own := own
            outside := outsides h a
            alive := (made h.sched s' a).elim h.alive fun f => insert f h.alive
            s_fiber_count := h.s_fiber_count + (made h.sched s' a).toList.length }
    else none
  | .copy f =>
    if Has h f then some { h with outside := Function.update h.outside f (h.outside f + 1) }
    else none
  | .drop f =>
    if h.outside f = 0 then none
    else some { h with outside := Function.update h.outside f (h.outside f - 1) }

def step (tid : W → ℤ) (h : Heap W F C) (a : Op W F C) : Option (Heap W F C) :=
  (h.act tid a).map settle

end Heap

/-! ### What a step does to the pointers of queue and workers -/

variable {tid : W → ℤ} {s s' : Scheduler W F C} {a : Action W F C} {f : F}

omit [DecidableEq W] [DecidableEq F] in
lemma cbPointer_of_ne {v : Worker F C} (h : v.pc ≠ .exited) : cbPointer v = v.cbFiber := by
  unfold cbPointer
  split
  · exact absurd ‹_› h
  · rfl

omit [DecidableEq W] [DecidableEq F] in
lemma cbFiber_of_cbPointer {v : Worker F C} (h : cbPointer v = some f) : v.cbFiber = some f := by
  unfold cbPointer at h
  split at h
  · cases h
  · exact h

omit [DecidableEq W] [DecidableEq F] in
/-- A worker has the fiber that is its `cb_fiber` as long as it is in the loop. -/
lemma holds_cb {v : Worker F C} (hpc : v.pc ≠ .exited) (h : v.cbFiber = some f) : Holds f v :=
  .inr (by rw [cbPointer_of_ne hpc]; exact h)

omit [DecidableEq F] in
lemma kept_update {w : W} {v : Worker F C} (hk : Kept s' f) (hq : s'.fibers = s.fibers)
    (hw : s'.worker = Function.update s.worker w v) (hv : Holds f v → Kept s f) : Kept s f := by
  rcases hk with ⟨e, he, hf⟩ | ⟨x, hx⟩
  · exact .inl ⟨e, hq ▸ he, hf⟩
  · rw [hw] at hx
    by_cases hxw : x = w
    · subst hxw
      rw [Function.update_self] at hx
      exact hv hx
    · rw [Function.update_of_ne hxw] at hx
      exact .inr ⟨x, hx⟩

omit [DecidableEq W] [DecidableEq F] in
/-- A worker that has the fiber as its entry, or as its `cb_fiber`. -/
lemma kept_of_used {w : W} {p : Pc F C} (cb : Bool) (hwf : ∀ w, Wf (s.worker w))
    (hpc : (s.worker w).pc = p) (hentry : cb = false → entryFiber p = some f)
    (hcb : cb = true → usedCb p = some f) (hin : p ≠ .exited) : Kept s f := by
  refine .inr ⟨w, ?_⟩
  cases cb with
  | false => exact .inl (by rw [hpc]; exact hentry rfl)
  | true => exact holds_cb (by rw [hpc]; exact hin) ((hwf w).1 f (by rw [hpc]; exact hcb rfl))

omit [DecidableEq W] [DecidableEq F] in
lemma kept_of_current {w : W} (hwf : ∀ w, Wf (s.worker w))
    (h : current (s.worker w).pc = some f) : Kept s f := by
  cases hpc : (s.worker w).pc with
  | running n g cb =>
    rw [hpc] at h
    obtain rfl := Option.some.inj h
    exact kept_of_used cb hwf hpc (by rintro rfl; rfl) (by rintro rfl; rfl) nofun
  | _ => rw [hpc] at h; cases h

omit [DecidableEq W] [DecidableEq F] in
/-- A step that only moves the program counter makes no pointer. -/
lemma holds_of_move {w : W} {act : Act F} {p : Pc F C} {term : Bool}
    (hm : Move s term act (s.worker w).pc p) (h : Holds f { s.worker w with pc := p }) :
    Holds f (s.worker w) := by
  have hstay : (s.worker w).pc ≠ .exited := by
    intro hx
    rw [hx] at hm
    cases hm
  rcases h with h | h
  · -- the entry is the one that was taken before
    left
    revert hm h
    generalize (s.worker w).pc = q
    intro hm h
    cases hm with
    | enter n ft g new hf hst => exact hf.trans h
    | yieldToHold n g cb hst => cases cb <;> exact h
    | swapOut n g cb how => cases cb <;> exact h
    | ready g cb how hst => cases cb <;> exact h
    | toHold g cb how hr hst => cases cb <;> exact h
    | _ => cases h
  · have hcb : (s.worker w).cbFiber = some f :=
      cbFiber_of_cbPointer (v := { s.worker w with pc := p }) h
    exact holds_cb hstay hcb

omit [DecidableEq W] [DecidableEq F] in
/-- The worker lets go of its fiber, and of `cb_fiber` if it is that. -/
lemma holds_of_dropCb {v v' : Worker F C} {cb : Bool} (h : Holds f v') (hstay : v.pc ≠ .exited)
    (hentry : entryFiber v'.pc = none) (hcb : v'.cbFiber = dropCb v cb) : Holds f v := by
  rcases h with h | h
  · rw [hentry] at h
    cases h
  · have h := cbFiber_of_cbPointer h
    rw [hcb] at h
    cases cb with
    | true => cases h
    | false => exact holds_cb hstay h

omit [DecidableEq W] [DecidableEq F] in
/-- The worker's program counter moves, and it has its entry and its `cb_fiber` as before. -/
lemma holds_of_eq {v v' : Worker F C} (h : Holds f v') (hstay : v.pc ≠ .exited)
    (hentry : entryFiber v'.pc = some f → entryFiber v.pc = some f)
    (hcb : v'.cbFiber = v.cbFiber) : Holds f v := by
  rcases h with h | h
  · exact .inl (hentry h)
  · exact holds_cb hstay (hcb ▸ cbFiber_of_cbPointer h)

omit [DecidableEq W] [DecidableEq F] in
lemma mem_scheduled {fts : List (FiberAndThread F C)} {ft : FiberAndThread F C}
    (ha : (∃ fc thread, a = .schedule fc thread ∧ fts = [make fc thread]) ∨
      ∃ fcs, a = .scheduleAll fcs ∧ fts = fcs.map fun fc => make fc (-1))
    (hft : ft ∈ fts) (hf : ft.fiber = some f) : f ∈ scheduled a := by
  rcases ha with ⟨fc, thread, rfl, rfl⟩ | ⟨fcs, rfl, rfl⟩
  · rw [List.mem_singleton.mp hft] at hf
    exact Option.mem_toList.mpr hf
  · obtain ⟨fc, hfc, rfl⟩ := List.mem_map.mp hft
    exact List.mem_filterMap.mpr ⟨fc, hfc, hf⟩

omit [DecidableEq F] in
lemma mem_number_fiber {k : ℕ} {fts : List (FiberAndThread F C)} {e : ℕ × FiberAndThread F C}
    (h : e ∈ number k fts) : e.2 ∈ fts :=
  List.mem_of_getElem? (mem_number h).2

/-- **No pointer comes from nothing**: what the queue or a worker has, one of them had before, or it
is made in the step, or `schedule` is called with it. -/
lemma kept_step (hwf : ∀ w, Wf (s.worker w)) (ht : Trans tid s a s') (hk : Kept s' f) :
    Kept s f ∨ made s s' a = some f ∨ f ∈ scheduled a := by
  cases ht with
  | move w act p htick hm =>
    exact .inl (kept_update hk rfl rfl fun hv => .inr ⟨w, holds_of_move hm hv⟩)
  | ask w t htick hidle =>
    exact .inl (kept_update hk rfl rfl fun hv => .inr ⟨w, hv⟩)
  | write w htick =>
    exact .inl (kept_update hk rfl rfl fun hv => .inr ⟨w, hv⟩)
  | take w n ft htick hpc hscan =>
    obtain ⟨q₁, q₂, hq, hrest, -, -, -⟩ := scan_taken hscan
    rcases hk with ⟨e, he, hf⟩ | ⟨x, hx⟩
    · refine .inl (.inl ⟨e, ?_, hf⟩)
      have he : e ∈ (scan (tid w) s.state s.fibers).rest := he
      rw [hrest] at he
      rw [hq]
      rcases List.mem_append.mp he with he | he
      · exact List.mem_append_left _ he
      · exact List.mem_append_right _ (List.mem_cons_of_mem _ he)
    · have hx : Holds f (Function.update s.worker w _ x) := hx
      by_cases hxw : x = w
      · subst hxw
        rw [Function.update_self] at hx
        rcases hx with hx | hx
        · refine .inl (.inl ⟨(n, ft), ?_, hx⟩)
          rw [hq]
          exact List.mem_append_right _ List.mem_cons_self
        · have hcb := cbFiber_of_cbPointer hx
          exact .inl (.inr ⟨x, holds_cb (by rw [hpc]; exact nofun) hcb⟩)
      · rw [Function.update_of_ne hxw] at hx
        exact .inl (.inr ⟨x, hx⟩)
  | fresh w n ft new htick hpc hslot hst hf =>
    by_cases hnew : f = new
    · right
      left
      subst hnew
      simp [made, hslot, Scheduler.setWorker]
    · refine .inl (kept_update hk rfl rfl fun hv => ?_)
      rcases hv with hv | hv
      · cases hv
      · exact absurd (Option.some.inj (cbFiber_of_cbPointer hv)).symm hnew
  | writeHold w g cb htick hpc =>
    refine .inl (kept_update hk rfl rfl fun hv => .inr ⟨w, ?_⟩)
    exact holds_of_dropCb hv (by rw [hpc]; exact nofun) rfl rfl
  | requeue w g cb t htick hpc =>
    have hg : Kept s g := kept_of_used cb hwf hpc (by rintro rfl; rfl) (by rintro rfl; rfl)
      nofun
    rcases hk with ⟨e, he, hf⟩ | ⟨x, hx⟩
    · rcases List.mem_append.mp he with he | he
      · exact .inl (.inl ⟨e, he, hf⟩)
      · rw [List.mem_singleton.mp (mem_number_fiber he)] at hf
        obtain rfl := Option.some.inj hf
        exact .inl hg
    · have hx : Holds f (Function.update s.worker w _ x) := hx
      by_cases hxw : x = w
      · subst hxw
        rw [Function.update_self] at hx
        exact .inl (.inr ⟨x, holds_of_dropCb hx (by rw [hpc]; exact nofun) rfl rfl⟩)
      · rw [Function.update_of_ne hxw] at hx
        exact .inl (.inr ⟨x, hx⟩)
  | decrement w n p htick hpc =>
    refine .inl (kept_update hk rfl rfl fun hv => .inr ⟨w, ?_⟩)
    rcases hpc with ⟨g, cb, how, hpc, rfl⟩ | ⟨hpc, rfl⟩
    · exact holds_of_eq hv (by rw [hpc]; exact nofun) (fun hx => by
        rw [hpc]
        cases cb <;> exact hx) rfl
    · exact holds_of_eq hv (by rw [hpc]; exact nofun) (fun hx => by cases hx) rfl
  | swapIn w n g cb htick hpc hst =>
    refine .inl (kept_update hk rfl rfl fun hv => .inr ⟨w, ?_⟩)
    exact holds_of_eq hv (by rw [hpc]; exact nofun) (fun hx => by
      rw [hpc]
      cases cb <;> exact hx) rfl
  | leave w n g cb act st htick hpc ha =>
    refine .inl (kept_update hk rfl rfl fun hv => .inr ⟨w, ?_⟩)
    exact holds_of_eq hv (by rw [hpc]; exact nofun) (fun hx => by
      rw [hpc]
      cases cb <;> exact hx) rfl
  | miss w t htick hpc | reuse w n ft g new htick hpc | park w g how htick hpc
  | goIdle w htick hpc | stop w htick hpc | drain w htick hpc | leaveIdle w htick hpc =>
    refine .inl (kept_update hk rfl rfl fun hv => .inr ⟨w, ?_⟩)
    exact holds_of_eq hv (by rw [hpc]; exact nofun) (fun hx => by cases hx) rfl
  | schedule fts a ha hknown =>
    rcases hk with ⟨e, he, hf⟩ | hx
    · rcases List.mem_append.mp he with he | he
      · exact .inl (.inl ⟨e, he, hf⟩)
      · have hft := (List.mem_filter.mp (mem_number_fiber he)).1
        exact .inr (.inr (mem_scheduled ha hft hf))
    · exact .inl (.inr hx)
  | create | tickle | askOut | writeOut | flags => exact .inl hk

/-! ### What is on the stacks -/

/-- The function of the fiber is not under way. -/
def Quiet (st : Option State) : Prop := st = none ∨ resettable st = true

instance (st : Option State) : Decidable (Quiet st) := inferInstanceAs (Decidable (_ ∨ _))

omit [DecidableEq W] [DecidableEq F] in
lemma quiet_of_ended {st : Option State} (h : ended st = true) : Quiet st := by
  right
  simp only [ended, resettable, decide_eq_true_eq] at h ⊢
  tauto

lemma quiet_init : Quiet (some .init) := .inr rfl

section Expected

variable [Fintype W]

/-- The pointers on the stack of the fiber: that of `MainFunc`, and one more while the fiber is
suspended. -/
def expected (s : Scheduler W F C) (f : F) : ℕ :=
  if Running s f then 1 else if Quiet (s.state f) then 0 else 2

omit [DecidableEq W] in
lemma expected_congr (hrun : Running s' f ↔ Running s f)
    (hstate : Quiet (s'.state f) ↔ Quiet (s.state f)) : expected s' f = expected s f := by
  unfold expected
  rw [if_congr hrun rfl rfl, if_congr hstate rfl rfl]

omit [DecidableEq F] [Fintype W] in
lemma running_update {w : W} {v : Worker F C} (hw : s'.worker = Function.update s.worker w v)
    (hv : current v.pc = some f ↔ current (s.worker w).pc = some f) :
    Running s' f ↔ Running s f := by
  refine exists_congr fun x => ?_
  rw [hw]
  by_cases hxw : x = w
  · subst hxw
    rwa [Function.update_self]
  · rw [Function.update_of_ne hxw]

/-- The worker's fiber is the same, and no fiber begins or ends. -/
lemma expected_update {w : W} {v : Worker F C} (hw : s'.worker = Function.update s.worker w v)
    (hv : current v.pc = current (s.worker w).pc)
    (hstate : ∀ g, Quiet (s'.state g) ↔ Quiet (s.state g)) (f : F) :
    expected s' f = expected s f :=
  expected_congr (running_update hw (by rw [hv])) (hstate f)

omit [DecidableEq W] [Fintype W] in
lemma quiet_update {g : F} {st : State} (hs : s'.state = Function.update s.state g (some st))
    (hq : Quiet (some st) ↔ Quiet (s.state g)) (f : F) :
    Quiet (s'.state f) ↔ Quiet (s.state f) := by
  rw [hs]
  by_cases hfg : f = g
  · subst hfg
    rwa [Function.update_self]
  · rw [Function.update_of_ne hfg]

/-! What the invariant of the states says of a fiber that runs, or is about to. -/

omit [DecidableEq W] [Fintype W] in
lemma runs_of_current {w : W} (h : current (s.worker w).pc = some f) :
    runs f (s.worker w).pc = 1 := by
  cases hpc : (s.worker w).pc with
  | running n g cb =>
    rw [hpc] at h
    obtain rfl := Option.some.inj h
    exact if_pos rfl
  | _ => rw [hpc] at h; cases h

omit [DecidableEq W] in
lemma tally_runs_ne_zero {w : W} (h : runs f (s.worker w).pc = 1) :
    tally (fun v => runs f v.pc) s.worker ≠ 0 := by
  have := le_tally (fun v => runs f v.pc) s.worker w
  omega

lemma current_unique (hinv : SwapIn.Inv s) {w w' : W} (h : current (s.worker w).pc = some f)
    (h' : current (s.worker w').pc = some f) : w = w' := by
  have hone : tally (fun v => runs f v.pc) s.worker ≤ 1 := by
    have := (hinv.ok f).owner
    omega
  refine eq_of_tally_le_one hone ?_ ?_
  · rw [runs_of_current h]
    exact Nat.one_ne_zero
  · rw [runs_of_current h']
    exact Nat.one_ne_zero

omit [DecidableEq W] in
lemma tally_hot_ne_zero {w : W} {n : ℕ} {cb : Bool} (h : (s.worker w).pc = .entering n f cb) :
    tally (fun v => hot f v.pc + parked f v) s.worker ≠ 0 := by
  have hle := le_tally (fun v => hot f v.pc + parked f v) s.worker w
  have hhot : hot f (s.worker w).pc = 1 := by
    rw [h]
    exact if_pos rfl
  omega

omit [DecidableEq W] in
lemma not_running_of_entering (hinv : SwapIn.Inv s) {w : W} {n : ℕ} {cb : Bool}
    (h : (s.worker w).pc = .entering n f cb) : ¬Running s f := by
  rintro ⟨x, hx⟩
  have hruns := tally_runs_ne_zero (runs_of_current hx)
  exact tally_hot_ne_zero h ((hinv.ok f).apart (by omega))

omit [DecidableEq W] in
lemma state_of_entering (hinv : SwapIn.Inv s) {w : W} {n : ℕ} {cb : Bool}
    (h : (s.worker w).pc = .entering n f cb) : s.state f ≠ none := by
  intro hnone
  have hhot := tally_hot_ne_zero h
  have := (hinv.ok f).absent hnone
  omega

/-- Another worker does not run the fiber when one leaves it. -/
lemma not_running_of_leave (hinv : SwapIn.Inv s) {w : W} {v : Worker F C}
    (h : current (s.worker w).pc = some f) (hw : s'.worker = Function.update s.worker w v)
    (hv : current v.pc = none) : ¬Running s' f := by
  rintro ⟨x, hx⟩
  rw [hw] at hx
  by_cases hxw : x = w
  · subst hxw
    rw [Function.update_self, hv] at hx
    cases hx
  · rw [Function.update_of_ne hxw] at hx
    exact hxw (current_unique hinv hx h)

/-- A worker is about to swap in fibers that have not ended. -/
def Enterable (s : Scheduler W F C) : Prop :=
  ∀ w n f cb, (s.worker w).pc = .entering n f cb → ended (s.state f) = false

omit [DecidableEq W] [DecidableEq F] [Fintype W] in
lemma current_of_move {act : Act F} {p p' : Pc F C} {term : Bool} (hm : Move s term act p p') :
    (current p = none ∧ current p' = none) ∨
      ∃ n f cb, p = .running n f cb ∧ p' = .leaving n f cb .exec ∧ s.state f = some .exec := by
  cases hm with
  | yieldToHold n f cb hst => exact .inr ⟨n, f, cb, rfl, rfl, hst⟩
  | _ => exact .inl ⟨rfl, rfl⟩

omit [DecidableEq W] [Fintype W] in
lemma switch_of_current {own : F → ℕ} {state : F → Option State} {p p' : Pc F C}
    (h : current p = none) (h' : current p' = none) : switch own state p p' = some own := by
  unfold switch
  split
  · cases h'
  · cases h
  · rfl

omit [DecidableEq W] [Fintype W] in
lemma switch_self (own : F → ℕ) (state : F → Option State) (p : Pc F C) :
    switch own state p p = some own := by
  cases p <;> rfl

def StacksOk (h : Heap W F C) (s' : Scheduler W F C) (r : Option (F → ℕ)) : Prop :=
  ∃ own, r = some own ∧ (∀ f, own f = expected s' f) ∧ ∀ f, ¬Kept h.sched f → own f = h.own f

section Stacks

variable {h : Heap W F C} (hexp : ∀ f, h.own f = expected h.sched f)
include hexp

/-- The worker's fiber is the same, and none begins or ends. -/
lemma stacks_same {w : W} {v : Worker F C}
    (hw : s'.worker = Function.update h.sched.worker w v)
    (hswitch : switch h.own h.sched.state (h.sched.worker w).pc v.pc = some h.own)
    (hv : current v.pc = current (h.sched.worker w).pc)
    (hstate : ∀ g, Quiet (s'.state g) ↔ Quiet (h.sched.state g)) :
    StacksOk h s' (switch h.own h.sched.state (h.sched.worker w).pc (s'.worker w).pc) := by
  refine ⟨h.own, ?_, fun f => ?_, fun _ _ => rfl⟩
  · rw [hw, Function.update_self]
    exact hswitch
  · rw [hexp f, expected_update hw hv hstate]

lemma stacks_calm {w : W} {v : Worker F C}
    (hw : s'.worker = Function.update h.sched.worker w v)
    (hp : current (h.sched.worker w).pc = none) (hv : current v.pc = none)
    (hstate : ∀ g, Quiet (s'.state g) ↔ Quiet (h.sched.state g)) :
    StacksOk h s' (switch h.own h.sched.state (h.sched.worker w).pc (s'.worker w).pc) :=
  stacks_same hexp hw (switch_of_current hp hv) (hv.trans hp.symm) hstate

/-- A fiber is swapped in: it starts, or goes on in one of the yields. -/
lemma stacks_swapIn (hinv : SwapIn.Inv h.sched) (henter : Enterable h.sched) {w : W} {n : ℕ} {g : F}
    {cb : Bool} (hpc : (h.sched.worker w).pc = .entering n g cb)
    (hs : s' = (h.sched.setState g .exec).setPc w (.running n g cb)) :
    StacksOk h s' (switch h.own h.sched.state (h.sched.worker w).pc (s'.worker w).pc) := by
  have hout := not_running_of_entering hinv hpc
  have hg : Kept h.sched g := kept_of_used cb hinv.wf hpc (by rintro rfl; rfl)
    (by rintro rfl; rfl) nofun
  have hw : s'.worker = Function.update h.sched.worker w
      { h.sched.worker w with pc := .running n g cb } := by rw [hs]; rfl
  have hpc' : (s'.worker w).pc = .running n g cb := by rw [hw, Function.update_self]
  have hstate : s'.state = Function.update h.sched.state g (some .exec) := by rw [hs]; rfl
  have hone : expected s' g = 1 := if_pos ⟨w, by rw [hpc']; rfl⟩
  have hother : ∀ f, f ≠ g → expected s' f = expected h.sched f := by
    intro f hfg
    refine expected_congr (running_update hw ?_) ?_
    · rw [hpc]
      exact ⟨fun hx => absurd (Option.some.inj hx).symm hfg, nofun⟩
    · rw [hstate, Function.update_of_ne hfg]
  have hresult (k : ℕ) (hk : k = 1) : StacksOk h s' (some (Function.update h.own g k)) := by
    refine ⟨_, rfl, fun f => ?_, fun f hf => ?_⟩
    · by_cases hfg : f = g
      · subst hfg
        rw [Function.update_self, hone, hk]
      · rw [Function.update_of_ne hfg, hother f hfg, hexp f]
    · have hfg : f ≠ g := by
        rintro rfl
        exact hf hg
      rw [Function.update_of_ne hfg]
  have hown : h.own g = if Quiet (h.sched.state g) then 0 else 2 := by
    rw [hexp g]
    exact if_neg hout
  rw [hpc, hpc']
  by_cases hinit : h.sched.state g = some .init
  · rw [switch, if_pos hinit]
    rw [hinit, if_pos quiet_init] at hown
    exact hresult _ (by omega)
  · have hnot : ¬Quiet (h.sched.state g) := by
      rintro (hnone | hreset)
      · exact state_of_entering hinv hpc hnone
      · have hend := henter w n g cb hpc
        simp only [resettable, ended, decide_eq_true_eq, decide_eq_false_iff_not] at hreset hend
        tauto
    rw [if_neg hnot] at hown
    rw [switch, if_neg hinit, if_neg (by omega)]
    exact hresult _ (by omega)

/-- A fiber leaves its worker: it is in one of the yields then, or has ended. -/
lemma stacks_leave (hinv : SwapIn.Inv h.sched) {w : W} {n : ℕ} {g : F} {cb : Bool} {how : State}
    (hpc : (h.sched.worker w).pc = .running n g cb)
    (hw : s'.worker = Function.update h.sched.worker w
      { h.sched.worker w with pc := .leaving n g cb how })
    (hs : s'.state = Function.update h.sched.state g (some how))
    (hhow : Quiet (some how) ↔ ended (some how) = true) :
    StacksOk h s' (switch h.own h.sched.state (h.sched.worker w).pc (s'.worker w).pc) := by
  have hcur : current (h.sched.worker w).pc = some g := by rw [hpc]; rfl
  have hown : h.own g = 1 := by
    rw [hexp g]
    exact if_pos ⟨w, hcur⟩
  have hout : ¬Running s' g := not_running_of_leave hinv hcur hw rfl
  rw [hpc, hw, Function.update_self]
  refine ⟨_, rfl, fun f => ?_, fun f hf => ?_⟩
  · by_cases hfg : f = g
    · subst hfg
      rw [Function.update_self, hown, expected, if_neg hout, hs, Function.update_self]
      by_cases hend : ended (some how) = true
      · rw [if_pos hend, if_pos (hhow.mpr hend)]
      · rw [if_neg hend, if_neg fun hq => hend (hhow.mp hq)]
    · rw [Function.update_of_ne hfg, hexp f]
      refine (expected_congr (running_update hw ?_) ?_).symm
      · rw [hpc]
        exact ⟨nofun, fun hx => absurd (Option.some.inj hx).symm hfg⟩
      · rw [hs, Function.update_of_ne hfg]
  · have hfg : f ≠ g := by
      rintro rfl
      exact hf (kept_of_current hinv.wf hcur)
    rw [Function.update_of_ne hfg]

end Stacks

/-- **The pointers on the stacks follow the switches**, and a switch finds a context to go to. -/
lemma stacks_step {h : Heap W F C} (hexp : ∀ f, h.own f = expected h.sched f)
    (hinv : SwapIn.Inv h.sched) (henter : Enterable h.sched) (ht : Trans tid h.sched a s') :
    StacksOk h s' (onStacks h s' a) := by
  have hsame (hrun : ∀ f, Running s' f ↔ Running h.sched f)
      (hstate : ∀ f, Quiet (s'.state f) ↔ Quiet (h.sched.state f)) :
      StacksOk h s' (some h.own) :=
    ⟨h.own, rfl, fun f => by rw [hexp f, expected_congr (hrun f) (hstate f)], fun _ _ => rfl⟩
  cases ht with
  | move w act p htick hm =>
    rcases current_of_move hm with ⟨hp, hp'⟩ | ⟨n, g, cb, hp, rfl, hst⟩
    · exact stacks_calm hexp rfl hp hp' fun _ => Iff.rfl
    · refine stacks_leave hexp hinv hp rfl ?_ (by decide)
      exact (Function.update_eq_self_iff.mpr hst.symm).symm
  | ask w t htick hidle | write w htick =>
    exact stacks_same hexp rfl (switch_self _ _ _) rfl fun _ => Iff.rfl
  | swapIn w n g cb htick hpc hst => exact stacks_swapIn hexp hinv henter hpc rfl
  | leave w n g cb act st htick hpc hact =>
    refine stacks_leave hexp hinv hpc rfl rfl ?_
    rcases hact with ⟨-, rfl⟩ | rfl | rfl
    · decide
    · decide
    · decide
  | reuse w n ft g new htick hpc hslot hst hf =>
    exact stacks_calm hexp rfl (by rw [hpc]; rfl) rfl
      (quiet_update rfl (iff_of_true quiet_init (.inr hst)))
  | fresh w n ft new htick hpc hslot hst hf =>
    exact stacks_calm hexp rfl (by rw [hpc]; rfl) rfl
      (quiet_update rfl (iff_of_true quiet_init (.inl hst)))
  | park w g how htick hpc hst =>
    exact stacks_calm hexp rfl (by rw [hpc]; rfl) rfl
      (quiet_update rfl (iff_of_true quiet_init (quiet_of_ended hst)))
  | writeHold w g cb htick hpc =>
    have hexec : h.sched.state g = some .exec :=
      (hinv.ok g).exec (tally_runs_ne_zero (w := w) (by rw [hpc]; exact if_pos rfl))
    exact stacks_calm hexp rfl (by rw [hpc]; rfl) rfl (quiet_update rfl (by rw [hexec]; decide))
  | decrement w n p htick hpc =>
    rcases hpc with ⟨g, cb, how, hpc, rfl⟩ | ⟨hpc, rfl⟩
    · exact stacks_calm hexp rfl (by rw [hpc]; rfl) rfl fun _ => Iff.rfl
    · exact stacks_calm hexp rfl (by rw [hpc]; rfl) rfl fun _ => Iff.rfl
  | take w n ft htick hpc hscan | requeue w g cb t htick hpc | miss w t htick hpc
  | goIdle w htick hpc | stop w htick hpc | drain w htick hpc | leaveIdle w htick hpc =>
    exact stacks_calm hexp rfl (by rw [hpc]; rfl) rfl fun _ => Iff.rfl
  | create g hst =>
    exact hsame (fun _ => Iff.rfl) (quiet_update rfl (iff_of_true quiet_init (.inl hst)))
  | schedule fts act hact hknown =>
    rcases hact with ⟨fc, thread, rfl, rfl⟩ | ⟨fcs, rfl, rfl⟩
    · exact hsame (fun _ => Iff.rfl) fun _ => Iff.rfl
    · exact hsame (fun _ => Iff.rfl) fun _ => Iff.rfl
  | flags act auto stop hact =>
    rcases hact with rfl | rfl
    · exact hsame (fun _ => Iff.rfl) fun _ => Iff.rfl
    · exact hsame (fun _ => Iff.rfl) fun _ => Iff.rfl
  | tickle | askOut | writeOut => exact hsame (fun _ => Iff.rfl) fun _ => Iff.rfl

/-! ### The states -/

omit [Fintype W] in
/-- A fiber that is made was not there before, and the others keep to have a state. -/
lemma state_step (ht : Trans tid s a s') :
    (∀ f, s.state f ≠ none → s'.state f ≠ none) ∧
      ∀ f, made s s' a = some f → s.state f = none ∧ s'.state f ≠ none := by
  have hsame {t : Scheduler W F C} (hs : t.state = s.state) :
      ∀ f, s.state f ≠ none → t.state f ≠ none := fun f hf => by rwa [hs]
  have hset {t : Scheduler W F C} {g : F} {st : State}
      (hs : t.state = Function.update s.state g (some st)) :
      ∀ f, s.state f ≠ none → t.state f ≠ none := by
    intro f hf
    rw [hs]
    by_cases hfg : f = g
    · subst hfg
      rw [Function.update_self]
      exact nofun
    · rwa [Function.update_of_ne hfg]
  -- a worker makes a fiber only where it has no `cb_fiber`
  have hnone {t : Scheduler W F C} {w : W} {act : SchedulerModel.Act F} {v : Worker F C}
      (hw : t.worker = Function.update s.worker w v)
      (hcb : v.cbFiber = (s.worker w).cbFiber ∨ v.cbFiber = none) :
      ∀ f, made s t (.worker w act) = some f → s.state f = none ∧ t.state f ≠ none := by
    intro f hf
    simp only [made, hw, Function.update_self] at hf
    split at hf
    · rename_i hslot
      rw [hslot, or_self] at hcb
      rw [hcb] at hf
      cases hf
    · cases hf
  cases ht with
  | move w act p htick hm => exact ⟨hsame rfl, hnone rfl (.inl rfl)⟩
  | ask w t htick hidle | write w htick | take w n ft htick hpc hscan | miss w t htick hpc
  | decrement w n p htick hpc | goIdle w htick hpc | stop w htick hpc
  | drain w htick hpc | leaveIdle w htick hpc => exact ⟨hsame rfl, hnone rfl (.inl rfl)⟩
  | reuse w n ft g new htick hpc hslot hst hf | park w g how htick hpc hst
  | swapIn w n g cb htick hpc hst | leave w n g cb act st htick hpc hact =>
    exact ⟨hset rfl, hnone rfl (.inl rfl)⟩
  | fresh w n ft new htick hpc hslot hst hf =>
    refine ⟨hset rfl, fun f hmade => ?_⟩
    simp only [made, hslot, if_true, setWorker, Function.update_self] at hmade
    obtain rfl := Option.some.inj hmade
    refine ⟨hst, ?_⟩
    simp [setState, setWorker]
  | writeHold w g cb htick hpc =>
    refine ⟨hset rfl, hnone rfl ?_⟩
    cases cb with
    | true => exact .inr rfl
    | false => exact .inl rfl
  | requeue w g cb t htick hpc =>
    refine ⟨hsame rfl, hnone rfl ?_⟩
    cases cb with
    | true => exact .inr rfl
    | false => exact .inl rfl
  | create g hst =>
    refine ⟨hset rfl, fun f hmade => ?_⟩
    obtain rfl := Option.some.inj hmade
    refine ⟨hst, ?_⟩
    simp [setState]
  | schedule fts act hact hknown =>
    rcases hact with ⟨fc, thread, rfl, rfl⟩ | ⟨fcs, rfl, rfl⟩
    · exact ⟨hsame rfl, fun f hf => by cases hf⟩
    · exact ⟨hsame rfl, fun f hf => by cases hf⟩
  | flags act auto stop hact =>
    rcases hact with rfl | rfl
    · exact ⟨hsame rfl, fun f hf => by cases hf⟩
    · exact ⟨hsame rfl, fun f hf => by cases hf⟩
  | tickle | askOut | writeOut => exact ⟨hsame rfl, fun f hf => by cases hf⟩

omit [DecidableEq F] [Fintype W] in
lemma enterable_update {w : W} {v : Worker F C} (hw : s'.worker = Function.update s.worker w v)
    (hv : ∀ n f cb, v.pc = .entering n f cb → ended (s'.state f) = false)
    (hs : ∀ w n f cb, (s.worker w).pc = .entering n f cb → ended (s'.state f) = false) :
    Enterable s' := by
  intro x n f cb hx
  rw [hw] at hx
  by_cases hxw : x = w
  · subst hxw
    rw [Function.update_self] at hx
    exact hv n f cb hx
  · rw [Function.update_of_ne hxw] at hx
    exact hs x n f cb hx

/-- A fiber that a worker is about to swap in does not end meanwhile. -/
lemma enterable_step (hinv : SwapIn.Inv s) (henter : Enterable s) (ht : Trans tid s a s') :
    Enterable s' := by
  -- the states that are written, apart from the last ones
  have hset {t : Scheduler W F C} {g : F} {st : State}
      (hst : t.state = Function.update s.state g (some st)) (hend : ended (some st) = false) :
      ∀ w n f cb, (s.worker w).pc = .entering n f cb → ended (t.state f) = false := by
    intro w n f cb hpc
    rw [hst]
    by_cases hfg : f = g
    · subst hfg
      rwa [Function.update_self]
    · rw [Function.update_of_ne hfg]
      exact henter w n f cb hpc
  cases ht with
  | move w act p htick hm =>
    refine enterable_update rfl (fun n f cb hp => ?_) henter
    have hp : p = .entering n f cb := hp
    subst hp
    generalize (s.worker w).pc = q at hm
    cases hm with
    | enter n ft f new hf hst => exact hst
  | ask w t htick hidle | write w htick =>
    exact enterable_update rfl (fun n f cb hp => henter w n f cb hp) henter
  | decrement w n p htick hpc =>
    refine enterable_update rfl (fun n f cb hp => ?_) henter
    have hp : p = .entering n f cb := hp
    rcases hpc with ⟨g, cb, how, -, rfl⟩ | ⟨-, rfl⟩
    · cases hp
    · cases hp
  | reuse w n ft g new htick hpc hslot hst hf =>
    refine enterable_update rfl (fun n f cb hp => ?_) (hset rfl rfl)
    cases hp
    simp [setPc, setWorker, setState, ended]
  | fresh w n ft new htick hpc hslot hst hf =>
    refine enterable_update rfl (fun n f cb hp => ?_) (hset rfl rfl)
    cases hp
    simp [setWorker, setState, ended]
  | swapIn w n g cb htick hpc hst | park w g how htick hpc hst | writeHold w g cb htick hpc =>
    exact enterable_update rfl (fun n f cb hp => by cases hp) (hset rfl rfl)
  | leave w n g cb act st htick hpc hact =>
    refine enterable_update rfl (fun n f cb hp => by cases hp) fun x m f cb' hx => ?_
    have hfg : f ≠ g := by
      rintro rfl
      exact not_running_of_entering hinv hx ⟨w, by rw [hpc]; rfl⟩
    have hstate : ((s.setState g st).setPc w (.leaving n g cb st)).state f = s.state f :=
      Function.update_of_ne hfg ..
    rw [hstate]
    exact henter x m f cb' hx
  | take w n ft htick hpc hscan | requeue w g cb t htick hpc | miss w t htick hpc
  | goIdle w htick hpc | stop w htick hpc | drain w htick hpc | leaveIdle w htick hpc =>
    exact enterable_update rfl (fun n f cb hp => by cases hp) henter
  | create g hst => exact fun w n f cb hpc => hset rfl rfl w n f cb hpc
  | schedule fts act hact hknown => exact henter
  | flags act auto stop hact => exact henter
  | tickle | askOut | writeOut => exact henter

/-! ### The fibers -/

structure Inv (h : Heap W F C) : Prop where
  sched : SwapIn.Inv h.sched
  enter : Enterable h.sched
  stack : ∀ f, h.own f = expected h.sched f
  /-- There is no pointer to a fiber that is destroyed. -/
  alive : ∀ f, Pointed h f → f ∈ h.alive
  known : ∀ f ∈ h.alive, h.sched.state f ≠ none
  total : h.s_fiber_count = h.alive.card
  asserted : h.failed = false

omit [DecidableEq W] in
lemma resettable_of_not_pointed {h : Heap W F C} (hinv : Inv h) {f : F} (hf : f ∈ h.alive)
    (hno : ¬Pointed h f) : resettable (h.sched.state f) = true := by
  have hown : h.own f = 0 := by
    by_contra hne
    exact hno (.inr (.inr hne))
  have hstack := hinv.stack f
  rw [hown, expected] at hstack
  split at hstack
  · cases hstack
  · split at hstack
    · rename_i hquiet
      exact hquiet.resolve_left (hinv.known f hf)
    · cases hstack

omit [DecidableEq W] in
/-- The destructors find their fibers ended or not yet started. -/
lemma inv_settle {h : Heap W F C} (hinv : Inv h) : Inv h.settle where
  sched := hinv.sched
  enter := hinv.enter
  stack := hinv.stack
  alive := fun f hf => Finset.mem_filter.mpr ⟨hinv.alive f hf, hf⟩
  known := fun f hf => hinv.known f (Finset.mem_filter.mp hf).1
  total := by
    have hcard := Finset.card_filter_add_card_filter_not (s := h.alive) (Pointed h)
    have htotal := hinv.total
    simp only [Heap.settle]
    omega
  asserted := by
    have hno : ¬∃ f ∈ h.alive.filter fun f => ¬Pointed h f,
        resettable (h.sched.state f) = false := by
      rintro ⟨f, hf, hst⟩
      obtain ⟨hf, hpointed⟩ := Finset.mem_filter.mp hf
      rw [resettable_of_not_pointed hinv hf hpointed] at hst
      cases hst
    simp only [Heap.settle, hinv.asserted, Bool.false_or, decide_eq_false_iff_not]
    exact hno

/-- No step makes a second wake-up of a fiber while one is on its way. -/
def OneWakeUp (h : Heap W F C) : Op W F C → Prop
  | .sched a => Single h.sched a
  | _ => True

variable {h h' : Heap W F C}

lemma act_sched (hact : h.act tid (.sched a) = some h') :
    (∀ f ∈ scheduled a, Has h f) ∧ ∃ s' own, Scheduler.step tid h.sched a = some s' ∧
      onStacks h s' a = some own ∧
      h' = { h with
        sched := s'
        own := own
        outside := outsides h a
        alive := (made h.sched s' a).elim h.alive fun f => insert f h.alive
        s_fiber_count := h.s_fiber_count + (made h.sched s' a).toList.length } := by
  simp only [Heap.act] at hact
  split at hact
  · rename_i hhas
    obtain ⟨s', hs, hact⟩ := Option.bind_eq_some_iff.mp hact
    obtain ⟨own, hown, rfl⟩ := Option.map_eq_some_iff.mp hact
    exact ⟨hhas, s', own, hs, hown, rfl⟩
  · cases hact

omit [DecidableEq W] in
lemma kept_of_running (hinv : SwapIn.Inv s) (hrun : Running s f) : Kept s f :=
  let ⟨_, hw⟩ := hrun
  kept_of_current hinv.wf hw

omit [DecidableEq W] in
lemma alive_of_has (hinv : Inv h) (hhas : Has h f) : f ∈ h.alive :=
  hinv.alive f (hhas.elim (fun hout => .inr (.inl hout)) fun hrun =>
    .inl (kept_of_running hinv.sched hrun))

omit [DecidableEq W] [Fintype W] in
lemma mem_elim_insert {o : Option F} {A : Finset F} :
    f ∈ o.elim A (fun g => insert g A) ↔ f ∈ A ∨ o = some f := by
  cases o with
  | none => simp
  | some g =>
    rw [Option.elim_some, Finset.mem_insert, Option.some_inj]
    constructor
    · rintro (rfl | hf)
      · exact .inr rfl
      · exact .inl hf
    · rintro (hf | rfl)
      · exact .inr hf
      · exact .inl rfl

omit [DecidableEq W] [Fintype W] in
lemma outsides_ne_zero (hout : outsides h a f ≠ 0) : h.outside f ≠ 0 ∨ made s s' a = some f := by
  cases a with
  | create g =>
    by_cases hfg : f = g
    · exact .inr (by rw [hfg]; rfl)
    · rw [outsides, Function.update_of_ne hfg] at hout
      exact .inl hout
  | _ => exact .inl hout

omit [DecidableEq W] in
lemma inv_outside (hinv : Inv h) {o : F → ℕ} (ho : ∀ f, o f ≠ 0 → f ∈ h.alive) :
    Inv { h with outside := o } :=
  { hinv with
    alive := fun f hf => hf.elim (fun hkept => hinv.alive f (.inl hkept)) fun hf =>
      hf.elim (ho f) fun hstack => hinv.alive f (.inr (.inr hstack)) }

/-- **What a call or a step of the scheduler keeps**, up to the destructors. -/
lemma inv_act {op : Op W F C} (hinv : Inv h) (hone : OneWakeUp h op)
    (hact : h.act tid op = some h') : Inv h' := by
  cases op with
  | sched a =>
    obtain ⟨hhas, s', own, hs, hown, rfl⟩ := act_sched hact
    have ht := step_trans hs
    obtain ⟨hkeep, hmade⟩ := state_step ht
    obtain ⟨own', hown', hexp, hframe⟩ := stacks_step hinv.stack hinv.sched hinv.enter ht
    obtain rfl := Option.some.inj (hown.symm.trans hown')
    refine ⟨step_inv _ _ _ hinv.sched hone hs, enterable_step hinv.sched hinv.enter ht, hexp, ?_,
      ?_, ?_, hinv.asserted⟩
    · intro f hf
      refine mem_elim_insert.mpr ?_
      rcases hf with hkept | hout | hstack
      · rcases kept_step hinv.sched.wf ht hkept with hold | hnew | hsched
        · exact .inl (hinv.alive f (.inl hold))
        · exact .inr hnew
        · exact .inl (alive_of_has hinv (hhas f hsched))
      · rcases outsides_ne_zero hout with hold | hnew
        · exact .inl (hinv.alive f (.inr (.inl hold)))
        · exact .inr hnew
      · by_cases hkept : Kept h.sched f
        · exact .inl (hinv.alive f (.inl hkept))
        · exact .inl (hinv.alive f (.inr (.inr (hframe f hkept ▸ hstack))))
    · intro f hf
      rcases mem_elim_insert.mp hf with hf | hf
      · exact hkeep f (hinv.known f hf)
      · exact (hmade f hf).2
    · have htotal := hinv.total
      cases hm : made h.sched s' a with
      | none => simpa [hm] using htotal
      | some g =>
        have hg : g ∉ h.alive := fun hg => hinv.known g hg (hmade g hm).1
        simp [Finset.card_insert_of_notMem hg, htotal]
  | copy f =>
    simp only [Heap.act] at hact
    split at hact
    · rename_i hhas
      obtain rfl := Option.some.inj hact
      refine inv_outside hinv fun g hg => ?_
      by_cases hgf : g = f
      · exact hgf ▸ alive_of_has hinv hhas
      · rw [Function.update_of_ne hgf] at hg
        exact hinv.alive g (.inr (.inl hg))
    · cases hact
  | drop f =>
    simp only [Heap.act] at hact
    split at hact
    · cases hact
    · rename_i hne
      obtain rfl := Option.some.inj hact
      refine inv_outside hinv fun g hg => ?_
      by_cases hgf : g = f
      · exact hinv.alive g (.inr (.inl (by rwa [hgf])))
      · rw [Function.update_of_ne hgf] at hg
        exact hinv.alive g (.inr (.inl hg))

lemma inv_heap_step (h : Heap W F C) (op : Op W F C) (h' : Heap W F C) (hinv : Inv h)
    (hone : OneWakeUp h op) (hs : h.step tid op = some h') : Inv h' := by
  obtain ⟨m, hm, rfl⟩ := Option.map_eq_some_iff.mp hs
  exact inv_settle (inv_act hinv hone hm)

omit [DecidableEq W] in
lemma inv_start : Inv ({} : Heap W F C) where
  sched := init_inv
  enter := nofun
  stack := fun f => by
    have hrun : ¬Running ({} : Scheduler W F C) f := by
      rintro ⟨w, hw⟩
      cases hw
    rw [expected, if_neg hrun, if_pos (.inl rfl)]
  alive := by
    rintro f ((⟨e, he, -⟩ | ⟨w, hw | hw⟩) | hout | hstack)
    · cases he
    · cases hw
    · cases hw
    · exact absurd rfl hout
    · exact absurd rfl hstack
  known := by simp
  total := rfl
  asserted := rfl

def Lost (h : Heap W F C) (f : F) : Prop := f ∈ h.alive ∧ ¬Kept h.sched f ∧ h.outside f = 0

instance (h : Heap W F C) (f : F) : Decidable (Lost h f) := inferInstanceAs (Decidable (_ ∧ _))

omit [DecidableEq W] [DecidableEq F] [Fintype W] in
lemma own_of_lost (hpointed : ∀ f ∈ h.alive, Pointed h f) (hlost : Lost h f) : h.own f ≠ 0 := by
  obtain ⟨halive, hkept, hout⟩ := hlost
  rcases hpointed f halive with h1 | h1 | h1
  · exact absurd h1 hkept
  · exact absurd hout h1
  · exact h1

omit [DecidableEq W] in
lemma not_has_of_lost (hinv : Inv h) (hlost : Lost h f) : ¬Has h f := by
  rintro (hout | hrun)
  · exact hout hlost.2.2
  · exact hlost.2.1 (kept_of_running hinv.sched hrun)

lemma lost_act {op : Op W F C} (hinv : Inv h) (hpointed : ∀ f ∈ h.alive, Pointed h f)
    (hlost : Lost h f) (hact : h.act tid op = some h') : Lost h' f ∧ h'.own f ≠ 0 := by
  have hown := own_of_lost hpointed hlost
  have hno := not_has_of_lost hinv hlost
  obtain ⟨halive, hkept, hout⟩ := hlost
  cases op with
  | sched a =>
    obtain ⟨hhas, s', own, hs, hstacks, rfl⟩ := act_sched hact
    have ht := step_trans hs
    have hmade : made h.sched s' a ≠ some f := fun hmade =>
      hinv.known f halive ((state_step ht).2 f hmade).1
    obtain ⟨own', hown', -, hframe⟩ := stacks_step hinv.stack hinv.sched hinv.enter ht
    obtain rfl := Option.some.inj (hstacks.symm.trans hown')
    refine ⟨⟨mem_elim_insert.mpr (.inl halive), fun hk => ?_, ?_⟩, ?_⟩
    · rcases kept_step hinv.sched.wf ht hk with hold | hnew | hsched
      · exact hkept hold
      · exact hmade hnew
      · exact hno (hhas f hsched)
    · by_contra hne
      rcases outsides_ne_zero hne with hold | hnew
      · exact hold hout
      · exact hmade hnew
    · exact fun hzero => hown ((hframe f hkept).symm.trans hzero)
  | copy g =>
    simp only [Heap.act] at hact
    split at hact
    · rename_i hhas
      obtain rfl := Option.some.inj hact
      have hfg : f ≠ g := by
        rintro rfl
        exact hno hhas
      exact ⟨⟨halive, hkept, (Function.update_of_ne hfg ..).trans hout⟩, hown⟩
    · cases hact
  | drop g =>
    simp only [Heap.act] at hact
    split at hact
    · cases hact
    · rename_i hne
      obtain rfl := Option.some.inj hact
      have hfg : f ≠ g := by
        rintro rfl
        exact hne hout
      exact ⟨⟨halive, hkept, (Function.update_of_ne hfg ..).trans hout⟩, hown⟩

/-- What holds in every state: no destructor fails its assertion, `TotalFibers` is right, a fiber is
there as long as there are pointers to it and as long as its function is under way, and a switch
finds a context that is made or saved. -/
structure Sound (h : Heap W F C) : Prop where
  asserted : h.failed = false
  total : h.s_fiber_count = h.alive.card
  alive_iff : ∀ f, f ∈ h.alive ↔ Pointed h f
  underway : ∀ f, ¬Quiet (h.sched.state f) → f ∈ h.alive
  resumes : ∀ w n f cb, (h.sched.worker w).pc = .entering n f cb →
    h.sched.state f = some .init ∨ h.own f ≠ 0

omit [DecidableEq W] in
lemma sound_of_inv (hinv : Inv h) (hpointed : ∀ f ∈ h.alive, Pointed h f) : Sound h := by
  have hstack : ∀ f, ¬Quiet (h.sched.state f) → h.own f ≠ 0 := by
    intro f hf
    rw [hinv.stack f, expected, if_neg hf]
    split
    · exact Nat.one_ne_zero
    · exact two_ne_zero
  refine ⟨hinv.asserted, hinv.total, fun f => ⟨hpointed f, hinv.alive f⟩, fun f hf =>
    hinv.alive f (.inr (.inr (hstack f hf))), fun w n f cb hpc => ?_⟩
  by_cases hinit : h.sched.state f = some .init
  · exact .inl hinit
  · refine .inr (hstack f ?_)
    rintro (hnone | hreset)
    · exact state_of_entering hinv.sched hpc hnone
    · have hend := hinv.enter w n f cb hpc
      simp only [resettable, ended, decide_eq_true_eq, decide_eq_false_iff_not] at hreset hend
      tauto

/-- **A fiber is destroyed when it is done with and nobody has it, and one that everybody has lost
in the middle of its function stays.** In every run in which no step makes a second wake-up of a
fiber while one is on its way, the state is sound at the end; and a fiber that is lost there is
never found again, and never destroyed. -/
theorem fiber_lifetimes (tid : W → ℤ) (ops : List (Op W F C)) (h : Heap W F C)
    (hm : Meets (Heap.step tid) OneWakeUp {} ops) (hr : run (Heap.step tid) {} ops = some h) :
    Sound h ∧ ∀ f, Lost h f → ∀ (ops' : List (Op W F C)) (h' : Heap W F C),
      Meets (Heap.step tid) OneWakeUp h ops' → run (Heap.step tid) h ops' = some h' →
      Lost h' f := by
  have hstep : ∀ (m : Heap W F C) op m', (Inv m ∧ ∀ f ∈ m.alive, Pointed m f) → OneWakeUp m op →
      m.step tid op = some m' → Inv m' ∧ ∀ f ∈ m'.alive, Pointed m' f := by
    intro m op m' hinv hone hs
    refine ⟨inv_heap_step m op m' hinv.1 hone hs, fun f hf => ?_⟩
    obtain ⟨k, -, rfl⟩ := Option.map_eq_some_iff.mp hs
    exact (Finset.mem_filter.mp hf).2
  have hend := run_inv_of_meets hstep ⟨inv_start, by simp⟩ hm hr
  refine ⟨sound_of_inv hend.1 hend.2, fun f hlost ops' h' hm' hr' => ?_⟩
  have hkeep : ∀ (m : Heap W F C) op m',
      ((Inv m ∧ ∀ f ∈ m.alive, Pointed m f) ∧ Lost m f) → OneWakeUp m op →
      m.step tid op = some m' → (Inv m' ∧ ∀ f ∈ m'.alive, Pointed m' f) ∧ Lost m' f := by
    intro m op m' hinv hone hs
    refine ⟨hstep m op m' hinv.1 hone hs, ?_⟩
    obtain ⟨k, hk, rfl⟩ := Option.map_eq_some_iff.mp hs
    obtain ⟨⟨halive, hkept, hout⟩, hown⟩ := lost_act hinv.1.1 hinv.1.2 hinv.2 hk
    exact ⟨Finset.mem_filter.mpr ⟨halive, .inr (.inr hown)⟩, hkept, hout⟩
  exact (run_inv_of_meets hkeep ⟨hend, hlost⟩ hm' hr').2

/-- A fiber that yields to hold when only the worker has a pointer. -/
def abandon : List (Op Bool ℕ ℕ) :=
  [.sched (.create 0), .sched (.schedule (.fiber (some 0)) (-1)), .drop 0,
    .sched (.worker true .start), .sched (.worker true .scan), .sched (.worker true (.branch 9)),
    .sched (.worker true .swapIn), .sched (.worker true .yieldToHold),
    .sched (.worker true .swapOut), .sched (.worker true .decrement),
    .sched (.worker true .readState), .sched (.worker true .writeHold)]

theorem fiber_lifetimes_abandon : ∃ h, run (Heap.step fun _ => 1) {} abandon = some h ∧ Sound h ∧
    h.s_fiber_count = 1 ∧ Lost h 0 := by
  have hmeets : Meets (Heap.step fun _ => 1) OneWakeUp {} abandon := by
    refine meets_cons trivial rfl (meets_cons ?_ rfl ?_)
    · rintro f hf
      cases hf
      decide
    · exact meets_cons trivial rfl <| meets_cons trivial rfl <| meets_cons trivial rfl <|
        meets_cons trivial rfl <| meets_cons trivial rfl <| meets_cons trivial rfl <|
        meets_cons trivial rfl <| meets_cons trivial rfl <| meets_cons nofun rfl <|
        meets_cons trivial rfl <| meets_nil _
  exact ⟨_, rfl, (fiber_lifetimes _ abandon _ hmeets rfl).1, rfl, by decide⟩

end Expected

end Sylar.FiberLifetime
