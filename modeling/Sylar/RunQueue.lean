import Sylar.SchedulerSteps
import Sylar.Lib.Tally

/-!
No entry is lost or taken twice, and `activeThreadCount_` counts the workers that have one.
-/

namespace Sylar.RunQueue

open Lib Lib.Tally Sylar.FiberModel FiberAndThread Sylar.SchedulerModel Scheduler
open Sylar.SchedulerSteps

variable {W F C : Type}

/-- The entry a worker has taken and not yet decremented for. -/
def held : Pc F C → Option ℕ
  | .picked n _ => some n
  | .entering n _ _ => some n
  | .running n _ _ => some n
  | .leaving n _ _ _ => some n
  | .back n _ _ _ => some n
  | .dropping n => some n
  | _ => none

def holds (n : ℕ) (v : Worker F C) : ℕ := if held v.pc = some n then 1 else 0

def holding (v : Worker F C) : ℕ := if held v.pc = none then 0 else 1

/-! ### What a step does to the entries -/

def NoPick (s s' : Scheduler W F C) : Prop :=
  ∀ x n ft, (s'.worker x).pc = .picked n ft → (s.worker x).pc = .picked n ft

/-- The four things that can happen to entries. -/
inductive Kind (tid : W → ℤ) (s s' : Scheduler W F C) : Prop
  | none (hq : s'.fibers = s.fibers) (hi : s'.issued = s.issued)
      (hf : s'.finished = s.finished) (ha : s'.activeThreadCount = s.activeThreadCount)
      (hh : ∀ x, held (s'.worker x).pc = held (s.worker x).pc) (hp : NoPick s s')
  | push (fts : List (FiberAndThread F C))
      (hq : s'.fibers = s.fibers ++ number s.issued.length fts)
      (hi : s'.issued = s.issued ++ fts)
      (hf : s'.finished = s.finished) (ha : s'.activeThreadCount = s.activeThreadCount)
      (hh : ∀ x, held (s'.worker x).pc = held (s.worker x).pc) (hp : NoPick s s')
  | take (w : W) (n : ℕ) (ft : FiberAndThread F C) (q₁ q₂ : List (ℕ × FiberAndThread F C))
      (hq : s.fibers = q₁ ++ (n, ft) :: q₂) (hq' : s'.fibers = q₁ ++ q₂)
      (hno : ∀ x ∈ q₁, ¬ Eligible (tid w) s.state x.2) (he : Eligible (tid w) s.state ft)
      (hi : s'.issued = s.issued) (hf : s'.finished = s.finished)
      (ha : s'.activeThreadCount = s.activeThreadCount + 1)
      (hw : held (s.worker w).pc = Option.none) (hpc : (s'.worker w).pc = .picked n ft)
      (hx : ∀ x, x ≠ w → s'.worker x = s.worker x)
  | release (w : W) (n : ℕ) (hq : s'.fibers = s.fibers) (hi : s'.issued = s.issued)
      (hf : s'.finished = s.finished ++ [n])
      (ha : s'.activeThreadCount = s.activeThreadCount - 1)
      (hw : held (s.worker w).pc = some n) (hw' : held (s'.worker w).pc = Option.none)
      (hx : ∀ x, x ≠ w → s'.worker x = s.worker x)

lemma move_held {s : Scheduler W F C} {term : Bool} {a : Act F} {p p' : Pc F C}
    (h : Move s term a p p') : held p' = held p := by
  cases h <;> rfl

lemma move_ne_picked {s : Scheduler W F C} {term : Bool} {a : Act F} {p p' : Pc F C}
    (h : Move s term a p p') (n : ℕ) (ft : FiberAndThread F C) : p' ≠ .picked n ft := by
  cases h <;> exact nofun

variable [DecidableEq W]

lemma keeps_held {s s' : Scheduler W F C} {w : W} {v : Worker F C}
    (hw : s'.worker = Function.update s.worker w v) (hv : held v.pc = held (s.worker w).pc)
    (hp : ∀ n ft, v.pc = .picked n ft → (s.worker w).pc = .picked n ft) :
    (∀ x, held (s'.worker x).pc = held (s.worker x).pc) ∧ NoPick s s' := by
  constructor
  · intro x
    rw [hw]
    by_cases hx : x = w
    · subst hx; rw [Function.update_self, hv]
    · rw [Function.update_of_ne hx]
  · intro x n ft h
    rw [hw] at h
    by_cases hx : x = w
    · subst hx; rw [Function.update_self] at h; exact hp n ft h
    · rwa [Function.update_of_ne hx] at h

/-- A step of a worker that keeps its entry, or its lack of one. -/
lemma kind_local {tid : W → ℤ} {s s' : Scheduler W F C} {w : W} {v : Worker F C} {p : Pc F C}
    (hw : s'.worker = Function.update s.worker w v) (hpc : (s.worker w).pc = p)
    (hv : held v.pc = held p) (hp : ∀ n ft, v.pc = .picked n ft → p = .picked n ft)
    (hq : s'.fibers = s.fibers) (hi : s'.issued = s.issued) (hf : s'.finished = s.finished)
    (ha : s'.activeThreadCount = s.activeThreadCount) : Kind tid s s' := by
  obtain ⟨hh, hn⟩ := keeps_held hw (by rw [hpc]; exact hv) (by rw [hpc]; exact hp)
  exact .none hq hi hf ha hh hn

variable [DecidableEq F]

lemma kind_of_trans {tid : W → ℤ} {s s' : Scheduler W F C} {a : Action W F C}
    (h : Trans tid s a s') : Kind tid s s' := by
  cases h with
  | move w a p ht h =>
    exact kind_local rfl rfl (move_held h) (fun n ft h' => absurd h' (move_ne_picked h n ft))
      rfl rfl rfl rfl
  | ask w t ht hidle => exact kind_local rfl rfl rfl (fun _ _ h => h) rfl rfl rfl rfl
  | write w ht => exact kind_local rfl rfl rfl (fun _ _ h => h) rfl rfl rfl rfl
  | take w n ft ht hpc hscan =>
    obtain ⟨q₁, q₂, hq, hrest, hno, he, -⟩ := scan_taken hscan
    refine .take w n ft q₁ q₂ hq hrest hno he rfl rfl rfl (by rw [hpc]; rfl) ?_ fun x hx => ?_
    · simp [setWorker]
    · simp [setWorker, hx]
  | miss w t ht hpc hscan => exact kind_local rfl hpc rfl (fun _ _ h => by cases h) rfl rfl rfl rfl
  | reuse w n ft f new ht hpc hslot hst hf =>
    exact kind_local rfl hpc rfl (fun _ _ h => by cases h) rfl rfl rfl rfl
  | fresh w n ft new ht hpc hslot hst hf =>
    exact kind_local rfl hpc rfl (fun _ _ h => by cases h) rfl rfl rfl rfl
  | swapIn w n f cb ht hpc hst =>
    exact kind_local rfl hpc rfl (fun _ _ h => by cases h) rfl rfl rfl rfl
  | leave w n f cb a st ht hpc ha =>
    exact kind_local rfl hpc rfl (fun _ _ h => by cases h) rfl rfl rfl rfl
  | decrement w n p ht hpc =>
    have hw : held (s.worker w).pc = some n := by
      rcases hpc with ⟨f, cb, how, hpc, -⟩ | ⟨hpc, -⟩ <;> rw [hpc] <;> rfl
    have hp : held p = none := by
      rcases hpc with ⟨f, cb, how, -, rfl⟩ | ⟨-, rfl⟩ <;> rfl
    refine .release w n rfl rfl rfl rfl hw ?_ fun x hx => ?_
    · simp [setPc, setWorker, hp]
    · simp [setPc, setWorker, release, hx]
  | park w f how ht hpc hst =>
    exact kind_local rfl hpc rfl (fun _ _ h => by cases h) rfl rfl rfl rfl
  | writeHold w f cb ht hpc =>
    exact kind_local rfl hpc rfl (fun _ _ h => by cases h) rfl rfl rfl rfl
  | requeue w f cb t ht hpc =>
    obtain ⟨hh, hp⟩ : (∀ x, held (((pushed s [make (.fiber (some f)) (-1)]).setWorker w
        { s.worker w with pc := .scan, tickle := t, cbFiber := dropCb (s.worker w) cb }).worker
          x).pc = held (s.worker x).pc) ∧ NoPick s _ :=
      keeps_held rfl (by rw [hpc]; rfl) (fun _ _ h => by cases h)
    exact .push [make (.fiber (some f)) (-1)] rfl rfl rfl rfl hh hp
  | goIdle w ht hpc => exact kind_local rfl hpc rfl (fun _ _ h => by cases h) rfl rfl rfl rfl
  | stop w ht hpc hst => exact kind_local rfl hpc rfl (fun _ _ h => by cases h) rfl rfl rfl rfl
  | drain w ht hpc => exact kind_local rfl hpc rfl (fun _ _ h => by cases h) rfl rfl rfl rfl
  | leaveIdle w ht hpc => exact kind_local rfl hpc rfl (fun _ _ h => by cases h) rfl rfl rfl rfl
  | schedule fts a ha hk =>
    exact .push (fts.filter isWork) rfl rfl rfl rfl (fun _ => rfl) fun _ _ _ h => h
  | create | tickle | askOut | writeOut | flags =>
    exact .none rfl rfl rfl rfl (fun _ => rfl) fun _ _ _ h => h

/-- A worker comes by an entry only in a scan, which takes the earliest one it may take. -/
lemma step_takes {tid : W → ℤ} {s s' : Scheduler W F C} {a : Action W F C}
    (hs : step tid s a = some s') {w : W} {n : ℕ} (hn : held (s'.worker w).pc = some n)
    (hnew : held (s.worker w).pc ≠ some n) :
    ∃ q₁ ft q₂, s.fibers = q₁ ++ (n, ft) :: q₂ ∧ s'.fibers = q₁ ++ q₂ ∧
      (s'.worker w).pc = .picked n ft ∧ Eligible (tid w) s.state ft ∧
      ∀ e ∈ q₁, ¬ Eligible (tid w) s.state e.2 := by
  cases kind_of_trans (step_trans hs) with
  | none hq hi hf ha hh hp => exact absurd ((hh w).symm.trans hn) hnew
  | push fts hq hi hf ha hh hp => exact absurd ((hh w).symm.trans hn) hnew
  | take x k ft q₁ q₂ hq hq' hno he hi hf ha hw hpc hx =>
    by_cases hwx : w = x
    · subst hwx
      obtain rfl : k = n := by rw [hpc] at hn; exact Option.some.inj hn
      exact ⟨q₁, ft, q₂, hq, hq', hpc, he, hno⟩
    · rw [hx w hwx] at hn
      exact absurd hn hnew
  | release x k hq hi hf ha hw hw' hx =>
    by_cases hwx : w = x
    · subst hwx
      rw [hw'] at hn
      cases hn
    · rw [hx w hwx] at hn
      exact absurd hn hnew

lemma scan_misses {tid : W → ℤ} {s s' : Scheduler W F C} {w : W}
    (hs : step tid s (.worker w .scan) = some s') (hpc : (s'.worker w).pc = .missed) :
    ∀ e ∈ s.fibers, ¬ Eligible (tid w) s.state e.2 := by
  have htrans := step_trans hs
  generalize ha : Action.worker w Act.scan = a at htrans
  cases htrans with
  | miss x t ht hx hscan =>
    cases ha
    exact scan_none hscan
  | take x n ft ht hx hscan =>
    cases ha
    simp [setWorker] at hpc
  | move x b p ht h =>
    cases ha
    have hp : p = .missed := by simpa [setPc, setWorker] using hpc
    rw [hp] at h
    generalize (s.worker w).pc = p₀ at h
    cases h
  | leave x n f cb b st ht hx hb =>
    cases ha
    simp [setPc, setWorker] at hpc
  | schedule fts b hb hk => rcases hb with ⟨fc, t, rfl, -⟩ | ⟨fcs, rfl, -⟩ <;> cases ha
  | flags b auto stop hb => rcases hb with rfl | rfl <;> cases ha
  | _ => cases ha

lemma step_issued {tid : W → ℤ} {s s' : Scheduler W F C} {a : Action W F C}
    (hs : step tid s a = some s') : s.issued <+: s'.issued := by
  cases kind_of_trans (step_trans hs) with
  | none hq hi hf ha hh hp => rw [hi]
  | push fts hq hi hf ha hh hp => rw [hi]; exact List.prefix_append _ _
  | take x k ft q₁ q₂ hq hq' hno he hi hf ha hw hpc hx => rw [hi]
  | release x k hq hi hf ha hw hw' hx => rw [hi]

/-! ### The invariant -/

section Invariant

variable [Fintype W]

omit [DecidableEq W] [DecidableEq F] in
lemma count_number (k n : ℕ) (fts : List (FiberAndThread F C)) :
    ((number k fts).map Prod.fst).count n = if k ≤ n ∧ n < k + fts.length then 1 else 0 := by
  induction fts generalizing k with
  | nil => simp [number]
  | cons ft fts ih =>
    simp only [number, List.map_cons, List.count_cons, ih, List.length_cons, beq_iff_eq]
    split <;> split <;> split <;> omega

/-- Each entry is in one place. -/
structure Inv (s : Scheduler W F C) : Prop where
  place : ∀ n, (s.fibers.map Prod.fst).count n + tally (holds n) s.worker +
    s.finished.count n = if n < s.issued.length then 1 else 0
  queued : ∀ e ∈ s.fibers, s.issued[e.1]? = some e.2
  picked : ∀ w n ft, (s.worker w).pc = .picked n ft → s.issued[n]? = some ft
  active : s.activeThreadCount = tally holding s.worker

omit [DecidableEq W] [DecidableEq F] in
lemma tally_holds_congr {s s' : Scheduler W F C}
    (hh : ∀ x, held (s'.worker x).pc = held (s.worker x).pc) :
    (∀ n, tally (holds n) s'.worker = tally (holds n) s.worker) ∧
      tally holding s'.worker = tally holding s.worker :=
  ⟨fun n => tally_congr fun x => by simp [holds, hh x],
    tally_congr fun x => by simp [holding, hh x]⟩

omit [DecidableEq W] [DecidableEq F] in
lemma inv_push {s s' : Scheduler W F C} (h : Inv s) (fts : List (FiberAndThread F C))
    (hq : s'.fibers = s.fibers ++ number s.issued.length fts)
    (hi : s'.issued = s.issued ++ fts) (hf : s'.finished = s.finished)
    (ha : s'.activeThreadCount = s.activeThreadCount)
    (hh : ∀ x, held (s'.worker x).pc = held (s.worker x).pc) (hp : NoPick s s') : Inv s' := by
  obtain ⟨hholds, hholding⟩ := tally_holds_congr hh
  -- an entry that was there keeps its number
  have hold {n : ℕ} {ft : FiberAndThread F C} (hn : s.issued[n]? = some ft) :
      (s.issued ++ fts)[n]? = some ft := by
    rw [List.getElem?_append_left (List.getElem?_eq_some_iff.mp hn).1]
    exact hn
  refine ⟨fun n => ?_, fun e he => ?_, fun w n ft hpc => ?_, by rw [ha, hholding, h.active]⟩
  · have hplace := h.place n
    rw [hq, hi, hf, hholds, List.map_append, List.count_append, count_number,
      List.length_append]
    split at hplace <;> split <;> split <;> omega
  · rw [hq] at he
    rw [hi]
    rcases List.mem_append.mp he with he | he
    · exact hold (h.queued e he)
    · obtain ⟨hle, hget⟩ := mem_number he
      rw [List.getElem?_append_right hle]
      exact hget
  · rw [hi]
    exact hold (h.picked w n ft (hp w n ft hpc))

omit [DecidableEq F] in
lemma inv_take {s s' : Scheduler W F C} (h : Inv s) {w : W} {n : ℕ} {ft : FiberAndThread F C}
    {q₁ q₂ : List (ℕ × FiberAndThread F C)} (hq : s.fibers = q₁ ++ (n, ft) :: q₂)
    (hq' : s'.fibers = q₁ ++ q₂) (hi : s'.issued = s.issued) (hf : s'.finished = s.finished)
    (ha : s'.activeThreadCount = s.activeThreadCount + 1)
    (hw : held (s.worker w).pc = none) (hpc : (s'.worker w).pc = .picked n ft)
    (hx : ∀ x, x ≠ w → s'.worker x = s.worker x) : Inv s' := by
  have hheld : held (s'.worker w).pc = some n := by rw [hpc]; rfl
  refine ⟨fun k => ?_, fun e he => ?_, fun x k gt hk => ?_, ?_⟩
  · have hplace := h.place k
    have hsum := tally_of_ne (holds k) hx
    simp only [holds, hw, hheld, reduceCtorEq, if_false, Option.some.injEq] at hsum
    rw [hq] at hplace
    rw [hq', hi, hf]
    simp only [List.map_append, List.map_cons, List.count_append, List.count_cons,
      beq_iff_eq] at hplace ⊢
    omega
  · rw [hq'] at he
    rw [hi]
    refine h.queued e ?_
    rw [hq]
    rcases List.mem_append.mp he with he | he
    · exact List.mem_append_left _ he
    · exact List.mem_append_right _ (List.mem_cons_of_mem _ he)
  · rw [hi]
    by_cases hxw : x = w
    · subst hxw
      rw [hpc] at hk
      cases hk
      exact h.queued (n, ft) (by rw [hq]; simp)
    · rw [hx x hxw] at hk
      exact h.picked x k gt hk
  · have hsum := tally_of_ne holding hx
    simp only [holding, hw, hheld, reduceCtorEq, if_false, if_true] at hsum
    rw [ha, h.active]
    omega

omit [DecidableEq F] in
lemma inv_release {s s' : Scheduler W F C} (h : Inv s) {w : W} {n : ℕ}
    (hq : s'.fibers = s.fibers) (hi : s'.issued = s.issued)
    (hf : s'.finished = s.finished ++ [n]) (ha : s'.activeThreadCount = s.activeThreadCount - 1)
    (hw : held (s.worker w).pc = some n) (hw' : held (s'.worker w).pc = none)
    (hx : ∀ x, x ≠ w → s'.worker x = s.worker x) : Inv s' := by
  refine ⟨fun k => ?_, fun e he => ?_, fun x k gt hk => ?_, ?_⟩
  · have hplace := h.place k
    have hsum := tally_of_ne (holds k) hx
    simp only [holds, hw, hw', reduceCtorEq, if_false, Option.some.injEq] at hsum
    rw [hq, hi, hf, List.count_append, List.count_singleton]
    simp only [beq_iff_eq]
    omega
  · rw [hq] at he
    rw [hi]
    exact h.queued e he
  · rw [hi]
    by_cases hxw : x = w
    · subst hxw
      rw [hk] at hw'
      cases hw'
    · rw [hx x hxw] at hk
      exact h.picked x k gt hk
  · have hsum := tally_of_ne holding hx
    simp only [holding, hw, hw', reduceCtorEq, if_false, if_true] at hsum
    rw [ha, h.active]
    omega

lemma step_inv {tid : W → ℤ} (s : Scheduler W F C) (a : Action W F C) (s' : Scheduler W F C)
    (h : Inv s) (hs : step tid s a = some s') : Inv s' := by
  cases kind_of_trans (step_trans hs) with
  | none hq hi hf ha hh hp =>
    exact inv_push h [] (by simpa [number] using hq) (by simpa using hi) hf ha hh hp
  | push fts hq hi hf ha hh hp => exact inv_push h fts hq hi hf ha hh hp
  | take w n ft q₁ q₂ hq hq' hno he hi hf ha hw hpc hx => exact inv_take h hq hq' hi hf ha hw hpc hx
  | release w n hq hi hf ha hw hw' hx => exact inv_release h hq hi hf ha hw hw' hx

omit [DecidableEq W] [DecidableEq F] in
lemma init_inv : Inv ({} : Scheduler W F C) := by
  have hholds (n : ℕ) : tally (holds n) (fun _ : W => ({} : Worker F C)) = 0 :=
    tally_const_eq_zero rfl
  have hholding : tally holding (fun _ : W => ({} : Worker F C)) = 0 := tally_const_eq_zero rfl
  refine ⟨fun n => ?_, fun e he => (by cases he), fun w n ft h => (by cases h), ?_⟩
  · simp [hholds]
  · simp [hholding]

/-- **The run queue loses nothing and hands nothing out twice.** In every state the workers
and the callers of `schedule` lead to: every entry with work that was ever scheduled is in one
of three places, the queue, the hands of one worker, or behind a decrement, and it is still
the entry it was; a worker comes by an entry only by a scan, and then it is the earliest one
in the queue that is not pinned to another thread and whose fiber is not running, while a scan
that takes nothing finds none; and `activeThreadCount_` is the number of workers between
taking an entry and the decrement. -/
theorem run_queue_conserved (tid : W → ℤ) (as : List (Action W F C)) (s : Scheduler W F C)
    (hr : Runs.run (step tid) {} as = some s) :
    (∀ n ft, s.issued[n]? = some ft →
      (s.fibers.map Prod.fst).count n +
        (Finset.univ.filter fun w => held (s.worker w).pc = some n).card +
          s.finished.count n = 1) ∧
    (∀ e ∈ s.fibers, s.issued[e.1]? = some e.2) ∧
    (∀ w n ft, (s.worker w).pc = .picked n ft → s.issued[n]? = some ft) ∧
    (∀ a s', step tid s a = some s' → s.issued <+: s'.issued ∧
      ∀ w n, held (s'.worker w).pc = some n → held (s.worker w).pc ≠ some n →
        ∃ q₁ ft q₂, s.fibers = q₁ ++ (n, ft) :: q₂ ∧ s'.fibers = q₁ ++ q₂ ∧
          (s'.worker w).pc = .picked n ft ∧ Eligible (tid w) s.state ft ∧
          ∀ e ∈ q₁, ¬ Eligible (tid w) s.state e.2) ∧
    (∀ fc thread s', step tid s (.schedule fc thread) = some s' →
      s'.issued = s.issued ++ [make fc thread].filter isWork) ∧
    (∀ fcs s', step tid s (.scheduleAll fcs) = some s' →
      s'.issued = s.issued ++ (fcs.map fun fc => make fc (-1)).filter isWork) ∧
    (∀ w s', step tid s (.worker w .scan) = some s' → (s'.worker w).pc = .missed →
      ∀ e ∈ s.fibers, ¬ Eligible (tid w) s.state e.2) ∧
    s.activeThreadCount = (Finset.univ.filter fun w => held (s.worker w).pc ≠ none).card := by
  have h : Inv s := Runs.run_inv step_inv init_inv hr
  refine ⟨fun n ft hn => ?_, h.queued, h.picked, fun a s' hs => ⟨step_issued hs, fun w n =>
    step_takes hs⟩, fun fc thread s' hs => ?_, fun fcs s' hs => ?_, fun w s' => scan_misses, ?_⟩
  · have hcard := tally_eq_card (g := holds n) (p := fun v => held v.pc = some n)
      (fun _ => rfl) s.worker
    have hplace := h.place n
    rw [hcard, if_pos (List.getElem?_eq_some_iff.mp hn).1] at hplace
    exact hplace
  · simp only [step, Option.ite_none_right_eq_some, Option.some.injEq] at hs
    rw [← hs.2, schedule_eq]
    rfl
  · simp only [step, Option.ite_none_right_eq_some, Option.some.injEq] at hs
    rw [← hs.2, schedule_eq]
    rfl
  · rw [h.active, tally_eq_card (g := holding) (p := fun v => held v.pc ≠ none) (fun v => ?_)]
    unfold holding
    by_cases hv : held v.pc = none <;> simp [hv]

theorem run_queue_conserved_pinned :
    ∃ s : Scheduler Bool ℕ ℕ, Runs.run (step fun w => if w then 7 else 8) {}
        [.create 0, .schedule (.cb (some 5)) 8, .schedule (.fiber (some 0)) (-1),
          .worker true .start, .worker true .scan, .worker true .ask, .worker true (.branch 9),
          .worker true .swapIn] = some s ∧
      s.activeThreadCount = (Finset.univ.filter fun w => held (s.worker w).pc ≠ none).card := by
  obtain ⟨s, hs⟩ := Option.isSome_iff_exists.mp (show (Runs.run (step fun w => if w then 7 else 8)
    ({} : Scheduler Bool ℕ ℕ) [.create 0, .schedule (.cb (some 5)) 8,
      .schedule (.fiber (some 0)) (-1), .worker true .start, .worker true .scan,
      .worker true .ask, .worker true (.branch 9), .worker true .swapIn]).isSome = true by decide)
  obtain ⟨-, -, -, -, -, -, -, hactive⟩ := run_queue_conserved _ _ s hs
  exact ⟨s, hs, hactive⟩

end Invariant

end Sylar.RunQueue
