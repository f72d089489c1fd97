import Sylar.Recycled

/-!
What becomes of the functions that have been queued.

A function that has been queued has ended, or has called `YieldToHold`, or is still there: in an
entry, or on the fiber that has been switched to. The two counters say where the worker is.
-/

namespace Sylar.Accounts

open Lib Sylar.FiberModel FiberAndThread Sylar.SchedulerModel Sylar.SchedulerSteps
open Sylar.WorkerLoop Loop Sylar.CallbackStarts Sylar.Recycled

variable {tid : ℤ} {s s' : Loop} {k : Option Bool}

/-! ### The counters -/

def busy : WorkerLoop.Pc → Bool
  | .picked .. | .running .. | .back .. => true
  | _ => false

structure Counts (s : Loop) : Prop where
  active : s.activeThreadCount = if busy s.pc then 1 else 0
  idle : s.idleThreadCount = if s.pc = .idling then 1 else 0

lemma counts_schedule (h : Counts s) (ft : Entry) : Counts (s.scheduleNoLock ft) := by
  rcases schedule_cases s ft with he | ⟨-, he⟩ <;> rw [he] <;> exact ⟨h.active, h.idle⟩

lemma counts_same (h : Counts s) (ha : s'.activeThreadCount = s.activeThreadCount)
    (hi : s'.idleThreadCount = s.idleThreadCount) (hb : busy s'.pc = busy s.pc)
    (hp : s'.pc = .idling ↔ s.pc = .idling) : Counts s' :=
  ⟨by rw [ha, hb]; exact h.active, by simp only [hi, hp]; exact h.idle⟩

lemma counts_done (h : Counts s) (ha : s'.activeThreadCount = s.activeThreadCount - 1)
    (hi : s'.idleThreadCount = s.idleThreadCount) (hb : busy s.pc) (hb' : busy s'.pc = false)
    (hp : s.pc ≠ .idling) (hp' : s'.pc ≠ .idling) : Counts s' := by
  have hact := h.active
  have hidle := h.idle
  rw [if_pos hb] at hact
  rw [if_neg hp] at hidle
  refine ⟨?_, ?_⟩
  · rw [ha, hb', hact]
    rfl
  · rw [hi, if_neg hp', hidle]

lemma counts_trans (hctl : Control s) (h : Counts s) (ht : Trans tid s k s') : Counts s' := by
  cases ht with
  | fault e hb => exact absurd hb hctl.not_broken
  | call c =>
    exact call_rule c h (fun _ ft h => counts_schedule h ft) (fun _ _ h => ⟨h.active, h.idle⟩)
      ⟨h.active, h.idle⟩
  | flags autoStop stopping ha hs => exact ⟨h.active, h.idle⟩
  | take n ft q₁ q₂ hpc hq hno he =>
    have hact : s.activeThreadCount = 0 := by simpa [hpc, busy] using h.active
    have hidle : s.idleThreadCount = 0 := by simpa [hpc] using h.idle
    exact ⟨by simp [goto, note, busy, hact], by simp [goto, note, hidle]⟩
  | miss hpc hno => exact counts_same h rfl rfl (by rw [hpc]; rfl) (by simp [hpc])
  | drop n ft hpc hf hcb =>
    exact counts_done h rfl rfl (by rw [hpc]; rfl) rfl (by simp [hpc]) (by simp)
  | empty n ft r hpc hr hst hcb => exact counts_same h rfl rfl (by rw [hpc]; rfl) (by simp [hpc])
  | start n ft r b hpc hr hst hcb => exact counts_same h rfl rfl (by rw [hpc]; rfl) (by simp [hpc])
  | resume n ft r b hpc hr hst hcb =>
    exact counts_same h rfl rfl (by rw [hpc]; rfl) (by simp [hpc])
  | reuse n ft f hpc hf hcb hc hst => exact counts_same h rfl rfl (by rw [hpc]; rfl) (by simp [hpc])
  | fresh n ft hpc hf hcb hc => exact counts_same h rfl rfl (by rw [hpc]; rfl) (by simp [hpc])
  | ret f cb hpc => exact counts_same h rfl rfl (by rw [hpc]; rfl) (by simp [hpc])
  | throw f cb hpc => exact counts_same h rfl rfl (by rw [hpc]; rfl) (by simp [hpc])
  | ready f cb hpc hst => exact counts_same h rfl rfl (by rw [hpc]; rfl) (by simp [hpc])
  | hold f cb hpc hst => exact counts_same h rfl rfl (by rw [hpc]; rfl) (by simp [hpc])
  | this f cb thread hpc => exact counts_schedule h _
  | addEvent f cb hpc => exact ⟨h.active, h.idle⟩
  | requeue f cb hpc hst =>
    have hsame : ∀ ft, ({ s with activeThreadCount := s.activeThreadCount - 1 }.scheduleNoLock
        ft).activeThreadCount = s.activeThreadCount - 1 ∧
        ({ s with activeThreadCount := s.activeThreadCount - 1 }.scheduleNoLock
          ft).idleThreadCount = s.idleThreadCount := by
      intro ft
      rcases schedule_cases { s with activeThreadCount := s.activeThreadCount - 1 } ft with
        he | ⟨-, he⟩ <;> rw [he] <;> exact ⟨rfl, rfl⟩
    exact counts_done h (hsame _).1 (hsame _).2 (by rw [hpc]; rfl) rfl (by simp [hpc]) (by simp)
  | finish f hpc hst =>
    exact counts_done h rfl rfl (by rw [hpc]; rfl) rfl (by simp [hpc]) (by simp)
  | quit f hpc hst => exact counts_done h rfl rfl (by rw [hpc]; rfl) rfl (by simp [hpc]) (by simp)
  | park f cb hpc hst =>
    exact counts_done h rfl rfl (by rw [hpc]; rfl) rfl (by simp [hpc]) (by simp)
  | exit hpc hi => exact counts_same h rfl rfl (by rw [hpc]; rfl) (by simp [hpc])
  | idleIn hpc hi =>
    have hact : s.activeThreadCount = 0 := by simpa [hpc, busy] using h.active
    have hidle : s.idleThreadCount = 0 := by simpa [hpc] using h.idle
    exact ⟨by simp [goto, busy, hact], by simp [goto, hidle]⟩
  | idleOut more hpc hi =>
    have hact : s.activeThreadCount = 0 := by simpa [hpc, busy] using h.active
    have hidle : s.idleThreadCount = 1 := by simpa [hpc] using h.idle
    exact ⟨by simp [goto, busy, hact], by simp [goto, hidle]⟩

/-! ### What the log says of a fiber -/

lemma schedule_log (s : Loop) (ft : Entry) : s.log ⊆ (s.scheduleNoLock ft).log := by
  rcases schedule_cases s ft with he | ⟨-, he⟩ <;> rw [he] <;> simp

lemma log_grows (ht : Trans tid s k s') : s.log ⊆ s'.log := by
  cases ht with
  | call c =>
    refine call_rule (P := fun s' => s.log ⊆ s'.log) c (List.Subset.refl _) (fun s' ft h => ?_)
      (fun _ _ h => h) (List.Subset.refl _)
    exact List.Subset.trans h (schedule_log s' ft)
  | this f cb thread hpc => exact schedule_log s _
  | requeue f cb hpc hst =>
    exact schedule_log { s with activeThreadCount := s.activeThreadCount - 1 } _
  | take n ft q₁ q₂ hpc hq hno he => exact List.subset_append_left _ _
  | start n ft r b hpc hr hst hcb => exact List.subset_append_left _ _
  | resume n ft r b hpc hr hst hcb => exact List.subset_append_left _ _
  | reuse n ft f hpc hf hcb hc hst => exact List.subset_append_left _ _
  | fresh n ft hpc hf hcb hc => exact List.subset_append_left _ _
  | ret f cb hpc => exact List.subset_append_left _ _
  | throw f cb hpc => exact List.subset_append_left _ _
  | hold f cb hpc hst => exact List.subset_append_left _ _
  | _ => exact List.Subset.refl _

/-- The log agrees with the state of a fiber that has a function. -/
structure Noted (pc : WorkerLoop.Pc) (log : List Mark) (f : ℕ) (v : Fiber) : Prop where
  hold : v.state = .hold → ∀ b, v.cb = some b → .held b ∈ log
  /-- It has called `YieldToHold`, and `run` has not yet written the state. -/
  yielded : v.state = .exec → (∃ cb, pc = .back f cb) → ∀ b, v.cb = some b → .held b ∈ log
  ended : v.state = .term ∨ v.state = .except → ∀ b, v.cb = some b → .ended b ∈ log

def Notes (s : Loop) : Prop := ∀ f, Noted s.pc s.log f (s.heap f)

lemma Noted.other {pc pc' : WorkerLoop.Pc} {log log' : List Mark} {f : ℕ} {v : Fiber}
    (h : Noted pc log f v) (hlog : log ⊆ log') (hpc : ∀ cb, pc' = .back f cb → pc = .back f cb) :
    Noted pc' log' f v :=
  ⟨fun hst b hb => hlog (h.hold hst b hb),
    fun hst ⟨cb, he⟩ b hb => hlog (h.yielded hst ⟨cb, hpc cb he⟩ b hb),
    fun hst b hb => hlog (h.ended hst b hb)⟩

lemma notes_same (h : Notes s) (hheap : s'.heap = s.heap) (hlog : s.log ⊆ s'.log)
    (hpc : ∀ f cb, s'.pc = .back f cb → s.pc = .back f cb) : Notes s' := by
  intro f
  rw [hheap]
  exact (h f).other hlog (hpc f)

lemma notes_update (h : Notes s) {f : ℕ} {v : Fiber} (hheap : s'.heap = Function.update s.heap f v)
    (hlog : s.log ⊆ s'.log) (hv : Noted s'.pc s'.log f v)
    (hpc : ∀ g cb, g ≠ f → s'.pc = .back g cb → s.pc = .back g cb) : Notes s' := by
  intro g
  rw [hheap]
  by_cases hg : g = f
  · subst hg
    rw [Function.update_self]
    exact hv
  · rw [Function.update_of_ne hg]
    exact (h g).other hlog fun cb he => hpc g cb hg he

lemma noted_of_begun {pc : WorkerLoop.Pc} {log : List Mark} {f : ℕ} {v : Fiber}
    (hst : v.state = .init ∨ v.state = .ready ∨ (v.state = .exec ∧ ∀ cb, pc ≠ .back f cb)) :
    Noted pc log f v := by
  refine ⟨fun he => ?_, fun he ⟨cb, hb⟩ => ?_, fun he => ?_⟩
  · simp [he] at hst
  · simp only [he, reduceCtorEq, true_and, false_or] at hst
    exact absurd hb (hst cb)
  · rcases he with he | he <;> simp [he] at hst

lemma noted_of_none {pc : WorkerLoop.Pc} {log : List Mark} {f : ℕ} {v : Fiber} (hcb : v.cb = none) :
    Noted pc log f v := by
  refine ⟨fun _ b hb => ?_, fun _ _ b hb => ?_, fun _ b hb => ?_⟩ <;> (rw [hcb] at hb; cases hb)

lemma body_eq {f : ℕ} {b : Body} (hcb : (s.heap f).cb = some b) : s.body f = b := by
  show (s.heap f).cb.getD (.fiber f) = b
  rw [hcb]
  rfl

lemma notes_schedule (h : Notes s) (ft : Entry) : Notes (s.scheduleNoLock ft) := by
  obtain ⟨h1, -, -, h4, -⟩ := schedule_same s ft
  exact notes_same h h1 (schedule_log s ft) fun f cb hb => h4 ▸ hb

lemma notes_trans (hctl : Control s) (h : Notes s) (ht : Trans tid s k s') : Notes s' := by
  have hlog := log_grows ht
  have hleft : ∀ {f g : ℕ} {cb cb' : Bool}, g ≠ f →
      WorkerLoop.Pc.back f cb = .back g cb' → s.pc = .back g cb' := by
    intro f g cb cb' hg he
    obtain ⟨rfl, -⟩ : f = g ∧ cb = cb' := by simpa using he
    exact absurd rfl hg
  cases ht with
  | fault e hb => exact absurd hb hctl.not_broken
  | call c =>
    refine call_rule c h (fun _ ft h => notes_schedule h ft)
      (fun s' _ h => notes_same (s := s') h rfl (List.Subset.refl _) fun _ _ hb => hb) ?_
    exact notes_update h rfl (List.Subset.refl _) (noted_of_begun (.inl rfl)) fun _ _ _ hb => hb
  | flags autoStop stopping ha hs => exact notes_same h rfl hlog fun _ _ hb => hb
  | take n ft q₁ q₂ hpc hq hno he => exact notes_same h rfl hlog (by simp)
  | miss hpc hno => exact notes_same h rfl hlog (by simp)
  | drop n ft hpc hf hcb => exact notes_same h rfl hlog (by simp)
  | empty n ft r hpc hr hst hcb =>
    exact notes_update h rfl hlog (noted_of_none hcb) fun _ _ hg hb => hleft hg hb
  | start n ft r b hpc hr hst hcb =>
    exact notes_update h rfl hlog (noted_of_begun (.inr (.inr ⟨rfl, by simp⟩))) (by simp)
  | resume n ft r b hpc hr hst hcb =>
    exact notes_update h rfl hlog (noted_of_begun (.inr (.inr ⟨rfl, by simp⟩))) (by simp)
  | reuse n ft f hpc hf hcb hc hst =>
    exact notes_update h rfl hlog (noted_of_begun (.inr (.inr ⟨rfl, by simp⟩))) (by simp)
  | fresh n ft hpc hf hcb hc =>
    exact notes_update h rfl hlog (noted_of_begun (.inr (.inr ⟨rfl, by simp⟩))) (by simp)
  | ret f cb hpc => exact notes_update h rfl hlog (noted_of_none rfl) fun _ _ hg hb => hleft hg hb
  | throw f cb hpc =>
    refine notes_update h rfl hlog ⟨by simp, by simp, fun _ b hb => ?_⟩ fun _ _ hg hb => hleft hg hb
    have hbody : s.body f = b := body_eq hb
    rw [← hbody]
    exact List.mem_append_right _ (List.mem_singleton.mpr rfl)
  | ready f cb hpc hst =>
    exact notes_update h rfl hlog (noted_of_begun (.inr (.inl rfl))) fun _ _ hg hb => hleft hg hb
  | hold f cb hpc hst =>
    have hst : (s.heap f).state = .exec := hst
    have hv : Noted (.back f cb) (s.log ++ [.held (s.body f)]) f (s.heap f) := by
      refine ⟨by simp [hst], fun _ _ b hb => ?_, by simp [hst]⟩
      rw [body_eq hb]
      exact List.mem_append_right _ (List.mem_singleton.mpr rfl)
    exact notes_update h (Function.update_eq_self f s.heap).symm hlog hv
      fun _ _ hg hb => hleft hg hb
  | this f cb thread hpc => exact notes_schedule h _
  | addEvent f cb hpc => exact notes_same h rfl hlog fun _ _ hb => hb
  | requeue f cb hpc hst =>
    obtain ⟨h1, -, -, -, -⟩ := schedule_same
      { s with activeThreadCount := s.activeThreadCount - 1 }
      (make (.fiber (some ⟨f, s.body f⟩)) (-1))
    exact notes_same h h1 hlog (by simp)
  | finish f hpc hst => exact notes_update h rfl hlog (noted_of_begun (.inl rfl)) (by simp)
  | quit f hpc hst => exact notes_same h rfl hlog (by simp)
  | park f cb hpc hst =>
    have hexec : (s.heap f).state = .exec := (hctl.each f).exec_of_back hpc hst
    refine notes_update h rfl hlog ⟨fun _ b hb => ?_, by simp, by simp⟩ (by simp)
    exact (h f).yielded hexec ⟨cb, hpc⟩ b hb
  | exit hpc hi => exact notes_same h rfl hlog (by simp)
  | idleIn hpc hi => exact notes_same h rfl hlog (by simp)
  | idleOut more hpc hi => exact notes_same h rfl hlog (by simp)

/-! ### A function stays on its fiber until it has ended -/

lemma cb_setState {f g : ℕ} {b : Body} {st : State} (hcb : (s.heap f).cb = some b) :
    (Function.update s.heap g { s.heap g with state := st } f).cb = some b := by
  by_cases hf : f = g
  · subst hf
    rw [Function.update_self]
    exact hcb
  · rw [Function.update_of_ne hf]
    exact hcb

lemma cb_update {f g : ℕ} {b : Body} {v : Fiber} (hcb : (s.heap f).cb = some b) (hf : f ≠ g) :
    (Function.update s.heap g v f).cb = some b := by
  rw [Function.update_of_ne hf]
  exact hcb

lemma cb_trans (hctl : Control s) (hn : Notes s) (ht : Trans tid s k s') {f : ℕ} {b : Body}
    (hcb : (s.heap f).cb = some b) : (s'.heap f).cb = some b ∨ .ended b ∈ s'.log := by
  cases ht with
  | call c =>
    left
    refine call_rule (P := fun s' => (s'.heap f).cb = some b) c hcb (fun s' ft h => ?_)
      (fun _ _ h => h) (cb_update hcb ?_)
    · rw [(schedule_same s' ft).1]
      exact h
    · have hlt := hctl.lt_made hcb
      omega
  | empty n ft r hpc hr hst hnone => exact .inl (cb_setState hcb)
  | start n ft r b' hpc hr hst hsome => exact .inl (cb_setState hcb)
  | resume n ft r b' hpc hr hst hsome => exact .inl (cb_setState hcb)
  | reuse n ft g hpc hf hsome hc hst =>
    by_cases hfg : f = g
    · -- `cb_fiber` has no function left unless that has thrown
      subst hfg
      right
      rcases (hctl.each f).spare hc with he | he | he | ⟨-, he⟩
      · rw [hpc] at he
        cases he
      · rw [hpc] at he
        cases he
      · exact List.mem_append_left _ ((hn f).ended (.inr he) b hcb)
      · rw [hcb] at he
        cases he
    · exact .inl (cb_update hcb hfg)
  | fresh n ft hpc hf hsome hc =>
    have hlt := hctl.lt_made hcb
    exact .inl (cb_update hcb (by omega))
  | ret g cb hpc =>
    by_cases hfg : f = g
    · subst hfg
      right
      rw [← body_eq hcb]
      exact List.mem_append_right _ (List.mem_singleton.mpr rfl)
    · exact .inl (cb_update hcb hfg)
  | throw g cb hpc => exact .inl (cb_setState hcb)
  | ready g cb hpc hst => exact .inl (cb_setState hcb)
  | this g cb thread hpc =>
    left
    rw [(schedule_same s _).1]
    exact hcb
  | requeue g cb hpc hst =>
    left
    have hsame := (schedule_same { s with activeThreadCount := s.activeThreadCount - 1 }
      (make (.fiber (some ⟨g, s.body g⟩)) (-1))).1
    exact (congrArg (fun heap => (heap f).cb) hsame).trans hcb
  | finish g hpc hst =>
    by_cases hfg : f = g
    · subst hfg
      exact .inr ((hn f).ended hst b hcb)
    · exact .inl (cb_update hcb hfg)
  | park g cb hpc hst => exact .inl (cb_setState hcb)
  | _ => exact .inl hcb

/-- The function the pointer was taken for has ended, or is still on the fiber. -/
def Bound (s : Loop) (r : Ref) : Prop := .ended r.body ∈ s.log ∨ (s.heap r.fiber).cb = some r.body

lemma bound_trans (hctl : Control s) (hn : Notes s) (ht : Trans tid s k s') {r : Ref}
    (h : Bound s r) : Bound s' r := by
  rcases h with h | h
  · exact .inl (log_grows ht h)
  · exact (cb_trans hctl hn ht h).symm

/-- All pointers that there are, and those that can be made to the fibers of others. -/
def AllBound (s : Loop) : Prop := ∀ r, Points s r ∨ (∃ f, s.pointer f = some r) → Bound s r

lemma pointer_eq_some {f : ℕ} {r : Ref} :
    s.pointer f = some r ↔ f < s.made ∧ (s.heap f).ofRun = false ∧ r = ⟨f, .fiber f⟩ := by
  simp only [pointer, Option.ite_none_right_eq_some, Option.some.injEq, and_assoc]
  constructor
  · rintro ⟨h1, h2, rfl⟩
    exact ⟨h1, h2, rfl⟩
  · rintro ⟨h1, h2, rfl⟩
    exact ⟨h1, h2, rfl⟩

lemma pointer_update {f g : ℕ} {v : Fiber} {r : Ref} (h : s'.pointer f = some r)
    (hheap : s'.heap = Function.update s.heap g v) (hmade : s'.made = s.made)
    (hv : v.ofRun = (s.heap g).ofRun) : s.pointer f = some r := by
  obtain ⟨hlt, hrun, rfl⟩ := pointer_eq_some.mp h
  refine pointer_eq_some.mpr ⟨hmade ▸ hlt, ?_, rfl⟩
  rw [hheap] at hrun
  by_cases hfg : f = g
  · subst hfg
    rw [Function.update_self, hv] at hrun
    exact hrun
  · rwa [Function.update_of_ne hfg] at hrun

lemma pointer_same {f : ℕ} {r : Ref} (h : s'.pointer f = some r) (hheap : s'.heap = s.heap)
    (hmade : s'.made = s.made) : s.pointer f = some r := by
  obtain ⟨hlt, hrun, rfl⟩ := pointer_eq_some.mp h
  exact pointer_eq_some.mpr ⟨hmade ▸ hlt, hheap ▸ hrun, rfl⟩

/-- A fiber that can be scheduled was there, or has been made with its function. -/
lemma pointer_trans (ht : Trans tid s k s') {f : ℕ} {r : Ref} (h : s'.pointer f = some r) :
    s.pointer f = some r ∨ (s'.heap r.fiber).cb = some r.body := by
  cases ht with
  | call c =>
    refine call_rule (P := fun s' => s'.pointer f = some r →
      s.pointer f = some r ∨ (s'.heap r.fiber).cb = some r.body) c .inl (fun s' ft ih h => ?_)
      (fun _ _ ih h => ih h) (fun h => ?_) h
    · obtain ⟨h1, h2, -, -, -⟩ := schedule_same s' ft
      rw [h1]
      exact ih (pointer_same h h1 h2)
    · obtain ⟨hlt, hrun, rfl⟩ := pointer_eq_some.mp h
      have hlt : f < s.made + 1 := hlt
      by_cases hf : f = s.made
      · subst hf
        right
        simp [Loop.call, setFiber]
      · have hrun : (Function.update s.heap s.made _ f).ofRun = false := hrun
        rw [Function.update_of_ne hf] at hrun
        exact .inl (pointer_eq_some.mpr ⟨by omega, hrun, rfl⟩)
  | empty n ft r' hpc hr hst hcb => exact .inl (pointer_update h rfl rfl rfl)
  | start n ft r' b hpc hr hst hcb => exact .inl (pointer_update h rfl rfl rfl)
  | resume n ft r' b hpc hr hst hcb => exact .inl (pointer_update h rfl rfl rfl)
  | reuse n ft g hpc hf hcb hc hst => exact .inl (pointer_update h rfl rfl rfl)
  | fresh n ft hpc hf hcb hc =>
    obtain ⟨hlt, hrun, rfl⟩ := pointer_eq_some.mp h
    have hlt : f < s.made + 1 := hlt
    have hrun : (Function.update s.heap s.made ⟨.exec, some (.cb n), true⟩ f).ofRun = false := hrun
    by_cases hf : f = s.made
    · subst hf
      rw [Function.update_self] at hrun
      cases hrun
    · rw [Function.update_of_ne hf] at hrun
      exact .inl (pointer_eq_some.mpr ⟨by omega, hrun, rfl⟩)
  | ret g cb hpc => exact .inl (pointer_update h rfl rfl rfl)
  | throw g cb hpc => exact .inl (pointer_update h rfl rfl rfl)
  | ready g cb hpc hst => exact .inl (pointer_update h rfl rfl rfl)
  | this g cb thread hpc =>
    obtain ⟨h1, h2, -, -, -⟩ := schedule_same s (make (.fiber (some ⟨g, s.body g⟩)) thread)
    exact .inl (pointer_same h h1 h2)
  | requeue g cb hpc hst =>
    obtain ⟨h1, h2, -, -, -⟩ := schedule_same
      { s with activeThreadCount := s.activeThreadCount - 1 }
      (make (.fiber (some ⟨g, s.body g⟩)) (-1))
    exact .inl (pointer_same h h1 h2)
  | finish g hpc hst => exact .inl (pointer_update h rfl rfl rfl)
  | park g cb hpc hst => exact .inl (pointer_update h rfl rfl rfl)
  | _ => exact .inl h

/-- The function of the fiber that has been switched to is on it. -/
lemma body_current (hctl : Control s) {f : ℕ}
    (hst : s.state f = .ready ∨ ∃ cb, s.pc = .running f cb) : (s.heap f).cb = some (s.body f) := by
  have hsome : (s.heap f).cb.isSome := by
    rcases hst with hst | ⟨cb, hpc⟩
    · exact (hctl.each f).within (.inr (.inr hst))
    · exact (hctl.each f).within (.inl ((hctl.each f).running cb hpc))
  obtain ⟨b, hb⟩ := Option.isSome_iff_exists.mp hsome
  rw [body_eq hb, hb]

lemma allBound_trans (hctl : Control s) (hn : Notes s) (h : AllBound s) (ht : Trans tid s k s') :
    AllBound s' := by
  rintro r (hp | ⟨f, hf⟩)
  · rcases points_trans ht hp with hp | hf | ⟨f, -, hst, rfl⟩
    · exact bound_trans hctl hn ht (h r (.inl hp))
    · exact bound_trans hctl hn ht (h r (.inr hf))
    · exact bound_trans hctl hn ht (.inr (body_current hctl hst))
  · rcases pointer_trans ht hf with hf | hcb
    · exact bound_trans hctl hn ht (h r (.inr ⟨f, hf⟩))
    · exact .inr hcb

/-! ### Nothing that was queued is lost -/

/-- The entry is for the function: it has it, or has the fiber that the function is on. -/
def For (s : Loop) (b : Body) (n : ℕ) (ft : Entry) : Prop :=
  (ft.cb.isSome ∧ b = .cb n) ∨ ∃ r, ft.fiber = some r ∧ (s.heap r.fiber).cb = some b

def Live (s : Loop) (b : Body) : Prop :=
  (∃ n ft, ((n, ft) ∈ s.fibers ∨ s.pc = .picked n ft) ∧ For s b n ft) ∨
    ∃ f, current s.pc = some f ∧ (s.heap f).cb = some b

def Accounted (s : Loop) (b : Body) : Prop :=
  .ended b ∈ s.log ∨ .held b ∈ s.log ∨ Live s b

lemma entry_trans (ht : Trans tid s k s') {e : ℕ × Entry} (he : e ∈ s.fibers) :
    e ∈ s'.fibers ∨ s'.pc = .picked e.1 e.2 := by
  have hschedule : ∀ (s : Loop) ft, e ∈ s.fibers → e ∈ (s.scheduleNoLock ft).fibers := by
    intro s ft he
    rcases schedule_cases s ft with heq | ⟨-, heq⟩ <;> rw [heq]
    · exact he
    · exact List.mem_append_left _ he
  cases ht with
  | call c =>
    left
    exact call_rule (P := fun s' => e ∈ s'.fibers) c he (fun s' ft h => hschedule s' ft h)
      (fun _ _ h => h) he
  | take n ft q₁ q₂ hpc hq hno hel =>
    rw [hq] at he
    rcases List.mem_append.mp he with he | he
    · exact .inl (List.mem_append_left _ he)
    · rcases List.mem_cons.mp he with rfl | he
      · exact .inr rfl
      · exact .inl (List.mem_append_right _ he)
  | this f cb thread hpc => exact .inl (hschedule s _ he)
  | requeue f cb hpc hst =>
    exact .inl (hschedule { s with activeThreadCount := s.activeThreadCount - 1 } _ he)
  | _ => exact .inl he

lemma for_trans (hctl : Control s) (hn : Notes s) (ht : Trans tid s k s') {b : Body} {n : ℕ}
    {ft : Entry} (h : For s b n ft) : For s' b n ft ∨ .ended b ∈ s'.log := by
  rcases h with h | ⟨r, hr, hcb⟩
  · exact .inl (.inl h)
  · rcases cb_trans hctl hn ht hcb with hcb | hend
    · exact .inl (.inr ⟨r, hr, hcb⟩)
    · exact .inr hend

/-- The entry in hand: the worker goes to the function, or has not moved. -/
lemma picked_trans (hctl : Control s) (hn : Notes s) (hord : Order tid s) (ht : Trans tid s k s')
    {b : Body} {n : ℕ} {ft : Entry} (hpc : s.pc = .picked n ft) (h : For s b n ft) :
    Accounted s' b := by
  have hstays : s'.pc = s.pc → Accounted s' b := by
    intro hsame
    rcases for_trans hctl hn ht h with h | hend
    · exact .inr (.inr (.inl ⟨n, ft, .inr (hsame.trans hpc), h⟩))
    · exact .inl hend
  -- an entry with a fiber is for the function on the fiber
  have hfiber : ∀ r, ft.fiber = some r → (s.heap r.fiber).cb = some b := by
    intro r hr
    rcases h with ⟨hcb, -⟩ | ⟨r', hr', hcb⟩
    · have hnone := hord.hand n ft hpc hcb
      rw [hr] at hnone
      cases hnone
    · obtain rfl := Option.some.inj (hr.symm.trans hr')
      exact hcb
  -- an entry with a function is for that one
  have hfunction : ft.cb.isSome → b = .cb n := by
    intro hcb
    rcases h with ⟨-, rfl⟩ | ⟨r, hr, -⟩
    · rfl
    · have hnone := hord.hand n ft hpc hcb
      rw [hr] at hnone
      cases hnone
  cases ht with
  | fault e hb => exact absurd hb hctl.not_broken
  | call c =>
    refine hstays (call_rule (P := fun s' => s'.pc = s.pc) c rfl (fun s' ft h => ?_)
      (fun _ _ h => h) rfl)
    exact (schedule_same s' ft).2.2.2.1.trans h
  | flags autoStop stopping ha hs => exact hstays rfl
  | drop m ft' hpc' hf hcb =>
    obtain ⟨rfl, rfl⟩ : n = m ∧ ft = ft' := by simpa [hpc] using hpc'
    rcases h with ⟨hsome, -⟩ | ⟨r, hr, hcb'⟩
    · rw [hcb] at hsome
      cases hsome
    · exact .inl ((hn r.fiber).ended (hf r hr) b hcb')
  | empty m ft' r hpc' hr hst hcb =>
    obtain ⟨rfl, rfl⟩ : n = m ∧ ft = ft' := by simpa [hpc] using hpc'
    rw [hfiber r hr] at hcb
    cases hcb
  | start m ft' r b' hpc' hr hst hcb =>
    obtain ⟨rfl, rfl⟩ : n = m ∧ ft = ft' := by simpa [hpc] using hpc'
    exact .inr (.inr (.inr ⟨r.fiber, rfl, cb_setState (hfiber r hr)⟩))
  | resume m ft' r b' hpc' hr hst hcb =>
    obtain ⟨rfl, rfl⟩ : n = m ∧ ft = ft' := by simpa [hpc] using hpc'
    exact .inr (.inr (.inr ⟨r.fiber, rfl, cb_setState (hfiber r hr)⟩))
  | reuse m ft' f hpc' hf hcb hc hst =>
    obtain ⟨rfl, rfl⟩ : n = m ∧ ft = ft' := by simpa [hpc] using hpc'
    refine .inr (.inr (.inr ⟨f, rfl, ?_⟩))
    rw [hfunction hcb]
    simp [goto, note, setFiber]
  | fresh m ft' hpc' hf hcb hc =>
    obtain ⟨rfl, rfl⟩ : n = m ∧ ft = ft' := by simpa [hpc] using hpc'
    refine .inr (.inr (.inr ⟨s.made, rfl, ?_⟩))
    rw [hfunction hcb]
    simp [goto, note, setFiber]
  | take m ft' q₁ q₂ hpc' hq hno he => rw [hpc] at hpc'; cases hpc'
  | miss hpc' hno => rw [hpc] at hpc'; cases hpc'
  | ret f cb hpc' => rw [hpc] at hpc'; cases hpc'
  | throw f cb hpc' => rw [hpc] at hpc'; cases hpc'
  | ready f cb hpc' hst => rw [hpc] at hpc'; cases hpc'
  | hold f cb hpc' hst => rw [hpc] at hpc'; cases hpc'
  | this f cb thread hpc' => rw [hpc] at hpc'; cases hpc'
  | addEvent f cb hpc' => rw [hpc] at hpc'; cases hpc'
  | requeue f cb hpc' hst => rw [hpc] at hpc'; cases hpc'
  | finish f hpc' hst => rw [hpc] at hpc'; cases hpc'
  | quit f hpc' hst => rw [hpc] at hpc'; cases hpc'
  | park f cb hpc' hst => rw [hpc] at hpc'; cases hpc'
  | exit hpc' hi => rw [hpc] at hpc'; cases hpc'
  | idleIn hpc' hi => rw [hpc] at hpc'; cases hpc'
  | idleOut more hpc' hi => rw [hpc] at hpc'; cases hpc'

lemma mem_schedule (s : Loop) {ft : Entry} (hw : ft.isWork) :
    (s.issued, ft) ∈ (s.scheduleNoLock ft).fibers := by
  unfold scheduleNoLock
  rw [if_pos hw]
  exact List.mem_append_right _ (List.mem_singleton.mpr rfl)

lemma current_trans (hctl : Control s) (hn : Notes s) (ht : Trans tid s k s') {b : Body} {f : ℕ}
    (hcur : current s.pc = some f) (hcb : (s.heap f).cb = some b) : Accounted s' b := by
  have hstays : current s'.pc = some f → Accounted s' b := by
    intro hcur'
    rcases cb_trans hctl hn ht hcb with hcb | hend
    · exact .inr (.inr (.inr ⟨f, hcur', hcb⟩))
    · exact .inl hend
  have hkept : s'.pc = s.pc → Accounted s' b := fun hsame => hstays (by rw [hsame]; exact hcur)
  have hlog := log_grows ht
  cases ht with
  | fault e hb => exact absurd hb hctl.not_broken
  | call c =>
    refine hkept (call_rule (P := fun s' => s'.pc = s.pc) c rfl (fun s' ft h => ?_)
      (fun _ _ h => h) rfl)
    exact (schedule_same s' ft).2.2.2.1.trans h
  | flags autoStop stopping ha hs => exact hkept rfl
  | ret g cb hpc => exact hstays (by rw [hpc] at hcur; exact hcur)
  | throw g cb hpc => exact hstays (by rw [hpc] at hcur; exact hcur)
  | ready g cb hpc hst => exact hstays (by rw [hpc] at hcur; exact hcur)
  | hold g cb hpc hst => exact hstays (by rw [hpc] at hcur; exact hcur)
  | this g cb thread hpc => exact hkept (schedule_same s _).2.2.2.1
  | addEvent g cb hpc => exact hkept rfl
  | requeue g cb hpc hst =>
    obtain rfl : g = f := by simpa [hpc, current] using hcur
    have hwork : (make (.fiber (some ⟨g, s.body g⟩)) (-1) : Entry).isWork := rfl
    have hmem := mem_schedule { s with activeThreadCount := s.activeThreadCount - 1 } hwork
    have hsame := (schedule_same { s with activeThreadCount := s.activeThreadCount - 1 }
      (make (.fiber (some ⟨g, s.body g⟩)) (-1))).1
    refine .inr (.inr (.inl ⟨_, _, .inl hmem, .inr ⟨⟨g, s.body g⟩, rfl, ?_⟩⟩))
    exact (congrArg (fun heap => (heap g).cb) hsame).trans hcb
  | finish g hpc hst =>
    obtain rfl : g = f := by simpa [hpc, current] using hcur
    exact .inl (hlog ((hn g).ended hst b hcb))
  | quit g hpc hst =>
    obtain rfl : g = f := by simpa [hpc, current] using hcur
    exact .inl (hlog ((hn g).ended hst b hcb))
  | park g cb hpc hst =>
    obtain rfl : g = f := by simpa [hpc, current] using hcur
    have hexec := (hctl.each g).exec_of_back hpc hst
    exact .inr (.inl (hlog ((hn g).yielded hexec ⟨cb, hpc⟩ b hcb)))
  | take n ft q₁ q₂ hpc hq hno he => rw [hpc] at hcur; cases hcur
  | miss hpc hno => rw [hpc] at hcur; cases hcur
  | drop n ft hpc hf hcb => rw [hpc] at hcur; cases hcur
  | empty n ft r hpc hr hst hcb => rw [hpc] at hcur; cases hcur
  | start n ft r b' hpc hr hst hcb => rw [hpc] at hcur; cases hcur
  | resume n ft r b' hpc hr hst hcb => rw [hpc] at hcur; cases hcur
  | reuse n ft g hpc hf hcb hc hst => rw [hpc] at hcur; cases hcur
  | fresh n ft hpc hf hcb hc => rw [hpc] at hcur; cases hcur
  | exit hpc hi => rw [hpc] at hcur; cases hcur
  | idleIn hpc hi => rw [hpc] at hcur; cases hcur
  | idleOut more hpc hi => rw [hpc] at hcur; cases hcur

lemma accounted_trans (hctl : Control s) (hn : Notes s) (hord : Order tid s)
    (ht : Trans tid s k s') {b : Body} (h : Accounted s b) : Accounted s' b := by
  rcases h with h | h | ⟨n, ft, hmem | hpc, hfor⟩ | ⟨f, hcur, hcb⟩
  · exact .inl (log_grows ht h)
  · exact .inr (.inl (log_grows ht h))
  · rcases for_trans hctl hn ht hfor with hfor | hend
    · exact .inr (.inr (.inl ⟨n, ft, entry_trans ht hmem, hfor⟩))
    · exact .inl hend
  · exact picked_trans hctl hn hord ht hpc hfor
  · exact current_trans hctl hn ht hcur hcb

lemma schedule_queued {ft : Entry} (hbound : ∀ r, ft.fiber = some r → Bound s r) {b : Body}
    (h : .queued b ∈ (s.scheduleNoLock ft).log) :
    .queued b ∈ s.log ∨ .ended b ∈ s.log ∨ (ft.isWork ∧ For s b s.issued ft) := by
  rcases schedule_cases s ft with he | ⟨hw, he⟩
  · rw [he] at h
    exact .inl h
  · rw [he] at h
    rcases List.mem_append.mp h with h | h
    · exact .inl h
    · obtain rfl : b = meant s.issued ft := by simpa using h
      right
      unfold meant
      cases hr : ft.fiber with
      | some r =>
        rcases hbound r hr with hend | hcb
        · exact .inl hend
        · exact .inr ⟨hw, .inr ⟨r, hr, hcb⟩⟩
      | none =>
        have hcb : ft.cb.isSome := by simpa [isWork, hr] using hw
        exact .inr ⟨hw, .inl ⟨hcb, rfl⟩⟩

lemma schedule_accounted {ft : Entry} (hbound : ∀ r, ft.fiber = some r → Bound s r) {b : Body}
    (hlog : s'.log = (s.scheduleNoLock ft).log) (hq : s'.fibers = (s.scheduleNoLock ft).fibers)
    (hheap : s'.heap = s.heap) (h : .queued b ∈ s'.log) :
    .queued b ∈ s.log ∨ Accounted s' b := by
  rw [hlog] at h
  rcases schedule_queued hbound h with h | h | ⟨hw, h⟩
  · exact .inl h
  · exact .inr (.inl (hlog ▸ schedule_log s ft h))
  · refine .inr (.inr (.inr (.inl ⟨_, ft, .inl (hq ▸ mem_schedule s hw), ?_⟩)))
    rcases h with h | ⟨r, hr, hcb⟩
    · exact .inl h
    · exact .inr ⟨r, hr, hheap ▸ hcb⟩

/-- A mark that a function has been queued was there, or is accounted for. -/
lemma queued_trans (hctl : Control s) (hb : AllBound s) (ht : Trans tid s k s') {b : Body}
    (h : .queued b ∈ s'.log) : .queued b ∈ s.log ∨ Accounted s' b := by
  cases ht with
  | call c =>
    cases c with
    | schedule fc thread =>
      refine schedule_accounted (fun r hr => ?_) rfl rfl (schedule_same s _).1 h
      cases fc with
      | fiber f =>
        cases f with
        | none => cases hr
        | some f => exact hb r (.inr ⟨f, hr⟩)
      | cb c => cases hr
    | create => exact .inl h
    | trigger i =>
      simp only [Loop.call] at h ⊢
      cases hget : s.events[i]? with
      | none =>
        rw [hget] at h
        exact .inl h
      | some r =>
        rw [hget] at h
        have hr : Bound { s with events := s.events.eraseIdx i } r :=
          hb r (.inl (.inr (.inl (List.mem_of_getElem? hget))))
        have hbound : ∀ r', (make (.fiber (some r)) (-1) : Entry).fiber = some r' →
            Bound { s with events := s.events.eraseIdx i } r' := by
          intro r' hr'
          obtain rfl : r = r' := Option.some.inj hr'
          exact hr
        exact schedule_accounted hbound rfl rfl (schedule_same _ _).1 h
    | delEvent i => exact .inl h
  | this f cb thread hpc =>
    refine schedule_accounted (fun r hr => ?_) rfl rfl (schedule_same s _).1 h
    obtain rfl := Option.some.inj hr
    exact .inr (body_current hctl (.inr ⟨cb, hpc⟩))
  | requeue f cb hpc hst =>
    have hbound : ∀ r, (make (.fiber (some ⟨f, s.body f⟩)) (-1) : Entry).fiber = some r →
        Bound { s with activeThreadCount := s.activeThreadCount - 1 } r := by
      intro r hr
      obtain rfl := Option.some.inj hr
      exact .inr (body_current hctl (.inl hst))
    exact schedule_accounted hbound rfl rfl (schedule_same
      { s with activeThreadCount := s.activeThreadCount - 1 } _).1 h
  | take n ft q₁ q₂ hpc hq hno he =>
    left
    rcases List.mem_append.mp h with h | h
    · exact h
    · split at h <;> simp at h
  | start n ft r b' hpc hr hst hcb =>
    exact .inl (by simpa [goto, note, Loop.setState, setFiber] using h)
  | resume n ft r b' hpc hr hst hcb =>
    exact .inl (by simpa [goto, note, Loop.setState, setFiber] using h)
  | reuse n ft f hpc hf hcb hc hst => exact .inl (by simpa [goto, note, setFiber] using h)
  | fresh n ft hpc hf hcb hc => exact .inl (by simpa [goto, note, setFiber] using h)
  | ret f cb hpc => exact .inl (by simpa [goto, note, setFiber] using h)
  | throw f cb hpc => exact .inl (by simpa [goto, note, Loop.setState, setFiber] using h)
  | hold f cb hpc hst => exact .inl (by simpa [goto, note] using h)
  | _ => exact .inl h

/-! ### The fibers that others made -/

/-- Where the function of a fiber has ended, the fiber is in a last state. -/
def Over (s : Loop) (f : ℕ) : Prop :=
  (s.heap f).ofRun = false ∧ f < s.made ∧ (s.state f = .term ∨ s.state f = .except)

def Final (s : Loop) : Prop := ∀ f, .ended (.fiber f) ∈ s.log → Over s f

lemma Over.update {f g : ℕ} {v : Fiber} (h : Over s f)
    (hheap : s'.heap = Function.update s.heap g v) (hmade : s.made ≤ s'.made)
    (hg : ¬ Over s g) : Over s' f := by
  have hfg : f ≠ g := by
    rintro rfl
    exact hg h
  obtain ⟨hrun, hlt, hst⟩ := h
  refine ⟨?_, by omega, ?_⟩
  · rw [hheap, Function.update_of_ne hfg]
    exact hrun
  · rw [Loop.state, hheap, Function.update_of_ne hfg]
    exact hst

lemma Over.same {f : ℕ} (h : Over s f) (hheap : s'.heap = s.heap) (hmade : s'.made = s.made) :
    Over s' f := by
  obtain ⟨hrun, hlt, hst⟩ := h
  refine ⟨?_, by omega, ?_⟩
  · rw [hheap]
    exact hrun
  · rw [Loop.state, hheap]
    exact hst

lemma not_over_of_state {g : ℕ} (h : s.state g ≠ .term ∧ s.state g ≠ .except) : ¬ Over s g := by
  rintro ⟨-, -, he | he⟩
  · exact h.1 he
  · exact h.2 he

lemma not_over_of_ofRun {g : ℕ} (h : (s.heap g).ofRun = true) : ¬ Over s g := by
  rintro ⟨hrun, -, -⟩
  rw [h] at hrun
  cases hrun

lemma over_trans (hctl : Control s) (hown : Own s) (ht : Trans tid s k s') {f : ℕ}
    (h : Over s f) : Over s' f := by
  have hmade : s.made ≤ s'.made := made_le ht
  have hnew : ¬ Over s s.made := fun hnew => Nat.lt_irrefl _ hnew.2.1
  have hrunning : ∀ {g cb}, s.pc = .running g cb → ¬ Over s g := by
    intro g cb hpc
    have hexec : s.state g = .exec := (hctl.each g).running cb hpc
    exact not_over_of_state (by simp [hexec])
  cases ht with
  | call c =>
    refine call_rule (P := fun s' => Over s' f) c h (fun s' ft h => ?_) (fun _ _ h => h)
      (h.update rfl (Nat.le_succ _) hnew)
    obtain ⟨h1, h2, -, -, -⟩ := schedule_same s' ft
    exact h.same h1 h2
  | empty n ft r hpc hr hst hcb => exact h.update rfl hmade (not_over_of_state (by simp [hst]))
  | start n ft r b hpc hr hst hcb => exact h.update rfl hmade (not_over_of_state (by simp [hst]))
  | resume n ft r b hpc hr hst hcb =>
    refine h.update rfl hmade (not_over_of_state ?_)
    rcases hst with hst | hst <;> simp [hst]
  | reuse n ft g hpc hf hcb hc hst =>
    exact h.update rfl hmade (not_over_of_ofRun (hown.cbFiber g hc))
  | fresh n ft hpc hf hcb hc => exact h.update rfl hmade hnew
  | ret g cb hpc => exact h.update rfl hmade (hrunning hpc)
  | throw g cb hpc => exact h.update rfl hmade (hrunning hpc)
  | ready g cb hpc hst => exact h.update rfl hmade (hrunning hpc)
  | this g cb thread hpc =>
    obtain ⟨h1, h2, -, -, -⟩ := schedule_same s (make (.fiber (some ⟨g, s.body g⟩)) thread)
    exact h.same h1 h2
  | requeue g cb hpc hst =>
    obtain ⟨h1, h2, -, -, -⟩ := schedule_same
      { s with activeThreadCount := s.activeThreadCount - 1 }
      (make (.fiber (some ⟨g, s.body g⟩)) (-1))
    exact h.same h1 h2
  | finish g hpc hst =>
    have hc := hctl.owns g (.inr hpc)
    exact h.update rfl hmade (not_over_of_ofRun (hown.cbFiber g hc))
  | park g cb hpc hst => exact h.update rfl hmade (not_over_of_state ⟨hst.2.1, hst.2.2⟩)
  | _ => exact h

/-- A function that ends leaves its fiber in a last state. -/
lemma over_of_end (hctl : Control s) (hown : Own s) {f g : ℕ} {cb : Bool} {v : Fiber}
    (hpc : s.pc = .running g cb) (hbody : s.body g = .fiber f)
    (hheap : s'.heap = Function.update s.heap g v) (hmade : s'.made = s.made)
    (hkind : v.ofRun = (s.heap g).ofRun) (hst : v.state = .term ∨ v.state = .except) :
    Over s' f := by
  have hcur : current s.pc = some g := by rw [hpc]; rfl
  have hcb := body_current hctl (.inr ⟨cb, hpc⟩)
  rw [hbody] at hcb
  have hrun : (s.heap g).ofRun = false := by
    cases hrun : (s.heap g).ofRun with
    | false => rfl
    | true =>
      obtain ⟨n, hn⟩ := (hown.each g).callback hrun _ hcb
      cases hn
  obtain rfl : f = g := Body.fiber.inj ((hown.each g).made hrun _ hcb)
  refine ⟨?_, ?_, ?_⟩
  · rw [hheap, Function.update_self, hkind]
    exact hrun
  · rw [hmade]
    exact hctl.current_lt hcur
  · rw [Loop.state, hheap, Function.update_self]
    exact hst

lemma final_trans (hctl : Control s) (hown : Own s) (h : Final s) (ht : Trans tid s k s') :
    Final s' := by
  intro f hend
  have hold : .ended (.fiber f) ∈ s.log → Over s' f := fun hm => over_trans hctl hown ht (h f hm)
  cases ht with
  | ret g cb hpc =>
    rcases List.mem_append.mp hend with hm | hm
    · exact hold hm
    · have hbody : s.body g = .fiber f := by simpa using Eq.symm (List.mem_singleton.mp hm)
      exact over_of_end hctl hown hpc hbody rfl rfl rfl (.inl rfl)
  | throw g cb hpc =>
    rcases List.mem_append.mp hend with hm | hm
    · exact hold hm
    · have hbody : s.body g = .fiber f := by simpa using Eq.symm (List.mem_singleton.mp hm)
      exact over_of_end hctl hown hpc hbody rfl rfl rfl (.inr rfl)
  | call c =>
    refine hold (call_rule (P := fun s' => .ended (.fiber f) ∈ s'.log → .ended (.fiber f) ∈ s.log)
      c id (fun s' ft ih hm => ?_) (fun _ _ ih => ih) id hend)
    rcases schedule_cases s' ft with he | ⟨-, he⟩
    · rw [he] at hm
      exact ih hm
    · rw [he] at hm
      exact ih (by simpa using hm)
  | this g cb thread hpc =>
    rcases schedule_cases s (make (.fiber (some ⟨g, s.body g⟩)) thread) with he | ⟨-, he⟩
    · rw [he] at hend
      exact hold hend
    · rw [he] at hend
      exact hold (by simpa using hend)
  | requeue g cb hpc hst =>
    simp only [goto] at hend
    rcases schedule_cases { s with activeThreadCount := s.activeThreadCount - 1 }
      (make (.fiber (some ⟨g, s.body g⟩)) (-1)) with he | ⟨-, he⟩
    · rw [he] at hend
      exact hold hend
    · rw [he] at hend
      exact hold (by simpa using hend)
  | take n ft q₁ q₂ hpc hq hno he =>
    rcases List.mem_append.mp hend with hm | hm
    · exact hold hm
    · split at hm <;> simp at hm
  | start n ft r b hpc hr hst hcb =>
    exact hold (by simpa [goto, note, Loop.setState, setFiber] using hend)
  | resume n ft r b hpc hr hst hcb =>
    exact hold (by simpa [goto, note, Loop.setState, setFiber] using hend)
  | reuse n ft g hpc hf hcb hc hst => exact hold (by simpa [goto, note, setFiber] using hend)
  | fresh n ft hpc hf hcb hc => exact hold (by simpa [goto, note, setFiber] using hend)
  | hold g cb hpc hst => exact hold (by simpa [goto, note] using hend)
  | _ => exact hold hend

/-! ### Runs -/

/-- What holds in every state that the worker can reach. -/
structure Kept (tid : ℤ) (s : Loop) : Prop where
  sound : Sound tid s
  own : Own s
  counts : Counts s
  notes : Notes s
  bound : AllBound s
  accounted : ∀ b, .queued b ∈ s.log → Accounted s b
  final : Final s

lemma kept_init (tid : ℤ) : Kept tid {} := by
  refine ⟨sound_init tid, ⟨fun f => .none rfl, by simp⟩, ⟨rfl, rfl⟩, fun f => noted_of_none rfl,
    fun r hr => ?_, fun b hb => ?_, fun f hf => ?_⟩
  · rcases hr with (⟨e, he, -⟩ | he | he) | ⟨f, hf⟩
    · cases he
    · cases he
    · cases he
    · obtain ⟨hlt, -, -⟩ := pointer_eq_some.mp hf
      cases hlt
  · cases hb
  · cases hf

lemma kept_step {a : Act} (h : Kept tid s) (hs : step tid s a = some s') : Kept tid s' := by
  have ht := step_trans hs
  obtain ⟨hsound, hown, hcounts, hnotes, hbound, hacc, hfinal⟩ := h
  refine ⟨sound_step hsound hs, own_trans hown hsound.control ht,
    counts_trans hsound.control hcounts ht, notes_trans hsound.control hnotes ht,
    allBound_trans hsound.control hnotes hbound ht,
    fun b hb => ?_, final_trans hsound.control hown hfinal ht⟩
  rcases queued_trans hsound.control hbound ht hb with hb | hb
  · exact accounted_trans hsound.control hnotes hsound.order ht (hacc b hb)
  · exact hb

end Sylar.Accounts
