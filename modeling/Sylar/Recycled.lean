import Sylar.CallbackStarts

/-!
Pointers to a fiber that `run` gives to one callback after another.

`run` lets go of a fiber that suspends, so that no later callback gets it, and keeps one whose
function has ended. A pointer that the earlier callback left in the queue or in an event context
is still there then, and when the later callback suspends the worker takes it for a reason to
go on with that one.
-/

namespace Sylar.Recycled

open Lib Sylar.FiberModel FiberAndThread Sylar.SchedulerModel Sylar.SchedulerSteps
open Sylar.WorkerLoop Loop Sylar.CallbackStarts

variable {tid : ℤ} {s s' : Loop} {k : Option Bool}

/-! ### Whose fiber it is -/

/-- A fiber has the function it was made with, or callbacks if `run` made it. -/
structure Owned (v : Fiber) (f : ℕ) : Prop where
  made : v.ofRun = false → ∀ b, v.cb = some b → b = .fiber f
  callback : v.ofRun = true → ∀ b, v.cb = some b → ∃ n, b = .cb n

structure Own (s : Loop) : Prop where
  each : ∀ f, Owned (s.heap f) f
  cbFiber : ∀ f, s.cbFiber = some f → (s.heap f).ofRun = true

lemma own_update (h : Own s) {f : ℕ} {v : Fiber} (hheap : s'.heap = Function.update s.heap f v)
    (hv : Owned v f) (hkind : v.ofRun = (s.heap f).ofRun)
    (hc : ∀ g, s'.cbFiber = some g → s.cbFiber = some g) : Own s' := by
  refine ⟨fun g => ?_, fun g hg => ?_⟩
  · rw [hheap]
    by_cases hgf : g = f
    · subst hgf
      rw [Function.update_self]
      exact hv
    · rw [Function.update_of_ne hgf]
      exact h.each g
  · rw [hheap]
    have hold := h.cbFiber g (hc g hg)
    by_cases hgf : g = f
    · subst hgf
      rw [Function.update_self, hkind]
      exact hold
    · rw [Function.update_of_ne hgf]
      exact hold

lemma own_made (h : Own s) (hctl : Control s) {v : Fiber}
    (hheap : s'.heap = Function.update s.heap s.made v) (hv : Owned v s.made)
    (hc : ∀ g, s'.cbFiber = some g → s.cbFiber = some g ∨ (g = s.made ∧ v.ofRun = true)) :
    Own s' := by
  refine ⟨fun g => ?_, fun g hg => ?_⟩
  · rw [hheap]
    by_cases hgf : g = s.made
    · subst hgf
      rw [Function.update_self]
      exact hv
    · rw [Function.update_of_ne hgf]
      exact h.each g
  · rw [hheap]
    rcases hc g hg with hold | ⟨rfl, hrun⟩
    · have hlt := hctl.cbMade g hold
      rw [Function.update_of_ne (by omega)]
      exact h.cbFiber g hold
    · rw [Function.update_self]
      exact hrun

lemma Owned.state {v : Fiber} {f : ℕ} (h : Owned v f) (st : State) :
    Owned { v with state := st } f := ⟨h.made, h.callback⟩

lemma Owned.none {v : Fiber} {f : ℕ} (h : v.cb = none) : Owned v f := by
  refine ⟨fun _ b hb => ?_, fun _ b hb => ?_⟩
  · rw [h] at hb
    cases hb
  · rw [h] at hb
    cases hb

lemma own_same (h : Own s) (hheap : s'.heap = s.heap)
    (hc : ∀ g, s'.cbFiber = some g → s.cbFiber = some g) : Own s' :=
  ⟨by rw [hheap]; exact h.each, fun g hg => by rw [hheap]; exact h.cbFiber g (hc g hg)⟩

lemma own_schedule (h : Own s) (ft : Entry) : Own (s.scheduleNoLock ft) := by
  obtain ⟨h1, -, h3, -, -⟩ := schedule_same s ft
  exact own_same h h1 fun g hg => h3 ▸ hg

lemma own_call (h : Own s) (hctl : Control s) (c : Call) : Own (s.call c) := by
  refine call_rule c h (fun _ ft h => own_schedule h ft)
    (fun _ _ h => own_same h rfl fun _ hg => hg) ?_
  refine own_made h hctl rfl ⟨fun _ b hb => ?_, by simp⟩ fun g hg => .inl hg
  exact (Option.some.inj hb).symm

lemma dropped_imp {cb : Bool} {c : Option ℕ} {g : ℕ} (h : (if cb then none else c) = some g) :
    c = some g := by
  cases cb with
  | true => cases h
  | false => exact h

lemma own_trans (h : Own s) (hctl : Control s) (ht : Trans tid s k s') : Own s' := by
  cases ht with
  | fault e hb => exact own_same h rfl fun _ hg => hg
  | call c => exact own_call h hctl c
  | flags autoStop stopping ha hs => exact own_same h rfl fun _ hg => hg
  | take n ft q₁ q₂ hpc hq hno he => exact own_same h rfl fun _ hg => hg
  | miss hpc hno => exact own_same h rfl fun _ hg => hg
  | drop n ft hpc hf hcb => exact own_same h rfl fun _ hg => hg
  | empty n ft r hpc hr hst hcb =>
    exact own_update h rfl ((h.each _).state _) rfl fun _ hg => hg
  | start n ft r b hpc hr hst hcb =>
    exact own_update h rfl ((h.each _).state _) rfl fun _ hg => hg
  | resume n ft r b hpc hr hst hcb =>
    exact own_update h rfl ((h.each _).state _) rfl fun _ hg => hg
  | reuse n ft f hpc hf hcb hc hst =>
    have hrun := h.cbFiber f hc
    refine own_update h rfl ⟨fun hno => ?_, fun _ b hb => ⟨n, ?_⟩⟩ rfl fun _ hg => hg
    · have hno : (s.heap f).ofRun = false := hno
      rw [hrun] at hno
      cases hno
    · exact (Option.some.inj hb).symm
  | fresh n ft hpc hf hcb hc =>
    refine own_made h hctl rfl ⟨by simp, fun _ b hb => ⟨n, (Option.some.inj hb).symm⟩⟩
      fun g hg => ?_
    exact .inr ⟨(Option.some.inj hg).symm, rfl⟩
  | ret f cb hpc => exact own_update h rfl (.none rfl) rfl fun _ hg => hg
  | throw f cb hpc => exact own_update h rfl ((h.each _).state _) rfl fun _ hg => hg
  | ready f cb hpc hst => exact own_update h rfl ((h.each _).state _) rfl fun _ hg => hg
  | hold f cb hpc hst => exact own_same h rfl fun _ hg => hg
  | this f cb thread hpc => exact own_schedule h _
  | addEvent f cb hpc => exact own_same h rfl fun _ hg => hg
  | requeue f cb hpc hst =>
    have hcount : Own { s with activeThreadCount := s.activeThreadCount - 1 } :=
      own_same h rfl fun _ hg => hg
    have hsched := own_schedule hcount (make (.fiber (some ⟨f, s.body f⟩)) (-1))
    refine own_same hsched rfl fun g hg => ?_
    have hg := dropped_imp (c := s.cbFiber) hg
    rw [← hg]
    exact (schedule_same { s with activeThreadCount := s.activeThreadCount - 1 } _).2.2.1
  | finish f hpc hst => exact own_update h rfl (.none rfl) rfl fun _ hg => hg
  | quit f hpc hst => exact own_same h rfl fun _ hg => hg
  | park f cb hpc hst =>
    exact own_update h rfl ((h.each _).state _) rfl fun _ hg => dropped_imp hg
  | exit hpc hi => exact own_same h rfl fun _ hg => hg
  | idleIn hpc hi => exact own_same h rfl fun _ hg => hg
  | idleOut more hpc hi => exact own_same h rfl fun _ hg => hg

/-! ### Whom the pointers are meant for -/

/-- The fiber is in the middle of the function and does not run it now. -/
def Suspended (s : Loop) (f : ℕ) (b : Body) : Prop :=
  (s.heap f).cb = some b ∧ (s.state f = .hold ∨ s.state f = .ready ∨
    (s.state f = .exec ∧ ∃ cb, s.pc = .back f cb))

/-- Every pointer to a suspended fiber is meant for the function on it. -/
def Meant (s : Loop) : Prop := ∀ f b r, Suspended s f b → Points s r → r.fiber = f → r.body = b

/-- How a fiber comes to be suspended: it was, or it has just yielded. -/
def Yielded (s s' : Loop) (f : ℕ) : Prop := ∃ cb, s.pc = .running f cb ∧ s'.pc = .back f cb

/-- A step that leaves the fiber, and does not switch away from it. -/
lemma Suspended.same {f : ℕ} {b : Body} (h : Suspended s' f b) (hheap : s'.heap f = s.heap f)
    (hpc : ∀ cb, s'.pc = .back f cb → s.pc = .back f cb) : Suspended s f b := by
  obtain ⟨hcb, hst⟩ := h
  rw [hheap] at hcb
  refine ⟨hcb, ?_⟩
  rcases hst with hst | hst | ⟨hst, cb, hback⟩
  · exact .inl (by rw [Loop.state, ← hheap]; exact hst)
  · exact .inr (.inl (by rw [Loop.state, ← hheap]; exact hst))
  · exact .inr (.inr ⟨by rw [Loop.state, ← hheap]; exact hst, cb, hpc cb hback⟩)

/-- A step that writes to one fiber, which is not suspended afterwards. -/
lemma Suspended.of_update {f g : ℕ} {b : Body} {v : Fiber} (h : Suspended s' f b)
    (hheap : s'.heap = Function.update s.heap g v)
    (hst : v.state ≠ .hold ∧ v.state ≠ .ready ∧
      (v.state = .exec → ∀ cb, s'.pc ≠ .back g cb))
    (hpc : ∀ f cb, s'.pc = .back f cb → f = g) : Suspended s f b := by
  by_cases hfg : f = g
  · subst hfg
    obtain ⟨-, hsus⟩ := h
    have hstate : s'.state f = v.state := by
      rw [Loop.state, hheap, Function.update_self]
    rw [hstate] at hsus
    rcases hsus with he | he | ⟨he, cb, hback⟩
    · exact absurd he hst.1
    · exact absurd he hst.2.1
    · exact absurd hback (hst.2.2 he cb)
  · exact h.same (by rw [hheap, Function.update_of_ne hfg]) fun cb hback =>
      absurd (hpc f cb hback) hfg

lemma suspended_schedule {ft : Entry} {f : ℕ} {b : Body} (h : Suspended (s.scheduleNoLock ft) f b) :
    Suspended s f b := by
  obtain ⟨h1, -, -, h4, -⟩ := schedule_same s ft
  exact h.same (by rw [h1]) fun cb hback => h4 ▸ hback

lemma suspended_call {c : Call} {f : ℕ} {b : Body} (h : Suspended (s.call c) f b) :
    Suspended s f b := by
  refine call_rule (P := fun s' => Suspended s' f b → Suspended s f b) c id
    (fun _ _ ih h => ih (suspended_schedule h))
    (fun _ _ ih h => ih (h.same rfl fun cb hback => hback)) (fun h => ?_) h
  by_cases hf : f = s.made
  · subst hf
    obtain ⟨-, hst⟩ := h
    have hnew : (s.call .create).state s.made = .init := by
      simp [Loop.call, Loop.state, setFiber]
    rw [hnew] at hst
    simp at hst
  · exact h.same (Function.update_of_ne hf _ _) fun cb hback => hback

lemma suspended_trans (hctl : Control s) {f : ℕ} {b : Body} (ht : Trans tid s k s')
    (h : Suspended s' f b) :
    (s.heap f).cb = some b ∧ (Suspended s f b ∨ Yielded s s' f) := by
  have hkept : Suspended s f b → (s.heap f).cb = some b ∧ (Suspended s f b ∨ Yielded s s' f) :=
    fun h => ⟨h.1, .inl h⟩
  cases ht with
  | fault e hb => exact absurd hb hctl.not_broken
  | call c => exact hkept (suspended_call h)
  | flags autoStop stopping ha hs => exact hkept (h.same rfl fun cb hback => hback)
  | take n ft q₁ q₂ hpc hq hno he => exact hkept (h.same rfl (by simp))
  | miss hpc hno => exact hkept (h.same rfl (by simp))
  | drop n ft hpc hf hcb => exact hkept (h.same rfl (by simp))
  | empty n ft r hpc hr hst hcb =>
    refine hkept (h.of_update rfl ⟨by simp, by simp, by simp⟩ fun g cb hback => ?_)
    obtain ⟨rfl, -⟩ : r.fiber = g ∧ false = cb := by simpa [goto] using hback
    rfl
  | start n ft r b hpc hr hst hcb =>
    exact hkept (h.of_update rfl ⟨by simp, by simp, fun _ => (by simp)⟩ (by simp))
  | resume n ft r b hpc hr hst hcb =>
    exact hkept (h.of_update rfl ⟨by simp, by simp, fun _ => (by simp)⟩ (by simp))
  | reuse n ft g hpc hf hcb hc hst =>
    exact hkept (h.of_update rfl ⟨by simp, by simp, fun _ => (by simp)⟩ (by simp))
  | fresh n ft hpc hf hcb hc =>
    exact hkept (h.of_update rfl ⟨by simp, by simp, fun _ => (by simp)⟩ (by simp))
  | ret g cb hpc =>
    refine hkept (h.of_update rfl ⟨by simp, by simp, by simp⟩ fun f' cb' hback => ?_)
    obtain ⟨rfl, -⟩ : g = f' ∧ cb = cb' := by simpa [goto] using hback
    rfl
  | throw g cb hpc =>
    refine hkept (h.of_update rfl ⟨by simp, by simp, by simp⟩ fun f' cb' hback => ?_)
    obtain ⟨rfl, -⟩ : g = f' ∧ cb = cb' := by simpa [goto] using hback
    rfl
  | ready g cb hpc hst =>
    by_cases hfg : f = g
    · subst hfg
      refine ⟨?_, .inr ⟨cb, hpc, rfl⟩⟩
      have hcb := h.1
      simpa [goto, Loop.setState, setFiber] using hcb
    · refine hkept (h.same (Function.update_of_ne hfg _ _) fun cb' hback => ?_)
      obtain ⟨rfl, -⟩ : g = f ∧ cb = cb' := by simpa [goto] using hback
      exact absurd rfl hfg
  | hold g cb hpc hst =>
    by_cases hfg : f = g
    · subst hfg
      exact ⟨h.1, .inr ⟨cb, hpc, rfl⟩⟩
    · refine hkept (h.same rfl fun cb' hback => ?_)
      obtain ⟨rfl, -⟩ : g = f ∧ cb = cb' := by simpa [goto] using hback
      exact absurd rfl hfg
  | this g cb thread hpc => exact hkept (suspended_schedule h)
  | addEvent g cb hpc => exact hkept (h.same rfl fun cb hback => hback)
  | requeue g cb hpc hst =>
    have hsched : Suspended ({ s with activeThreadCount := s.activeThreadCount - 1 }.scheduleNoLock
        (make (.fiber (some ⟨g, s.body g⟩)) (-1))) f b := h.same rfl (by simp)
    exact hkept ((suspended_schedule hsched).same rfl fun cb hback => hback)
  | finish g hpc hst => exact hkept (h.of_update rfl ⟨by simp, by simp, by simp⟩ (by simp))
  | quit g hpc hst => exact hkept (h.same rfl (by simp))
  | park g cb hpc hst =>
    by_cases hfg : f = g
    · subst hfg
      have hcb : (s.heap f).cb = some b := by
        have hcb := h.1
        simpa [goto, Loop.setState, setFiber] using hcb
      exact hkept ⟨hcb, .inr (.inr ⟨(hctl.each f).exec_of_back hpc hst, cb, hpc⟩)⟩
    · exact hkept (h.same (Function.update_of_ne hfg _ _) (by simp))
  | exit hpc hi => exact hkept (h.same rfl (by simp))
  | idleIn hpc hi => exact hkept (h.same rfl (by simp))
  | idleOut more hpc hi => exact hkept (h.same rfl (by simp))

/-- What holds of the pointers is kept as long as a fiber that yields has no other pointers. -/
lemma meant_trans (hctl : Control s) (hown : Own s) (h : Meant s) (ht : Trans tid s k s')
    (hyield : ∀ f b r, Yielded s s' f → Suspended s' f b → Points s r → r.fiber = f →
      r.body = b) : Meant s' := by
  intro f b r hsus hp hr
  obtain ⟨hcb, hhow⟩ := suspended_trans hctl ht hsus
  rcases points_trans ht hp with hp | ⟨g, hg⟩ | ⟨g, hg, -, rfl⟩
  · rcases hhow with hsus' | hy
    · exact h f b r hsus' hp hr
    · exact hyield f b r hy hsus hp hr
  · simp only [pointer, Option.ite_none_right_eq_some, Option.some.injEq] at hg
    obtain ⟨⟨-, hkind⟩, rfl⟩ := hg
    obtain rfl : g = f := hr
    exact ((hown.each g).made hkind b hcb).symm
  · obtain rfl : g = f := hr
    show (s.heap g).cb.getD (.fiber g) = b
    rw [hcb]
    rfl

/-- A callback that suspends finds no pointer to its fiber that was taken for another one. -/
def Undisturbed (s : Loop) : Act → Prop
  | .body .yieldToReady | .body .yieldToHold =>
    ∀ f cb r, s.pc = .running f cb → Points s r → r.fiber = f → r.body = s.body f
  | _ => True

lemma call_pc (s : Loop) (c : Call) : (s.call c).pc = s.pc := by
  refine call_rule (P := fun s' => s'.pc = s.pc) c rfl (fun s' ft h => ?_) (fun _ _ h => h) rfl
  rw [(schedule_same s' ft).2.2.2.1]
  exact h

/-- Only a function that yields leaves its fiber suspended. -/
lemma yields_of_step {a : Act} {f : ℕ} {b : Body} {cb : Bool} (hpc : s.pc = .running f cb)
    (hpc' : s'.pc = .back f cb) (hsus : Suspended s' f b) (hs : step tid s a = some s') :
    a = .body .yieldToReady ∨ a = .body .yieldToHold := by
  have hstays : s'.pc ≠ s.pc := by
    rw [hpc, hpc']
    simp
  cases a with
  | turn more => simp [step, turn, hpc] at hs
  | call c =>
    obtain rfl := Option.some.inj hs
    exact absurd (call_pc s c) hstays
  | setAutoStop =>
    obtain rfl := Option.some.inj hs
    exact absurd rfl hstays
  | setStopping =>
    obtain rfl := Option.some.inj hs
    exact absurd rfl hstays
  | body a =>
    simp only [step, hpc] at hs
    obtain rfl := Option.some.inj hs
    cases a with
    | ret =>
      have hcb := hsus.1
      simp [bodyStep, settle, goto, note, setFiber] at hcb
    | throw =>
      have hst := hsus.2
      simp [bodyStep, settle, goto, note, setFiber, Loop.setState, Loop.state] at hst
    | yieldToReady => exact .inl rfl
    | yieldToHold => exact .inr rfl
    | scheduleThis thread => exact absurd (schedule_same s _).2.2.2.1 hstays
    | addEvent => exact absurd rfl hstays
    | call c => exact absurd (call_pc s c) hstays

lemma meant_step {a : Act} (hctl : Control s) (hown : Own s) (h : Meant s)
    (ha : Undisturbed s a) (hs : step tid s a = some s') : Meant s' := by
  refine meant_trans hctl hown h (step_trans hs) fun f b r hy hsus hp hr => ?_
  obtain ⟨cb, hpc, hpc'⟩ := hy
  have hcb := (suspended_trans hctl (step_trans hs) hsus).1
  have hbody : s.body f = b := by
    show (s.heap f).cb.getD (.fiber f) = b
    rw [hcb]
    rfl
  rw [← hbody]
  rcases yields_of_step hpc hpc' hsus hs with rfl | rfl
  · exact ha f cb r hpc hp hr
  · exact ha f cb r hpc hp hr

/-! ### The log -/

/-- Nothing is started or resumed for another callback. -/
def Clean (l : List Mark) : Prop :=
  ∀ a b, .started (.cb a) (.cb b) ∈ l ∨ .resumed (.cb a) (.cb b) ∈ l → a = b

lemma clean_append {l l' : List Mark} (h : Clean l) (h' : Clean l') : Clean (l ++ l') := by
  rintro a b (hm | hm)
  · exact (List.mem_append.mp hm).elim (fun hm => h a b (.inl hm)) fun hm => h' a b (.inl hm)
  · exact (List.mem_append.mp hm).elim (fun hm => h a b (.inr hm)) fun hm => h' a b (.inr hm)

lemma clean_schedule (h : Clean s.log) (ft : Entry) : Clean (s.scheduleNoLock ft).log := by
  unfold scheduleNoLock
  split
  · exact clean_append h (by simp [Clean])
  · exact h

lemma clean_call (h : Clean s.log) (c : Call) : Clean (s.call c).log :=
  call_rule (P := fun s' => Clean s'.log) c h (fun _ ft h => clean_schedule h ft) (fun _ _ h => h) h

lemma clean_trans (hctl : Control s) (hord : Order tid s) (hmeant : Meant s) (h : Clean s.log)
    (ht : Trans tid s k s') : Clean s'.log := by
  cases ht with
  | fault e hb => exact absurd hb hctl.not_broken
  | call c => exact clean_call h c
  | take n ft q₁ q₂ hpc hq hno he =>
    refine clean_append h ?_
    split <;> simp [Clean]
  | start n ft r b hpc hr hst hcb =>
    -- before its first switch a fiber has no callback on it
    refine clean_append h ?_
    rintro a b' (hm | hm)
    · obtain ⟨-, rfl⟩ : Body.cb a = r.body ∧ Body.cb b' = b := by simpa using hm
      exact absurd hcb (hord.notCb _ b' hst)
    · simp at hm
  | resume n ft r b hpc hr hst hcb =>
    -- the pointer is the one in hand
    refine clean_append h ?_
    have hp : Points s r := .inr (.inr (by rw [hpc]; exact hr))
    have hmeant := hmeant r.fiber b r ⟨hcb, hst.imp id Or.inl⟩ hp rfl
    rintro a b' (hm | hm)
    · simp at hm
    · obtain ⟨ha, rfl⟩ : Body.cb a = r.body ∧ Body.cb b' = b := by simpa using hm
      rw [hmeant] at ha
      exact Body.cb.inj ha
  | reuse n ft f hpc hf hcb hc hst =>
    refine clean_append h ?_
    rintro a b (hm | hm)
    · obtain ⟨rfl, rfl⟩ : a = n ∧ b = n := by simpa using hm
      rfl
    · simp at hm
  | fresh n ft hpc hf hcb hc =>
    refine clean_append h ?_
    rintro a b (hm | hm)
    · obtain ⟨rfl, rfl⟩ : a = n ∧ b = n := by simpa using hm
      rfl
    · simp at hm
  | ret f cb hpc => exact clean_append h (by simp [Clean])
  | throw f cb hpc => exact clean_append h (by simp [Clean])
  | hold f cb hpc hst => exact clean_append h (by simp [Clean])
  | this f cb thread hpc => exact clean_schedule h _
  | requeue f cb hpc hst =>
    have hcount : Clean ({ s with activeThreadCount := s.activeThreadCount - 1 } : Loop).log := h
    exact clean_schedule hcount _
  | _ => exact h

/-! ### Runs -/

structure Sorted (tid : ℤ) (s : Loop) : Prop where
  sound : Sound tid s
  own : Own s
  meant : Meant s
  clean : Clean s.log

lemma sorted_init (tid : ℤ) : Sorted tid {} := by
  refine ⟨sound_init tid, ⟨fun f => .none rfl, by simp⟩, ?_, ?_⟩
  · rintro f b r - (⟨e, he, -⟩ | he | he) <;> cases he
  · rintro a b (hm | hm) <;> cases hm

lemma sorted_step {a : Act} (h : Sorted tid s) (ha : Undisturbed s a)
    (hs : step tid s a = some s') : Sorted tid s' :=
  have ht := step_trans hs
  ⟨sound_step h.sound hs, own_trans h.own h.sound.control ht,
    meant_step h.sound.control h.own h.meant ha hs,
    clean_trans h.sound.control h.sound.order h.meant h.clean ht⟩

/-- The first of two callbacks queues its own fiber and ends; the second gets the fiber and yields,
and the entry of the first is taken. -/
def leftBehind : List Act :=
  [.call (.schedule (.cb (some ())) (-1)), .call (.schedule (.cb (some ())) (-1)), .turn false,
    .turn false, .body (.scheduleThis (-1)), .body .ret, .turn false, .turn false, .turn false,
    .body .yieldToHold, .turn false, .turn false, .turn false]

/-- The second callback goes on when only the first had asked for it. -/
theorem resumed_for_another : ¬ ∀ (tid : ℤ) (as : List Act) (s : Loop),
    Runs.run (step tid) {} as = some s → ∀ a b,
      .started (.cb a) (.cb b) ∈ s.log ∨ .resumed (.cb a) (.cb b) ∈ s.log → a = b := by
  intro h
  have hsome : (Runs.run (step 7) {} leftBehind).isSome := rfl
  obtain ⟨s, hs⟩ := Option.isSome_iff_exists.mp hsome
  have hlog : (Runs.run (step 7) {} leftBehind).map
      (fun s => decide (Mark.resumed (.cb 0) (.cb 1) ∈ s.log)) = some true := rfl
  rw [hs] at hlog
  have hmem := of_decide_eq_true (Option.some.inj hlog)
  exact absurd (h 7 _ s hs 0 1 (.inr hmem)) (by decide)

/-- **As long as no callback suspends while somebody still has a pointer to its fiber that was
taken for an earlier one, no pointer starts or resumes a callback for another.** -/
theorem never_for_another (tid : ℤ) (as : List Act) (s : Loop)
    (hm : Runs.Meets (step tid) Undisturbed {} as) (hr : Runs.run (step tid) {} as = some s) :
    ∀ a b, .started (.cb a) (.cb b) ∈ s.log ∨ .resumed (.cb a) (.cb b) ∈ s.log → a = b :=
  (Runs.run_inv_of_meets (fun _ _ _ h ha hs => sorted_step h ha hs) (sorted_init tid) hm hr).clean

/-- Two callbacks one after the other on one fiber, of which the second yields and is resumed. -/
def oneAfterAnother : List Act :=
  [.call (.schedule (.cb (some ())) (-1)), .call (.schedule (.cb (some ())) (-1)), .turn false,
    .turn false, .body .ret, .turn false, .turn false, .turn false, .body .yieldToReady,
    .turn false, .turn false, .turn false]

theorem never_for_another_two : ∃ s, Runs.run (step 7) {} oneAfterAnother = some s ∧
    ∀ a b, .started (.cb a) (.cb b) ∈ s.log ∨ .resumed (.cb a) (.cb b) ∈ s.log → a = b := by
  have hsome : (Runs.run (step 7) {} oneAfterAnother).isSome := rfl
  obtain ⟨s, hs⟩ := Option.isSome_iff_exists.mp hsome
  refine ⟨s, hs, never_for_another 7 oneAfterAnother s ?_ hs⟩
  iterate 8 refine Runs.meets_cons trivial rfl ?_
  refine Runs.meets_cons ?_ rfl ?_
  · -- nothing is queued and nothing waits when the second one yields
    rintro f cb r - (⟨e, he, -⟩ | he | he) <;> cases he
  · iterate 3 refine Runs.meets_cons trivial rfl ?_
    exact Runs.meets_nil _

end Sylar.Recycled
