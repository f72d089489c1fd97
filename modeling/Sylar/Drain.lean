import Sylar.Accounts
import Sylar.Lib.Amortised

/-!
`stop` of a scheduler that has the calling thread as its only worker.

`stop` runs the worker loop itself, and with nothing else going on the loop is a machine: it
takes its turns, and where a function runs, the function says what is next. Each turn lowers a
potential made of the queue, the place of the worker and the state of the idle fiber; a step of a
function may raise it, and the functions take finitely many steps.
-/

namespace Sylar.Drain

open Lib Sylar.FiberModel FiberAndThread Sylar.SchedulerModel Sylar.SchedulerSteps
open Sylar.WorkerLoop Loop Sylar.CallbackStarts Sylar.Accounts

/-! ### The program -/

/-- What is scheduled is not pinned to another thread. -/
def CallHere (tid : ℤ) : Call → Prop
  | .schedule _ thread => thread = -1 ∨ thread = tid
  | _ => True

def BodyHere (tid : ℤ) : BodyAct → Prop
  | .scheduleThis thread => thread = -1 ∨ thread = tid
  | .call c => CallHere tid c
  | _ => True

/-- What the functions do next, after what they have done so far. -/
abbrev Program := List BodyAct → BodyAct

def next (tid : ℤ) (p : Program) (x : Loop × List BodyAct) : Loop × List BodyAct :=
  match x.1.pc with
  | .running .. => ((step tid x.1 (.body (p x.2))).getD x.1, x.2 ++ [p x.2])
  | _ => ((step tid x.1 (.turn true)).getD x.1, x.2)

def flagged (s : Loop) : Loop := { s with autoStop := true, stopping := true }

def StopReturns (tid : ℤ) (p : Program) (s t : Loop) : Prop :=
  if (flagged s).stoppingFinal then t = flagged s
  else ∃ n, ((next tid p)^[n] (flagged s, [])).1 = t ∧ t.pc = .exited

/-! ### The potential -/

def weight (s : Loop) : ℕ :=
  match s.pc with
  | .exited | .idling | .fault _ => 0
  | .missed => 1
  | .scan => 2
  | .back f _ => if s.state f = .ready then 7 else 3
  | .running .. => 4
  | .picked .. => 5

/-- An entry counts for four, and an idle fiber that has not ended for three. -/
def potential (s : Loop) : ℕ :=
  4 * s.fibers.length + weight s + if s.idle = .term then 0 else 3

variable {tid : ℤ} {s s' : Loop} {k : Option Bool}

lemma potential_lt (hi : s'.idle = s.idle)
    (h : 4 * s'.fibers.length + weight s' < 4 * s.fibers.length + weight s) :
    potential s' < potential s := by
  unfold potential
  rw [hi]
  omega

/-! ### While `stop` runs -/

def Pins (tid : ℤ) (s : Loop) : Prop := ∀ e ∈ s.fibers, e.2.thread = -1 ∨ e.2.thread = tid

structure Draining (tid : ℤ) (s : Loop) : Prop where
  pins : Pins tid s
  flags : s.autoStop = true ∧ s.stopping = true
  empty : s.pc = .missed ∨ s.pc = .idling ∨ s.pc = .exited → s.fibers = []
  /-- The idle fiber ends when there is no more to do. -/
  last : s.idle = .term → s.fibers = [] ∧ (s.pc = .scan ∨ s.pc = .missed ∨ s.pc = .exited)

lemma Draining.idle_ne (h : Draining tid s) (hpc : busy s.pc) : s.idle ≠ .term := by
  intro hi
  rcases (h.last hi).2 with he | he | he <;> simp [he, busy] at hpc

lemma pins_schedule (h : Pins tid s) (fc : FiberOrCb Ref Unit) {thread : ℤ}
    (ht : thread = -1 ∨ thread = tid) : Pins tid (s.scheduleNoLock (make fc thread)) := by
  have hthread : (make fc thread : Entry).thread = thread := by cases fc <;> rfl
  rcases schedule_cases s (make fc thread) with he | ⟨-, he⟩
  · rw [he]
    exact h
  · rw [he]
    intro e hmem
    rcases List.mem_append.mp hmem with hmem | hmem
    · exact h e hmem
    · rw [List.mem_singleton.mp hmem, hthread]
      exact ht

lemma pins_call (h : Pins tid s) {c : Call} (hc : CallHere tid c) : Pins tid (s.call c) := by
  cases c with
  | schedule fc thread =>
    cases fc with
    | fiber f => exact pins_schedule h (.fiber (f.bind s.pointer)) hc
    | cb c => exact pins_schedule h (.cb c) hc
  | create => exact h
  | trigger i =>
    simp only [Loop.call]
    split
    · exact pins_schedule (s := { s with events := s.events.eraseIdx i }) h _ (.inl rfl)
    · exact h
  | delEvent i => exact h

lemma empty_of_miss (hctl : Control s) (h : Pins tid s) (hpc : s.pc = .scan)
    (hno : ∀ x ∈ s.fibers, ¬ Eligible tid (fun r : Ref => some (s.state r.fiber)) x.2) :
    s.fibers = [] := by
  apply List.eq_nil_iff_forall_not_mem.mpr
  intro e he
  refine hno e he ⟨h e he, fun r _ hexec => ?_⟩
  have hcur : current s.pc = none := by rw [hpc]; rfl
  exact hctl.not_exec hcur r.fiber (Option.some.inj hexec)

lemma draining_busy (h : Draining tid s) (hb : busy s.pc) (hpins : Pins tid s')
    (hflags : s'.autoStop = s.autoStop ∧ s'.stopping = s.stopping) (hi : s'.idle = s.idle)
    (hpc : s'.pc ≠ .missed ∧ s'.pc ≠ .idling ∧ s'.pc ≠ .exited) : Draining tid s' := by
  refine ⟨hpins, by rw [hflags.1, hflags.2]; exact h.flags, fun he => ?_, fun he => ?_⟩
  · rcases he with he | he | he
    · exact absurd he hpc.1
    · exact absurd he hpc.2.1
    · exact absurd he hpc.2.2
  · exact absurd (hi ▸ he) (h.idle_ne hb)

/-- A turn with an entry in hand that leaves the queue as it is. -/
lemma draining_down (h : Draining tid s) (hb : busy s.pc) (hq : s'.fibers = s.fibers)
    (hflags : s'.autoStop = s.autoStop ∧ s'.stopping = s.stopping) (hi : s'.idle = s.idle)
    (hpc : s'.pc ≠ .missed ∧ s'.pc ≠ .idling ∧ s'.pc ≠ .exited) (hw : weight s' < weight s) :
    Draining tid s' ∧ potential s' < potential s := by
  have hpins : Pins tid s' := by
    unfold Pins
    rw [hq]
    exact h.pins
  refine ⟨draining_busy h hb hpins hflags hi hpc, potential_lt hi ?_⟩
  rw [hq]
  omega

lemma draining_picked {n : ℕ} {ft : Entry} (h : Draining tid s) (hpc : s.pc = .picked n ft)
    (hq : s'.fibers = s.fibers) (hflags : s'.autoStop = s.autoStop ∧ s'.stopping = s.stopping)
    (hi : s'.idle = s.idle) (hpc' : s'.pc ≠ .missed ∧ s'.pc ≠ .idling ∧ s'.pc ≠ .exited)
    (hw' : weight s' ≤ 4) : Draining tid s' ∧ potential s' < potential s := by
  have hbusy : busy s.pc := by
    rw [hpc]
    rfl
  have hw : weight s = 5 := by rw [weight, hpc]
  exact draining_down h hbusy hq hflags hi hpc' (hw ▸ Nat.lt_succ_of_le hw')

lemma draining_back {f : ℕ} {cb : Bool} (h : Draining tid s) (hpc : s.pc = .back f cb)
    (hst : s.state f ≠ .ready) (hq : s'.fibers = s.fibers)
    (hflags : s'.autoStop = s.autoStop ∧ s'.stopping = s.stopping) (hi : s'.idle = s.idle)
    (hpc' : s'.pc = .scan) : Draining tid s' ∧ potential s' < potential s := by
  have hbusy : busy s.pc := by
    rw [hpc]
    rfl
  have hw : weight s = 3 := by
    rw [weight, hpc]
    exact if_neg hst
  have hw' : weight s' = 2 := by rw [weight, hpc']
  refine draining_down h hbusy hq hflags hi ?_ ?_
  · rw [hpc']
    exact ⟨nofun, nofun, nofun⟩
  · rw [hw, hw']
    exact Nat.lt_succ_self 2

/-- At the end of a turn `run` may queue the fiber again. -/
lemma requeue_spec (s : Loop) (f : ℕ) (b : Body) :
    let s' := { s with activeThreadCount := s.activeThreadCount - 1 }.scheduleNoLock
      (make (.fiber (some ⟨f, b⟩)) (-1))
    s'.fibers.length = s.fibers.length + 1 ∧ s'.idle = s.idle ∧ s'.autoStop = s.autoStop ∧
      s'.stopping = s.stopping := by
  have hwork : (make (.fiber (some ⟨f, b⟩)) (-1) : Entry).isWork := rfl
  dsimp only
  unfold scheduleNoLock
  rw [if_pos hwork]
  exact ⟨by simp, rfl, rfl, rfl⟩

/-- **A turn lowers the potential**, and keeps what holds while `stop` runs. -/
lemma draining_turn (hk : Kept tid s) (h : Draining tid s) (ht : Trans tid s (some true) s') :
    Draining tid s' ∧ potential s' < potential s := by
  have hctl := hk.sound.control
  cases ht with
  | fault e hb => exact absurd hb hctl.not_broken
  | take n ft q₁ q₂ hpc hq hno he =>
    have hne : s.idle ≠ .term := by
      intro hi
      have hnil := (h.last hi).1
      rw [hq] at hnil
      simp at hnil
    refine ⟨⟨fun e hm => h.pins e ?_, h.flags, by simp, fun hi => absurd hi hne⟩,
      potential_lt rfl ?_⟩
    · rw [hq]
      have hm : e ∈ q₁ ++ q₂ := hm
      rcases List.mem_append.mp hm with hm | hm
      · exact List.mem_append_left _ hm
      · exact List.mem_append_right _ (List.mem_cons_of_mem _ hm)
    · show 4 * (q₁ ++ q₂).length + 5 < _
      have hw : weight s = 2 := by rw [weight, hpc]
      rw [hw, hq]
      simp only [List.length_append, List.length_cons]
      omega
  | miss hpc hno =>
    have hnil := empty_of_miss hctl h.pins hpc hno
    refine ⟨⟨h.pins, h.flags, fun _ => hnil, fun hi => ⟨hnil, .inr (.inl rfl)⟩⟩,
      potential_lt rfl ?_⟩
    have hw : weight s = 2 := by rw [weight, hpc]
    show 4 * s.fibers.length + 1 < _
    omega
  | drop n ft hpc hf hcb =>
    exact draining_picked h hpc rfl ⟨rfl, rfl⟩ rfl (by simp) (Nat.le_add_right 2 2)
  | empty n ft r hpc hr hst hcb =>
    have hw' : weight ((s.setState r.fiber .except).goto (.back r.fiber false)) = 3 := by
      simp [weight, goto, Loop.state, Loop.setState, setFiber]
    exact draining_picked h hpc rfl ⟨rfl, rfl⟩ rfl (by simp) (hw' ▸ Nat.le_succ 3)
  | start n ft r b hpc hr hst hcb =>
    exact draining_picked h hpc rfl ⟨rfl, rfl⟩ rfl (by simp) (Nat.le_refl 4)
  | resume n ft r b hpc hr hst hcb =>
    exact draining_picked h hpc rfl ⟨rfl, rfl⟩ rfl (by simp) (Nat.le_refl 4)
  | reuse n ft f hpc hf hcb hc hst =>
    exact draining_picked h hpc rfl ⟨rfl, rfl⟩ rfl (by simp) (Nat.le_refl 4)
  | fresh n ft hpc hf hcb hc =>
    exact draining_picked h hpc rfl ⟨rfl, rfl⟩ rfl (by simp) (Nat.le_refl 4)
  | requeue f cb hpc hst =>
    obtain ⟨hlen, hidle, hauto, hstop⟩ := requeue_spec s f (s.body f)
    have hcount : Pins tid { s with activeThreadCount := s.activeThreadCount - 1 } := h.pins
    refine ⟨draining_busy h (by rw [hpc]; rfl) ?_ ⟨hauto, hstop⟩ hidle (by simp),
      potential_lt hidle ?_⟩
    · exact pins_schedule hcount (.fiber (some ⟨f, s.body f⟩)) (.inl rfl)
    · have hw : weight s = 7 := by simp [weight, hpc, hst]
      show 4 * ({ s with activeThreadCount := s.activeThreadCount - 1 }.scheduleNoLock
        (make (.fiber (some ⟨f, s.body f⟩)) (-1))).fibers.length + 2 < _
      omega
  | finish f hpc hst =>
    have hr : s.state f ≠ .ready := by rcases hst with hst | hst <;> simp [hst]
    exact draining_back h hpc hr rfl ⟨rfl, rfl⟩ rfl rfl
  | quit f hpc hst =>
    have hr : s.state f ≠ .ready := by rcases hst with hst | hst <;> simp [hst]
    exact draining_back h hpc hr rfl ⟨rfl, rfl⟩ rfl rfl
  | park f cb hpc hst => exact draining_back h hpc hst.1 rfl ⟨rfl, rfl⟩ rfl rfl
  | exit hpc hi =>
    have hnil := h.empty (.inl hpc)
    refine ⟨⟨h.pins, h.flags, fun _ => hnil, fun _ => ⟨hnil, .inr (.inr rfl)⟩⟩,
      potential_lt rfl ?_⟩
    have hw : weight s = 1 := by rw [weight, hpc]
    show 4 * s.fibers.length + 0 < _
    omega
  | idleIn hpc hi =>
    have hnil := h.empty (.inl hpc)
    refine ⟨⟨h.pins, h.flags, fun _ => hnil, by simp [goto]⟩, ?_⟩
    have hw : weight s = 1 := by rw [weight, hpc]
    show 4 * s.fibers.length + 0 + 3 < _
    rw [potential, hw, if_neg hi.2.2]
    omega
  | idleOut more hpc hi =>
    -- there is nothing left, so the idle fiber ends
    have hnil := h.empty (.inr (.inl hpc))
    have hcount : s.activeThreadCount = 0 := by simpa [hpc, busy] using hk.counts.active
    have hfinal : s.stoppingFinal = true := by
      simp [stoppingFinal, h.flags.1, h.flags.2, hnil, hcount]
    refine ⟨⟨h.pins, h.flags, fun _ => hnil, fun _ => ⟨hnil, .inl rfl⟩⟩, ?_⟩
    have hw : weight s = 0 := by rw [weight, hpc]
    have hne : s.idle ≠ .term := by rw [hi]; simp
    rw [potential, potential, hw, if_neg hne]
    simp [goto, weight, hfinal]

/-- A step that leaves the idle fiber and may be paid for with four. -/
lemma potential_le (hi : s'.idle = s.idle)
    (h : 4 * s'.fibers.length + weight s' ≤ 4 * s.fibers.length + weight s + 4) :
    potential s' ≤ potential s + 4 := by
  unfold potential
  rw [hi]
  omega

lemma weight_running {f : ℕ} {cb : Bool} (hpc : s.pc = .running f cb) : weight s = 4 := by
  rw [weight, hpc]

lemma schedule_flags (s : Loop) (ft : Entry) :
    (s.scheduleNoLock ft).autoStop = s.autoStop ∧ (s.scheduleNoLock ft).stopping = s.stopping ∧
    (s.scheduleNoLock ft).fibers.length ≤ s.fibers.length + 1 := by
  rcases schedule_cases s ft with he | ⟨-, he⟩ <;> rw [he] <;> simp

lemma call_same (s : Loop) (c : Call) :
    (s.call c).idle = s.idle ∧ (s.call c).autoStop = s.autoStop ∧
    (s.call c).stopping = s.stopping ∧ (s.call c).pc = s.pc := by
  refine call_rule (P := fun s' => s'.idle = s.idle ∧ s'.autoStop = s.autoStop ∧
    s'.stopping = s.stopping ∧ s'.pc = s.pc) c ⟨rfl, rfl, rfl, rfl⟩ (fun s' ft h => ?_)
    (fun _ _ h => h) ⟨rfl, rfl, rfl, rfl⟩
  obtain ⟨-, -, -, hpc, hidle⟩ := schedule_same s' ft
  obtain ⟨hauto, hstop, -⟩ := schedule_flags s' ft
  rw [hpc, hidle, hauto, hstop]
  exact h

lemma call_length (s : Loop) (c : Call) : (s.call c).fibers.length ≤ s.fibers.length + 1 := by
  cases c with
  | schedule fc thread => exact (schedule_flags s _).2.2
  | create => exact Nat.le_succ _
  | trigger i =>
    simp only [Loop.call]
    split
    · exact (schedule_flags { s with events := s.events.eraseIdx i } _).2.2
    · exact Nat.le_succ _
  | delEvent i => exact Nat.le_succ _

/-- **A step of a function raises the potential by four at most.** -/
lemma draining_body (hk : Kept tid s) (h : Draining tid s) {f : ℕ} {cb : Bool}
    (hpc : s.pc = .running f cb) {a : BodyAct} (ha : BodyHere tid a) :
    Draining tid (s.settle (s.bodyStep f cb a)) ∧
      potential (s.settle (s.bodyStep f cb a)) ≤ potential s + 4 := by
  have hw := weight_running hpc
  have hbusy : busy s.pc := by rw [hpc]; rfl
  have hexec : s.state f = .exec := (hk.sound.control.each f).running cb hpc
  cases a with
  | ret =>
    refine ⟨draining_busy h hbusy h.pins ⟨rfl, rfl⟩ rfl (by simp [bodyStep, settle]),
      potential_le rfl ?_⟩
    have hw' : weight (s.settle (s.bodyStep f cb .ret)) = 3 := by
      simp [bodyStep, settle, weight, goto, note, setFiber, Loop.state]
    show 4 * s.fibers.length + weight (s.settle (s.bodyStep f cb .ret)) ≤ _
    omega
  | throw =>
    refine ⟨draining_busy h hbusy h.pins ⟨rfl, rfl⟩ rfl (by simp [bodyStep, settle]),
      potential_le rfl ?_⟩
    have hw' : weight (s.settle (s.bodyStep f cb .throw)) = 3 := by
      simp [bodyStep, settle, weight, goto, note, setFiber, Loop.setState, Loop.state]
    show 4 * s.fibers.length + weight (s.settle (s.bodyStep f cb .throw)) ≤ _
    omega
  | yieldToReady =>
    simp only [bodyStep, if_pos hexec]
    refine ⟨draining_busy h hbusy h.pins ⟨rfl, rfl⟩ rfl (by simp [settle]), potential_le rfl ?_⟩
    have hw' : weight ((s.setState f .ready).goto (.back f cb)) = 7 := by
      simp [weight, goto, setFiber, Loop.setState, Loop.state]
    show 4 * s.fibers.length + weight ((s.setState f .ready).goto (.back f cb)) ≤ _
    omega
  | yieldToHold =>
    simp only [bodyStep, if_pos hexec]
    refine ⟨draining_busy h hbusy h.pins ⟨rfl, rfl⟩ rfl (by simp [settle]), potential_le rfl ?_⟩
    have hw' : weight ((s.note [.held (s.body f)]).goto (.back f cb)) = 3 := by
      have hexec : (s.heap f).state = .exec := hexec
      simp [weight, goto, note, Loop.state, hexec]
    show 4 * s.fibers.length + weight ((s.note [.held (s.body f)]).goto (.back f cb)) ≤ _
    omega
  | scheduleThis thread =>
    obtain ⟨-, -, -, hpc', hidle⟩ := schedule_same s (make (.fiber (some ⟨f, s.body f⟩)) thread)
    obtain ⟨hauto, hstop, hlen⟩ := schedule_flags s (make (.fiber (some ⟨f, s.body f⟩)) thread)
    have hw' := weight_running (hpc'.trans hpc)
    refine ⟨draining_busy h hbusy (pins_schedule h.pins _ ha) ⟨hauto, hstop⟩ hidle ?_,
      potential_le hidle ?_⟩
    · show (s.scheduleNoLock _).pc ≠ _ ∧ (s.scheduleNoLock _).pc ≠ _ ∧ (s.scheduleNoLock _).pc ≠ _
      rw [hpc', hpc]
      simp
    · show 4 * (s.scheduleNoLock _).fibers.length + weight (s.scheduleNoLock _) ≤ _
      omega
  | addEvent =>
    refine ⟨draining_busy h hbusy h.pins ⟨rfl, rfl⟩ rfl (by simp [bodyStep, settle, hpc]),
      potential_le rfl ?_⟩
    have hw' : weight (s.settle (s.bodyStep f cb .addEvent)) = 4 := weight_running hpc
    show 4 * s.fibers.length + weight (s.settle (s.bodyStep f cb .addEvent)) ≤ _
    omega
  | call c =>
    obtain ⟨hidle, hauto, hstop, hpc'⟩ := call_same s c
    have hlen := call_length s c
    have hw' := weight_running (hpc'.trans hpc)
    refine ⟨draining_busy h hbusy (pins_call h.pins ha) ⟨hauto, hstop⟩ hidle ?_,
      potential_le hidle ?_⟩
    · show (s.call c).pc ≠ _ ∧ (s.call c).pc ≠ _ ∧ (s.call c).pc ≠ _
      rw [hpc', hpc]
      simp
    · show 4 * (s.call c).fibers.length + weight (s.call c) ≤ _
      omega

/-! ### The run of `stop` -/

structure Inside (tid : ℤ) (x : Loop × List BodyAct) : Prop where
  kept : Kept tid x.1
  draining : Draining tid x.1

/-- The worker can take a turn unless a function runs or it is done. -/
lemma turn_isSome (tid : ℤ) (more : Bool) (hrun : ∀ f cb, s.pc ≠ .running f cb)
    (hexit : s.pc ≠ .exited) (hfault : ∀ e, s.pc ≠ .fault e) :
    ∃ r, s.turn tid more = some r := by
  unfold turn
  cases hpc : s.pc with
  | running f cb => exact absurd hpc (hrun f cb)
  | exited => exact absurd hpc hexit
  | fault e => exact absurd hpc (hfault e)
  | scan => exact ⟨_, rfl⟩
  | picked n ft => exact ⟨_, rfl⟩
  | missed => exact ⟨_, rfl⟩
  | back f cb => exact ⟨_, rfl⟩
  | idling => exact ⟨_, rfl⟩

lemma next_exited {p : Program} {x : Loop × List BodyAct} (hpc : x.1.pc = .exited) :
    next tid p x = x := by
  simp only [next, hpc, step, turn, Option.map_none, Option.getD_none]

/-- A step inside `stop` keeps what holds there. It lowers the potential, but for five for a step of
a function. -/
lemma next_spec {p : Program} (hp : ∀ h, BodyHere tid (p h)) {x : Loop × List BodyAct}
    (h : Inside tid x) : Inside tid (next tid p x) ∧ (x.1.pc ≠ .exited →
      potential (next tid p x).1 + 1 + 5 * x.2.length ≤
        potential x.1 + 5 * (next tid p x).2.length) := by
  obtain ⟨s, acts⟩ := x
  obtain ⟨hk, hd⟩ := h
  dsimp only at hk hd ⊢
  by_cases hexit : s.pc = .exited
  · rw [next_exited hexit]
    exact ⟨⟨hk, hd⟩, fun hne => absurd hexit hne⟩
  by_cases hrun : ∃ f cb, s.pc = .running f cb
  · obtain ⟨f, cb, hpc⟩ := hrun
    have hs : step tid s (.body (p acts)) = some (s.settle (s.bodyStep f cb (p acts))) := by
      simp only [step, hpc]
    have hnext : next tid p (s, acts) =
        (s.settle (s.bodyStep f cb (p acts)), acts ++ [p acts]) := by
      simp only [next, hpc, hs, Option.getD_some]
    obtain ⟨hd', hle⟩ := draining_body hk hd hpc (hp acts)
    rw [hnext]
    refine ⟨⟨kept_step hk hs, hd'⟩, fun _ => ?_⟩
    simp only [List.length_append, List.length_singleton]
    omega
  · simp only [not_exists] at hrun
    obtain ⟨r, hr⟩ := turn_isSome tid true hrun hexit hk.sound.control.noFault
    have hs : step tid s (.turn true) = some (s.settle r) := by
      rw [step, hr]
      rfl
    have hnext : next tid p (s, acts) = (s.settle r, acts) := by
      unfold next
      dsimp only
      split
      · rename_i f cb hpc
        exact absurd hpc (hrun f cb)
      · rw [hs]
        rfl
    obtain ⟨hd', hlt⟩ := draining_turn hk hd (step_trans hs)
    rw [hnext]
    refine ⟨⟨kept_step hk hs, hd'⟩, fun _ => ?_⟩
    dsimp only
    omega

/-- What `stop` finds when it begins. -/
structure Before (tid : ℤ) (s : Loop) : Prop where
  kept : Kept tid s
  pins : Pins tid s
  pc : s.pc = .scan
  idle : s.idle = .init

lemma before_calls {calls : List Call} (hcalls : ∀ c ∈ calls, CallHere tid c) {s : Loop}
    (h : Before tid s) : Before tid (calls.foldl Loop.call s) := by
  induction calls generalizing s with
  | nil => exact h
  | cons c calls ih =>
    have hc := hcalls c List.mem_cons_self
    obtain ⟨hidle, -, -, hpc⟩ := call_same s c
    refine ih (fun c hc => hcalls c (List.mem_cons_of_mem _ hc)) ⟨?_, pins_call h.pins hc, ?_, ?_⟩
    · have hs : step tid s (.call c) = some (s.call c) := rfl
      exact kept_step h.kept hs
    · rw [hpc]
      exact h.pc
    · rw [hidle]
      exact h.idle

/-- When the queue is empty and nothing runs, every function has ended or suspends. -/
structure Drained (s : Loop) : Prop where
  queue : s.fibers = []
  active : s.activeThreadCount = 0
  idle : s.idleThreadCount = 0
  complete : ∀ b, .queued b ∈ s.log → .held b ∉ s.log → .ended b ∈ s.log
  final : ∀ f, .queued (.fiber f) ∈ s.log → .held (.fiber f) ∉ s.log →
    s.state f = .term ∨ s.state f = .except
  /-- `cb_fiber` can be destroyed. -/
  spare : ∀ f, s.cbFiber = some f → s.state f = .except ∨ s.state f = .init

lemma drained_of_kept (hk : Kept tid s) (hq : s.fibers = []) (hpc : s.pc = .scan ∨ s.pc = .exited) :
    Drained s := by
  have hcomplete : ∀ b, .queued b ∈ s.log → .held b ∉ s.log → .ended b ∈ s.log := by
    intro b hb hheld
    rcases hk.accounted b hb with hend | hh | ⟨n, ft, hmem | hpick, -⟩ | ⟨f, hcur, -⟩
    · exact hend
    · exact absurd hh hheld
    · rw [hq] at hmem
      cases hmem
    · rcases hpc with he | he <;> (rw [he] at hpick; cases hpick)
    · rcases hpc with he | he <;> (rw [he] at hcur; cases hcur)
  refine ⟨hq, ?_, ?_, hcomplete, fun f hf hheld => (hk.final f (hcomplete _ hf hheld)).2.2,
    fun f hf => ?_⟩
  · rw [hk.counts.active]
    rcases hpc with he | he <;> (rw [he]; rfl)
  · rw [hk.counts.idle]
    rcases hpc with he | he <;> (rw [he]; rfl)
  · rcases (hk.sound.control.each f).spare hf with he' | he' | he' | ⟨he', -⟩
    · rcases hpc with he | he <;> (rw [he] at he'; cases he')
    · rcases hpc with he | he <;> (rw [he] at he'; cases he')
    · exact .inl he'
    · exact .inr he'

/-- **`stop` drains the queue.** After any calls of `schedule`, and as long as the functions take
finitely many steps in all, `stop` returns; the queue is then empty, both counters are 0 and every
function that has been queued and has not called `YieldToHold` has ended. -/
theorem stop_drains (tid : ℤ) (calls : List Call) (hcalls : ∀ c ∈ calls, CallHere tid c)
    (p : Program) (hp : ∀ h, BodyHere tid (p h))
    (hfinite : ∃ N, ∀ n,
      ((next tid p)^[n] (flagged (calls.foldl Loop.call {}), [])).2.length ≤ N) :
    ∃ t, StopReturns tid p (calls.foldl Loop.call {}) t ∧ Drained t := by
  have hstart : Before tid {} := ⟨kept_init tid, by simp [Pins], rfl, rfl⟩
  have hbefore := before_calls hcalls hstart
  obtain ⟨s, hs⟩ : ∃ s, calls.foldl Loop.call {} = s := ⟨_, rfl⟩
  rw [hs] at hfinite hbefore ⊢
  have hauto : step tid s .setAutoStop = some { s with autoStop := true } := rfl
  have hstop : step tid { s with autoStop := true } .setStopping = some (flagged s) := rfl
  have hkept : Kept tid (flagged s) := kept_step (kept_step hbefore.kept hauto) hstop
  by_cases hfinal : (flagged s).stoppingFinal
  · -- nothing was scheduled
    refine ⟨flagged s, by rw [StopReturns, if_pos hfinal], ?_⟩
    have hq : s.fibers = [] := by
      simp only [stoppingFinal, flagged, decide_eq_true_eq, List.isEmpty_iff] at hfinal
      exact hfinal.2.2.1
    exact drained_of_kept hkept hq (.inl hbefore.pc)
  · have hinside : Inside tid (flagged s, []) := by
      refine ⟨hkept, hbefore.pins, ⟨rfl, rfl⟩, fun he => ?_, fun he => ?_⟩
      · have hpc : (flagged s).pc = .scan := hbefore.pc
        rw [hpc] at he
        simp at he
      · have hidle : (flagged s).idle = .init := hbefore.idle
        rw [hidle] at he
        cases he
    obtain ⟨N, hN⟩ := hfinite
    have hkeep : ∀ x, Inside tid x → Inside tid (next tid p x) := fun x hx => (next_spec hp hx).1
    have hstep : ∀ x, Inside tid x → ¬ x.1.pc = .exited →
        potential (next tid p x).1 + 1 + 5 * x.2.length ≤
          potential x.1 + 5 * (next tid p x).2.length := fun x hx => (next_spec hp hx).2
    obtain ⟨n, hn⟩ := Amortised.exists_halted (fun x => potential x.1) (fun x => x.2.length)
      hkeep hstep hinside hN
    have hend := Amortised.invariant_iterate hkeep hinside n
    refine ⟨_, ?_, drained_of_kept hend.kept (hend.draining.empty (.inr (.inr hn))) (.inr hn)⟩
    rw [StopReturns, if_neg hfinal]
    exact ⟨n, rfl, hn⟩

def yieldOnce : Program := fun h => if h.isEmpty then .yieldToReady else .ret

def oneCallback : List Call := [.schedule (.cb (some ())) (-1)]

theorem stop_drains_yieldOnce : ∃ t,
    StopReturns 7 yieldOnce (oneCallback.foldl Loop.call {}) t ∧ Drained t := by
  refine stop_drains 7 oneCallback (by simp [oneCallback, CallHere]) yieldOnce (fun h => ?_)
    ⟨2, fun n => ?_⟩
  · unfold yieldOnce
    split <;> trivial
  · have hexit : ((next 7 yieldOnce)^[14]
        (flagged (oneCallback.foldl Loop.call {}), [])).1.pc = .exited := by decide
    have hfixed : next 7 yieldOnce _ = _ := next_exited hexit
    by_cases hn : n < 14
    · revert hn n
      decide
    · obtain ⟨m, rfl⟩ : ∃ m, n = m + 14 := ⟨n - 14, by omega⟩
      rw [Function.iterate_add_apply, Function.iterate_fixed hfixed]
      decide

end Sylar.Drain
