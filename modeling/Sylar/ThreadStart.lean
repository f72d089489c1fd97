import Sylar.Lib.Runs

/-!
A `Thread` and the thread that it starts.

The new thread works on the object of the one that creates it, until it has notified the semaphore
that the constructor waits for. What happens to the object afterwards is up to the owner, and the
callback may still name the thread. All lines of the two threads interleave.
-/

namespace Sylar.ThreadStart

open Lib.Runs

inductive Owner
  /-- Before `pthread_create`. -/
  | creating
  /-- Before `semaphore_.wait()`. -/
  | waiting
  /-- The constructor has thrown, and there is no object. -/
  | threw
  | built
  /-- The object is destroyed. -/
  | gone
  deriving DecidableEq

inductive Runner
  | unborn
  /-- Before `t_thread_name = thread->name_`. -/
  | entered
  /-- Before `thread->id_ = GetThreadId()`. -/
  | named
  /-- Before `pthread_setname_np`. -/
  | numbered
  /-- Before `cb.swap(thread->cb_)`. -/
  | labelled
  /-- Before `thread->semaphore_.notify()`. -/
  | swapped
  /-- Before `cb()`. -/
  | notified
  | running
  | finished
  deriving DecidableEq

def Runner.line : Runner → ℕ
  | unborn => 0
  | entered => 1
  | named => 2
  | numbered => 3
  | labelled => 4
  | swapped => 5
  | notified => 6
  | running => 7
  | finished => 8

structure State where
  owner : Owner := .creating
  runner : Runner := .unborn
  name_ : List Char
  /-- None is the -1 at the start. -/
  id_ : Option ℕ := none
  /-- `cb_` is there. -/
  cb_ : Bool := true
  semaphore_ : ℕ := 0
  /-- `thread_` is not zero. -/
  thread_ : Bool := false
  t_thread_name : List Char := "UNKNOW".toList
  /-- How often the callback has been called. -/
  calls : ℕ := 0
  /-- How often the handle has been joined or detached. -/
  released : ℕ := 0
  /-- The new thread has used the object when there was none. -/
  fault : Bool := false

/-- The object and its thread before `pthread_create`. -/
def start (name : List Char) : State := { name_ := if name = [] then "UNKNOW".toList else name }

inductive Act
  /-- `pthread_create`, which may fail. -/
  | create (ok : Bool)
  /-- `semaphore_.wait()`, which may be interrupted. -/
  | wait (ok : Bool)
  /-- `join`, where `pthread_join` may fail. -/
  | join (ok : Bool)
  /-- `~Thread` -/
  | destroy
  /-- The next line of `run`, in a thread with the number `tid`. -/
  | next (tid : ℕ)
  /-- The callback calls `Thread::SetName`. -/
  | setName (name : List Char)

namespace State

variable (s : State)

def Alive : Prop := s.owner ≠ .threw ∧ s.owner ≠ .gone

instance : Decidable s.Alive := inferInstanceAs (Decidable (_ ∧ _))

def touch : State := if s.Alive then s else { s with fault := true }

def next (tid : ℕ) : Option State :=
  match s.runner with
  | .unborn => none
  | .entered => some { s.touch with runner := .named, t_thread_name := s.name_ }
  | .named => some { s.touch with runner := .numbered, id_ := some tid }
  | .numbered => some { s.touch with runner := .labelled }
  | .labelled => some { s.touch with runner := .swapped, cb_ := false }
  | .swapped => some { s.touch with runner := .notified, semaphore_ := s.semaphore_ + 1 }
  | .notified => some { s with runner := .running, calls := s.calls + 1 }
  | .running => some { s with runner := .finished }
  | .finished => none

/-- `Thread::join`. Where `pthread_join` fails it throws. -/
def join (ok : Bool) : Option State :=
  if s.thread_ then
    if ok then
      if s.runner = .finished then some { s with thread_ := false, released := s.released + 1 }
      else none
    else some s
  else some s

end State

def step (s : State) : Act → Option State
  | .create ok =>
    if s.owner = .creating then
      some (if ok then { s with owner := .waiting, runner := .entered, thread_ := true }
        else { s with owner := .threw })
    else none
  | .wait ok =>
    if s.owner = .waiting then
      if ok then
        if 0 < s.semaphore_ then some { s with owner := .built, semaphore_ := s.semaphore_ - 1 }
        else none
      else some { s with owner := .threw }
    else none
  | .join ok => if s.owner = .built then s.join ok else none
  | .destroy =>
    if s.owner = .built then
      some { s with
        owner := .gone
        released := if s.thread_ then s.released + 1 else s.released }
    else none
  | .next tid => s.next tid
  | .setName name =>
    if s.runner = .running then
      some (if name = [] then s else { s.touch with name_ := name, t_thread_name := name })
    else none

/-- A wait is not interrupted before the new thread has notified, and the callback does not name its
thread when the object is destroyed. -/
def Cond (s : State) : Act → Prop
  | .wait ok => ok = true ∨ 6 ≤ s.runner.line
  | .setName name => name = [] ∨ s.Alive
  | _ => True

/-- Left alone, the new thread comes to use an object that is destroyed. -/
def Doomed (s : State) : Prop :=
  ∃ (tids : List ℕ) (s' : State), run step s (tids.map .next) = some s' ∧ s'.fault = true

/-! ### Left alone -/

/-- The new thread has not used a destroyed object, and is not going to. -/
def Clear (s : State) : Prop :=
  s.fault = false ∧ (s.Alive ∨ s.runner = .unborn ∨ 6 ≤ s.runner.line)

lemma touch_of_alive {s : State} (h : s.Alive) : s.touch = s := if_pos h

lemma touch_of_dead {s : State} (h : ¬s.Alive) : s.touch = { s with fault := true } := if_neg h

lemma clear_next {s s' : State} {tid : ℕ} (hs : Clear s) (h : s.next tid = some s') :
    Clear s' := by
  obtain ⟨hfault, halive | hunborn | hline⟩ := hs
  · rw [State.next, touch_of_alive halive] at h
    split at h <;> cases h <;> exact ⟨hfault, Or.inl halive⟩
  · rw [State.next, hunborn] at h
    cases h
  · rw [State.next] at h
    cases hrunner : s.runner with
    | notified =>
      rw [hrunner] at h
      cases h
      exact ⟨hfault, Or.inr (Or.inr (Nat.le_succ 6))⟩
    | running =>
      rw [hrunner] at h
      cases h
      exact ⟨hfault, Or.inr (Or.inr (Nat.le_add_right 6 2))⟩
    | finished =>
      rw [hrunner] at h
      cases h
    | _ =>
      rw [hrunner] at hline
      exact absurd hline (by decide)

lemma fault_next {s : State} (h : ¬s.Alive) (hborn : s.runner ≠ .unborn)
    (hline : s.runner.line < 6) (tid : ℕ) : ∃ s', s.next tid = some s' ∧ s'.fault = true := by
  rw [State.next, touch_of_dead h]
  cases hrunner : s.runner with
  | unborn => exact absurd hrunner hborn
  | entered => exact ⟨_, rfl, rfl⟩
  | named => exact ⟨_, rfl, rfl⟩
  | numbered => exact ⟨_, rfl, rfl⟩
  | labelled => exact ⟨_, rfl, rfl⟩
  | swapped => exact ⟨_, rfl, rfl⟩
  | _ =>
    rw [hrunner] at hline
    exact absurd hline (by decide)

/-- A thread is doomed exactly if it has used a destroyed object, or will in its next line. -/
lemma doomed_iff {s : State} : Doomed s ↔ ¬Clear s := by
  constructor
  · rintro ⟨tids, s', hr, hfault⟩ hclear
    have hkept : Clear s' := by
      induction tids generalizing s with
      | nil =>
        cases hr
        exact hclear
      | cons tid tids ih =>
        obtain ⟨m, hm, hr⟩ := run_cons.mp hr
        exact ih hr (clear_next hclear hm)
    rw [hkept.1] at hfault
    cases hfault
  · intro h
    by_cases hfault : s.fault = true
    · exact ⟨[], s, rfl, hfault⟩
    · have hdead : ¬s.Alive ∧ s.runner ≠ .unborn ∧ s.runner.line < 6 := by
        simpa [Clear, hfault] using h
      obtain ⟨s', hs', hfault'⟩ := fault_next hdead.1 hdead.2.1 hdead.2.2 0
      exact ⟨[0], s', run_cons.mpr ⟨s', hs', rfl⟩, hfault'⟩

/-! ### What holds at every moment -/

/-- What holds of the object, by where its owner is. -/
def Stage (s : State) : Prop :=
  match s.owner with
  | .creating => s.runner = .unborn ∧ s.semaphore_ = 0 ∧ s.released = 0
  | .threw => (s.runner = .unborn ∨ 6 ≤ s.runner.line) ∧ s.released = 0
  | .waiting => 1 ≤ s.runner.line ∧ s.semaphore_ = (if 6 ≤ s.runner.line then 1 else 0) ∧
      s.thread_ = true ∧ s.released = 0
  | .built => 6 ≤ s.runner.line ∧ s.semaphore_ = 0 ∧ s.released = (if s.thread_ then 0 else 1) ∧
      (s.thread_ = false → s.runner = .finished)
  | .gone => 6 ≤ s.runner.line ∧ s.released = 1

/-- What the new thread has done with its lines. -/
structure Lines (s : State) : Prop where
  name : 2 ≤ s.runner.line → s.t_thread_name = s.name_
  id : 3 ≤ s.runner.line → s.id_ ≠ none
  cb : s.cb_ = true ↔ s.runner.line ≤ 4
  calls : s.calls = if 7 ≤ s.runner.line then 1 else 0

structure Inv (s : State) : Prop where
  stage : Stage s
  lines : Lines s

variable {s s' : State} {tid : ℕ}

lemma exists_touch (s : State) : ∃ b, s.touch = { s with fault := b } := by
  unfold State.touch
  split
  · exact ⟨s.fault, rfl⟩
  · exact ⟨true, rfl⟩

/-- What one line of the new thread does to what its owner sees. -/
structure NextLine (s s' : State) : Prop where
  owner : s'.owner = s.owner
  line : s'.runner.line = s.runner.line + 1
  born : 1 ≤ s.runner.line
  semaphore : s'.semaphore_ = s.semaphore_ + if s.runner.line = 5 then 1 else 0
  thread : s'.thread_ = s.thread_
  released : s'.released = s.released

lemma nextLine_of_next (h : s.next tid = some s') : NextLine s s' := by
  obtain ⟨b, hb⟩ := exists_touch s
  rw [State.next, hb] at h
  cases hrunner : s.runner with
  | unborn | finished =>
    rw [hrunner] at h
    cases h
  | _ =>
    rw [hrunner] at h
    cases h
    constructor <;> simp [Runner.line, hrunner]

lemma lines_next (hs : Lines s) (h : s.next tid = some s') : Lines s' := by
  obtain ⟨hname, hid, hcb, hcalls⟩ := hs
  obtain ⟨b, hb⟩ := exists_touch s
  rw [State.next, hb] at h
  cases hrunner : s.runner with
  | unborn | finished =>
    rw [hrunner] at h
    cases h
  | _ =>
    rw [hrunner] at h hname hid hcb hcalls
    cases h
    constructor <;> simp_all [Runner.line]

lemma stage_next (hs : Stage s) (h : s.next tid = some s') : Stage s' := by
  obtain ⟨howner, hline, hborn, hsemaphore, hthread, hreleased⟩ := nextLine_of_next h
  have hunborn : s.runner ≠ .unborn := by
    intro hu
    rw [hu] at hborn
    cases hborn
  unfold Stage at hs ⊢
  rw [howner, hline, hsemaphore, hthread, hreleased]
  cases ho : s.owner with
  | creating =>
    rw [ho] at hs
    exact absurd hs.1 hunborn
  | threw =>
    rw [ho] at hs
    have hlate := hs.1.resolve_left hunborn
    exact ⟨Or.inr (by omega), hs.2⟩
  | waiting =>
    rw [ho] at hs
    obtain ⟨-, hsem, hthread, hreleased⟩ := hs
    refine ⟨by omega, ?_, hthread, hreleased⟩
    rw [hsem]
    split_ifs <;> omega
  | built =>
    rw [ho] at hs
    obtain ⟨hlate, hsem, hreleased, hdone⟩ := hs
    refine ⟨by omega, ?_, hreleased, fun hjoined => ?_⟩
    · rw [hsem, if_neg (by omega)]
    · have hend := hdone hjoined
      rw [State.next, hend] at h
      cases h
  | gone =>
    rw [ho] at hs
    exact ⟨by omega, hs.2⟩

lemma clear_of_alive (hfault : s.fault = false) (h : s.owner ≠ .threw ∧ s.owner ≠ .gone) :
    Clear s :=
  ⟨hfault, Or.inl h⟩

lemma inv_create {ok : Bool} (hs : Inv s) (hc : Clear s) (h : step s (.create ok) = some s') :
    Inv s' ∧ Clear s' := by
  obtain ⟨hstage, hlines⟩ := hs
  rw [step] at h
  split at h
  case isFalse => cases h
  case isTrue howner =>
    unfold Stage at hstage
    rw [howner] at hstage
    obtain ⟨hunborn, hsem, hreleased⟩ := hstage
    obtain ⟨hname, hid, hcb, hcalls⟩ := hlines
    rw [hunborn] at hcb hcalls
    cases ok with
    | true =>
      rw [if_pos rfl] at h
      cases h
      have hearly {n : ℕ} (hn : 2 ≤ n) (h : n ≤ Runner.entered.line) : False :=
        absurd (Nat.le_trans hn h) (by decide)
      refine ⟨⟨⟨Nat.le_refl 1, hsem, rfl, hreleased⟩, ?_⟩, clear_of_alive hc.1 ⟨nofun, nofun⟩⟩
      exact ⟨fun h => (hearly (Nat.le_refl 2) h).elim, fun h => (hearly (Nat.le_succ 2) h).elim,
        hcb.trans (iff_of_true (Nat.zero_le 4) (Nat.le_add_left 1 3)), hcalls.trans rfl⟩
    | false =>
      rw [if_neg Bool.false_ne_true] at h
      cases h
      exact ⟨⟨⟨Or.inl hunborn, hreleased⟩, ⟨hname, hid, by rwa [hunborn], by rwa [hunborn]⟩⟩, hc.1,
        Or.inr (Or.inl hunborn)⟩

lemma inv_wait {ok : Bool} (hs : Inv s) (hc : Clear s) (h : step s (.wait ok) = some s') :
    (Cond s (.wait ok) → Inv s') ∧ (Clear s' ↔ Cond s (.wait ok)) := by
  obtain ⟨hstage, hlines⟩ := hs
  rw [step] at h
  split at h
  case isFalse => cases h
  case isTrue howner =>
    unfold Stage at hstage
    rw [howner] at hstage
    obtain ⟨hborn, hsem, hthread, hreleased⟩ := hstage
    cases ok with
    | true =>
      rw [if_pos rfl] at h
      split at h
      case isFalse => cases h
      case isTrue hpos =>
        cases h
        have hlate : 6 ≤ s.runner.line := by
          by_contra hearly
          rw [if_neg hearly] at hsem
          omega
        rw [if_pos hlate] at hsem
        have hstage : 6 ≤ s.runner.line ∧ s.semaphore_ - 1 = 0 ∧
            s.released = (if s.thread_ then 0 else 1) ∧
            (s.thread_ = false → s.runner = .finished) :=
          ⟨hlate, by omega, by rw [hthread]; exact hreleased, fun hno => by
            rw [hthread] at hno
            cases hno⟩
        exact ⟨fun _ => ⟨hstage, ⟨hlines.name, hlines.id, hlines.cb, hlines.calls⟩⟩,
          iff_of_true (clear_of_alive hc.1 ⟨nofun, nofun⟩) (Or.inl rfl)⟩
    | false =>
      cases h
      have hdead : Clear { s with owner := .threw } ↔ 6 ≤ s.runner.line := by
        constructor
        · rintro ⟨-, halive | hunborn | hlate⟩
          · exact absurd rfl halive.1
          · have hunborn : s.runner = .unborn := hunborn
            rw [hunborn] at hborn
            cases hborn
          · exact hlate
        · exact fun hlate => ⟨hc.1, Or.inr (Or.inr hlate)⟩
      refine ⟨fun hcond => ⟨⟨Or.inr (hcond.resolve_left nofun), hreleased⟩,
        ⟨hlines.name, hlines.id, hlines.cb, hlines.calls⟩⟩, hdead.trans ?_⟩
      exact (or_iff_right nofun).symm

lemma inv_join {ok : Bool} (hs : Inv s) (hc : Clear s) (h : step s (.join ok) = some s') :
    Inv s' ∧ Clear s' := by
  obtain ⟨hstage, hlines⟩ := hs
  rw [step] at h
  split at h
  case isFalse => cases h
  case isTrue howner =>
    have halive : s.owner ≠ .threw ∧ s.owner ≠ .gone := by
      rw [howner]
      decide
    have hstay : s' = s → Inv s' ∧ Clear s' := by
      rintro rfl
      exact ⟨⟨hstage, hlines⟩, hc⟩
    unfold Stage at hstage
    rw [howner] at hstage
    obtain ⟨hlate, hsem, hreleased, -⟩ := hstage
    rw [State.join] at h
    split at h
    case isFalse => exact hstay (Option.some.inj h).symm
    case isTrue hthread =>
      cases ok with
      | false => exact hstay (Option.some.inj h).symm
      | true =>
        rw [if_pos rfl] at h
        split at h
        case isFalse => cases h
        case isTrue hdone =>
          cases h
          rw [if_pos hthread] at hreleased
          have hstage : Stage { s with thread_ := false, released := s.released + 1 } := by
            unfold Stage
            dsimp only
            rw [howner]
            exact ⟨hlate, hsem, by rw [hreleased]; rfl, fun _ => hdone⟩
          exact ⟨⟨hstage, ⟨hlines.name, hlines.id, hlines.cb, hlines.calls⟩⟩,
            clear_of_alive hc.1 halive⟩

lemma inv_destroy (hs : Inv s) (hc : Clear s) (h : step s .destroy = some s') :
    Inv s' ∧ Clear s' := by
  obtain ⟨hstage, hlines⟩ := hs
  rw [step] at h
  split at h
  case isFalse => cases h
  case isTrue howner =>
    cases h
    unfold Stage at hstage
    rw [howner] at hstage
    obtain ⟨hlate, -, hreleased, -⟩ := hstage
    refine ⟨⟨⟨hlate, ?_⟩, ⟨hlines.name, hlines.id, hlines.cb, hlines.calls⟩⟩, hc.1,
      Or.inr (Or.inr hlate)⟩
    dsimp only
    rw [hreleased]
    split <;> rfl

lemma inv_setName {name : List Char} (hs : Inv s) (hc : Clear s)
    (h : step s (.setName name) = some s') :
    (Cond s (.setName name) → Inv s') ∧ (Clear s' ↔ Cond s (.setName name)) := by
  obtain ⟨hstage, hlines⟩ := hs
  rw [step] at h
  split at h
  case isFalse => cases h
  case isTrue hrunning =>
    split at h
    case isTrue hnil =>
      cases h
      exact ⟨fun _ => ⟨hstage, hlines⟩, iff_of_true hc (Or.inl hnil)⟩
    case isFalse hne =>
      by_cases halive : s.Alive
      · rw [touch_of_alive halive] at h
        cases h
        refine ⟨fun _ => ⟨?_, ⟨fun _ => rfl, hlines.id, hlines.cb, hlines.calls⟩⟩,
          iff_of_true (clear_of_alive hc.1 halive) (Or.inr halive)⟩
        unfold Stage at hstage ⊢
        exact hstage
      · rw [touch_of_dead halive] at h
        cases h
        have hcond : ¬Cond s (.setName name) := fun hcond => hcond.elim hne halive
        exact ⟨fun hc => absurd hc hcond, iff_of_false (fun hc => nomatch hc.1) hcond⟩

/-- **One step.** -/
lemma inv_step {act : Act} (hs : Inv s) (hc : Clear s) (h : step s act = some s') :
    (Cond s act → Inv s') ∧ (Clear s' ↔ Cond s act) := by
  have hfree : Inv s' ∧ Clear s' → Cond s act → (Cond s act → Inv s') ∧ (Clear s' ↔ Cond s act) :=
    fun hkept hcond => ⟨fun _ => hkept.1, iff_of_true hkept.2 hcond⟩
  cases act with
  | create ok => exact hfree (inv_create hs hc h) trivial
  | wait ok => exact inv_wait hs hc h
  | join ok => exact hfree (inv_join hs hc h) trivial
  | destroy => exact hfree (inv_destroy hs hc h) trivial
  | next tid =>
    exact hfree ⟨⟨stage_next hs.stage h, lines_next hs.lines h⟩, clear_next hc h⟩ trivial
  | setName name => exact inv_setName hs hc h

/-! ### Whole runs -/

lemma inv_start (name : List Char) : Inv (start name) ∧ Clear (start name) := by
  refine ⟨⟨⟨rfl, rfl, rfl⟩, ?_⟩, clear_of_alive rfl ⟨nofun, nofun⟩⟩
  have hearly {n : ℕ} (hn : 1 ≤ n) (h : n ≤ Runner.unborn.line) : False :=
    absurd (Nat.le_trans hn h) (by decide)
  exact ⟨fun h => (hearly (Nat.le_succ 1) h).elim, fun h => (hearly (Nat.le_add_left 1 2) h).elim,
    iff_of_true rfl (Nat.zero_le 4), rfl⟩

/-- What the owner of a thread may rely on. -/
structure Sound (s : State) : Prop where
  /-- When the constructor has returned, the new thread has its number and its name, and has taken
  the callback. -/
  ready : s.owner = .built ∨ s.owner = .gone →
    s.id_ ≠ none ∧ s.cb_ = false ∧ s.t_thread_name = s.name_
  /-- The callback is called once. -/
  once : s.calls ≤ 1 ∧ (s.runner = .finished → s.calls = 1)
  /-- A thread that has been joined has finished. -/
  joined : s.owner = .built → s.thread_ = false → s.runner = .finished
  /-- The handle is joined or detached once. -/
  released : s.released ≤ 1 ∧ (s.owner = .gone → s.released = 1)
  /-- When the constructor has thrown, there is no new thread, or it has taken the callback and its
  handle is never released. -/
  threw : s.owner = .threw → s.released = 0 ∧
    (s.runner = .unborn ∧ s.calls = 0 ∨ s.id_ ≠ none ∧ s.cb_ = false)

lemma sound_of_inv (hs : Inv s) : Sound s := by
  obtain ⟨hstage, hname, hid, hcb, hcalls⟩ := hs
  have hlate : s.owner = .built ∨ s.owner = .gone → 6 ≤ s.runner.line := by
    unfold Stage at hstage
    rintro (howner | howner) <;> rw [howner] at hstage <;> exact hstage.1
  refine ⟨fun howner => ?_, ⟨?_, fun hdone => ?_⟩, fun howner => ?_, ?_, fun howner => ?_⟩
  · have hline := hlate howner
    refine ⟨hid (by omega), ?_, hname (by omega)⟩
    rw [Bool.eq_false_iff, ne_eq, hcb]
    omega
  · rw [hcalls]
    split <;> decide
  · rw [hcalls, hdone]
    rfl
  · unfold Stage at hstage
    rw [howner] at hstage
    exact hstage.2.2.2
  · unfold Stage at hstage
    cases howner : s.owner with
    | creating =>
      rw [howner] at hstage
      exact ⟨hstage.2.2 ▸ Nat.zero_le 1, nofun⟩
    | waiting =>
      rw [howner] at hstage
      exact ⟨hstage.2.2.2 ▸ Nat.zero_le 1, nofun⟩
    | threw =>
      rw [howner] at hstage
      exact ⟨hstage.2 ▸ Nat.zero_le 1, nofun⟩
    | built =>
      rw [howner] at hstage
      refine ⟨?_, nofun⟩
      rw [hstage.2.2.1]
      split <;> decide
    | gone =>
      rw [howner] at hstage
      exact ⟨Nat.le_of_eq hstage.2, fun _ => hstage.2⟩
  · unfold Stage at hstage
    rw [howner] at hstage
    obtain ⟨hborn, hreleased⟩ := hstage
    refine ⟨hreleased, hborn.imp (fun hunborn => ⟨hunborn, ?_⟩) fun hline => ⟨hid (by omega), ?_⟩⟩
    · rw [hcalls, hunborn]
      rfl
    · rw [Bool.eq_false_iff, ne_eq, hcb]
      omega

/-- **The new thread uses the object only as long as there is one, exactly in the runs in which the
constructor's wait is not interrupted before the notification and the callback does not name its
thread when the object is destroyed. In these runs a thread is ready when the constructor returns,
its callback is called once, and its handle is released once, except where the constructor throws:
then there is no new thread, or its handle is never released.** -/
theorem never_doomed_iff (name : List Char) (acts : List Act)
    (hr : run step (start name) acts = some s') :
    (Always step (fun s => ¬Doomed s) (start name) acts ↔ Meets step Cond (start name) acts) ∧
      (Meets step Cond (start name) acts → Always step Sound (start name) acts) := by
  obtain ⟨hinv, hclear⟩ := inv_start name
  have hdoomed : (fun s => ¬Doomed s) = Clear := by
    funext s
    rw [doomed_iff, not_not]
  have hiff : Always step Clear (start name) acts ↔ Meets step Cond (start name) acts :=
    always_iff_meets (I := Inv) (fun _ _ _ hs hc hcond h => (inv_step hs hc h).1 hcond)
      (fun _ _ _ hs hc h => (inv_step hs hc h).2) hinv hclear hr
  refine ⟨hdoomed ▸ hiff, fun hmeets pre post m hacts hm => ?_⟩
  have hboth : Inv m ∧ Clear m := by
    refine run_inv_of_meets (C := Cond) (I := fun s => Inv s ∧ Clear s) ?_ ⟨hinv, hclear⟩
      (meets_append (hacts ▸ hmeets) hm).1 hm
    intro s a s' hs hcond h
    obtain ⟨hkeep, hclear⟩ := inv_step hs.1 hs.2 h
    exact ⟨hkeep hcond, hclear.mpr hcond⟩
  exact sound_of_inv hboth.1

/-- A thread that is joined before its object is destroyed. -/
def joined : List Act :=
  [.create true, .next 7, .next 7, .next 7, .next 7, .next 7, .wait true, .next 7,
    .setName ['t'], .next 7, .join true, .destroy]

theorem never_doomed_joined : ∃ s', run step (start []) joined = some s' ∧
    Always step (fun s => ¬Doomed s) (start []) joined ∧ Always step Sound (start []) joined := by
  have hmeets : Meets step Cond (start []) joined :=
    meets_cons trivial rfl <| meets_cons trivial rfl <| meets_cons trivial rfl <|
    meets_cons trivial rfl <| meets_cons trivial rfl <| meets_cons trivial rfl <|
    meets_cons (Or.inl rfl) rfl <| meets_cons trivial rfl <|
    meets_cons (Or.inr ⟨nofun, nofun⟩) rfl <| meets_cons trivial rfl <|
    meets_cons trivial rfl <| meets_cons trivial rfl <| meets_nil _
  obtain ⟨hiff, hsound⟩ := never_doomed_iff [] joined rfl
  exact ⟨_, rfl, hiff.mpr hmeets, hsound hmeets⟩

end Sylar.ThreadStart
