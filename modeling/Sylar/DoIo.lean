import Sylar.TimedWait
import Sylar.HookModel

/-!
`do_io` on a managed socket: the call that looks blocking.

The fiber calls the original function until that neither was interrupted nor would block; in the
latter case it waits with a timer of its own each time. All its timers share one `timer_info`, so
the callback of an earlier wait can end a later one.
-/

namespace Sylar.DoIo

open Lib Sylar.FiberModel Sylar.IoModel Sylar.HookModel Sylar.TimedWait

variable {S F C : Type}

def EINTR : ℤ := 4
def EAGAIN : ℤ := 11
def ETIMEDOUT : ℤ := 110

structure Res where
  n : ℤ
  errno : ℤ
  deriving DecidableEq

def Res.interrupted (r : Res) : Bool := r.n = -1 ∧ r.errno = EINTR

def Res.wouldBlock (r : Res) : Bool := r.n = -1 ∧ r.errno = EAGAIN

def Res.again (r : Res) : Bool := r.interrupted || r.wouldBlock

/-- The hooked functions wait for `READ` with `SO_RCVTIMEO` and for `WRITE` with `SO_SNDTIMEO`. -/
def eventOf : TimeoutSo → Event
  | .rcv => .read
  | .snd => .write

inductive Pc
  | outside
  | call
  | arm
  | add
  | failed (errno : ℤ)
  | wait
  | back
  | check
  | ret (r : Res)
  deriving DecidableEq

structure St (S F C : Type) where
  w : Wait S F C
  pc : Pc := .outside
  timeout : UInt64 := 0
  /-- The results of the original function so far. -/
  calls : List Res := []
  /-- `addEvent` has failed. -/
  addFailed : Bool := false

/-- What the fiber gets from outside in its next step: a result of the original function, the
outcome of `epoll_ctl` and its `errno`, the clock, and the address of a new timer. -/
structure Answer where
  res : Res
  ok : Bool
  errno : ℤ
  now : UInt64
  addr : ℕ

inductive Action (S F C : Type)
  | env (e : Env S F C)
  | enter (ctx : Option FdCtx)
  | go (ans : Answer)

section

variable (fd : Fd) (so : TimeoutSo) (me : S) (f : F)

def go (st : St S F C) (ans : Answer) : Option (St S F C) :=
  match st.pc with
  | .call =>
    let st := { st with calls := st.calls ++ [ans.res] }
    if ans.res.interrupted then some { st with pc := .call }
    else if ans.res.wouldBlock then some { st with pc := .arm }
    else some { st with pc := .ret ans.res }
  | .arm => (st.w.arm st.timeout ans.now ans.addr).map fun w => { st with w := w, pc := .add }
  | .add =>
    match st.w.register fd (eventOf so) ⟨some me, f, .exec⟩ ans.ok with
    | some (w, true) => some { st with w := w, pc := .wait }
    | some (w, false) => some { st with w := w, pc := .failed ans.errno, addFailed := true }
    | none => none
  | .failed errno => st.w.cancelTimer.map fun w => { st with w := w, pc := .ret ⟨-1, errno⟩ }
  | .wait => st.w.resume.map fun w => { st with w := w, pc := .back }
  | .back => st.w.cancelTimer.map fun w => { st with w := w, pc := .check }
  | .check => some { st with pc := if st.w.cancelled then .ret ⟨-1, ETIMEDOUT⟩ else .call }
  | .outside | .ret _ => none

/-- The call is made on a hooked thread for a descriptor whose context makes `do_io` wait, and while
nobody waits for the event. Nothing is followed after it has returned. -/
def step (st : St S F C) : Action S F C → Option (St S F C)
  | .env e =>
    match st.pc with
    | .ret _ => none
    | _ => (st.w.env fd (eventOf so) e).map fun w => { st with w := w }
  | .enter ctx =>
    match st.pc, doIoPath true ctx so with
    | .outside, .wait timeout =>
      if (st.w.io.fdContexts fd).events &&& (eventOf so).bits = 0 then
        some { st with w := { st.w with active := true }, pc := .call, timeout := timeout }
      else none
    | _, _ => none
  | .go ans => go fd so me f st ans

end

def start (now : UInt64) (tickle : Fd) : St S F C := { w := TimedWait.start now tickle }

/-! ### What a return means -/

/-- What the call may return: the first result of the original function that is not to be tried
again, which is also the last one; or `-1` with `ETIMEDOUT`, if a timer that the call armed has run
its callback; or `-1` if `addEvent` has failed. In the last two cases no result is lost. -/
def Result (st : St S F C) (r : Res) : Prop :=
  (∃ pre, st.calls = pre ++ [r] ∧ r.again = false ∧ ∀ x ∈ pre, x.again = true) ∨
  ((∀ x ∈ st.calls, x.again = true) ∧
    ((r = ⟨-1, ETIMEDOUT⟩ ∧ ∃ k ∈ st.w.ran, ∃ t, st.w.armed[k]? = some t) ∨
      (r.n = -1 ∧ st.addFailed = true)))

/-- At a return the result is one of these, the timers that the call armed are out of `timers_`,
and the event is not registered any more. -/
structure Returned (fd : Fd) (so : TimeoutSo) (st : St S F C) (r : Res) : Prop where
  result : Result st r
  timers : ∀ t ∈ st.w.armed, t ∉ st.w.timers.timers
  ended : (st.w.io.fdContexts fd).events &&& (eventOf so).bits = 0

/-! ### The invariant -/

/-- The timer of the current wait is out of scope. -/
def Pc.noTimer : Pc → Bool
  | .add | .failed _ | .wait | .back => false
  | _ => true

structure Inv (tickle fd : Fd) (so : TimeoutSo) (st : St S F C) : Prop where
  wait : TimedWait.Inv tickle fd (eventOf so) st.w
  active : st.pc ≠ .outside → st.w.active = true
  waiting : st.w.waiting = true ↔ st.pc = .wait
  timer : st.pc.noTimer = true → st.w.timer = none
  calls : (∀ r, st.pc ≠ .ret r) → ∀ x ∈ st.calls, x.again = true
  failed : ∀ errno, st.pc = .failed errno → st.addFailed = true
  result : ∀ r, st.pc = .ret r → Result st r

lemma eventOf_ne_none (so : TimeoutSo) : eventOf so ≠ .none := by
  cases so <;> nofun

variable {tickle fd : Fd} {so : TimeoutSo} {me : S} {f : F}

lemma env_step_inv {st st' : St S F C} (h : Inv tickle fd so st) {e : Env S F C}
    (hs : step fd so me f st (.env e) = some st') : Inv tickle fd so st' := by
  simp only [step] at hs
  split at hs
  · cases hs
  · rename_i hret
    obtain ⟨w, hw, rfl⟩ := Option.map_eq_some_iff.mp hs
    have hsame := env_same hw
    exact { wait := env_inv h.wait hw
            active := fun hpc => hsame.active.trans (h.active hpc)
            waiting := by rw [hsame.waiting]; exact h.waiting
            timer := fun hpc => hsame.timer.trans (h.timer hpc)
            calls := h.calls
            failed := h.failed
            result := fun r hpc => absurd hpc (hret r) }

lemma enter_inv {st st' : St S F C} (h : Inv tickle fd so st) {ctx : Option FdCtx}
    (hs : step fd so me f st (.enter ctx) = some st') : Inv tickle fd so st' := by
  simp only [step] at hs
  split at hs
  · rename_i timeout hpc hpath
    split at hs
    · rename_i hfree
      cases hs
      have hnot : st.w.waiting = false := by
        by_contra hne
        have := h.waiting.mp (by simpa using hne)
        rw [hpc] at this
        cases this
      exact { wait := { h.wait with free := fun _ hreg => absurd hfree hreg }
              active := fun _ => rfl
              waiting := by simp [hnot]
              timer := fun _ => h.timer (by rw [hpc]; rfl)
              calls := fun _ => h.calls (by simp [hpc])
              failed := nofun
              result := nofun }
    · cases hs
  · cases hs

/-- A step that only moves the fiber to a place where it neither waits nor has a timer. -/
lemma Inv.moves {st : St S F C} (h : Inv tickle fd so st) (hactive : st.w.active = true)
    (hwait : st.w.waiting = false) (hnone : st.w.timer = none) (pc : Pc) (calls : List Res)
    (hpc : pc ≠ .wait) (hfailed : ∀ errno, pc ≠ .failed errno)
    (hcalls : (∀ r, pc ≠ .ret r) → ∀ x ∈ calls, x.again = true)
    (hresult : ∀ r, pc = .ret r → Result { st with pc := pc, calls := calls } r) :
    Inv tickle fd so { st with pc := pc, calls := calls } where
  wait := h.wait
  active := fun _ => hactive
  waiting := by
    constructor
    · intro hw
      exact absurd (hwait.symm.trans hw) (by decide)
    · exact fun heq => absurd heq hpc
  timer := fun _ => hnone
  calls := hcalls
  failed := fun errno heq => absurd heq (hfailed errno)
  result := hresult

lemma Inv.not_waiting {st : St S F C} (h : Inv tickle fd so st) (hpc : st.pc ≠ .wait) :
    st.w.waiting = false := by
  by_contra hne
  exact hpc (h.waiting.mp (by simpa using hne))

lemma Inv.not_registered {st : St S F C} (h : Inv tickle fd so st) (hout : st.pc ≠ .outside)
    (hpc : st.pc ≠ .wait) : ¬ st.w.Registered fd (eventOf so) := by
  intro hreg
  have hwait := (h.wait.free (h.active hout) hreg).1
  rw [h.not_waiting hpc] at hwait
  cases hwait

lemma Inv.cancelTimer {st : St S F C} (h : Inv tickle fd so st) (hout : st.pc ≠ .outside)
    (hpc : st.pc ≠ .wait) : ∃ w, st.w.cancelTimer = some w ∧
      TimedWait.Inv tickle fd (eventOf so) w ∧ w.active = true ∧ w.waiting = false ∧
      w.timer = none := by
  obtain ⟨w, hw, hinv, hrec⟩ := cancelTimer_inv h.wait
  refine ⟨w, hw, hinv, ?_, ?_, by rw [hrec]⟩
  · rw [hrec]
    exact h.active hout
  · rw [hrec]
    exact h.not_waiting hpc

lemma call_inv {st st' : St S F C} (h : Inv tickle fd so st) (hpc : st.pc = .call) {ans : Answer}
    (hs : go fd so me f st ans = some st') : Inv tickle fd so st' := by
  have hactive := h.active (by simp [hpc])
  have hwait := h.not_waiting (by simp [hpc])
  have hnone := h.timer (by rw [hpc]; rfl)
  have hpre := h.calls (by simp [hpc])
  have hmore (hx : ans.res.again = true) : ∀ x ∈ st.calls ++ [ans.res], x.again = true := by
    intro x hmem
    rcases List.mem_append.mp hmem with hmem | hmem
    · exact hpre x hmem
    · rw [List.mem_singleton.mp hmem]
      exact hx
  simp only [go, hpc] at hs
  split at hs
  · rename_i hint
    cases hs
    exact h.moves hactive hwait hnone .call (st.calls ++ [ans.res]) nofun nofun
      (fun _ => hmore (by simp [Res.again, hint])) nofun
  · rename_i hint
    split at hs
    · rename_i hblock
      cases hs
      exact h.moves hactive hwait hnone .arm (st.calls ++ [ans.res]) nofun nofun
        (fun _ => hmore (by simp [Res.again, hblock])) nofun
    · rename_i hblock
      cases hs
      refine h.moves hactive hwait hnone (.ret ans.res) (st.calls ++ [ans.res]) nofun nofun
        (fun hret => absurd rfl (hret ans.res)) ?_
      rintro r ⟨⟩
      exact .inl ⟨st.calls, rfl, by simp [Res.again, hint, hblock], hpre⟩

/-- The assertions of `addEvent` hold when the fiber registers. -/
lemma Inv.register {st : St S F C} (h : Inv tickle fd so st) (hpc : st.pc = .add) (me : S) (f : F)
    (ok : Bool) : ∃ w b, st.w.register fd (eventOf so) ⟨some me, f, .exec⟩ ok = some (w, b) ∧
      TimedWait.Inv tickle fd (eventOf so) w ∧ w = { st.w with io := w.io, waiting := b } :=
  register_inv h.wait (eventOf_ne_none so) (h.not_registered (by simp [hpc]) (by simp [hpc]))
    (h.not_waiting (by simp [hpc])) ⟨some me, f, .exec⟩ rfl rfl ok

/-- The fiber registers; if that fails the call is over but for its timer. -/
lemma add_inv {st st' : St S F C} (h : Inv tickle fd so st) (hpc : st.pc = .add) {ans : Answer}
    (hs : go fd so me f st ans = some st') : Inv tickle fd so st' := by
  have hactive := h.active (by simp [hpc])
  have hcalls := h.calls (by simp [hpc])
  obtain ⟨w, b, hreg, hinv, hw⟩ := h.register hpc me f ans.ok
  simp only [go, hpc, hreg] at hs
  have hact : w.active = true := by
    rw [hw]
    exact hactive
  have hwaiting : w.waiting = b := by rw [hw]
  cases b with
  | true =>
    cases hs
    exact ⟨hinv, fun _ => hact, by simp [hwaiting], nofun, fun _ => hcalls, nofun, nofun⟩
  | false =>
    cases hs
    exact ⟨hinv, fun _ => hact, by simp [hwaiting], nofun, fun _ => hcalls, fun _ _ => rfl, nofun⟩

/-- **One statement of `do_io` keeps the invariant.** -/
lemma go_inv {st st' : St S F C} (h : Inv tickle fd so st) {ans : Answer}
    (hs : go fd so me f st ans = some st') : Inv tickle fd so st' := by
  cases hpc : st.pc with
  | call => exact call_inv h hpc hs
  | arm =>
    have hwait := h.not_waiting (by simp [hpc])
    simp only [go, hpc] at hs
    obtain ⟨w, hw, rfl⟩ := Option.map_eq_some_iff.mp hs
    obtain ⟨hact, hsame⟩ := arm_same hw
    exact { wait := arm_inv h.wait (h.timer (by rw [hpc]; rfl)) hw
            active := fun _ => hact.trans (h.active (by simp [hpc]))
            waiting := by simp [hsame, hwait]
            timer := by simp [Pc.noTimer]
            calls := fun _ => h.calls (by simp [hpc])
            failed := by simp
            result := by simp }
  | add => exact add_inv h hpc hs
  | failed errno =>
    obtain ⟨w, hw, hinv, hactive, hwait, hnone⟩ := h.cancelTimer (by simp [hpc]) (by simp [hpc])
    simp only [go, hpc, hw, Option.map_some, Option.some.injEq] at hs
    subst hs
    refine ⟨hinv, fun _ => hactive, by simp [hwait], fun _ => hnone,
      fun hret => absurd rfl (hret _), by simp, ?_⟩
    rintro r ⟨⟩
    exact .inr ⟨h.calls (by simp [hpc]), .inr ⟨rfl, h.failed errno hpc⟩⟩
  | wait =>
    simp only [go, hpc] at hs
    obtain ⟨w, hw, rfl⟩ := Option.map_eq_some_iff.mp hs
    have hinv := resume_inv h.wait hw
    obtain ⟨-, rfl⟩ := resume_eq_some.mp hw
    exact ⟨hinv, fun _ => h.active (by simp [hpc]), by simp, by simp [Pc.noTimer],
      fun _ => h.calls (by simp [hpc]), by simp, by simp⟩
  | back =>
    obtain ⟨w, hw, hinv, hactive, hwait, hnone⟩ := h.cancelTimer (by simp [hpc]) (by simp [hpc])
    simp only [go, hpc, hw, Option.map_some, Option.some.injEq] at hs
    subst hs
    exact ⟨hinv, fun _ => hactive, by simp [hwait], fun _ => hnone,
      fun _ => h.calls (by simp [hpc]), by simp, by simp⟩
  | check =>
    have hactive := h.active (by simp [hpc])
    have hwait := h.not_waiting (by simp [hpc])
    have hnone := h.timer (by rw [hpc]; rfl)
    have hcalls := h.calls (by simp [hpc])
    simp only [go, hpc, Option.some.injEq] at hs
    subst hs
    split
    · rename_i hc
      refine h.moves hactive hwait hnone (.ret ⟨-1, ETIMEDOUT⟩) st.calls (by simp) (by simp)
        (fun hret => absurd rfl (hret _)) ?_
      rintro r ⟨⟩
      exact .inr ⟨hcalls, .inl ⟨rfl, h.wait.cancelled_ran hc⟩⟩
    · exact h.moves hactive hwait hnone .call st.calls (by simp) (by simp) (fun _ => hcalls)
        (by simp)
  | outside => simp [go, hpc] at hs
  | ret r => simp [go, hpc] at hs

lemma step_inv (st : St S F C) (a : Action S F C) (st' : St S F C) (h : Inv tickle fd so st)
    (hs : step fd so me f st a = some st') : Inv tickle fd so st' := by
  cases a with
  | env e => exact env_step_inv h hs
  | enter ctx => exact enter_inv h hs
  | go ans => exact go_inv h hs

lemma start_inv (now : UInt64) (tickle fd : Fd) (so : TimeoutSo) :
    Inv tickle fd so (start now tickle : St S F C) where
  wait := TimedWait.start_inv now tickle fd (eventOf so)
  active := fun h => absurd rfl h
  waiting := by simp [start, TimedWait.start]
  timer := fun _ => rfl
  calls := nofun
  failed := nofun
  result := nofun

/-! ### The results -/

/-- The fiber has a next statement to execute: it is inside the call, and if it has yielded then it
was scheduled again. -/
def Runnable (st : St S F C) : Prop :=
  st.pc ≠ .outside ∧ (∀ r, st.pc ≠ .ret r) ∧ (st.pc = .wait → st.w.woken = true)

/-- The allocator does not give out the address of a timer in `timers_`. -/
def Fresh (st : St S F C) (ans : Answer) : Prop :=
  ∀ t ∈ st.w.timers.timers, (st.w.timers.heap t).addr ≠ ans.addr

/-- No statement stops the process: the assertions of `addEvent` hold and `timer->cancel()` finds
its timer. -/
lemma go_isSome {st : St S F C} (h : Inv tickle fd so st) (hrun : Runnable st) {ans : Answer}
    (hfresh : Fresh st ans) : (go fd so me f st ans).isSome := by
  obtain ⟨hout, hret, hwoken⟩ := hrun
  cases hpc : st.pc with
  | call =>
    simp only [go, hpc]
    split
    · rfl
    · split <;> rfl
  | arm =>
    simp only [go, hpc, Option.isSome_map]
    exact arm_isSome hfresh st.timeout ans.now
  | add =>
    obtain ⟨w, b, hreg, -⟩ := h.register hpc me f ans.ok
    simp only [go, hpc, hreg]
    cases b <;> rfl
  | failed errno =>
    obtain ⟨w, hw, -⟩ := cancelTimer_inv h.wait
    simp only [go, hpc, hw]
    rfl
  | wait =>
    simp only [go, hpc, Option.isSome_map]
    rw [resume_eq_some.mpr ⟨⟨h.waiting.mpr hpc, hwoken hpc⟩, rfl⟩]
    rfl
  | back =>
    obtain ⟨w, hw, -⟩ := cancelTimer_inv h.wait
    simp only [go, hpc, hw]
    rfl
  | check =>
    simp only [go, hpc]
    rfl
  | outside => exact absurd hpc hout
  | ret r => exact absurd hpc (hret r)

lemma returned {st : St S F C} (h : Inv tickle fd so st) {r : Res} (hpc : st.pc = .ret r) :
    Returned fd so st r where
  result := h.result r hpc
  timers := h.wait.timers_gone (h.timer (by rw [hpc]; rfl))
  ended := not_not.mp (h.not_registered (by simp [hpc]) (by simp [hpc]))

/-- **`do_io` looks like a blocking call**: for all results of the original function, all outcomes
of `addEvent` and all orders of what others do meanwhile, it returns the first result that is
neither an interruption nor `EAGAIN`, or a timeout of a timer of its own, or the failure of
`addEvent`; then its timers and its registration are gone. In between the fiber can always go on,
unless it has yielded and was not scheduled again. -/
theorem do_io_returns (now : UInt64) (tickle fd : Fd) (so : TimeoutSo) (me : S) (f : F)
    (as : List (Action S F C)) (st : St S F C)
    (hr : Runs.run (step fd so me f) (start now tickle) as = some st) :
    (∀ r, st.pc = .ret r → r.again = true → st.addFailed = true) ∧
    (∀ r, st.pc = .ret r → Returned fd so st r) ∧
    (Runnable st → ∀ ans, Fresh st ans → ∃ st', step fd so me f st (.go ans) = some st') := by
  have h : Inv tickle fd so st := Runs.run_inv step_inv (start_inv now tickle fd so) hr
  refine ⟨fun r hpc hagain => ?_, fun r hpc => returned h hpc, fun hrun ans hfresh => ?_⟩
  · rcases h.result r hpc with ⟨pre, -, hno, -⟩ | ⟨-, ⟨rfl, -⟩ | ⟨-, hfailed⟩⟩
    · rw [hno] at hagain
      cases hagain
    · exact absurd hagain (by decide)
    · exact hfailed
  · exact Option.isSome_iff_exists.mp (go_isSome h hrun hfresh)

/-- A `recv` with a timeout of 50 ms that is interrupted, has to wait twice, is woken once by a
`cancelAll` and once by the kernel, and then reads five bytes. -/
def twoWaits : List (Action ℕ ℕ ℕ) :=
  [.enter (some
      { fd := 7, isInit := true, isSocket := true, sysNonblock := true, recvTimeout := 50 }),
    .go ⟨⟨-1, EINTR⟩, true, 0, 10, 1⟩, .go ⟨⟨-1, EAGAIN⟩, true, 0, 10, 1⟩,
    .go ⟨⟨0, 0⟩, true, 0, 10, 1⟩, .go ⟨⟨0, 0⟩, true, 0, 10, 1⟩, .env (.io (.cancelAll 7 true)),
    .go ⟨⟨0, 0⟩, true, 0, 20, 1⟩, .go ⟨⟨0, 0⟩, true, 0, 20, 1⟩, .go ⟨⟨0, 0⟩, true, 0, 20, 1⟩,
    .go ⟨⟨-1, EAGAIN⟩, true, 0, 20, 2⟩, .go ⟨⟨0, 0⟩, true, 0, 20, 2⟩, .go ⟨⟨0, 0⟩, true, 0, 20, 2⟩,
    .env (.io (.dispatch 7 EPOLLIN true)), .go ⟨⟨0, 0⟩, true, 0, 30, 2⟩,
    .go ⟨⟨0, 0⟩, true, 0, 30, 2⟩, .go ⟨⟨0, 0⟩, true, 0, 30, 2⟩, .go ⟨⟨5, 0⟩, true, 0, 30, 2⟩]

theorem do_io_returns_twoWaits : ∃ st : St ℕ ℕ ℕ,
    Runs.run (step 7 .rcv 1 2) (start 0 5) twoWaits = some st ∧ st.pc = .ret ⟨5, 0⟩ ∧
      st.w.armed = [0, 1] ∧ Returned 7 .rcv st ⟨5, 0⟩ :=
  ⟨_, rfl, rfl, rfl, (do_io_returns 0 5 7 .rcv 1 2 twoWaits _ rfl).2.1 ⟨5, 0⟩ rfl⟩

end Sylar.DoIo
