import Sylar.DoIo

/-!
`connect_with_timeout` on a managed socket: what a return of 0 says.

After a `connect_f` that is in progress the fiber waits for `WRITE` and then looks at `SO_ERROR`.
The attempt itself belongs to the kernel and ends at any time. While it is in progress `SO_ERROR` is
0, so whoever brings the fiber to that point too early makes the call succeed.
-/

namespace Sylar.Connect

open Lib Sylar.FiberModel Sylar.IoModel Sylar.EventTable Sylar.EventOps Sylar.HookModel
open Sylar.TimedWait
open Sylar.DoIo (Res Answer ETIMEDOUT)

variable {S F C : Type}

def EINPROGRESS : ℤ := 115

/-- The connection attempt in the kernel. It ends with an error, which is 0 if the socket is
connected. -/
inductive Attempt
  | idle
  | inProgress
  | done (error : ℤ)
  deriving DecidableEq

def Attempt.soError : Attempt → ℤ
  | .done error => error
  | _ => 0

/-- Where the fiber is in `connect_with_timeout`. -/
inductive Pc
  | outside
  | call
  | arm
  | add
  | failed
  | wait
  | back
  | check
  | sockopt
  | ret (r : Res)
  deriving DecidableEq

structure St (S F C : Type) where
  w : Wait S F C
  pc : Pc := .outside
  timeout_ms : UInt64 := 0
  attempt : Attempt := .idle
  /-- `connect_f` has returned 0. -/
  direct : Bool := false

inductive Action (S F C : Type)
  | env (e : Env S F C)
  | complete (error : ℤ)
  | enter (ctx : FdCtx) (timeout_ms : UInt64)
  | go (ans : Answer)

/-- The kernel reports that the socket is writable, or an error of it, which counts as well. -/
def Writable (events : Mask) : Prop :=
  events &&& EPOLLOUT ≠ 0 ∨ events &&& (EPOLLERR ||| EPOLLHUP) ≠ 0

instance (events : Mask) : Decidable (Writable events) := inferInstanceAs (Decidable (_ ∨ _))

section

variable (fd : Fd) (me : S) (f : F)

/-- The next step of the fiber. `connect_f` returns 0 or -1. -/
def go (st : St S F C) (ans : Answer) : Option (St S F C) :=
  match st.pc with
  | .call =>
    if ans.res.n = 0 then some { st with pc := .ret ⟨0, ans.res.errno⟩, direct := true }
    else if ans.res.n ≠ -1 then none
    else if ans.res.errno ≠ EINPROGRESS then some { st with pc := .ret ans.res }
    else some { st with pc := .arm, attempt := .inProgress }
  | .arm => (st.w.arm st.timeout_ms ans.now ans.addr).map fun w => { st with w := w, pc := .add }
  | .add =>
    match st.w.register fd .write ⟨some me, f, .exec⟩ ans.ok with
    | some (w, true) => some { st with w := w, pc := .wait }
    | some (w, false) => some { st with w := w, pc := .failed }
    | none => none
  -- the error is logged, and then the code goes on with `SO_ERROR`
  | .failed => st.w.cancelTimer.map fun w => { st with w := w, pc := .sockopt }
  | .wait => st.w.resume.map fun w => { st with w := w, pc := .back }
  | .back => st.w.cancelTimer.map fun w => { st with w := w, pc := .check }
  | .check => some { st with pc := if st.w.cancelled then .ret ⟨-1, ETIMEDOUT⟩ else .sockopt }
  | .sockopt =>
    if ans.ok = false then some { st with pc := .ret ⟨-1, ans.errno⟩ }
    else if st.attempt.soError = 0 then some { st with pc := .ret ⟨0, ans.errno⟩ }
    else some { st with pc := .ret ⟨-1, st.attempt.soError⟩ }
  | .outside | .ret _ => none

/-- The call is made on a hooked thread for an open socket that the user has not made non-blocking.
Others may do anything meanwhile. A report for `fd` can be dispatched at any time, also one that
`idle` got before the attempt began; and where the registration of somebody else has taken the place
of the fiber's own, the end of that one counts as a wake-up too. Nothing is followed after the call
has returned. -/
def step (st : St S F C) : Action S F C → Option (St S F C)
  | .env e =>
    match st.pc with
    | .ret _ => none
    | _ => (st.w.env fd .write e).map fun w => { st with w := w }
  | .complete error =>
    match st.pc, st.attempt with
    | .ret _, _ => none
    | _, .inProgress => some { st with attempt := .done error }
    | _, _ => none
  | .enter ctx timeout_ms =>
    match st.pc with
    | .outside =>
      if ctx.isClosed = false ∧ ctx.isSocket = true ∧ ctx.userNonblock = false then
        some { st with pc := .call, timeout_ms := timeout_ms }
      else none
    | _ => none
  | .go ans => go fd me f st ans

end

def start (now : UInt64) (tickle : Fd) : St S F C := { w := TimedWait.start now tickle }

/-! ### What a return means, and when -/

/-- A return of 0 means that `connect_f` returned 0 or that the attempt has succeeded; every other
return is one of -1. -/
def Good (st : St S F C) : Prop :=
  ∀ r, st.pc = .ret r →
    (r.n = 0 ∧ (st.direct = true ∨ st.attempt = .done 0)) ∨ r.n = -1

/-- The attempt is over when `SO_ERROR` is read. -/
def Settled (st : St S F C) : Action S F C → Prop
  | .go ans => st.pc = .sockopt → ans.ok = true → st.attempt ≠ .inProgress
  | _ => True

/-- A call that ends the registration for `WRITE`. -/
def Ends (fd : Fd) : IoInv.Action S F C → Prop
  | .cancelEvent fd' event _ => fd' = fd ∧ event = .write
  | .cancelAll fd' _ => fd' = fd
  | .dispatch fd' events _ => fd' = fd ∧ Writable events
  | _ => False

/-- As long as the attempt is in progress, `addEvent` does not fail, nobody else cancels the wait,
and no stale report for the socket is dispatched. -/
def Undisturbed (fd : Fd) (me : S) (f : F) (st : St S F C) : Action S F C → Prop
  | .go ans => st.pc = .add → st.attempt = .inProgress →
      ∀ w, st.w.register fd .write ⟨some me, f, .exec⟩ ans.ok ≠ some (w, false)
  | .env (.io a) => st.attempt = .inProgress → st.w.waiting = true → st.w.woken = false →
      ¬ Ends fd a
  | _ => True

/-! ### Who wakes the fiber -/

lemma wakes_handoffs {fd fd' : Fd} {event : Event} {s : Slot S F C} {r w : Bool}
    (h : wakes fd event (handoffs fd' s r w) = true) :
    fd' = fd ∧ ((event = .read ∧ r = true) ∨ (event = .write ∧ w = true)) := by
  obtain ⟨x, hx, rfl, rfl⟩ : ∃ x ∈ handoffs fd' s r w, x.fd = fd ∧ x.event = event := by
    simpa [wakes] using h
  simp only [handoffs, List.mem_append] at hx
  rcases hx with hx | hx
  · split at hx
    · rename_i hr
      obtain ⟨y, -, rfl⟩ := List.mem_map.mp hx
      exact ⟨rfl, .inl ⟨rfl, hr⟩⟩
    · cases hx
  · split at hx
    · rename_i hw
      obtain ⟨y, -, rfl⟩ := List.mem_map.mp hx
      exact ⟨rfl, .inr ⟨rfl, hw⟩⟩
    · cases hx

/-- **Who can wake the fiber**: a call of `cancelEvent` or `cancelAll`, or a report of the kernel
that the socket is writable. -/
lemma wakes_cause {tickle fd : Fd} {T : Table S F C} (hq : Quiet tickle T)
    {a : IoInv.Action S F C} {out : Out S F C}
    (ho : IoInv.call (conc tickle T) a = .ok out) (hwake : wakes fd .write out.handoffs = true) :
    Ends fd a := by
  have hnil : ¬ wakes fd .write ([] : List (Handoff S F C)) = true := nofun
  cases a with
  | addEvent fd' event cb caller ok =>
    rw [IoInv.addEvent_handoffs ho] at hwake
    exact absurd hwake hnil
  | delEvent fd' event ok =>
    rw [IoInv.delEvent_handoffs ho] at hwake
    exact absurd hwake hnil
  | cancelEvent fd' event ok =>
    cases hw : (T fd').get event with
    | none =>
      rw [IoInv.call, cancelEvent_conc_none tickle hw] at ho
      cases ho
      exact absurd hwake hnil
    | some w =>
      rw [IoInv.call, cancelEvent_conc hq hw] at ho
      cases ok with
      | true =>
        cases ho
        simpa [wakes, handoff, Ends] using hwake
      | false =>
        cases ho
        exact absurd hwake hnil
  | cancelAll fd' ok =>
    rw [IoInv.call, cancelAll_conc hq] at ho
    split at ho
    · cases ho
      exact absurd hwake hnil
    · cases ok with
      | true =>
        cases ho
        exact (wakes_handoffs hwake).1
      | false =>
        cases ho
        exact absurd hwake hnil
  | dispatch fd' events ok =>
    rw [IoInv.call, dispatch_conc hq fd' events ok rfl rfl] at ho
    split at ho
    · cases ho
      exact absurd hwake hnil
    split at ho
    · cases ho
      exact absurd hwake hnil
    split at ho
    · cases ho
    · cases ho
      obtain ⟨rfl, ⟨hno, -⟩ | ⟨-, hwant⟩⟩ := wakes_handoffs hwake
      · cases hno
      · refine ⟨rfl, ?_⟩
        rcases of_decide_eq_true hwant with hout | ⟨herr, -⟩
        · exact .inl hout
        · exact .inr herr

/-! ### The invariant -/

/-- The attempt has begun and the call has not returned. -/
def Pc.begun : Pc → Bool
  | .outside | .call | .ret _ => false
  | _ => true

/-- The timer of the wait is out of scope. -/
def Pc.noTimer : Pc → Bool
  | .add | .failed | .wait | .back => false
  | _ => true

structure Inv (tickle fd : Fd) (st : St S F C) : Prop where
  wait : TimedWait.Inv tickle fd .write st.w
  waiting : st.w.waiting = true ↔ st.pc = .wait
  timer : st.pc.noTimer = true → st.w.timer = none
  begun : st.pc.begun = true → st.attempt ≠ .idle
  direct : (∀ r, st.pc ≠ .ret r) → st.direct = false

variable {tickle fd : Fd} {me : S} {f : F}

lemma Inv.not_waiting {st : St S F C} (h : Inv tickle fd st) (hpc : st.pc ≠ .wait) :
    st.w.waiting = false := by
  by_contra hne
  exact hpc (h.waiting.mp (by simpa using hne))

lemma env_step {st st' : St S F C} {e : Env S F C} (hs : step fd me f st (.env e) = some st') :
    (∀ r, st.pc ≠ .ret r) ∧ ∃ w, st.w.env fd .write e = some w ∧ st' = { st with w := w } := by
  simp only [step] at hs
  split at hs
  · cases hs
  · rename_i hret
    obtain ⟨w, hw, rfl⟩ := Option.map_eq_some_iff.mp hs
    exact ⟨hret, w, hw, rfl⟩

lemma complete_step {st st' : St S F C} {error : ℤ}
    (hs : step fd me f st (.complete error) = some st') :
    (∀ r, st.pc ≠ .ret r) ∧ st' = { st with attempt := .done error } := by
  simp only [step] at hs
  split at hs
  · cases hs
  · rename_i hret
    cases hs
    exact ⟨hret, rfl⟩
  · cases hs

lemma enter_step {st st' : St S F C} {ctx : FdCtx} {timeout_ms : UInt64}
    (hs : step fd me f st (.enter ctx timeout_ms) = some st') :
    st.pc = .outside ∧ st' = { st with pc := .call, timeout_ms := timeout_ms } := by
  simp only [step] at hs
  split at hs
  · rename_i hpc
    split at hs
    · cases hs
      exact ⟨hpc, rfl⟩
    · cases hs
  · cases hs

/-- A move to a place where the fiber neither waits nor has a timer. -/
lemma Inv.moves {st : St S F C} (h : Inv tickle fd st) (hwait : st.w.waiting = false)
    (hnone : st.w.timer = none) (pc : Pc) (hpc : pc ≠ .wait) {attempt : Attempt} {direct : Bool}
    (hbegun : pc.begun = true → attempt ≠ .idle)
    (hdirect : (∀ r, pc ≠ .ret r) → direct = false) :
    Inv tickle fd { st with pc := pc, attempt := attempt, direct := direct } where
  wait := h.wait
  waiting := by simp [hwait, hpc]
  timer := fun _ => hnone
  begun := hbegun
  direct := hdirect

/-- A return from a place where the fiber neither waits nor has a timer. -/
lemma Inv.returns {st : St S F C} (h : Inv tickle fd st) (hpc : st.pc ≠ .wait)
    (htimer : st.pc.noTimer = true) (r : Res) (direct : Bool) :
    Inv tickle fd { st with pc := .ret r, direct := direct } :=
  h.moves (h.not_waiting hpc) (h.timer htimer) (.ret r) (by simp) (by simp [Pc.begun])
    fun hret => absurd rfl (hret r)

/-- `addEvent` stops the process if somebody waits for `WRITE`. -/
lemma not_registered_of_register {w : Wait S F C} {caller : Caller S F} {ok : Bool}
    {r : Wait S F C × Bool} (hs : w.register fd .write caller ok = some r) :
    ¬ w.Registered fd .write := by
  intro hreg
  have hfault : w.io.addEvent fd .write none caller ok = .error .addEvent := by
    unfold IOManager.addEvent
    exact if_pos hreg
  simp only [Wait.register, hfault] at hs
  cases hs

lemma Inv.register {st : St S F C} (h : Inv tickle fd st) (hwait : st.w.waiting = false) {ok : Bool}
    {w : Wait S F C} {b : Bool}
    (hs : st.w.register fd .write ⟨some me, f, .exec⟩ ok = some (w, b)) :
    TimedWait.Inv tickle fd .write w ∧ w = { st.w with io := w.io, waiting := b } := by
  have hreg := not_registered_of_register hs
  obtain ⟨w', b', hs', hinv, hw⟩ :=
    register_inv h.wait nofun hreg hwait ⟨some me, f, .exec⟩ rfl rfl ok
  cases hs.symm.trans hs'
  exact ⟨hinv, hw⟩

/-- The fiber registers for `WRITE`, or goes on to `SO_ERROR` if that fails. -/
lemma add_inv {st st' : St S F C} (h : Inv tickle fd st) (hpc : st.pc = .add) {ans : Answer}
    (hs : go fd me f st ans = some st') : Inv tickle fd st' := by
  have hwait := h.not_waiting (by simp [hpc])
  have hbegun := h.begun (by rw [hpc]; rfl)
  have hdirect := h.direct (by simp [hpc])
  simp only [go, hpc] at hs
  split at hs
  · rename_i w hreg
    cases hs
    obtain ⟨hinv, hw⟩ := h.register hwait hreg
    exact ⟨hinv, by rw [hw]; simp, nofun, fun _ => hbegun, fun _ => hdirect⟩
  · rename_i w hreg
    cases hs
    obtain ⟨hinv, hw⟩ := h.register hwait hreg
    exact ⟨hinv, by rw [hw]; simp, nofun, fun _ => hbegun, fun _ => hdirect⟩
  · cases hs

lemma cancel_inv {st : St S F C} (h : Inv tickle fd st) (hwait : st.w.waiting = false)
    (hbegun : st.attempt ≠ .idle) (hdirect : st.direct = false) (pc : Pc) (hpc : pc ≠ .wait) :
    ∃ w, st.w.cancelTimer = some w ∧ Inv tickle fd { st with w := w, pc := pc } := by
  obtain ⟨w, hw, hinv, hrec⟩ := cancelTimer_inv h.wait
  refine ⟨w, hw, hinv, ?_, fun _ => ?_, fun _ => hbegun, fun _ => hdirect⟩
  · rw [hrec]
    simp [hwait, hpc]
  · rw [hrec]

/-- **One statement of `connect_with_timeout` keeps the invariant.** -/
lemma go_inv {st st' : St S F C} (h : Inv tickle fd st) {ans : Answer}
    (hs : go fd me f st ans = some st') : Inv tickle fd st' := by
  cases hpc : st.pc with
  | call =>
    have hwait := h.not_waiting (by simp [hpc])
    have hnone := h.timer (by rw [hpc]; rfl)
    have hdirect := h.direct (by simp [hpc])
    simp only [go, hpc] at hs
    split at hs
    · cases hs
      exact h.returns (by simp [hpc]) (by rw [hpc]; rfl) _ _
    split at hs
    · cases hs
    split at hs
    · cases hs
      exact h.returns (by simp [hpc]) (by rw [hpc]; rfl) _ _
    · cases hs
      exact h.moves hwait hnone .arm (by simp) (by simp) fun _ => hdirect
  | arm =>
    have hwait := h.not_waiting (by simp [hpc])
    simp only [go, hpc] at hs
    obtain ⟨w, hw, rfl⟩ := Option.map_eq_some_iff.mp hs
    obtain ⟨-, hsame⟩ := arm_same hw
    exact { wait := arm_inv h.wait (h.timer (by rw [hpc]; rfl)) hw
            waiting := by simp [hsame, hwait]
            timer := by simp [Pc.noTimer]
            begun := fun _ => h.begun (by rw [hpc]; rfl)
            direct := fun _ => h.direct (by simp [hpc]) }
  | add => exact add_inv h hpc hs
  | failed =>
    obtain ⟨w, hw, hinv⟩ := cancel_inv h (h.not_waiting (by simp [hpc]))
      (h.begun (by rw [hpc]; rfl)) (h.direct (by simp [hpc])) .sockopt (by simp)
    simp only [go, hpc, hw, Option.map_some, Option.some.injEq] at hs
    subst hs
    exact hinv
  | wait =>
    simp only [go, hpc] at hs
    obtain ⟨w, hw, rfl⟩ := Option.map_eq_some_iff.mp hs
    have hinv := resume_inv h.wait hw
    obtain ⟨-, rfl⟩ := resume_eq_some.mp hw
    exact ⟨hinv, by simp, by simp [Pc.noTimer], fun _ => h.begun (by rw [hpc]; rfl),
      fun _ => h.direct (by simp [hpc])⟩
  | back =>
    obtain ⟨w, hw, hinv⟩ := cancel_inv h (h.not_waiting (by simp [hpc]))
      (h.begun (by rw [hpc]; rfl)) (h.direct (by simp [hpc])) .check (by simp)
    simp only [go, hpc, hw, Option.map_some, Option.some.injEq] at hs
    subst hs
    exact hinv
  | check =>
    have hwait := h.not_waiting (by simp [hpc])
    have hnone := h.timer (by rw [hpc]; rfl)
    simp only [go, hpc, Option.some.injEq] at hs
    subst hs
    split
    · exact h.returns (by simp [hpc]) (by rw [hpc]; rfl) _ _
    · exact h.moves hwait hnone .sockopt (by simp) (fun _ => h.begun (by rw [hpc]; rfl))
        fun _ => h.direct (by simp [hpc])
  | sockopt =>
    have hmove (r : Res) : Inv tickle fd { st with pc := .ret r } :=
      h.returns (by simp [hpc]) (by rw [hpc]; rfl) r st.direct
    simp only [go, hpc] at hs
    split at hs
    · cases hs
      exact hmove _
    split at hs
    · cases hs
      exact hmove _
    · cases hs
      exact hmove _
  | outside => simp [go, hpc] at hs
  | ret r => simp [go, hpc] at hs

lemma step_inv (st : St S F C) (a : Action S F C) (st' : St S F C) (h : Inv tickle fd st)
    (hs : step fd me f st a = some st') : Inv tickle fd st' := by
  cases a with
  | env e =>
    obtain ⟨-, w, hw, rfl⟩ := env_step hs
    have hsame := env_same hw
    exact { wait := env_inv h.wait hw
            waiting := by rw [hsame.waiting]; exact h.waiting
            timer := fun hpc => hsame.timer.trans (h.timer hpc)
            begun := h.begun
            direct := h.direct }
  | complete error =>
    obtain ⟨-, rfl⟩ := complete_step hs
    exact ⟨h.wait, h.waiting, h.timer, fun _ => nofun, h.direct⟩
  | enter ctx timeout_ms =>
    obtain ⟨hpc, rfl⟩ := enter_step hs
    have hwait := h.not_waiting (by simp [hpc])
    exact ⟨h.wait, by simp [hwait], fun _ => h.timer (by rw [hpc]; rfl), nofun,
      fun _ => h.direct (by simp [hpc])⟩
  | go ans => exact go_inv h hs

lemma start_inv (now : UInt64) (tickle fd : Fd) :
    Inv tickle fd (start now tickle : St S F C) where
  wait := TimedWait.start_inv now tickle fd .write
  waiting := by simp [start, TimedWait.start]
  timer := fun _ => rfl
  begun := nofun
  direct := fun _ => rfl

/-! ### The exact condition -/

lemma good_of_not_ret {st : St S F C} (h : ∀ r, st.pc ≠ .ret r) : Good st :=
  fun r hpc => absurd hpc (h r)

lemma good_of_map {st st' : St S F C} {pc : Pc} {o : Option (Wait S F C)} (hpc : ∀ r, pc ≠ .ret r)
    (hs : o.map (fun w => { st with w := w, pc := pc }) = some st') : Good st' := by
  obtain ⟨w, -, rfl⟩ := Option.map_eq_some_iff.mp hs
  exact good_of_not_ret hpc

lemma go_good {st st' : St S F C} {ans : Answer} (hpc : st.pc ≠ .sockopt)
    (hs : go fd me f st ans = some st') : Good st' := by
  cases heq : st.pc with
  | call =>
    simp only [go, heq] at hs
    split at hs
    · cases hs
      rintro r ⟨⟩
      exact .inl ⟨rfl, .inl rfl⟩
    split at hs
    · cases hs
    rename_i hn
    split at hs
    · cases hs
      rintro r ⟨⟩
      exact .inr (not_not.mp hn)
    · cases hs
      exact good_of_not_ret nofun
  | check =>
    simp only [go, heq, Option.some.injEq] at hs
    subst hs
    split
    · rintro r ⟨⟩
      exact .inr rfl
    · exact good_of_not_ret nofun
  | add =>
    simp only [go, heq] at hs
    split at hs
    · cases hs
      exact good_of_not_ret nofun
    · cases hs
      exact good_of_not_ret nofun
    · cases hs
  | arm =>
    simp only [go, heq] at hs
    exact good_of_map (by simp) hs
  | failed =>
    simp only [go, heq] at hs
    exact good_of_map (by simp) hs
  | wait =>
    simp only [go, heq] at hs
    exact good_of_map (by simp) hs
  | back =>
    simp only [go, heq] at hs
    exact good_of_map (by simp) hs
  | sockopt => exact absurd heq hpc
  | outside => simp [go, heq] at hs
  | ret r => simp [go, heq] at hs

lemma sockopt_good_iff {st st' : St S F C} (h : Inv tickle fd st) {ans : Answer}
    (hpc : st.pc = .sockopt) (hs : go fd me f st ans = some st') :
    Good st' ↔ (ans.ok = true → st.attempt ≠ .inProgress) := by
  have hidle := h.begun (by rw [hpc]; rfl)
  have hdirect := h.direct (by simp [hpc])
  simp only [go, hpc] at hs
  split at hs
  · rename_i hok
    cases hs
    refine ⟨fun _ h => absurd (hok.symm.trans h) nofun, fun _ => ?_⟩
    rintro r ⟨⟩
    exact .inr rfl
  rename_i hok
  split at hs
  · rename_i herror
    cases hs
    cases hattempt : st.attempt with
    | idle => exact absurd hattempt hidle
    | inProgress =>
      refine ⟨fun hgood => ?_, fun h => absurd rfl (h (by simpa using hok))⟩
      rcases hgood _ rfl with ⟨-, htrue | hdone⟩ | hn
      · exact absurd (hdirect.symm.trans htrue) nofun
      · cases hdone
      · cases hn
    | done error =>
      rw [hattempt] at herror
      refine ⟨fun _ _ => nofun, fun _ => ?_⟩
      rintro r ⟨⟩
      exact .inl ⟨rfl, .inr (congrArg Attempt.done herror)⟩
  · rename_i herror
    cases hs
    refine ⟨fun _ _ hprog => herror (by rw [hprog]; rfl), fun _ => ?_⟩
    rintro r ⟨⟩
    exact .inr rfl

/-- A step is good exactly when it does not read `SO_ERROR` too early. -/
lemma step_good_iff (st : St S F C) (a : Action S F C) (st' : St S F C) (h : Inv tickle fd st)
    (hs : step fd me f st a = some st') : Good st' ↔ Settled st a := by
  cases a with
  | env e =>
    obtain ⟨hret, -, w, -, rfl⟩ := env_step hs
    exact ⟨fun _ => trivial, fun _ => good_of_not_ret hret⟩
  | complete error =>
    obtain ⟨hret, rfl⟩ := complete_step hs
    exact ⟨fun _ => trivial, fun _ => good_of_not_ret hret⟩
  | enter ctx timeout_ms =>
    obtain ⟨-, rfl⟩ := enter_step hs
    exact ⟨fun _ => trivial, fun _ => good_of_not_ret nofun⟩
  | go ans =>
    by_cases hpc : st.pc = .sockopt
    · rw [sockopt_good_iff h hpc hs]
      exact ⟨fun hok _ => hok, fun hset => hset hpc⟩
    · exact ⟨fun _ heq => absurd heq hpc, fun _ => go_good hpc hs⟩

/-! ### Where the condition comes from -/

/-- The attempt is over, or the timer of the call has said that it takes too long. -/
def Over (st : St S F C) : Prop := st.attempt ≠ .inProgress ∨ st.w.cancelled = true

/-- Wherever the fiber is past its wait, the attempt is over or the call will time out. -/
structure Calm (st : St S F C) : Prop where
  cancelling : st.w.cancelling ≠ [] → st.w.cancelled = true
  woken : st.w.woken = true → Over st
  back : st.pc = .back ∨ st.pc = .check → Over st
  sockopt : st.pc = .failed ∨ st.pc = .sockopt → st.attempt ≠ .inProgress

/-- A call that wakes the fiber is one of those that can. -/
lemma ioCall_woken {w w' : Wait S F C} (h : IoInv.Kept tickle w.io) {a : IoInv.Action S F C}
    (hs : w.ioCall fd .write a = some w') (hwoken : w'.woken = true) :
    w.woken = true ∨ (w.waiting = true ∧ Ends fd a) := by
  obtain ⟨out, -, hout, rfl⟩ := ioCall_cases hs
  rcases (Bool.or_eq_true _ _).mp hwoken with hw | hw
  · exact .inl hw
  · obtain ⟨hwait, hwake⟩ := (Bool.and_eq_true _ _).mp hw
    obtain ⟨T, hq, hT⟩ := h
    rw [hT] at hout
    exact .inr ⟨hwait, wakes_cause hq hout hwake⟩

/-- What a step of others does to the flags: `cancelled` is set before `cancelEvent` is called, and
it stays; and only that call and those of others on the event table wake the fiber. -/
structure Flags (fd : Fd) (w w' : Wait S F C) (e : Env S F C) : Prop where
  cancelled : w.cancelled = true → w'.cancelled = true
  cancelling : w'.cancelling ≠ [] → w'.cancelled = true
  woken : w'.woken = true → w.woken = true ∨ w'.cancelled = true ∨
    ∃ a, e = .io a ∧ w.waiting = true ∧ Ends fd a

lemma env_flags {w w' : Wait S F C} (h : IoInv.Kept tickle w.io) {e : Env S F C}
    (hc : w.cancelling ≠ [] → w.cancelled = true) (hs : w.env fd .write e = some w') :
    Flags fd w w' e := by
  obtain ⟨a, rfl, -, hs⟩ | ⟨a, m, -, -, -, rfl⟩ | ⟨now, addr, -, rfl⟩ | ⟨k, -, -, rfl⟩ |
    ⟨k, -, -, rfl⟩ | ⟨k, ok, -, hk, hs⟩ := env_cases hs
  · have hwakes := ioCall_woken h hs
    obtain ⟨out, -, -, rfl⟩ := ioCall_cases hs
    refine ⟨fun hx => hx, hc, fun hwoken => ?_⟩
    rcases hwakes hwoken with hw | hcause
    · exact .inl hw
    · exact .inr (.inr ⟨a, rfl, hcause⟩)
  · exact ⟨fun hx => hx, hc, .inl⟩
  · exact ⟨fun hx => hx, hc, .inl⟩
  · exact ⟨fun hx => hx, hc, .inl⟩
  · exact ⟨fun _ => rfl, fun _ => rfl, .inl⟩
  · have hflag := hc (List.ne_nil_of_mem hk)
    obtain ⟨out, -, -, rfl⟩ := ioCall_cases hs
    exact ⟨fun _ => hflag, fun _ => hflag, fun _ => .inr (.inl hflag)⟩

/-- Nobody else brings the fiber back while the attempt is in progress. -/
lemma env_calm {st st' : St S F C} (h : Inv tickle fd st) (hcalm : Calm st) {e : Env S F C}
    (hund : Undisturbed fd me f st (.env e)) (hs : step fd me f st (.env e) = some st') :
    Calm st' := by
  obtain ⟨-, w, hw, rfl⟩ := env_step hs
  have hflags := env_flags h.wait.kept hcalm.cancelling hw
  have hover (ho : Over st) : Over { st with w := w } := ho.imp_right hflags.cancelled
  refine ⟨hflags.cancelling, fun hwoken => ?_, fun hpc => hover (hcalm.back hpc), hcalm.sockopt⟩
  by_cases hold : st.w.woken = true
  · exact hover (hcalm.woken hold)
  rcases hflags.woken hwoken with hwk | hc | ⟨a, rfl, hwait, hcause⟩
  · exact absurd hwk hold
  · exact .inr hc
  · exact .inl fun hprog => hund hprog hwait (by simpa using hold) hcause

/-- What the statements of the fiber leave alone. -/
structure Keeps (w w' : Wait S F C) : Prop where
  cancelled : w'.cancelled = w.cancelled
  cancelling : w'.cancelling = w.cancelling
  woken : w'.woken = true → w.woken = true

lemma Keeps.refl (w : Wait S F C) : Keeps w w := ⟨rfl, rfl, fun h => h⟩

lemma arm_keeps {w w' : Wait S F C} {timeout now : UInt64} {addr : ℕ}
    (hs : w.arm timeout now addr = some w') : Keeps w w' := by
  unfold Wait.arm at hs
  split at hs
  · cases hs
    exact Keeps.refl w
  · split at hs
    · cases hs
      exact ⟨rfl, rfl, fun h => h⟩
    · cases hs

lemma resume_keeps {w w' : Wait S F C} (hs : w.resume = some w') : w.woken = true ∧ Keeps w w' := by
  obtain ⟨⟨-, hwoken⟩, rfl⟩ := resume_eq_some.mp hs
  exact ⟨hwoken, rfl, rfl, by simp⟩

/-- A statement that neither waits nor looks at `SO_ERROR`. -/
lemma Calm.moves {st : St S F C} (h : Calm st) {w : Wait S F C} (hkeeps : Keeps st.w w) (pc : Pc)
    (hback : pc = .back ∨ pc = .check → Over st)
    (hsockopt : pc = .failed ∨ pc = .sockopt → st.attempt ≠ .inProgress) :
    Calm { st with w := w, pc := pc } := by
  have hover (ho : Over st) : Over { st with w := w, pc := pc } :=
    ho.imp_right hkeeps.cancelled.trans
  refine ⟨?_, fun hwoken => hover (h.woken (hkeeps.woken hwoken)),
    fun hpc => hover (hback hpc), hsockopt⟩
  show w.cancelling ≠ [] → w.cancelled = true
  rw [hkeeps.cancelled, hkeeps.cancelling]
  exact h.cancelling

lemma Inv.register_keeps {st : St S F C} (h : Inv tickle fd st) (hwait : st.w.waiting = false)
    {ok : Bool} {w : Wait S F C} {b : Bool}
    (hs : st.w.register fd .write ⟨some me, f, .exec⟩ ok = some (w, b)) : Keeps st.w w := by
  rw [(h.register hwait hs).2]
  exact ⟨rfl, rfl, fun hwoken => hwoken⟩

lemma Inv.cancelTimer_keeps {st : St S F C} (h : Inv tickle fd st) {w : Wait S F C}
    (hs : st.w.cancelTimer = some w) : Keeps st.w w := by
  obtain ⟨w', hs', -, hrec⟩ := cancelTimer_inv h.wait
  cases hs.symm.trans hs'
  rw [hrec]
  exact ⟨rfl, rfl, fun hwoken => hwoken⟩

/-- The fiber comes to `SO_ERROR` only when the attempt is over. -/
lemma go_calm {st st' : St S F C} (h : Inv tickle fd st) (hcalm : Calm st) {ans : Answer}
    (hund : Undisturbed fd me f st (.go ans)) (hs : go fd me f st ans = some st') : Calm st' := by
  cases hpc : st.pc with
  | call =>
    have hawake : ¬ st.w.woken = true := fun hwoken =>
      absurd (h.waiting.mp (h.wait.awake hwoken)) (by simp [hpc])
    simp only [go, hpc] at hs
    split at hs
    · cases hs
      exact ⟨hcalm.cancelling, hcalm.woken, by simp, by simp⟩
    split at hs
    · cases hs
    split at hs
    · cases hs
      exact ⟨hcalm.cancelling, hcalm.woken, by simp, by simp⟩
    · cases hs
      exact ⟨hcalm.cancelling, fun hwoken => absurd hwoken hawake, by simp, by simp⟩
  | arm =>
    simp only [go, hpc] at hs
    obtain ⟨w, hw, rfl⟩ := Option.map_eq_some_iff.mp hs
    exact hcalm.moves (arm_keeps hw) .add (by simp) (by simp)
  | add =>
    have hwait := h.not_waiting (by simp [hpc])
    simp only [go, hpc] at hs
    split at hs
    · rename_i w hreg
      cases hs
      exact hcalm.moves (h.register_keeps hwait hreg) .wait (by simp) (by simp)
    · rename_i w hreg
      cases hs
      have hdone : st.attempt ≠ .inProgress := fun hprog => hund hpc hprog w hreg
      exact hcalm.moves (h.register_keeps hwait hreg) .failed (by simp) fun _ => hdone
    · cases hs
  | failed =>
    simp only [go, hpc] at hs
    obtain ⟨w, hw, rfl⟩ := Option.map_eq_some_iff.mp hs
    exact hcalm.moves (h.cancelTimer_keeps hw) .sockopt (by simp) fun _ => hcalm.sockopt (.inl hpc)
  | wait =>
    simp only [go, hpc] at hs
    obtain ⟨w, hw, rfl⟩ := Option.map_eq_some_iff.mp hs
    obtain ⟨hwoken, hkeeps⟩ := resume_keeps hw
    exact hcalm.moves hkeeps .back (fun _ => hcalm.woken hwoken) (by simp)
  | back =>
    simp only [go, hpc] at hs
    obtain ⟨w, hw, rfl⟩ := Option.map_eq_some_iff.mp hs
    exact hcalm.moves (h.cancelTimer_keeps hw) .check (fun _ => hcalm.back (.inl hpc)) (by simp)
  | check =>
    simp only [go, hpc, Option.some.injEq] at hs
    subst hs
    split
    · exact hcalm.moves (Keeps.refl st.w) (.ret _) (by simp) (by simp)
    · rename_i hno
      -- the timer has not spoken, so it was the attempt that ended
      exact hcalm.moves (Keeps.refl st.w) .sockopt (by simp)
        fun _ => (hcalm.back (.inr hpc)).resolve_right hno
  | sockopt =>
    simp only [go, hpc] at hs
    split at hs
    · cases hs
      exact hcalm.moves (Keeps.refl st.w) (.ret _) (by simp) (by simp)
    split at hs
    · cases hs
      exact hcalm.moves (Keeps.refl st.w) (.ret _) (by simp) (by simp)
    · cases hs
      exact hcalm.moves (Keeps.refl st.w) (.ret _) (by simp) (by simp)
  | outside => simp [go, hpc] at hs
  | ret r => simp [go, hpc] at hs

lemma step_calm (st : St S F C) (a : Action S F C) (st' : St S F C)
    (h : Inv tickle fd st ∧ Calm st) (hund : Undisturbed fd me f st a)
    (hs : step fd me f st a = some st') : Inv tickle fd st' ∧ Calm st' := by
  refine ⟨step_inv st a st' h.1 hs, ?_⟩
  cases a with
  | env e => exact env_calm h.1 h.2 hund hs
  | complete error =>
    obtain ⟨-, rfl⟩ := complete_step hs
    exact ⟨h.2.cancelling, fun _ => .inl nofun, fun _ => .inl nofun, fun _ => nofun⟩
  | enter ctx timeout_ms =>
    obtain ⟨-, rfl⟩ := enter_step hs
    exact ⟨h.2.cancelling, h.2.woken, by simp, by simp⟩
  | go ans => exact go_calm h.1 h.2 hund hs

lemma start_calm (now : UInt64) (tickle : Fd) : Calm (start now tickle : St S F C) where
  cancelling := fun h => absurd rfl h
  woken := nofun
  back := by simp [start]
  sockopt := by simp [start]

/-! ### The results -/

def Runnable (st : St S F C) : Prop :=
  st.pc ≠ .outside ∧ (∀ r, st.pc ≠ .ret r) ∧ (st.pc = .wait → st.w.woken = true)

/-- What comes from outside is in order: `connect_f` returns 0 or -1, the allocator does not give
out the address of a timer in `timers_`, and nobody else waits for `WRITE` when the fiber
registers. -/
structure Possible (fd : Fd) (st : St S F C) (ans : Answer) : Prop where
  result : ans.res.n = 0 ∨ ans.res.n = -1
  fresh : ∀ t ∈ st.w.timers.timers, (st.w.timers.heap t).addr ≠ ans.addr
  free : st.pc = .add → ¬ st.w.Registered fd .write

lemma go_isSome {st : St S F C} (h : Inv tickle fd st) (hrun : Runnable st) {ans : Answer}
    (hans : Possible fd st ans) : (go fd me f st ans).isSome := by
  obtain ⟨hout, hret, hwoken⟩ := hrun
  cases hpc : st.pc with
  | call =>
    simp only [go, hpc]
    split
    · rfl
    rename_i hn
    rw [if_neg (not_not.mpr (hans.result.resolve_left hn))]
    split <;> rfl
  | arm =>
    simp only [go, hpc, Option.isSome_map]
    exact arm_isSome hans.fresh st.timeout_ms ans.now
  | add =>
    obtain ⟨w, b, hreg, -⟩ := register_inv h.wait nofun (hans.free hpc)
      (h.not_waiting (by simp [hpc])) ⟨some me, f, .exec⟩ rfl rfl ans.ok
    simp only [go, hpc, hreg]
    cases b <;> rfl
  | failed =>
    obtain ⟨w, hw, -⟩ := cancelTimer_inv h.wait
    simp only [go, hpc, hw]
    rfl
  | wait =>
    simp only [go, hpc, Option.isSome_map]
    rw [resume_eq_some.mpr ⟨⟨h.waiting.mpr hpc, hwoken hpc⟩, rfl⟩]
    rfl
  | back =>
    obtain ⟨w, hw, -⟩ := cancelTimer_inv h.wait
    simp only [go, hpc, hw]
    rfl
  | check =>
    simp only [go, hpc]
    rfl
  | sockopt =>
    simp only [go, hpc]
    split
    · rfl
    · split <;> rfl
  | outside => exact absurd hpc hout
  | ret r => exact absurd hpc (hret r)

/-- **When a return of 0 means connected**: exactly in the runs in which the attempt is over
whenever `SO_ERROR` is read; so in all those in which, while the attempt is in progress, `addEvent`
does not fail, nobody else cancels the wait and no stale report wakes the fiber. In between the
fiber can always go on. -/
theorem connect_zero_means_connected (now : UInt64) (tickle fd : Fd) (me : S) (f : F)
    (as : List (Action S F C)) (st : St S F C)
    (hr : Runs.run (step fd me f) (start now tickle) as = some st) :
    (Runs.Always (step fd me f) Good (start now tickle) as ↔
      Runs.Meets (step fd me f) Settled (start now tickle) as) ∧
    (Runs.Meets (step fd me f) (Undisturbed fd me f) (start now tickle) as →
      Runs.Always (step fd me f) Good (start now tickle) as) ∧
    (Runnable st → ∀ ans, Possible fd st ans →
      ∃ st', step fd me f st (.go ans) = some st') := by
  have h0 : Inv tickle fd (start now tickle : St S F C) := start_inv now tickle fd
  have hiff : Runs.Always (step fd me f) Good (start now tickle) as ↔
      Runs.Meets (step fd me f) Settled (start now tickle) as :=
    Runs.always_iff_meets (fun s a s' h _ _ hs => step_inv s a s' h hs)
      (fun s a s' h _ hs => step_good_iff s a s' h hs) h0 (good_of_not_ret nofun) hr
  refine ⟨hiff, fun hund => hiff.mpr (Runs.meets_iff_split.mpr ?_), fun hrun ans hans => ?_⟩
  · rintro pre a post m rfl hpre
    obtain ⟨-, hcalm⟩ := Runs.run_inv_of_meets (I := fun s => Inv tickle fd s ∧ Calm s) step_calm
      ⟨h0, start_calm now tickle⟩ (Runs.meets_append hund hpre).1 hpre
    cases a with
    | go ans => exact fun hpc _ => hcalm.sockopt (.inr hpc)
    | env e => trivial
    | complete error => trivial
    | enter ctx timeout_ms => trivial
  · have h := Runs.run_inv (I := Inv tickle fd) step_inv h0 hr
    exact Option.isSome_iff_exists.mp (go_isSome h hrun hans)

/-- A `connect` with a timeout of 50 ms that waits until `wake` happens. -/
def oneWait (wake : List (Action ℕ ℕ ℕ)) : List (Action ℕ ℕ ℕ) :=
  [.enter { fd := 7, isInit := true, isSocket := true, sysNonblock := true } 50,
    .go ⟨⟨-1, EINPROGRESS⟩, true, 0, 10, 1⟩, .go ⟨⟨0, 0⟩, true, 0, 10, 1⟩,
    .go ⟨⟨0, 0⟩, true, 0, 10, 1⟩] ++ wake ++
  [.go ⟨⟨0, 0⟩, true, 0, 20, 1⟩, .go ⟨⟨0, 0⟩, true, 0, 20, 1⟩, .go ⟨⟨0, 0⟩, true, 0, 20, 1⟩,
    .go ⟨⟨0, 0⟩, true, 0, 20, 1⟩]

/-- The attempt succeeds, the kernel reports it, and the call returns 0. -/
theorem connect_zero_means_connected_once :
    (∃ st : St ℕ ℕ ℕ, Runs.run (step 7 1 2) (start 0 5)
      (oneWait [.complete 0, .env (.io (.dispatch 7 EPOLLOUT true))]) = some st ∧
        st.pc = .ret ⟨0, 0⟩) ∧
    Runs.Always (step 7 1 2) Good (start 0 5)
      (oneWait [.complete 0, .env (.io (.dispatch 7 EPOLLOUT true))]) := by
  refine ⟨⟨_, rfl, rfl⟩, (connect_zero_means_connected 0 5 7 1 2 _ _ rfl).2.1 ?_⟩
  refine Runs.meets_cons trivial rfl (Runs.meets_cons nofun rfl (Runs.meets_cons nofun rfl ?_))
  -- `addEvent` succeeds
  refine Runs.meets_cons (fun _ _ w hs => ?_) rfl ?_
  · have hret : some false = some true := (congrArg (Option.map Prod.snd) hs).symm
    cases hret
  refine Runs.meets_cons trivial rfl (Runs.meets_cons nofun rfl ?_)
  exact Runs.meets_cons nofun rfl (Runs.meets_cons nofun rfl (Runs.meets_cons nofun rfl
    (Runs.meets_cons nofun rfl trivial)))

/-- Another fiber calls `cancelAll` while the attempt is in progress, and the call returns 0. -/
theorem connect_cancelled_returns_zero :
    ¬ Runs.Always (step 7 1 2) Good (start 0 5 : St ℕ ℕ ℕ)
      (oneWait [.env (.io (.cancelAll 7 true))]) := by
  intro h
  rcases h _ [] _ (List.append_nil _).symm rfl ⟨0, 0⟩ rfl with ⟨-, hzero | hdone⟩ | hn
  · cases hzero
  · cases hdone
  · cases hn

end Sylar.Connect
