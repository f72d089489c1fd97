import Sylar.Waiters
import Sylar.TimerExpiry

/-!
How a hooked function waits: a timer with a condition, a registration, and `YieldToHold`.

`do_io` and `connect_with_timeout` wait in the same way. They arm a timer whose callback sets
`cancelled` in a `timer_info` and cancels the registration, register the fiber for the event, and
yield. The fiber comes back when its registration is ended, which the dispatch of the event, a
`cancelEvent` or `cancelAll` of anybody and the callback of the timer can all do. The parts of a
callback are steps of their own, so that anything can happen between them; a callback that was
collected before its timer is cancelled still runs.
-/

namespace Sylar.TimedWait

open Lib Sylar.FiberModel Sylar.IoModel Sylar.EventTable Sylar.EventOps Sylar.TimerModel
open TimerManager

variable {S F C : Type}

/-- A callback of a timer: that of the `k`-th timer which the waiting call arms, or another. -/
inductive Cb (C : Type)
  | expire (k : ℕ)
  | other (c : C)

structure Wait (S F C : Type) where
  io : IOManager S F C
  timers : TimerManager (Cb C)
  /-- The call has begun. -/
  active : Bool := false
  /-- The timer of the current wait, as long as it is in scope. -/
  timer : Option ℕ := none
  /-- `tinfo->cancelled` is `ETIMEDOUT`. -/
  cancelled : Bool := false
  /-- The fiber has registered and has not come back yet. -/
  waiting : Bool := false
  /-- The registration was ended by a call of `schedule`. -/
  woken : Bool := false
  /-- The callbacks that were collected and have still to run. -/
  due : List ℕ := []
  /-- The callbacks that have found `cancelled` unset and have still to set it. -/
  passed : List ℕ := []
  /-- The callbacks that have still to call `cancelEvent`. -/
  cancelling : List ℕ := []
  /-- The timers that the call has armed. -/
  armed : List ℕ := []
  /-- The callbacks of the call that have run. -/
  ran : List ℕ := []

/-- What others do: calls on the event table, calls on timers, the collection of the expired
timers, and the three parts of a callback. -/
inductive Env (S F C : Type)
  | io (a : IoInv.Action S F C)
  | timers (a : TimerInv.Action (Cb C))
  | expire (now : UInt64) (addr : ℕ)
  | fire (k : ℕ)
  | setCancelled (k : ℕ)
  | cancelEvent (k : ℕ) (ok : Bool)

/-- The call does not register anybody for the event. -/
def foreign (fd : Fd) (event : Event) : IoInv.Action S F C → Bool
  | .addEvent fd' event' _ _ _ => fd' ≠ fd ∨ event' ≠ event
  | _ => true

/-- The call makes no timer with a callback of the waiting call. The collection is a step of its
own. -/
def foreignTimer : TimerInv.Action (Cb C) → Bool
  | .addTimer _ (.expire _) _ _ _ => false
  | .listExpiredCb _ _ => false
  | _ => true

def wakes (fd : Fd) (event : Event) (hs : List (Handoff S F C)) : Bool :=
  hs.any fun h => h.fd = fd ∧ h.event = event

/-- The callbacks of the call among those that were collected. -/
def own (cbs : List (Option (Cb C))) : List ℕ :=
  cbs.filterMap fun
    | some (.expire k) => some k
    | _ => none

namespace Wait

/-- A call on the event table. It wakes the fiber if it ends its registration. No state follows one
that stops the process. -/
def ioCall (fd : Fd) (event : Event) (w : Wait S F C) (a : IoInv.Action S F C) :
    Option (Wait S F C) :=
  if IoInv.Proper w.io a then
    match IoInv.call w.io a with
    | .ok out =>
      some { w with io := out.m, woken := w.woken || w.waiting && wakes fd event out.handoffs }
    | .error _ => none
  else none

/-- No other fiber waits for the event while the call lasts. -/
def env (fd : Fd) (event : Event) (w : Wait S F C) : Env S F C → Option (Wait S F C)
  | .io a => if w.active = true ∧ foreign fd event a = false then none else w.ioCall fd event a
  | .timers a =>
    if foreignTimer a then (TimerInv.step w.timers a).map fun m => { w with timers := m } else none
  | .expire now addr =>
    let r := w.timers.listExpiredCb now addr []
    some { w with timers := r.1, due := w.due ++ own r.2 }
  -- `winfo.lock()` succeeds as long as the call lasts
  | .fire k =>
    if k ∈ w.due then
      some { w with
        due := w.due.erase k
        passed := if w.cancelled then w.passed else w.passed ++ [k]
        ran := w.ran ++ [k] }
    else none
  | .setCancelled k =>
    if k ∈ w.passed then
      some { w with
        passed := w.passed.erase k
        cancelled := true
        cancelling := w.cancelling ++ [k] }
    else none
  | .cancelEvent k ok =>
    if k ∈ w.cancelling then
      { w with cancelling := w.cancelling.erase k }.ioCall fd event (.cancelEvent fd event ok)
    else none

/-- `addConditionTimer`, unless there is no timeout. -/
def arm (w : Wait S F C) (timeout now : UInt64) (addr : ℕ) : Option (Wait S F C) :=
  if timeout = -1 then some w
  else if ∀ t ∈ w.timers.timers, (w.timers.heap t).addr ≠ addr then
    let r := w.timers.addTimer timeout (some (.expire w.armed.length)) false now addr
    some { w with timers := r.1, timer := some r.2.1, armed := w.armed ++ [r.2.1] }
  else none

/-- `addEvent(fd, event)`, and whether it returns 0. -/
def register (fd : Fd) (event : Event) (w : Wait S F C) (caller : Caller S F) (ok : Bool) :
    Option (Wait S F C × Bool) :=
  match w.io.addEvent fd event none caller ok with
  | .ok out => some ({ w with io := out.m, waiting := out.ret }, out.ret)
  | .error _ => none

def resume (w : Wait S F C) : Option (Wait S F C) :=
  if w.waiting = true ∧ w.woken = true then some { w with waiting := false, woken := false }
  else none

def cancelTimer (w : Wait S F C) : Option (Wait S F C) :=
  match w.timer with
  | none => some w
  | some t =>
    match w.timers.cancel t with
    | .ok r => some { w with timers := r.1, timer := none }
    | .error _ => none

def Registered (fd : Fd) (event : Event) (w : Wait S F C) : Prop :=
  (w.io.fdContexts fd).events &&& event.bits ≠ 0

end Wait

/-! ### The invariant -/

/-- The two tables are in order; a timer of the call that is not the current one is gone; the
callbacks are those of timers that the call has armed; `cancelled` was set by one that ran; and
the event is registered only while the fiber waits and has not been woken. -/
structure Inv (tickle fd : Fd) (event : Event) (w : Wait S F C) : Prop where
  kept : IoInv.Kept tickle w.io
  timers : TimerInv.Inv w.timers
  made : ∀ t ∈ w.armed, t < w.timers.made
  current : ∀ t, w.timer = some t → t ∈ w.armed
  spent : ∀ t ∈ w.armed, w.timer ≠ some t → (w.timers.heap t).cb = none
  origin : ∀ t k, (w.timers.heap t).cb = some (.expire k) → w.armed[k]? = some t
  due : ∀ k ∈ w.due, k < w.armed.length
  passed : ∀ k ∈ w.passed, k ∈ w.ran
  ran : ∀ k ∈ w.ran, k < w.armed.length
  flag : w.cancelled = true → w.ran ≠ []
  awake : w.woken = true → w.waiting = true
  free : w.active = true → w.Registered fd event → w.waiting = true ∧ w.woken = false

/-! ### The event table -/

/-- Only `addEvent` for the event registers somebody for it. -/
lemma not_registered_of_foreign {fd : Fd} {event : Event} {a : IoInv.Action S F C}
    {out : Out S F C} (hf : foreign fd event a = true) (s : Option S)
    (entry : FiberAndThread F C) : .registered fd event s entry ∉ Waiters.observe a out := by
  intro hmem
  rcases List.mem_append.mp hmem with hmem | hmem
  · cases a with
    | addEvent fd' event' cb caller ok =>
      dsimp only at hmem
      split at hmem
      · cases List.mem_singleton.mp hmem
        simp [foreign] at hf
      · cases hmem
    | delEvent fd' event' ok =>
      dsimp only at hmem
      split at hmem
      · cases List.mem_singleton.mp hmem
      · cases hmem
    | _ => cases hmem
  · obtain ⟨h, -, heq⟩ := List.mem_map.mp hmem
    cases heq

/-- **What a call of others does to a registration**: as long as it is there, it is the same one
and nobody was woken. -/
lemma call_foreign {tickle fd : Fd} {event : Event} {T : Table S F C} (hq : Quiet tickle T)
    {a : IoInv.Action S F C} {out : Out S F C} (hf : foreign fd event a = true)
    (hp : IoInv.Proper (conc tickle T) a) (ho : IoInv.call (conc tickle T) a = .ok out) :
    ∃ T', Quiet tickle T' ∧ out.m = conc tickle T' ∧
      ((T' fd).get event ≠ none →
        (T fd).get event ≠ none ∧ wakes fd event out.handoffs = false) := by
  have heff := IoInv.call_effect hq hp
  rw [ho] at heff
  obtain ⟨T', hT⟩ := Waiters.effect_recorded hq heff
  refine ⟨T', hT.quiet, hT.kept, fun hsome => ?_⟩
  have hmoves := hT.moves fd event
  generalize hobs : (Waiters.observe a out).filter (Waiters.Obs.about fd event) = obs at hmoves
  generalize (T fd).get event = x at hmoves ⊢
  generalize (T' fd).get event = x' at hmoves hsome
  have hseen (o : Waiters.Obs S F C) (hmem : o ∈ Waiters.observe a out)
      (ho : o.about fd event = true) : o ∈ obs := by
    rw [← hobs]
    exact List.mem_filter.mpr ⟨hmem, ho⟩
  cases hmoves with
  | same x =>
    refine ⟨hsome, ?_⟩
    by_contra hwake
    obtain ⟨h, hh, hfd, hev⟩ : ∃ h ∈ out.handoffs, h.fd = fd ∧ h.event = event := by
      simpa [wakes] using hwake
    have hmem := hseen (Waiters.ofHandoff h)
      (List.mem_append_right _ (List.mem_map_of_mem hh))
      (by simp [Waiters.ofHandoff, Waiters.Obs.about, hfd, hev])
    cases hmem
  | opens x =>
    have hmem : .registered fd event (some x.scheduler) x.entry ∈
        (Waiters.observe a out).filter (Waiters.Obs.about fd event) := by
      rw [hobs]
      exact List.mem_singleton.mpr rfl
    exact absurd (List.mem_of_mem_filter hmem) (not_registered_of_foreign hf _ _)
  | wakes x ha => exact absurd rfl hsome
  | drops x ok ha => exact absurd rfl hsome

lemma registered_conc {tickle fd : Fd} {event : Event} {w : Wait S F C} {T : Table S F C}
    (h : w.io = conc tickle T) : w.Registered fd event ↔ (T fd).get event ≠ none := by
  unfold Wait.Registered
  rw [h]
  exact not_congr (mask_and_eq_zero_iff (T fd) event)

/-- **Inversion of a call on the event table.** -/
lemma ioCall_cases {fd : Fd} {event : Event} {w w' : Wait S F C} {a : IoInv.Action S F C}
    (hs : w.ioCall fd event a = some w') :
    ∃ out, IoInv.Proper w.io a ∧ IoInv.call w.io a = .ok out ∧
      w' = { w with
        io := out.m, woken := w.woken || w.waiting && wakes fd event out.handoffs } := by
  simp only [Wait.ioCall, Option.ite_none_right_eq_some] at hs
  obtain ⟨hp, hs⟩ := hs
  split at hs
  · rename_i out hout
    cases hs
    exact ⟨out, hp, hout, rfl⟩
  · cases hs

/-- A call on the event table, once the call that waits has begun only a foreign one. -/
lemma ioCall_inv {tickle fd : Fd} {event : Event} {w w' : Wait S F C} (h : Inv tickle fd event w)
    {a : IoInv.Action S F C} (hf : w.active = true → foreign fd event a = true)
    (hs : w.ioCall fd event a = some w') : Inv tickle fd event w' := by
  obtain ⟨out, hp, hout, rfl⟩ := ioCall_cases hs
  refine { h with kept := IoInv.call_kept h.kept hp hout, awake := ?_, free := ?_ }
  · intro hwoken
    rcases (Bool.or_eq_true _ _).mp hwoken with hw | hw
    · exact h.awake hw
    · exact ((Bool.and_eq_true _ _).mp hw).1
  · intro hactive hreg
    obtain ⟨T, hq, hT⟩ := h.kept
    rw [hT] at hp hout
    obtain ⟨T', -, hT', hplace⟩ := call_foreign hq (hf hactive) hp hout
    obtain ⟨hbefore, hwake⟩ := hplace ((registered_conc hT').mp hreg)
    obtain ⟨hwait, hwoken⟩ := h.free hactive ((registered_conc hT).mpr hbefore)
    exact ⟨hwait, by simp [hwoken, hwake]⟩

/-- The fiber registers for an event that nobody waits for: the call of `addEvent` does not stop the
process, and it says whether the event is registered now. -/
lemma register_inv {tickle fd : Fd} {event : Event} {w : Wait S F C} (h : Inv tickle fd event w)
    (he : event ≠ .none) (hreg : ¬ w.Registered fd event) (hwait : w.waiting = false)
    (caller : Caller S F) (hsome : caller.scheduler.isSome) (hexec : caller.state = .exec)
    (ok : Bool) : ∃ w' b, w.register fd event caller ok = some (w', b) ∧
      Inv tickle fd event w' ∧ w' = { w with io := w'.io, waiting := b } := by
  obtain ⟨T, hq, hT⟩ := h.kept
  have hwoken : w.woken = false := by
    by_contra hne
    have hw := h.awake (by simpa using hne)
    rw [hwait] at hw
    cases hw
  have hfree : (T fd).get event = none := by
    by_contra hne
    exact hreg ((registered_conc hT).mpr hne)
  obtain ⟨s, hs⟩ := Option.isSome_iff_exists.mp hsome
  have hadd := addEvent_conc hq he hfree none hs ok
  unfold Wait.register
  rw [hT, hadd]
  by_cases hok : ok = true ∧ fd ≠ tickle
  · rw [if_pos hok, if_neg fun hx => hx.2 hexec]
    refine ⟨_, _, rfl, { h with kept := ?_, awake := ?_, free := ?_ }, rfl⟩
    · exact ⟨_, hq.update fun heq => absurd heq hok.2, rfl⟩
    · exact fun _ => rfl
    · exact fun _ _ => ⟨rfl, hwoken⟩
  · rw [if_neg hok]
    refine ⟨_, _, rfl, { h with kept := ?_, awake := ?_, free := ?_ }, rfl⟩
    · exact ⟨T, hq, rfl⟩
    · exact fun hw => absurd (hwoken.symm.trans hw) nofun
    · exact fun _ hreg' => absurd hfree ((registered_conc rfl).mp hreg')

/-- What a return from `YieldToHold` is: the fiber waited and was woken. -/
lemma resume_eq_some {w w' : Wait S F C} : w.resume = some w' ↔
    (w.waiting = true ∧ w.woken = true) ∧ w' = { w with waiting := false, woken := false } := by
  rw [Wait.resume, Option.ite_none_right_eq_some, Option.some.injEq, eq_comm (b := w')]

lemma resume_inv {tickle fd : Fd} {event : Event} {w w' : Wait S F C} (h : Inv tickle fd event w)
    (hs : w.resume = some w') : Inv tickle fd event w' := by
  obtain ⟨⟨-, hwoken⟩, rfl⟩ := resume_eq_some.mp hs
  refine { h with awake := nofun, free := fun hactive hreg => ?_ }
  -- the registration that woke the fiber is not there any more
  have hno := (h.free hactive hreg).2
  rw [hwoken] at hno
  cases hno

/-! ### The timers -/

/-- Where the callbacks come from: an operation leaves the callback of a timer or takes it away,
and `addTimer` gives one to the new timer. -/
lemma step_cb {m m' : TimerManager (Cb C)} (hi : TimerInv.Inv m) {a : TimerInv.Action (Cb C)}
    (hs : TimerInv.step m a = some m') {t : ℕ} {c : Cb C} (hc : (m'.heap t).cb = some c) :
    (m.heap t).cb = some c ∨
      t = m.made ∧ ∃ ms recurring now addr, a = .addTimer ms c recurring now addr := by
  have hset {m : TimerManager (Cb C)} {u : ℕ} {v : Timer (Cb C)} {c : Cb C}
      (hv : v.cb = some c → (m.heap u).cb = some c) (h : ((m.set u v).heap t).cb = some c) :
      (m.heap t).cb = some c := by
    by_cases htu : t = u
    · subst htu
      rw [TimerInv.set_heap_self] at h
      exact hv h
    · rwa [TimerInv.set_heap_ne m v htu] at h
  cases a with
  | addTimer ms cb recurring now addr =>
    simp only [TimerInv.step, Option.ite_none_right_eq_some, Option.some.injEq] at hs
    obtain ⟨-, rfl⟩ := hs
    by_cases ht : t = m.made
    · subst ht
      simp only [addTimer, addTimerLocked, TimerInv.set_heap_self] at hc
      obtain rfl := Option.some.inj hc
      exact .inr ⟨rfl, ms, recurring, now, addr, rfl⟩
    · simp only [addTimer, addTimerLocked, TimerInv.set_heap_ne m _ ht] at hc
      exact .inl hc
  | cancel u =>
    simp only [TimerInv.step, Option.ite_none_right_eq_some] at hs
    obtain ⟨-, hs⟩ := hs
    split at hs
    · rename_i r hr
      cases hs
      obtain ⟨-, rfl⟩ | ⟨i, rfl⟩ := TimerInv.cancel_cases hr
      · exact .inl hc
      · exact .inl (hset (u := u) (v := { m.heap u with cb := none }) (by simp) hc)
    · cases hs
  | refresh u now =>
    simp only [TimerInv.step, Option.ite_none_right_eq_some, Option.some.injEq] at hs
    obtain ⟨-, rfl⟩ := hs
    unfold refresh at hc
    split at hc
    · exact .inl hc
    · split at hc
      · exact .inl hc
      · exact .inl (hset (u := u) (v := { m.heap u with next := now + (m.heap u).ms })
          (fun h => h) hc)
  | reset u ms from_now now =>
    simp only [TimerInv.step, Option.ite_none_right_eq_some, Option.some.injEq] at hs
    obtain ⟨-, rfl⟩ := hs
    unfold reset at hc
    split at hc
    · exact .inl hc
    · split at hc
      · exact .inl hc
      · split at hc
        · exact .inl hc
        · exact .inl (hset (u := u) (v := { m.heap u with
            ms := ms, next := (if from_now then now else (m.heap u).next - ms) + ms })
            (fun h => h) hc)
  | listExpiredCb now addr =>
    obtain rfl := Option.some.inj hs
    obtain ⟨-, hdue, hrest⟩ := TimerExpiry.listExpiredCb_spec hi now addr []
    by_cases ht : t ∈ TimerExpiry.due m now (m.detectClockRollover now).2
    · rw [hdue t ht, TimerExpiry.expired] at hc
      split at hc
      · exact .inl hc
      · cases hc
    · rw [hrest t ht] at hc
      exact .inl hc

/-- The callbacks that are collected are those of timers. -/
lemma own_listExpiredCb {m : TimerManager (Cb C)} (hi : TimerInv.Inv m) (now : UInt64) (addr : ℕ)
    {k : ℕ} (hk : k ∈ own (m.listExpiredCb now addr []).2) :
    ∃ t, (m.heap t).cb = some (.expire k) := by
  obtain ⟨hcbs, -, -⟩ := TimerExpiry.listExpiredCb_spec hi now addr []
  obtain ⟨cb, hcb, hown⟩ := List.mem_filterMap.mp hk
  rw [hcbs, List.nil_append] at hcb
  obtain ⟨t, -, rfl⟩ := List.mem_map.mp hcb
  refine ⟨t, ?_⟩
  split at hown
  · rename_i heq
    rw [heq, Option.some.inj hown]
  · cases hown

/-- A call of others on a timer, or the collection of the expired ones. -/
lemma timers_inv {tickle fd : Fd} {event : Event} {w : Wait S F C} (h : Inv tickle fd event w)
    {a : TimerInv.Action (Cb C)} {m : TimerManager (Cb C)}
    (ha : ∀ ms k recurring now addr, a ≠ .addTimer ms (.expire k) recurring now addr)
    (hs : TimerInv.step w.timers a = some m) : Inv tickle fd event { w with timers := m } := by
  have hkeeps := TimerInv.step_keeps hs
  refine { h with
    timers := TimerInv.step_inv w.timers a m h.timers hs
    made := fun t ht => lt_of_lt_of_le (h.made t ht) hkeeps.made
    spent := fun t ht hne => hkeeps.gone t (h.made t ht) (h.spent t ht hne)
    origin := fun t k hc => ?_ }
  rcases step_cb h.timers hs hc with hold | ⟨-, ms, recurring, now, addr, heq⟩
  · exact h.origin t k hold
  · exact absurd heq (ha ms k recurring now addr)

/-- The current timer is armed, while all the earlier ones are gone. -/
lemma arm_inv {tickle fd : Fd} {event : Event} {w w' : Wait S F C} (h : Inv tickle fd event w)
    (hnone : w.timer = none) {timeout now : UInt64} {addr : ℕ}
    (hs : w.arm timeout now addr = some w') : Inv tickle fd event w' := by
  unfold Wait.arm at hs
  split at hs
  · cases hs
    exact h
  · split at hs
    · rename_i haddr
      cases hs
      have hstep : TimerInv.step w.timers
          (.addTimer timeout (.expire w.armed.length) false now addr) =
          some (w.timers.addTimer timeout (some (.expire w.armed.length)) false now addr).1 :=
        if_pos haddr
      have hkeeps := TimerInv.step_keeps hstep
      have hnew : (w.timers.addTimer timeout (some (.expire w.armed.length)) false now addr).2.1 =
          w.timers.made := rfl
      have hmade : w.timers.made <
          (w.timers.addTimer timeout (some (.expire w.armed.length)) false now addr).1.made :=
        Nat.lt_succ_self _
      rw [hnew]
      refine { h with
        timers := TimerInv.step_inv _ _ _ h.timers hstep
        made := fun t ht => ?_
        current := fun t ht => ?_
        spent := fun t ht hne => ?_
        origin := fun t k hc => ?_
        due := fun k hk => ?_
        ran := fun k hk => ?_ }
      · rcases List.mem_append.mp ht with ht | ht
        · exact lt_of_lt_of_le (h.made t ht) hkeeps.made
        · rw [List.mem_singleton.mp ht]
          exact hmade
      · rw [Option.some.inj ht]
        exact List.mem_append_right _ (List.mem_singleton.mpr rfl)
      · rcases List.mem_append.mp ht with ht | ht
        · refine hkeeps.gone t (h.made t ht) (h.spent t ht ?_)
          rw [hnone]
          nofun
        · rw [List.mem_singleton.mp ht] at hne
          exact absurd rfl hne
      · rcases step_cb h.timers hstep hc with hold | ⟨ht, ms, recurring, now', addr', heq⟩
        · have hget := h.origin t k hold
          rw [List.getElem?_append_left (List.getElem?_eq_some_iff.mp hget).1]
          exact hget
        · cases heq
          rw [ht, List.getElem?_append_right (le_refl _), Nat.sub_self]
          rfl
      · rw [List.length_append]
        exact Nat.lt_add_right _ (h.due k hk)
      · rw [List.length_append]
        exact Nat.lt_add_right _ (h.ran k hk)
    · cases hs

lemma arm_same {w w' : Wait S F C} {timeout now : UInt64} {addr : ℕ}
    (hs : w.arm timeout now addr = some w') :
    w'.active = w.active ∧ w'.waiting = w.waiting := by
  unfold Wait.arm at hs
  split at hs
  · cases hs
    exact ⟨rfl, rfl⟩
  · split at hs
    · cases hs
      exact ⟨rfl, rfl⟩
    · cases hs

lemma arm_isSome {w : Wait S F C} {addr : ℕ}
    (haddr : ∀ t ∈ w.timers.timers, (w.timers.heap t).addr ≠ addr) (timeout now : UInt64) :
    (w.arm timeout now addr).isSome := by
  simp only [Wait.arm, if_pos haddr]
  split <;> rfl

lemma cancel_gone {m : TimerManager (Cb C)} {t : ℕ} {r : TimerManager (Cb C) × Bool}
    (hr : m.cancel t = .ok r) : (r.1.heap t).cb = none := by
  obtain ⟨hcb, rfl⟩ | ⟨i, rfl⟩ := TimerInv.cancel_cases hr
  · exact hcb
  · exact congrArg Timer.cb (TimerInv.set_heap_self m t { m.heap t with cb := none })

/-- `timer->cancel()` never erases at the end, and after it no timer of the call is left. -/
lemma cancelTimer_inv {tickle fd : Fd} {event : Event} {w : Wait S F C}
    (h : Inv tickle fd event w) : ∃ w', w.cancelTimer = some w' ∧ Inv tickle fd event w' ∧
      w' = { w with timers := w'.timers, timer := none } := by
  unfold Wait.cancelTimer
  cases htimer : w.timer with
  | none =>
    refine ⟨w, rfl, h, ?_⟩
    rw [← htimer]
  | some t =>
    obtain ⟨r, hr, -⟩ := TimerInv.cancel_inv h.timers t
    have hstep : TimerInv.step w.timers (.cancel t) = some r.1 := by
      simp only [TimerInv.step, if_pos (h.made t (h.current t htimer)), hr]
    have hrest : Inv tickle fd event { w with timers := r.1 } :=
      timers_inv h (fun _ _ _ _ _ heq => by cases heq) hstep
    simp only [hr]
    refine ⟨_, rfl, { hrest with current := by simp, spent := fun x hx _ => ?_ }, rfl⟩
    by_cases hxt : x = t
    · rw [hxt]
      exact cancel_gone hr
    · refine hrest.spent x hx ?_
      show w.timer ≠ some x
      rw [htimer]
      exact fun heq => hxt (Option.some.inj heq).symm

/-! ### All steps of others -/

/-- What others do does not touch the variables of the fiber. -/
structure Same (w w' : Wait S F C) : Prop where
  active : w'.active = w.active
  timer : w'.timer = w.timer
  waiting : w'.waiting = w.waiting
  armed : w'.armed = w.armed

/-- **What others can do**, with the conditions under which they can. -/
lemma env_cases {fd : Fd} {event : Event} {w w' : Wait S F C} {e : Env S F C}
    (hs : w.env fd event e = some w') :
    (∃ a, e = .io a ∧ (w.active = true → foreign fd event a = true) ∧
      w.ioCall fd event a = some w') ∨
    (∃ a m, e = .timers a ∧ foreignTimer a = true ∧ TimerInv.step w.timers a = some m ∧
      w' = { w with timers := m }) ∨
    (∃ now addr, e = .expire now addr ∧ w' = { w with
      timers := (w.timers.listExpiredCb now addr []).1
      due := w.due ++ own (w.timers.listExpiredCb now addr []).2 }) ∨
    (∃ k, e = .fire k ∧ k ∈ w.due ∧ w' = { w with
      due := w.due.erase k
      passed := if w.cancelled then w.passed else w.passed ++ [k]
      ran := w.ran ++ [k] }) ∨
    (∃ k, e = .setCancelled k ∧ k ∈ w.passed ∧ w' = { w with
      passed := w.passed.erase k
      cancelled := true
      cancelling := w.cancelling ++ [k] }) ∨
    (∃ k ok, e = .cancelEvent k ok ∧ k ∈ w.cancelling ∧
      { w with cancelling := w.cancelling.erase k }.ioCall fd event (.cancelEvent fd event ok) =
        some w') := by
  cases e with
  | io a =>
    simp only [Wait.env] at hs
    split at hs
    · cases hs
    · rename_i hno
      refine .inl ⟨a, rfl, fun hactive => ?_, hs⟩
      by_contra hf
      exact hno ⟨hactive, by simpa using hf⟩
  | timers a =>
    simp only [Wait.env, Option.ite_none_right_eq_some] at hs
    obtain ⟨hf, hs⟩ := hs
    obtain ⟨m, hm, rfl⟩ := Option.map_eq_some_iff.mp hs
    exact .inr (.inl ⟨a, m, rfl, hf, hm, rfl⟩)
  | expire now addr =>
    cases hs
    exact .inr (.inr (.inl ⟨now, addr, rfl, rfl⟩))
  | fire k =>
    simp only [Wait.env, Option.ite_none_right_eq_some, Option.some.injEq] at hs
    obtain ⟨hk, rfl⟩ := hs
    exact .inr (.inr (.inr (.inl ⟨k, rfl, hk, rfl⟩)))
  | setCancelled k =>
    simp only [Wait.env, Option.ite_none_right_eq_some, Option.some.injEq] at hs
    obtain ⟨hk, rfl⟩ := hs
    exact .inr (.inr (.inr (.inr (.inl ⟨k, rfl, hk, rfl⟩))))
  | cancelEvent k ok =>
    simp only [Wait.env, Option.ite_none_right_eq_some] at hs
    exact .inr (.inr (.inr (.inr (.inr ⟨k, ok, rfl, hs⟩))))

lemma env_same {fd : Fd} {event : Event} {w w' : Wait S F C} {e : Env S F C}
    (hs : w.env fd event e = some w') : Same w w' := by
  obtain ⟨a, -, -, hs⟩ | ⟨a, m, -, -, -, rfl⟩ | ⟨now, addr, -, rfl⟩ | ⟨k, -, -, rfl⟩ |
    ⟨k, -, -, rfl⟩ | ⟨k, ok, -, -, hs⟩ := env_cases hs
  · obtain ⟨out, -, -, rfl⟩ := ioCall_cases hs
    exact ⟨rfl, rfl, rfl, rfl⟩
  · exact ⟨rfl, rfl, rfl, rfl⟩
  · exact ⟨rfl, rfl, rfl, rfl⟩
  · exact ⟨rfl, rfl, rfl, rfl⟩
  · exact ⟨rfl, rfl, rfl, rfl⟩
  · obtain ⟨out, -, -, rfl⟩ := ioCall_cases hs
    exact ⟨rfl, rfl, rfl, rfl⟩

/-- A callback of the call is taken from those that are due. -/
lemma fire_inv {tickle fd : Fd} {event : Event} {w : Wait S F C} (h : Inv tickle fd event w)
    {k : ℕ} (hk : k ∈ w.due) : Inv tickle fd event { w with
      due := w.due.erase k
      passed := if w.cancelled then w.passed else w.passed ++ [k]
      ran := w.ran ++ [k] } := by
  refine { h with
    due := fun x hx => h.due x (List.mem_of_mem_erase hx)
    passed := fun x hx => ?_
    ran := fun x hx => ?_
    flag := fun _ => List.append_ne_nil_of_right_ne_nil _ (List.cons_ne_nil _ _) }
  · dsimp only at hx
    split at hx
    · exact List.mem_append_left _ (h.passed x hx)
    · rcases List.mem_append.mp hx with hx | hx
      · exact List.mem_append_left _ (h.passed x hx)
      · exact List.mem_append_right _ hx
  · rcases List.mem_append.mp hx with hx | hx
    · exact h.ran x hx
    · rw [List.mem_singleton.mp hx]
      exact h.due k hk

/-- **Whatever others do keeps the invariant.** -/
lemma env_inv {tickle fd : Fd} {event : Event} {w w' : Wait S F C} (h : Inv tickle fd event w)
    {e : Env S F C} (hs : w.env fd event e = some w') : Inv tickle fd event w' := by
  obtain ⟨a, -, hf, hs⟩ | ⟨a, m, -, hf, hm, rfl⟩ | ⟨now, addr, -, rfl⟩ | ⟨k, -, hk, rfl⟩ |
    ⟨k, -, hk, rfl⟩ | ⟨k, ok, -, -, hs⟩ := env_cases hs
  · exact ioCall_inv h hf hs
  · refine timers_inv h ?_ hm
    rintro ms k recurring now addr rfl
    cases hf
  · have hstep : TimerInv.step w.timers (.listExpiredCb now addr) =
        some (w.timers.listExpiredCb now addr []).1 := rfl
    refine { timers_inv h (fun _ _ _ _ _ heq => by cases heq) hstep with due := fun k hk => ?_ }
    rcases List.mem_append.mp hk with hk | hk
    · exact h.due k hk
    · obtain ⟨t, ht⟩ := own_listExpiredCb h.timers now addr hk
      exact (List.getElem?_eq_some_iff.mp (h.origin t k ht)).1
  · exact fire_inv h hk
  · exact { h with
      passed := fun x hx => h.passed x (List.mem_of_mem_erase hx)
      flag := fun _ => List.ne_nil_of_mem (h.passed k hk) }
  · have herase : Inv tickle fd event { w with cancelling := w.cancelling.erase k } :=
      ⟨h.kept, h.timers, h.made, h.current, h.spent, h.origin, h.due, h.passed, h.ran, h.flag,
        h.awake, h.free⟩
    exact ioCall_inv herase (fun _ => rfl) hs

/-- A process with a new I/O manager, before the call. -/
def start (now : UInt64) (tickle : Fd) : Wait S F C :=
  { io := IOManager.init tickle, timers := TimerInv.init now }

lemma start_inv (now : UInt64) (tickle fd : Fd) (event : Event) :
    Inv tickle fd event (start now tickle : Wait S F C) where
  kept := IoInv.init_kept tickle
  timers := TimerInv.init_inv now
  made := nofun
  current := nofun
  spent := nofun
  origin := nofun
  due := nofun
  passed := nofun
  ran := nofun
  flag := nofun
  awake := nofun
  free := nofun

/-- The timers of the call are out of `timers_` once the current one is cancelled. -/
lemma Inv.timers_gone {tickle fd : Fd} {event : Event} {w : Wait S F C}
    (h : Inv tickle fd event w) (hnone : w.timer = none) : ∀ t ∈ w.armed, t ∉ w.timers.timers := by
  intro t ht hmem
  have hcb := h.spent t ht (by rw [hnone]; nofun)
  have hsome := ((h.timers.mem_iff t).mp hmem).1
  rw [hcb] at hsome
  cases hsome

/-- A set `cancelled` is the work of a timer that the call has armed. -/
lemma Inv.cancelled_ran {tickle fd : Fd} {event : Event} {w : Wait S F C}
    (h : Inv tickle fd event w) (hc : w.cancelled = true) :
    ∃ k ∈ w.ran, ∃ t, w.armed[k]? = some t := by
  obtain ⟨k, hk⟩ := List.exists_mem_of_ne_nil _ (h.flag hc)
  exact ⟨k, hk, _, List.getElem?_eq_getElem (h.ran k hk)⟩

end Sylar.TimedWait
