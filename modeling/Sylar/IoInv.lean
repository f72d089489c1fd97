import Sylar.EventOps
import Sylar.Lib.Runs

/-!
The four copies of the event table agree in every state a sequence of calls leads to.
-/

namespace Sylar.IoInv

open Lib Lib.Tally Sylar.FiberModel Sylar.IoModel Sylar.EventTable Sylar.EventOps IOManager

variable {S F C : Type}

/-- A call under the mutex of one `FdContext`, with the outcome the kernel gives to its
`epoll_ctl`. -/
inductive Action (S F C : Type)
  | addEvent (fd : Fd) (event : Event) (cb : Option C) (caller : Caller S F) (ok : Bool)
  | delEvent (fd : Fd) (event : Event) (ok : Bool)
  | cancelEvent (fd : Fd) (event : Event) (ok : Bool)
  | cancelAll (fd : Fd) (ok : Bool)
  | dispatch (fd : Fd) (events : Mask) (ok : Bool)

def call (m : IOManager S F C) : Action S F C → Except Fault (Out S F C)
  | .addEvent fd event cb caller ok => m.addEvent fd event cb caller ok
  | .delEvent fd event ok => m.delEvent fd event ok
  | .cancelEvent fd event ok => m.cancelEvent fd event ok
  | .cancelAll fd ok => m.cancelAll fd ok
  | .dispatch fd events ok => m.dispatch fd events ok

/-- `addEvent` is called for one event that is not registered, on a scheduler's thread. -/
def Proper (m : IOManager S F C) : Action S F C → Prop
  | .addEvent fd event _ caller _ =>
    event ≠ .none ∧ caller.scheduler.isSome ∧ (m.fdContexts fd).events &&& event.bits = 0
  | _ => True

/-- A dispatched entry reports only events that are registered at that moment; errors may
come with it. -/
def Current (m : IOManager S F C) : Action S F C → Prop
  | .dispatch fd events _ =>
    (events &&& EPOLLIN ≠ 0 → (m.fdContexts fd).events &&& Event.bits .read ≠ 0) ∧
    (events &&& EPOLLOUT ≠ 0 → (m.fdContexts fd).events &&& Event.bits .write ≠ 0)
  | _ => True

instance (m : IOManager S F C) (a : Action S F C) : Decidable (Proper m a) :=
  match a with
  | .addEvent .. => inferInstanceAs (Decidable (_ ∧ _ ∧ _))
  | .delEvent .. | .cancelEvent .. | .cancelAll .. | .dispatch .. => isTrue trivial

instance (m : IOManager S F C) (a : Action S F C) : Decidable (Current m a) :=
  match a with
  | .dispatch .. => inferInstanceAs (Decidable (_ ∧ _))
  | .delEvent .. | .cancelEvent .. | .cancelAll .. | .addEvent .. => isTrue trivial

/-- One call; no state follows a call that faults. -/
def step (m : IOManager S F C) (a : Action S F C) : Option (IOManager S F C) :=
  if Proper m a ∧ Current m a then
    match call m a with
    | .ok out => some out.m
    | .error _ => none
  else none

/-! ### What a call can do -/

/-- The call ends registrations of `fd` by scheduling their waiters. -/
def Releases : Action S F C → Fd → Prop
  | .cancelEvent fd _ _, x => x = fd
  | .cancelAll fd _, x => x = fd
  | .dispatch fd _ _, x => x = fd
  | _, _ => False

lemma addEvent_handoffs {m : IOManager S F C} {fd : Fd} {event : Event} {cb : Option C}
    {caller : Caller S F} {ok : Bool} {out : Out S F C}
    (h : m.addEvent fd event cb caller ok = .ok out) : out.handoffs = [] := by
  unfold addEvent at h
  dsimp only at h
  split at h
  · cases h
  · split at h
    · cases h
      rfl
    · split at h
      · cases h
      · cases h
        rfl

lemma delEvent_handoffs {m : IOManager S F C} {fd : Fd} {event : Event} {ok : Bool}
    {out : Out S F C} (h : m.delEvent fd event ok = .ok out) : out.handoffs = [] := by
  unfold delEvent at h
  dsimp only at h
  split at h
  · cases h
    rfl
  · split at h
    · cases h
      rfl
    · split at h
      · cases h
      · cases h
        rfl

/-- Everything a call can do on a manager that keeps `T`. -/
inductive Effect (tickle : Fd) (T : Table S F C) (a : Action S F C) :
    Except Fault (Out S F C) → Prop
  | nothing (ctl : Option Bool) : Effect tickle T a (.ok ⟨conc tickle T, false, ctl, []⟩)
  | add (fd : Fd) (event : Event) (cb : Option C) (caller : Caller S F) (s : S)
      (ha : a = .addEvent fd event cb caller true) (he : event ≠ .none) (hfd : fd ≠ tickle)
      (hs : caller.scheduler = some s) (hfree : (T fd).get event = none) :
      Effect tickle T a (.ok ⟨conc tickle (Function.update T fd
        ((T fd).set event (some (waiterOf s cb caller.fiber)))), true, some true, []⟩)
  | del (fd : Fd) (event : Event) (w : Waiter S F C) (ha : a = .delEvent fd event true)
      (hw : (T fd).get event = some w) :
      Effect tickle T a (.ok ⟨conc tickle (Function.update T fd ((T fd).set event none)),
        true, some true, []⟩)
  | release (fd : Fd) (r w : Bool) (ha : Releases a fd)
      (hr : r = true → (T fd).read ≠ none) (hw : w = true → (T fd).write ≠ none) :
      Effect tickle T a (.ok ⟨conc tickle (Function.update T fd ((T fd).clear r w)),
        true, some true, handoffs fd (T fd) r w⟩)
  | notExec (fd : Fd) (event : Event) (caller : Caller S F) (ok : Bool)
      (ha : a = .addEvent fd event none caller ok) (hx : caller.state ≠ .exec) :
      Effect tickle T a (.error .fiberState)
  | stale (ha : ¬ Current (conc tickle T) a) : Effect tickle T a (.error .triggerEvent)

/-- One registration ended by `cancelEvent` is the choice of that event. -/
lemma clear_single {s : Slot S F C} {event : Event} {w : Waiter S F C}
    (h : s.get event = some w) (fd : Fd) :
    s.set event none = s.clear (event = .read) (event = .write) ∧
      [handoff fd event w] = handoffs fd s (event = .read) (event = .write) ∧
      (event = .read → s.read ≠ none) ∧ (event = .write → s.write ≠ none) := by
  obtain ⟨r, w'⟩ := s
  cases event with
  | none => cases h
  | read =>
    obtain rfl : r = some w := h
    simp [Slot.set, Slot.clear, handoffs]
  | write =>
    obtain rfl : w' = some w := h
    simp [Slot.set, Slot.clear, handoffs]

lemma addEvent_effect {tickle : Fd} {T : Table S F C} (hq : Quiet tickle T) (fd : Fd)
    (event : Event) (cb : Option C) (caller : Caller S F) (ok : Bool)
    (hp : Proper (conc tickle T) (.addEvent fd event cb caller ok)) :
    Effect tickle T (.addEvent fd event cb caller ok)
      ((conc tickle T).addEvent fd event cb caller ok) := by
  obtain ⟨he, hsome, hbit⟩ := hp
  obtain ⟨s, hs⟩ := Option.isSome_iff_exists.mp hsome
  have hfree : (T fd).get event = none := (mask_and_eq_zero_iff (T fd) event).mp hbit
  rw [addEvent_conc hq he hfree cb hs ok]
  split
  · rename_i hok
    split
    · rename_i hx
      obtain ⟨rfl, hx⟩ := hx
      exact .notExec fd event caller ok rfl hx
    · obtain ⟨rfl, hfd⟩ := hok
      exact .add fd event cb caller s rfl he hfd hs hfree
  · exact .nothing _

lemma delEvent_effect {tickle : Fd} {T : Table S F C} (hq : Quiet tickle T) (fd : Fd)
    (event : Event) (ok : Bool) :
    Effect tickle T (.delEvent fd event ok) ((conc tickle T).delEvent fd event ok) := by
  cases hw : (T fd).get event with
  | none =>
    rw [delEvent_conc_none tickle hw]
    exact .nothing _
  | some w =>
    rw [delEvent_conc hq hw]
    cases ok with
    | true => exact .del fd event w rfl hw
    | false => exact .nothing _

lemma cancelEvent_effect {tickle : Fd} {T : Table S F C} (hq : Quiet tickle T) (fd : Fd)
    (event : Event) (ok : Bool) :
    Effect tickle T (.cancelEvent fd event ok) ((conc tickle T).cancelEvent fd event ok) := by
  cases hw : (T fd).get event with
  | none =>
    rw [cancelEvent_conc_none tickle hw]
    exact .nothing _
  | some w =>
    obtain ⟨hset, hcalls, hr, hw'⟩ := clear_single hw fd
    rw [cancelEvent_conc hq hw, hset, hcalls]
    cases ok with
    | true => exact .release fd _ _ rfl (by simpa using hr) (by simpa using hw')
    | false => exact .nothing _

lemma cancelAll_effect {tickle : Fd} {T : Table S F C} (hq : Quiet tickle T) (fd : Fd)
    (ok : Bool) :
    Effect tickle T (.cancelAll fd ok) ((conc tickle T).cancelAll fd ok) := by
  rw [cancelAll_conc hq]
  split
  · exact .nothing _
  · cases ok with
    | false => exact .nothing _
    | true =>
      -- what is not registered is not among the calls, so the choice is what is registered
      have hclear : ({} : Slot S F C) = (T fd).clear (T fd).read.isSome (T fd).write.isSome := by
        obtain ⟨_ | _, _ | _⟩ := T fd <;> rfl
      have hcalls : handoffs fd (T fd) true true =
          handoffs fd (T fd) (T fd).read.isSome (T fd).write.isSome := by
        obtain ⟨_ | _, _ | _⟩ := T fd <;> rfl
      rw [hclear, hcalls]
      exact .release fd _ _ rfl (fun h => Option.isSome_iff_ne_none.mp h)
        (fun h => Option.isSome_iff_ne_none.mp h)

lemma dispatch_effect {tickle : Fd} {T : Table S F C} (hq : Quiet tickle T) (fd : Fd)
    (events : Mask) (ok : Bool) :
    Effect tickle T (.dispatch fd events ok) ((conc tickle T).dispatch fd events ok) := by
  rw [dispatch_conc hq fd events ok rfl rfl]
  split
  · exact .nothing _
  split
  · exact .nothing _
  split
  · rename_i hbad
    -- an unregistered event is chosen only when it was reported
    have hrep (event : Event) (hw : Wanted (T fd).mask events event)
        (hn : (T fd).get event = none) : events &&& event.bits ≠ 0 :=
      hw.resolve_right fun h => h.2 ((mask_and_eq_zero_iff (T fd) event).mpr hn)
    refine .stale fun ⟨hr, hw⟩ => ?_
    obtain ⟨hwant, hnone⟩ | ⟨hwant, hnone⟩ := hbad
    · exact hr (hrep .read (of_decide_eq_true hwant) hnone)
        ((mask_and_eq_zero_iff (T fd) .read).mpr hnone)
    · exact hw (hrep .write (of_decide_eq_true hwant) hnone)
        ((mask_and_eq_zero_iff (T fd) .write).mpr hnone)
  · rename_i hgood
    exact .release fd _ _ rfl (fun h h' => hgood (.inl ⟨h, h'⟩)) (fun h h' => hgood (.inr ⟨h, h'⟩))

/-- **Inversion of a call.** -/
lemma call_effect {tickle : Fd} {T : Table S F C} (hq : Quiet tickle T) {a : Action S F C}
    (hp : Proper (conc tickle T) a) : Effect tickle T a (call (conc tickle T) a) := by
  cases a with
  | addEvent fd event cb caller ok => exact addEvent_effect hq fd event cb caller ok hp
  | delEvent fd event ok => exact delEvent_effect hq fd event ok
  | cancelEvent fd event ok => exact cancelEvent_effect hq fd event ok
  | cancelAll fd ok => exact cancelAll_effect hq fd ok
  | dispatch fd events ok => exact dispatch_effect hq fd events ok

/-! ### Runs -/

/-- The manager keeps some table in all its copies. -/
def Kept (tickle : Fd) (m : IOManager S F C) : Prop :=
  ∃ T, Quiet tickle T ∧ m = conc tickle T

lemma init_eq_conc (tickle : Fd) :
    (init tickle : IOManager S F C) = conc tickle fun _ => {} := by
  have hmask : ({} : Slot S F C).mask = 0 := (mask_eq_zero_iff _).mpr ⟨rfl, rfl⟩
  have hepoll : epollOf tickle (fun _ => ({} : Slot S F C)) =
      fun fd => if fd = tickle then some ⟨EPOLLIN ||| EPOLLET, .fd tickle⟩ else none := by
    funext fd
    exact epollOf_of_eq tickle hmask
  have hcount : tally Slot.count (fun _ : Fd => ({} : Slot S F C)) = 0 :=
    tally_const_eq_zero rfl
  simp only [init, conc, mkM, hepoll, hcount, concCtx, hmask, context]
  rfl

lemma init_kept (tickle : Fd) : Kept tickle (init tickle : IOManager S F C) :=
  ⟨_, (mask_eq_zero_iff _).mpr ⟨rfl, rfl⟩, init_eq_conc tickle⟩

lemma Quiet.set_none {tickle : Fd} {T : Table S F C} (hq : Quiet tickle T) (fd : Fd)
    (event : Event) : Quiet tickle (Function.update T fd ((T fd).set event none)) := by
  refine hq.update fun h => ?_
  rw [mask_set_none, h, show (T tickle).mask = 0 from hq]
  exact BitVec.zero_and

lemma Quiet.clear {tickle : Fd} {T : Table S F C} (hq : Quiet tickle T) (fd : Fd)
    (r w : Bool) : Quiet tickle (Function.update T fd ((T fd).clear r w)) := by
  refine hq.update fun h => ?_
  rw [← mask_diff_chosen, h, show (T tickle).mask = 0 from hq]
  exact BitVec.zero_and

lemma Effect.quiet {tickle : Fd} {T : Table S F C} {a : Action S F C} {out : Out S F C}
    (hq : Quiet tickle T) (h : Effect tickle T a (.ok out)) : Kept tickle out.m := by
  cases h with
  | nothing ctl => exact ⟨T, hq, rfl⟩
  | add fd event cb caller s ha he hfd hs hfree =>
    exact ⟨_, hq.update fun h => absurd h hfd, rfl⟩
  | del fd event w ha hw => exact ⟨_, Quiet.set_none hq fd event, rfl⟩
  | release fd r w ha hr hw => exact ⟨_, Quiet.clear hq fd r w, rfl⟩

/-- A call that does not fault keeps a table, also a dispatch of a stale entry. -/
lemma call_kept {tickle : Fd} {m : IOManager S F C} {a : Action S F C} {out : Out S F C}
    (h : Kept tickle m) (hp : Proper m a) (ho : call m a = .ok out) : Kept tickle out.m := by
  obtain ⟨T, hq, rfl⟩ := h
  have heff := call_effect hq hp
  rw [ho] at heff
  exact heff.quiet hq

lemma step_kept {tickle : Fd} (m : IOManager S F C) (a : Action S F C) (m' : IOManager S F C)
    (h : Kept tickle m) (hs : step m a = some m') : Kept tickle m' := by
  simp only [step, Option.ite_none_right_eq_some] at hs
  obtain ⟨⟨hp, -⟩, hs⟩ := hs
  split at hs
  · rename_i out hout
    obtain rfl := Option.some.inj hs
    exact call_kept h hp hout
  · cases hs

lemma run_kept {tickle : Fd} {as : List (Action S F C)} {m : IOManager S F C}
    (hr : Runs.run step (init tickle) as = some m) : Kept tickle m :=
  Runs.run_inv step_kept (init_kept tickle) hr

def bitsSet (events : Mask) : ℕ :=
  (events &&& Event.bits .read != 0).toNat + (events &&& Event.bits .write != 0).toNat

lemma bitsSet_mask (s : Slot S F C) : bitsSet s.mask = s.count := by
  unfold bitsSet Slot.count
  rw [mask_test, mask_test]
  rfl

lemma context_iff (w : Option (Waiter S F C)) :
    (w ≠ none → (context w).scheduler.isSome ∧
      ((context w).fiber.isSome ↔ (context w).cb = none)) ∧
    (w = none → context w = {}) := by
  rcases w with _ | ⟨s, f | c⟩ <;> simp [context, Waiter.context]

/-- **The four copies of the event table agree.** In every state a sequence of calls leads
to: the counter is the number of registered events; a descriptor other than the read end of
the tickle pipe is in the kernel's set exactly when an event is registered for it, and then
with that mask, while the tickle pipe stays in it as the constructor put it there; a
registered event has a scheduler and a fiber or a callback, but not both, and an event that is
not registered has an empty context. From there no call stops the process, unless the fiber
that calls `addEvent` is not running; and a call whose `epoll_ctl` fails changes nothing. -/
theorem event_table (tickle : Fd) (as : List (Action S F C)) (m : IOManager S F C)
    (hr : Runs.run step (init tickle) as = some m) :
    m.pendingEventCount.toNat = ∑ fd, bitsSet (m.fdContexts fd).events ∧
    (∀ fd, fd ≠ tickle → m.epoll fd = if (m.fdContexts fd).events ≠ 0 then
      some ⟨EPOLLET ||| (m.fdContexts fd).events, .ptr fd⟩ else none) ∧
    m.epoll tickle = some ⟨EPOLLIN ||| EPOLLET, .fd tickle⟩ ∧
    (m.fdContexts tickle).events = 0 ∧
    (∀ fd event ctx, (m.fdContexts fd).getContext event = .ok ctx →
      ((m.fdContexts fd).events &&& event.bits ≠ 0 →
        ctx.scheduler.isSome ∧ (ctx.fiber.isSome ↔ ctx.cb = none)) ∧
      ((m.fdContexts fd).events &&& event.bits = 0 → ctx = {})) ∧
    (∀ a e, Proper m a → Current m a → call m a = .error e → e = .fiberState ∧
      ∃ fd event caller ok, a = .addEvent fd event none caller ok ∧ caller.state ≠ .exec) ∧
    (∀ a out, Proper m a → call m a = .ok out → out.ctl = some false → out.m = m) := by
  obtain ⟨T, hq, rfl⟩ := run_kept hr
  refine ⟨?_, fun fd hfd => ?_, ?_, hq, fun fd event ctx hctx => ?_, fun a e hp hc he => ?_,
    fun a out hp ho hctl => ?_⟩
  · rw [pending_toNat]
    exact Finset.sum_congr rfl fun fd _ => (bitsSet_mask (T fd)).symm
  · show epollOf tickle T fd = if (T fd).mask ≠ 0 then _ else _
    simp only [epollOf, if_neg hfd]
    rfl
  · exact (epollOf_of_eq tickle hq).trans (if_pos rfl)
  · show ((T fd).mask &&& event.bits ≠ 0 → _) ∧ ((T fd).mask &&& event.bits = 0 → _)
    rw [ne_eq, mask_and_eq_zero_iff]
    cases event with
    | none => cases hctx
    | read => cases hctx; exact context_iff (T fd).read
    | write => cases hctx; exact context_iff (T fd).write
  · have heff := call_effect hq hp
    rw [he] at heff
    cases heff with
    | notExec fd event caller ok ha hx => exact ⟨rfl, fd, event, caller, ok, ha, hx⟩
    | stale ha => exact absurd hc ha
  · have heff := call_effect hq hp
    rw [ho] at heff
    cases heff with
    | nothing ctl => rfl
    | add | del | release => cases hctl

theorem event_table_error_dispatch :
    ∃ m : IOManager ℕ ℕ ℕ, Runs.run step (init 5)
        [.addEvent 7 .read none ⟨some 1, 2, .exec⟩ true,
          .addEvent 7 .write (some 3) ⟨some 1, 2, .exec⟩ true,
          .delEvent 7 .read false, .dispatch 7 EPOLLERR true] = some m ∧
      m.pendingEventCount.toNat = ∑ fd, bitsSet (m.fdContexts fd).events := by
  obtain ⟨m, hm⟩ := Option.isSome_iff_exists.mp (show (Runs.run step
    (init 5 : IOManager ℕ ℕ ℕ) [.addEvent 7 .read none ⟨some 1, 2, .exec⟩ true,
      .addEvent 7 .write (some 3) ⟨some 1, 2, .exec⟩ true,
      .delEvent 7 .read false, .dispatch 7 EPOLLERR true]).isSome = true by decide)
  exact ⟨m, hm, (event_table 5 _ m hm).1⟩

/-- The read end of the tickle pipe is in the kernel's set with no event registered. -/
theorem tickle_without_event :
    ¬ ∀ (as : List (Action ℕ ℕ ℕ)) (m : IOManager ℕ ℕ ℕ), Runs.run step (init 5) as = some m →
      ∀ fd, (m.epoll fd).isSome ↔ (m.fdContexts fd).events ≠ 0 := fun h =>
  (h [] (init 5) rfl 5).mp rfl rfl

end Sylar.IoInv
