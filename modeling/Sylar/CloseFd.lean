import Sylar.IoInv
import Sylar.HookModel

/-!
The hooked `close` and the registrations of the descriptor it closes.

Three tables know the descriptor: the contexts of `FdManager`, the `FdContext`s of the manager, and
the kernel's epoll set, which forgets a closed descriptor by itself. `close` calls `cancelAll`
only if `FdManager` has a context, and goes on when `cancelAll` fails.
-/

namespace Sylar.CloseFd

open Lib Lib.Tally Sylar.FiberModel Sylar.IoModel Sylar.EventTable Sylar.EventOps Sylar.IoInv
open Sylar.HookModel (World Libc)

variable {S F C : Type}

structure St (S F C : Type) where
  m : IOManager S F C
  w : World

/-- The kernel drops a closed descriptor from the epoll set, unless a duplicate is still open. -/
def forget (forgets : Bool) (m : IOManager S F C) (fd : Fd) : IOManager S F C :=
  if forgets then { m with epoll := Function.update m.epoll fd none } else m

/-- The hooked `close(fd)` on a thread of the manager. `ok` is the outcome of the `epoll_ctl` in
`cancelAll`. -/
def close (st : St S F C) (fd : Fd) (ok : Bool) (close_f : Libc) (forgets : Bool) :
    Option (Out S F C × World) :=
  match st.w.get fd.val, HookModel.close true st.w fd.val close_f with
  | .ok none, .ok (_, w) => some (⟨forget forgets st.m fd, false, none, []⟩, w)
  | .ok (some _), .ok (_, w) =>
    match st.m.cancelAll fd ok with
    | .error _ => none
    | .ok out => some ({ out with m := forget forgets out.m fd }, w)
  | _, _ => none

/-- What is done with the manager, a `close`, or a change of the contexts of `FdManager` and of the
kernel's side by anybody. -/
inductive Action (S F C : Type)
  | io (a : IoInv.Action S F C)
  | close (fd : Fd) (ok : Bool) (close_f : Libc) (forgets : Bool)
  | world (w : World)

/-- The tickle pipe belongs to the manager; nobody else closes it. -/
def step (st : St S F C) : Action S F C → Option (St S F C)
  | .io a => (IoInv.step st.m a).map fun m => { st with m := m }
  | .close fd ok close_f forgets =>
    if fd = st.m.tickleFd then none
    else (close st fd ok close_f forgets).map fun r => ⟨r.1.m, r.2⟩
  | .world w => some { st with w := w }

/-- The call of `schedule` that a registration of the context is waiting for. -/
def waiting (c : FdContext S F C) (event : Event) (ctx : EventContext S F C) :
    Option (Handoff S F C) :=
  if c.events &&& event.bits = 0 then none
  else ctx.scheduler.map fun s =>
    ⟨c.fd, event, s, if ctx.cb.isSome then { cb := ctx.cb } else { fiber := ctx.fiber }⟩

def waiters (c : FdContext S F C) : List (Handoff S F C) :=
  (waiting c .read c.read).toList ++ (waiting c .write c.write).toList

/-- Nothing is left behind: no event is registered, each waiter was scheduled once, the counter has
dropped by their number, `FdManager` has no context, and the number can be registered again. -/
structure Clean (st : St S F C) (fd : Fd) (out : Out S F C) (w : World) : Prop where
  events : (out.m.fdContexts fd).events = 0
  woken : out.handoffs = waiters (st.m.fdContexts fd)
  pending : out.m.pendingEventCount.toNat + (waiters (st.m.fdContexts fd)).length =
    st.m.pendingEventCount.toNat
  data : w.datas fd.val = none
  again : ∀ event cb caller ok, out.m.addEvent fd event cb caller ok ≠ .error .addEvent

/-- A `close` returns and leaves nothing behind. -/
def LeavesNothing (st : St S F C) : Action S F C → Prop
  | .close fd ok close_f forgets =>
    fd ≠ st.m.tickleFd → ∃ out w, close st fd ok close_f forgets = some (out, w) ∧ Clean st fd out w
  | _ => True

/-- A descriptor that is closed has no registrations, or it has a context in `FdManager` and the
`epoll_ctl` of `cancelAll` succeeds. -/
def Cond (st : St S F C) : Action S F C → Prop
  | .close fd ok _ _ =>
    fd ≠ st.m.tickleFd →
      (st.m.fdContexts fd).events = 0 ∨ st.w.datas fd.val ≠ none ∧ ok = true
  | _ => True

/-! ### One close -/

lemma waiting_concCtx (fd : Fd) (s : Slot S F C) (event : Event) {w : Option (Waiter S F C)}
    (hw : s.get event = w) :
    waiting (concCtx fd s) event (context w) = w.map (handoff fd event) := by
  have hbit : (concCtx fd s).events &&& event.bits = 0 ↔ w = none := by
    rw [← hw]
    exact mask_and_eq_zero_iff s event
  unfold waiting
  cases w with
  | none => rw [if_pos (hbit.mpr rfl)]; rfl
  | some x =>
    rw [if_neg fun h => by cases hbit.mp h]
    obtain ⟨sch, f | c⟩ := x <;> rfl

/-- On a table that is kept, these are the calls that `cancelAll` makes. -/
lemma waiters_concCtx (fd : Fd) (s : Slot S F C) :
    waiters (concCtx fd s) = handoffs fd s true true := by
  have hr := waiting_concCtx fd s .read rfl
  have hw := waiting_concCtx fd s .write rfl
  have hread : (concCtx fd s).read = context (s.get .read) := rfl
  have hwrite : (concCtx fd s).write = context (s.get .write) := rfl
  unfold waiters
  rw [hread, hwrite, hr, hw]
  obtain ⟨_ | _, _ | _⟩ := s <;> rfl

lemma length_handoffs (fd : Fd) (s : Slot S F C) : (handoffs fd s true true).length = s.count := by
  obtain ⟨_ | _, _ | _⟩ := s <;> rfl

/-- There is nothing to forget once no event is registered. -/
lemma forget_conc (forgets : Bool) {tickle : Fd} {T : Table S F C} {fd : Fd} (hfd : fd ≠ tickle)
    (h : (T fd).mask = 0) : forget forgets (conc tickle T) fd = conc tickle T := by
  cases forgets with
  | false => rfl
  | true =>
    have hnone : epollOf tickle T fd = none := by
      rw [epollOf_of_eq tickle h, if_neg hfd]
    have hsame : Function.update (epollOf tickle T) fd none = epollOf tickle T :=
      Function.update_eq_self_iff.mpr hnone.symm
    show { conc tickle T with epoll := Function.update (epollOf tickle T) fd none } = conc tickle T
    rw [hsame]
    rfl

lemma forget_fdContexts (forgets : Bool) (m : IOManager S F C) (fd : Fd) :
    (forget forgets m fd).fdContexts = m.fdContexts := by
  cases forgets <;> rfl

/-- The assertions after the first one of `addEvent` are others. -/
lemma fill_ne_duplicate (c : FdContext S F C) (event : Event) (cb : Option C)
    (caller : Caller S F) :
    ((c.getContext event).bind fun ctx => IOManager.fillContext ctx cb caller) ≠
      .error .addEvent := by
  have hfill (ctx : EventContext S F C) : IOManager.fillContext ctx cb caller ≠
      .error .addEvent := by
    unfold IOManager.fillContext
    split
    · nofun
    · dsimp only
      split
      · nofun
      · split <;> nofun
  cases event with
  | none => nofun
  | read => exact hfill c.read
  | write => exact hfill c.write

lemma addEvent_ne_duplicate {m : IOManager S F C} {fd : Fd} (h : (m.fdContexts fd).events = 0)
    (event : Event) (cb : Option C) (caller : Caller S F) (ok : Bool) :
    m.addEvent fd event cb caller ok ≠ .error .addEvent := by
  have hbit : ¬ (m.fdContexts fd).events &&& event.bits ≠ 0 := by
    rw [h]
    exact not_not.mpr BitVec.zero_and
  intro heq
  simp only [IOManager.addEvent, if_neg hbit] at heq
  split at heq
  · cases heq
  · split at heq
    · rename_i e hfill
      cases heq
      exact fill_ne_duplicate _ event cb caller hfill
    · cases heq

lemma get_val (w : World) (fd : Fd) : w.get fd.val = .ok (w.datas fd.val) :=
  HookModel.get_natCast w fd.val

lemma close_conc {tickle : Fd} {T : Table S F C} (hq : Quiet tickle T) (w : World) (fd : Fd)
    (ok : Bool) (close_f : Libc) (forgets : Bool) :
    ∃ out w', close ⟨conc tickle T, w⟩ fd ok close_f forgets = some (out, w') ∧
      w'.datas fd.val = none ∧
      if (T fd).mask ≠ 0 ∧ w.datas fd.val ≠ none ∧ ok = true then
        out.m = forget forgets (conc tickle (Function.update T fd {})) fd ∧
          out.handoffs = handoffs fd (T fd) true true
      else out.m = forget forgets (conc tickle T) fd ∧ out.handoffs = [] := by
  simp only [close, HookModel.close, get_val, Bool.true_eq_false, if_false]
  cases hd : w.datas fd.val with
  | none =>
    refine ⟨_, _, rfl, hd, ?_⟩
    rw [if_neg fun h => h.2.1 rfl]
    exact ⟨rfl, rfl⟩
  | some c =>
    have hdel : (((w.del fd.val).orig close_f).2).datas fd.val = none := by
      simp [World.orig, World.del, World.setData]
    rw [cancelAll_conc hq]
    by_cases hm : (T fd).mask = 0
    · rw [if_pos hm]
      refine ⟨_, _, rfl, hdel, ?_⟩
      rw [if_neg fun h => h.1 hm]
      exact ⟨rfl, rfl⟩
    · rw [if_neg hm]
      cases ok with
      | true =>
        refine ⟨_, _, rfl, hdel, ?_⟩
        rw [if_pos ⟨hm, nofun, rfl⟩]
        exact ⟨rfl, rfl⟩
      | false =>
        refine ⟨_, _, rfl, hdel, ?_⟩
        rw [if_neg fun h => nomatch h.2.2]
        exact ⟨rfl, rfl⟩

lemma empty_mask : ({} : Slot S F C).mask = 0 := (mask_eq_zero_iff _).mpr ⟨rfl, rfl⟩

/-- What `close` leaves when it leaves nothing: the table without the descriptor. -/
lemma clean_of_cond {tickle : Fd} {T : Table S F C} (hq : Quiet tickle T) {w : World} {fd : Fd}
    (hfd : fd ≠ tickle) {ok : Bool} (close_f : Libc) (forgets : Bool)
    (hc : (T fd).mask = 0 ∨ w.datas fd.val ≠ none ∧ ok = true) :
    ∃ out w', close ⟨conc tickle T, w⟩ fd ok close_f forgets = some (out, w') ∧
      Clean ⟨conc tickle T, w⟩ fd out w' ∧ out.m = conc tickle (Function.update T fd {}) := by
  obtain ⟨out, w', hclose, hdata, hout⟩ := close_conc hq w fd ok close_f forgets
  have hmask : (Function.update T fd ({} : Slot S F C) fd).mask = 0 := by
    rw [Function.update_self]
    exact empty_mask
  have hwait : waiters ((conc tickle T).fdContexts fd) = handoffs fd (T fd) true true :=
    waiters_concCtx fd (T fd)
  -- in both cases the table is the one without the registrations, and they were all woken
  obtain ⟨hm, hwoken⟩ : out.m = conc tickle (Function.update T fd {}) ∧
      out.handoffs = handoffs fd (T fd) true true := by
    split at hout
    · rw [hout.1, forget_conc forgets hfd hmask]
      exact ⟨rfl, hout.2⟩
    · rename_i hno
      have h0 : (T fd).mask = 0 := by
        by_contra hne
        exact hno ⟨hne, hc.resolve_left hne⟩
      obtain ⟨hr, hw⟩ := (mask_eq_zero_iff (T fd)).mp h0
      have hslot : T fd = {} := by
        cases hT : T fd with
        | mk r w =>
          rw [hT] at hr hw
          cases hr
          cases hw
          rfl
      have hsame : Function.update T fd {} = T := Function.update_eq_self_iff.mpr hslot.symm
      rw [hout.1, hout.2, forget_conc forgets hfd h0, hsame, hslot]
      exact ⟨rfl, rfl⟩
  have hzero : (out.m.fdContexts fd).events = 0 := by
    rw [hm]
    exact hmask
  refine ⟨out, w', hclose, ⟨hzero, hwoken.trans hwait.symm, ?_, hdata, ?_⟩, hm⟩
  · show out.m.pendingEventCount.toNat + _ = (conc tickle T).pendingEventCount.toNat
    have hsum := tally_update Slot.count T fd {}
    have hcount : ({} : Slot S F C).count = 0 := rfl
    rw [hm, hwait, length_handoffs, pending_toNat, pending_toNat]
    omega
  · exact addEvent_ne_duplicate hzero

/-- A `close` leaves nothing behind exactly when it meets the condition. -/
lemma leavesNothing_iff {tickle : Fd} (st : St S F C) (a : Action S F C) (h : Kept tickle st.m) :
    LeavesNothing st a ↔ Cond st a := by
  cases a with
  | io a => exact Iff.rfl
  | world w => exact Iff.rfl
  | close fd ok close_f forgets =>
    obtain ⟨m, w⟩ := st
    obtain ⟨T, hq, rfl⟩ := h
    refine imp_congr_right fun hfd => ⟨?_, fun hc => ?_⟩
    · rintro ⟨out, w', hclose, hclean⟩
      obtain ⟨out', w'', hclose', -, hout⟩ := close_conc hq w fd ok close_f forgets
      obtain ⟨rfl, rfl⟩ := Prod.mk.inj (Option.some.inj (hclose.symm.trans hclose'))
      by_cases hbad : (T fd).mask ≠ 0 ∧ w.datas fd.val ≠ none ∧ ok = true
      · exact .inr hbad.2
      · rw [if_neg hbad] at hout
        have hzero := hclean.events
        rw [hout.1, forget_fdContexts] at hzero
        exact .inl hzero
    · obtain ⟨out, w', hclose, hclean, -⟩ := clean_of_cond hq hfd close_f forgets hc
      exact ⟨out, w', hclose, hclean⟩

/-! ### Runs -/

lemma step_kept {tickle : Fd} (st : St S F C) (a : Action S F C) (st' : St S F C)
    (h : Kept tickle st.m) (hl : LeavesNothing st a) (hs : step st a = some st') :
    Kept tickle st'.m := by
  have hcond := (leavesNothing_iff st a h).mp hl
  cases a with
  | io a =>
    obtain ⟨m, hm, rfl⟩ := Option.map_eq_some_iff.mp hs
    exact IoInv.step_kept st.m a m h hm
  | world w =>
    cases hs
    exact h
  | close fd ok close_f forgets =>
    obtain ⟨m, w⟩ := st
    obtain ⟨T, hq, rfl⟩ := h
    simp only [step] at hs
    split at hs
    · cases hs
    · rename_i hfd
      obtain ⟨out, w', hclose, -, hm⟩ := clean_of_cond hq hfd close_f forgets (hcond hfd)
      rw [hclose] at hs
      obtain rfl := Option.some.inj hs
      show Kept tickle out.m
      rw [hm]
      exact ⟨_, hq.update fun _ => empty_mask, rfl⟩

/-- **A `close` leaves no registration behind exactly when it cancels them.** In every run from a
new manager, with any contexts in `FdManager` and any changes to them: each hooked `close` leaves
no event registered, has scheduled each waiter once, has lowered the counter by their number and
leaves no context in `FdManager`, so that the number can be registered again, if and only if each
descriptor that is closed has no registrations, or has a context in `FdManager` while the
`epoll_ctl` of `cancelAll` succeeds. -/
theorem close_leaves_nothing_iff (tickle : Fd) (w : World) (as : List (Action S F C)) :
    Runs.Meets step LeavesNothing ⟨IOManager.init tickle, w⟩ as ↔
      Runs.Meets step Cond ⟨IOManager.init tickle, w⟩ as :=
  Runs.meets_congr_of_meets (I := fun st => Kept tickle st.m) step_kept
    (fun st a h => leavesNothing_iff st a h) (init_kept tickle)

/-- A fiber waits for a pipe, which `FdManager` has no context for, and the pipe is closed. -/
theorem pipe_stays_registered :
    ¬ Runs.Meets step LeavesNothing
      (⟨IOManager.init 5, ⟨fun _ => none, ⟨fun _ => none⟩⟩⟩ : St ℕ ℕ ℕ)
      [.io (.addEvent 7 .read none ⟨some 1, 2, .exec⟩ true),
        .close 7 true (fun k => (0, k.setDesc 7 none)) true] := by
  intro h
  obtain ⟨out, w, hclose, hclean⟩ := (h.2 _ rfl).1 (by decide)
  obtain ⟨rfl, -⟩ := Prod.mk.inj (Option.some.inj hclose)
  exact absurd hclean.events (by decide)

end Sylar.CloseFd
