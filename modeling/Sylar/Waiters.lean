import Sylar.IoInv

/-!
Every waiter is woken once.

The calls are run together with a log of what they do: which registration a successful
`addEvent` makes, which one a successful `delEvent` ends, and every call of `schedule`. The
log of one event of one descriptor turns out to be a sequence of registrations, each followed
at once by its end.
-/

namespace Sylar.Waiters

open Lib Lib.Tally Sylar.FiberModel Sylar.IoModel Sylar.EventTable Sylar.EventOps Sylar.IoInv
  IOManager

variable {S F C : Type}

/-! ### The log -/

inductive Obs (S F C : Type)
  | registered (fd : Fd) (event : Event) (scheduler : Option S) (entry : FiberAndThread F C)
  | scheduled (fd : Fd) (event : Event) (scheduler : S) (entry : FiberAndThread F C)
  | deleted (fd : Fd) (event : Event)

def Obs.about (fd : Fd) (event : Event) : Obs S F C → Bool
  | .registered fd' event' _ _ => fd' = fd ∧ event' = event
  | .scheduled fd' event' _ _ => fd' = fd ∧ event' = event
  | .deleted fd' event' => fd' = fd ∧ event' = event

def Obs.isRegistered : Obs S F C → Bool
  | .registered .. => true
  | _ => false

def Obs.isScheduled : Obs S F C → Bool
  | .scheduled .. => true
  | _ => false

def Obs.isDeleted : Obs S F C → Bool
  | .deleted .. => true
  | _ => false

def ofHandoff (h : Handoff S F C) : Obs S F C := .scheduled h.fd h.event h.scheduler h.entry

/-- What the caller of `addEvent` wants to be scheduled. -/
def requested (cb : Option C) (caller : Caller S F) : FiberAndThread F C :=
  if cb.isSome then { cb := cb } else { fiber := some caller.fiber }

/-- What is seen of a call from outside. -/
def observe (a : Action S F C) (out : Out S F C) : List (Obs S F C) :=
  (match a with
    | .addEvent fd event cb caller _ =>
      if out.ret then [.registered fd event caller.scheduler (requested cb caller)] else []
    | .delEvent fd event _ => if out.ret then [.deleted fd event] else []
    | _ => []) ++ out.handoffs.map ofHandoff

structure History (S F C : Type) where
  m : IOManager S F C
  log : List (Obs S F C)

def record (h : History S F C) (a : Action S F C) : Option (History S F C) :=
  if Proper h.m a ∧ Current h.m a then
    match call h.m a with
    | .ok out => some ⟨out.m, h.log ++ observe a out⟩
    | .error _ => none
  else none

/-! ### One call and one event -/

/-- The log of a registration that has ended: by a call of `schedule`, or by `delEvent`. -/
def lifetime (fd : Fd) (event : Event) (x : S × FiberAndThread F C × Bool) :
    List (Obs S F C) :=
  [.registered fd event (some x.1) x.2.1,
    if x.2.2 then .scheduled fd event x.1 x.2.1 else .deleted fd event]

/-- The log of a registration that is still set. -/
def opened (fd : Fd) (event : Event) (w : Option (Waiter S F C)) : List (Obs S F C) :=
  w.toList.map fun w => .registered fd event (some w.scheduler) w.entry

/-- What the log of one event says when a call changes its waiter. -/
inductive Moves (a : Action S F C) (fd : Fd) (event : Event) :
    Option (Waiter S F C) → Option (Waiter S F C) → List (Obs S F C) → Prop
  | same (w : Option (Waiter S F C)) : Moves a fd event w w []
  | opens (x : Waiter S F C) : Moves a fd event none (some x) (opened fd event (some x))
  | wakes (x : Waiter S F C) (ha : Releases a fd) : Moves a fd event (some x) none
      [.scheduled fd event x.scheduler x.entry]
  | drops (x : Waiter S F C) (ok : Bool) (ha : a = .delEvent fd event ok) :
      Moves a fd event (some x) none [.deleted fd event]

/-- The log of one event is a sequence of ended registrations and the one still set. -/
def Lifetimes (fd : Fd) (event : Event) (w : Option (Waiter S F C)) (l : List (Obs S F C)) :
    Prop :=
  ∃ done : List (S × FiberAndThread F C × Bool),
    l = done.flatMap (lifetime fd event) ++ opened fd event w

lemma Moves.lifetimes {a : Action S F C} {fd : Fd} {event : Event}
    {w w' : Option (Waiter S F C)} {l l' : List (Obs S F C)} (h : Moves a fd event w w' l')
    (hl : Lifetimes fd event w l) : Lifetimes fd event w' (l ++ l') := by
  obtain ⟨done, rfl⟩ := hl
  cases h with
  | same w => exact ⟨done, by simp⟩
  | opens x => exact ⟨done, by simp [opened]⟩
  | wakes x ha => exact ⟨done ++ [(x.scheduler, x.entry, true)], by simp [opened, lifetime]⟩
  | drops x ok ha => exact ⟨done ++ [(x.scheduler, x.entry, false)], by simp [opened, lifetime]⟩

lemma get_set (s : Slot S F C) {event : Event} (he : event ≠ .none)
    (w : Option (Waiter S F C)) (event' : Event) :
    (s.set event w).get event' = if event' = event then w else s.get event' := by
  cases event <;> cases event' <;> first | exact absurd rfl he | rfl

lemma get_update_set (T : Table S F C) (fd : Fd) {event : Event} (he : event ≠ .none)
    (w : Option (Waiter S F C)) (fd' : Fd) (event' : Event) :
    (Function.update T fd ((T fd).set event w) fd').get event' =
      if fd = fd' ∧ event = event' then w else (T fd').get event' := by
  by_cases hfd : fd = fd'
  · subst hfd
    rw [Function.update_self, get_set _ he]
    simp [eq_comm]
  · rw [Function.update_of_ne (Ne.symm hfd), if_neg fun h => hfd h.1]

lemma moves_set {a : Action S F C} (T : Table S F C) {fd : Fd} {event : Event} (he : event ≠ .none)
    {w : Option (Waiter S F C)} {o : Obs S F C}
    (ho : ∀ fd' event', o.about fd' event' = decide (fd = fd' ∧ event = event'))
    (h : Moves a fd event ((T fd).get event) w [o]) (fd' : Fd) (event' : Event) :
    Moves a fd' event' ((T fd').get event')
      ((Function.update T fd ((T fd).set event w) fd').get event')
      ([o].filter (Obs.about fd' event')) := by
  rw [get_update_set T fd he, List.filter_singleton, ho]
  by_cases hk : fd = fd' ∧ event = event'
  · obtain ⟨rfl, rfl⟩ := hk
    simpa using h
  · simpa [hk] using Moves.same _

lemma filter_handoffs (fd : Fd) (s : Slot S F C) (r w : Bool) (event : Event) :
    ((handoffs fd s r w).map ofHandoff).filter (Obs.about fd event) =
      if (event = .read ∧ r = true) ∨ (event = .write ∧ w = true) then
        ((s.get event).toList.map fun x => ofHandoff (handoff fd event x)) else [] := by
  obtain ⟨_ | x, _ | y⟩ := s <;> cases event <;> cases r <;> cases w <;>
    simp [handoffs, Slot.get, handoff, ofHandoff, Obs.about]

lemma moves_clear {a : Action S F C} (T : Table S F C) {fd : Fd} (ha : Releases a fd)
    (r w : Bool) (fd' : Fd) (event : Event) :
    Moves a fd' event ((T fd').get event)
      ((Function.update T fd ((T fd).clear r w) fd').get event)
      (((handoffs fd (T fd) r w).map ofHandoff).filter (Obs.about fd' event)) := by
  by_cases hfd : fd = fd'
  · subst hfd
    rw [Function.update_self, filter_handoffs]
    split
    · rename_i hc
      have hnone : ((T fd).clear r w).get event = none := by
        rcases hc with ⟨rfl, rfl⟩ | ⟨rfl, rfl⟩ <;> rfl
      rw [hnone]
      cases hx : (T fd).get event with
      | none => exact .same none
      | some x => exact .wakes x ha
    · rename_i hc
      have hsame : ((T fd).clear r w).get event = (T fd).get event := by
        cases event with
        | none => rfl
        | read => cases r <;> simp_all [Slot.clear, Slot.get]
        | write => cases w <;> simp_all [Slot.clear, Slot.get]
      rw [hsame]
      exact .same _
  · have hout : ((handoffs fd (T fd) r w).map ofHandoff).filter (Obs.about fd' event) = [] := by
      rw [List.filter_eq_nil_iff]
      intro o ho
      obtain ⟨h, hh, rfl⟩ := List.mem_map.mp ho
      have : h.fd = fd := by
        simp only [handoffs, List.mem_append] at hh
        rcases hh with hh | hh <;> split at hh <;> simp_all [handoff]
        all_goals obtain ⟨x, -, rfl⟩ := hh; rfl
      simp [ofHandoff, Obs.about, this, hfd]
    rw [Function.update_of_ne (Ne.symm hfd), hout]
    exact .same _

/-! ### Runs -/

/-- The number of registrations in the log is that of the calls of `schedule`, of the
deletions and of the registrations still set. -/
def Balanced (T : Table S F C) (log : List (Obs S F C)) : Prop :=
  log.countP Obs.isRegistered =
    log.countP Obs.isScheduled + log.countP Obs.isDeleted + tally Slot.count T

/-- The effect of a call on the log. -/
structure Recorded (tickle : Fd) (T T' : Table S F C) (a : Action S F C) (out : Out S F C) :
    Prop where
  quiet : Quiet tickle T'
  kept : out.m = conc tickle T'
  moves : ∀ fd event, Moves a fd event ((T fd).get event) ((T' fd).get event)
    ((observe a out).filter (Obs.about fd event))
  balanced : ∀ log, Balanced T log → Balanced T' (log ++ observe a out)

lemma handoffs_counts (fd : Fd) (s : Slot S F C) (r w : Bool)
    (hr : r = true → s.read ≠ none) (hw : w = true → s.write ≠ none) :
    ((handoffs fd s r w).map ofHandoff).countP Obs.isRegistered = 0 ∧
    ((handoffs fd s r w).map ofHandoff).countP Obs.isDeleted = 0 ∧
    ((handoffs fd s r w).map ofHandoff).countP Obs.isScheduled + (s.clear r w).count =
      s.count := by
  obtain ⟨_ | x, _ | y⟩ := s <;> cases r <;> cases w <;>
    simp_all [handoffs, ofHandoff, Slot.clear, Slot.count, List.countP_cons, Obs.isRegistered,
      Obs.isDeleted, Obs.isScheduled]

lemma entry_waiterOf (s : S) (cb : Option C) (caller : Caller S F) :
    (waiterOf s cb caller.fiber).entry = requested cb caller := by
  cases cb <;> rfl

lemma effect_recorded {tickle : Fd} {T : Table S F C} {a : Action S F C} {out : Out S F C}
    (hq : Quiet tickle T) (h : Effect tickle T a (.ok out)) :
    ∃ T', Recorded tickle T T' a out := by
  cases h with
  | nothing ctl =>
    have hobs : observe a (⟨conc tickle T, false, ctl, []⟩ : Out S F C) = [] := by
      cases a <;> rfl
    refine ⟨T, hq, rfl, fun fd event => ?_, fun log hl => ?_⟩
    · rw [hobs]; exact .same _
    · rwa [hobs, List.append_nil]
  | add fd event cb caller s ha he hfd hs hfree =>
    set x := waiterOf s cb caller.fiber with hx
    have hobs (m : IOManager S F C) : observe a (⟨m, true, some true, []⟩ : Out S F C) =
        [.registered fd event (some x.scheduler) x.entry] := by
      subst ha
      simp only [observe, if_true, List.map_nil, List.append_nil, hs, hx, entry_waiterOf]
      rfl
    refine ⟨_, hq.update fun h => absurd h hfd, rfl, ?_, fun log hl => ?_⟩
    · rw [hobs]
      refine moves_set T he (fun fd' event' => rfl) ?_
      rw [hfree]
      exact .opens x
    · have hcount := count_set_some (T fd) he hfree x
      have hsum := tally_update Slot.count T fd ((T fd).set event (some x))
      rw [hobs]
      simp only [Balanced, List.countP_append, List.countP_singleton, Obs.isRegistered,
        Obs.isScheduled, Obs.isDeleted] at hl ⊢
      simp only [if_true, Bool.false_eq_true, if_false]
      omega
  | del fd event x ha hx =>
    have he : event ≠ .none := by rintro rfl; cases hx
    have hobs (m : IOManager S F C) : observe a (⟨m, true, some true, []⟩ : Out S F C) =
        [.deleted fd event] := by
      subst ha; rfl
    refine ⟨_, Quiet.set_none hq fd event, rfl, ?_, fun log hl => ?_⟩
    · rw [hobs]
      refine moves_set T he (fun fd' event' => rfl) ?_
      rw [hx]
      exact .drops x true ha
    · have hcount := count_set_none (T fd) hx
      have hsum := tally_update Slot.count T fd ((T fd).set event none)
      rw [hobs]
      simp only [Balanced, List.countP_append, List.countP_singleton, Obs.isRegistered,
        Obs.isScheduled, Obs.isDeleted] at hl ⊢
      simp only [if_true, Bool.false_eq_true, if_false]
      omega
  | release fd r w ha hr hw =>
    have hobs (m : IOManager S F C) (l : List (Handoff S F C)) :
        observe a (⟨m, true, some true, l⟩ : Out S F C) = l.map ofHandoff := by
      cases a with
      | addEvent | delEvent => cases ha
      | cancelEvent | cancelAll | dispatch => rfl
    refine ⟨_, Quiet.clear hq fd r w, rfl, fun fd' event => ?_, fun log hl => ?_⟩
    · rw [hobs]
      exact moves_clear T ha r w fd' event
    · obtain ⟨h1, h2, h3⟩ := handoffs_counts fd (T fd) r w hr hw
      have hsum := tally_update Slot.count T fd ((T fd).clear r w)
      rw [hobs]
      simp only [Balanced, List.countP_append] at hl ⊢
      omega

/-- The manager keeps a table, and the log is that of its waiters. -/
structure Inv (tickle : Fd) (T : Table S F C) (h : History S F C) : Prop where
  quiet : Quiet tickle T
  kept : h.m = conc tickle T
  lifetimes : ∀ fd event, Lifetimes fd event ((T fd).get event) (h.log.filter (Obs.about fd event))
  balanced : Balanced T h.log

lemma record_cases {tickle : Fd} {T : Table S F C} {h h' : History S F C} {a : Action S F C}
    (hi : Inv tickle T h) (hs : record h a = some h') :
    ∃ T' out, Recorded tickle T T' a out ∧ h' = ⟨out.m, h.log ++ observe a out⟩ := by
  obtain ⟨m, log⟩ := h
  obtain rfl := hi.kept
  simp only [record, Option.ite_none_right_eq_some] at hs
  obtain ⟨⟨hp, -⟩, hs⟩ := hs
  have heff := call_effect hi.quiet hp
  split at hs
  · rename_i out hout
    rw [hout] at heff
    obtain ⟨T', hT'⟩ := effect_recorded hi.quiet heff
    exact ⟨T', out, hT', (Option.some.inj hs).symm⟩
  · cases hs

lemma Recorded.inv {tickle : Fd} {T T' : Table S F C} {h : History S F C} {a : Action S F C}
    {out : Out S F C} (hi : Inv tickle T h) (hT : Recorded tickle T T' a out) :
    Inv tickle T' ⟨out.m, h.log ++ observe a out⟩ where
  quiet := hT.quiet
  kept := hT.kept
  lifetimes fd event := by
    rw [List.filter_append]
    exact (hT.moves fd event).lifetimes (hi.lifetimes fd event)
  balanced := hT.balanced h.log hi.balanced

lemma run_record_inv {tickle : Fd} {as : List (Action S F C)} {h : History S F C}
    (hr : Runs.run record ⟨init tickle, []⟩ as = some h) : ∃ T, Inv tickle T h := by
  refine Runs.run_inv (I := fun h => ∃ T, Inv tickle T h) ?_ ?_ hr
  · rintro h a h' ⟨T, hi⟩ hs
    obtain ⟨T', out, hT, rfl⟩ := record_cases hi hs
    exact ⟨T', hT.inv hi⟩
  · refine ⟨fun _ => {}, (mask_eq_zero_iff _).mpr ⟨rfl, rfl⟩, init_eq_conc tickle,
      fun fd event => ⟨[], ?_⟩, ?_⟩
    · cases event <;> rfl
    · have hzero : tally Slot.count (fun _ : Fd => ({} : Slot S F C)) = 0 :=
        tally_const_eq_zero rfl
      simp [Balanced, hzero]

/-- **Every waiter is woken exactly once.** In every state a sequence of calls leads to, the
log of each event of each descriptor is a sequence of registrations, each followed at once by
its only end: a call of `schedule` on the scheduler and with the fiber or callback it was
registered with, or a deletion; after these comes the registration that is still set, if there
is one, and it is what the context holds. The next call ends a registration by a deletion if
it is `delEvent`, by one call of `schedule` if it is `cancelEvent`, `cancelAll` or a dispatch,
and says nothing about a registration it leaves set. So the successful calls of `addEvent` are
as many as the waiters scheduled, the registrations deleted and those still set. -/
theorem waiters_exactly_once (tickle : Fd) (as : List (Action S F C)) (h : History S F C)
    (hr : Runs.run record ⟨init tickle, []⟩ as = some h) :
    (∀ fd event, event ≠ .none → ∃ (done : List (S × FiberAndThread F C × Bool))
        (w : Option (Waiter S F C)),
      h.log.filter (Obs.about fd event) =
        done.flatMap (lifetime fd event) ++ opened fd event w ∧
      (h.m.fdContexts fd).getContext event = .ok (context w) ∧
      ((h.m.fdContexts fd).events &&& event.bits ≠ 0 ↔ w.isSome)) ∧
    (∀ a h', record h a = some h' → ∃ new, h'.log = h.log ++ new ∧ ∀ fd event,
      (h.m.fdContexts fd).events &&& event.bits ≠ 0 →
      ((h'.m.fdContexts fd).events &&& event.bits ≠ 0 →
        new.filter (Obs.about fd event) = []) ∧
      ((h'.m.fdContexts fd).events &&& event.bits = 0 →
        (∃ ok, a = .delEvent fd event ok ∧
          new.filter (Obs.about fd event) = [.deleted fd event]) ∨
        (Releases a fd ∧ ∃ w : Waiter S F C,
          (h.m.fdContexts fd).getContext event = .ok w.context ∧
          new.filter (Obs.about fd event) = [.scheduled fd event w.scheduler w.entry]))) ∧
    h.log.countP Obs.isRegistered =
      h.log.countP Obs.isScheduled + h.log.countP Obs.isDeleted +
        ∑ fd, bitsSet (h.m.fdContexts fd).events := by
  obtain ⟨T, hi⟩ := run_record_inv hr
  obtain ⟨m, log⟩ := h
  obtain rfl : m = conc tickle T := hi.kept
  have hctx (fd : Fd) {event : Event} (he : event ≠ .none) :
      (concCtx fd (T fd)).getContext event = .ok (context ((T fd).get event)) := by
    cases event <;> first | exact absurd rfl he | rfl
  have hbit (T : Table S F C) (fd : Fd) (event : Event) :
      ((conc tickle T).fdContexts fd).events &&& event.bits ≠ 0 ↔ (T fd).get event ≠ none :=
    not_congr (mask_and_eq_zero_iff (T fd) event)
  refine ⟨fun fd event he => ?_, fun a h' hs => ?_, ?_⟩
  · obtain ⟨done, hdone⟩ := hi.lifetimes fd event
    refine ⟨done, (T fd).get event, hdone, hctx fd he, ?_⟩
    rw [hbit, Option.isSome_iff_ne_none]
  · obtain ⟨T', out, hT, rfl⟩ := record_cases hi hs
    refine ⟨observe a out, rfl, fun fd event hset => ?_⟩
    have hmoves := hT.moves fd event
    have hset' := (hbit T fd event).mp hset
    have he : event ≠ .none := by rintro rfl; exact hset' rfl
    dsimp only
    rw [hT.kept, hbit, not_not.symm.trans (not_congr (hbit T' fd event)), not_not]
    generalize hw : (T fd).get event = w at hmoves hset'
    generalize (T' fd).get event = w' at hmoves ⊢
    generalize (observe a out).filter (Obs.about fd event) = new at hmoves ⊢
    cases hmoves with
    | same w => exact ⟨fun _ => rfl, fun h => absurd h hset'⟩
    | opens x => exact absurd rfl hset'
    | wakes x ha =>
      refine ⟨fun h => absurd rfl h, fun _ => .inr ⟨ha, x, ?_, rfl⟩⟩
      rw [conc_fdContexts, hctx fd he, hw]
      rfl
    | drops x ok ha => exact ⟨fun h => absurd rfl h, fun _ => .inl ⟨ok, ha, rfl⟩⟩
  · have hsum : tally Slot.count T = ∑ fd, bitsSet ((conc tickle T).fdContexts fd).events :=
      Finset.sum_congr rfl fun fd _ => (bitsSet_mask (T fd)).symm
    rw [← hsum]
    exact hi.balanced

theorem waiters_exactly_once_cancelled :
    ∃ h : History ℕ ℕ ℕ, Runs.run record ⟨init 5, []⟩
        [.addEvent 7 .read none ⟨some 1, 2, .exec⟩ true,
          .addEvent 7 .write (some 3) ⟨some 1, 2, .exec⟩ true, .delEvent 7 .write true,
          .cancelAll 7 true, .addEvent 7 .read none ⟨some 1, 2, .exec⟩ true] = some h ∧
      h.log.countP Obs.isRegistered =
        h.log.countP Obs.isScheduled + h.log.countP Obs.isDeleted +
          ∑ fd, bitsSet (h.m.fdContexts fd).events := by
  obtain ⟨h, hh⟩ := Option.isSome_iff_exists.mp (show (Runs.run record
    (⟨init 5, []⟩ : History ℕ ℕ ℕ) [.addEvent 7 .read none ⟨some 1, 2, .exec⟩ true,
      .addEvent 7 .write (some 3) ⟨some 1, 2, .exec⟩ true, .delEvent 7 .write true,
      .cancelAll 7 true, .addEvent 7 .read none ⟨some 1, 2, .exec⟩ true]).isSome = true by decide)
  exact ⟨h, hh, (waiters_exactly_once 5 _ h hh).2.2⟩

end Sylar.Waiters
