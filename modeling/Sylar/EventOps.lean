import Sylar.EventTable

/-!
Every operation of the manager, computed on a manager that keeps a table.

The equations are complete: they give the answer, the outcome of `epoll_ctl`, the calls of
`schedule` and the table that is kept afterwards, or the fault.
-/

namespace Sylar.EventOps

open Lib.Tally Sylar.FiberModel Sylar.IoModel Sylar.EventTable IOManager FdContext

variable {S F C : Type}

/-- A table in which nothing is registered for the tickle pipe. -/
def Quiet (tickle : Fd) (T : Table S F C) : Prop := (T tickle).mask = 0

lemma Quiet.update {tickle : Fd} {T : Table S F C} (h : Quiet tickle T) {fd : Fd}
    {s : Slot S F C} (hs : fd = tickle → s.mask = 0) : Quiet tickle (Function.update T fd s) := by
  unfold Quiet at h ⊢
  by_cases hfd : fd = tickle
  · subst hfd; rw [Function.update_self]; exact hs rfl
  · rw [Function.update_of_ne (Ne.symm hfd)]; exact h

lemma setFdContext_mkM (epoll : Epoll) (tickle : Fd) (T : Table S F C) (fd : Fd)
    (s : Slot S F C) {p : UInt64}
    (hp : p = UInt64.ofNat (tally Slot.count (Function.update T fd s))) :
    ({ mkM epoll tickle T with pendingEventCount := p }).setFdContext fd (concCtx fd s) =
      mkM epoll tickle (Function.update T fd s) := by
  have hctx : Function.update (fun x => concCtx x (T x)) fd (concCtx fd s) =
      fun x => concCtx x (Function.update T fd s x) := by
    funext x
    by_cases hx : x = fd
    · subst hx; simp
    · simp [Function.update_of_ne hx]
  simp only [mkM, setFdContext, hp, hctx]

/-! ### Triggering -/

lemma triggerEvent_concCtx (fd : Fd) (s : Slot S F C) {event : Event} {w : Waiter S F C}
    (h : s.get event = some w) :
    (concCtx fd s).triggerEvent event =
      .ok (concCtx fd (s.set event none), handoff fd event w) := by
  have hbit : ¬ (concCtx fd s).events &&& event.bits = 0 := fun h0 => by
    rw [(mask_and_eq_zero_iff s event).mp h0] at h
    cases h
  have hmask : (concCtx fd s).events &&& ~~~event.bits = (s.set event none).mask :=
    (mask_set_none s event).symm
  obtain ⟨sch, task⟩ := w
  unfold triggerEvent
  simp only [if_neg hbit, hmask]
  cases event with
  | none => cases h
  | read =>
    obtain ⟨r, w'⟩ := s
    obtain rfl : r = some ⟨sch, task⟩ := h
    cases task <;> rfl
  | write =>
    obtain ⟨r, w'⟩ := s
    obtain rfl : w' = some ⟨sch, task⟩ := h
    cases task <;> rfl

lemma triggerEvent_concCtx_none (fd : Fd) (s : Slot S F C) {event : Event}
    (h : s.get event = none) : (concCtx fd s).triggerEvent event = .error .triggerEvent := by
  have hbit : (concCtx fd s).events &&& event.bits = 0 := (mask_and_eq_zero_iff s event).mpr h
  unfold triggerEvent
  simp only [if_pos hbit]

lemma trigger_mkM (epoll : Epoll) (tickle : Fd) (T : Table S F C) (fd : Fd) {event : Event}
    {w : Waiter S F C} (h : (T fd).get event = some w) :
    (mkM epoll tickle T).trigger fd event =
      .ok (mkM epoll tickle (Function.update T fd ((T fd).set event none)),
        handoff fd event w) := by
  have hctx : (mkM epoll tickle T).fdContexts fd = concCtx fd (T fd) := rfl
  unfold trigger
  rw [hctx, triggerEvent_concCtx fd (T fd) h]
  have hp := pending_sub T fd _ (count_set_none (T fd) h)
  have hset := setFdContext_mkM epoll tickle T fd _ hp
  exact congrArg (fun m => Except.ok (m, handoff fd event w)) hset

lemma trigger_mkM_none (epoll : Epoll) (tickle : Fd) (T : Table S F C) (fd : Fd)
    {event : Event} (h : (T fd).get event = none) :
    (mkM epoll tickle T).trigger fd event = .error .triggerEvent := by
  have hctx : (mkM epoll tickle T).fdContexts fd = concCtx fd (T fd) := rfl
  unfold trigger
  rw [hctx, triggerEvent_concCtx_none fd (T fd) h]

/-! ### Adding and removing one event -/

def waiterOf (s : S) (cb : Option C) (f : F) : Waiter S F C :=
  ⟨s, match cb with
    | some c => .inr c
    | none => .inl f⟩

/-- **`addEvent` on a free place** registers the waiter or changes nothing. Of its
assertions only the one on the state of the calling fiber is left to fail. -/
lemma addEvent_conc {tickle : Fd} {T : Table S F C} (hq : Quiet tickle T) {fd : Fd}
    {event : Event} (he : event ≠ .none) (hfree : (T fd).get event = none) (cb : Option C)
    {caller : Caller S F} {s : S} (hs : caller.scheduler = some s) (ok : Bool) :
    (conc tickle T).addEvent fd event cb caller ok =
      if ok ∧ fd ≠ tickle then
        if cb = none ∧ caller.state ≠ .exec then .error .fiberState
        else .ok ⟨conc tickle (Function.update T fd
          ((T fd).set event (some (waiterOf s cb caller.fiber)))), true, some true, []⟩
      else .ok ⟨conc tickle T, false, some false, []⟩ := by
  have hbit : ¬ (T fd).mask &&& event.bits ≠ 0 :=
    not_not.mpr ((mask_and_eq_zero_iff (T fd) event).mpr hfree)
  set s' := (T fd).set event (some (waiterOf s cb caller.fiber)) with hs'
  have hmask : s'.mask = (T fd).mask ||| event.bits := mask_set_some (T fd) he _
  have hne : s'.mask ≠ 0 := fun h0 => by
    have hget : s'.get event = some (waiterOf s cb caller.fiber) := by
      cases event <;> first | exact absurd rfl he | rfl
    rw [(mask_and_eq_zero_iff s' event).mp (by rw [h0]; exact BitVec.zero_and)] at hget
    cases hget
  have hctl := epollCtl_add tickle T fd s' hne hq ok
  rw [hmask] at hctl
  have hfill : ((⟨context (T fd).read, context (T fd).write, fd,
      (T fd).mask ||| event.bits⟩ : FdContext S F C).getContext event).bind
        (fun ctx => fillContext ctx cb caller) =
      if cb = none ∧ caller.state ≠ .exec then .error .fiberState
      else .ok (context (some (waiterOf s cb caller.fiber))) := by
    have hget : (⟨context (T fd).read, context (T fd).write, fd,
        (T fd).mask ||| event.bits⟩ : FdContext S F C).getContext event = .ok {} := by
      cases event with
      | none => exact absurd rfl he
      | read => rw [getContext, show (T fd).read = none from hfree]; rfl
      | write => rw [getContext, show (T fd).write = none from hfree]; rfl
    rw [hget]
    cases cb with
    | some c => simp [Except.bind, fillContext, hs, context, Waiter.context, waiterOf]
    | none =>
      by_cases hexec : caller.state = .exec <;>
        simp [Except.bind, fillContext, hs, hexec, context, Waiter.context, waiterOf]
  have hctx : (⟨context (T fd).read, context (T fd).write, fd,
      (T fd).mask ||| event.bits⟩ : FdContext S F C).setContext event
        (context (some (waiterOf s cb caller.fiber))) = concCtx fd s' := by
    rw [← hmask, hs']
    cases event <;> first | exact absurd rfl he | rfl
  have hepoll : (conc tickle T).epoll = epollOf tickle T := rfl
  unfold addEvent
  simp only [conc_fdContexts, concCtx, if_neg hbit, BitVec.or_assoc, hepoll, hctl]
  by_cases hok : ok ∧ fd ≠ tickle
  · simp only [if_pos hok, hfill]
    by_cases hexec : cb = none ∧ caller.state ≠ .exec
    · simp only [if_pos hexec]
    · simp only [if_neg hexec, hctx]
      have hp := pending_add T fd s' (count_set_some (T fd) he hfree _)
      have hset := setFdContext_mkM (epollOf tickle (Function.update T fd s')) tickle T fd s' hp
      exact congrArg (fun m => Except.ok (⟨m, true, some true, []⟩ : Out S F C)) hset
  · simp only [if_neg hok]

lemma get_ne_none {s : Slot S F C} {event : Event} {w : Waiter S F C}
    (h : s.get event = some w) : ¬ s.mask &&& event.bits = 0 ∧ s.mask ≠ 0 := by
  have h1 : ¬ s.mask &&& event.bits = 0 := fun h0 => by
    rw [(mask_and_eq_zero_iff s event).mp h0] at h
    cases h
  refine ⟨h1, fun h0 => h1 ?_⟩
  rw [h0]; exact BitVec.zero_and

lemma delEvent_conc_none (tickle : Fd) {T : Table S F C} {fd : Fd} {event : Event}
    (h : (T fd).get event = none) (ok : Bool) :
    (conc tickle T).delEvent fd event ok = .ok ⟨conc tickle T, false, none, []⟩ := by
  unfold delEvent
  exact if_pos ((mask_and_eq_zero_iff (T fd) event).mpr h)

/-- **`delEvent` on a registration** ends it without a call of `schedule`. -/
lemma delEvent_conc {tickle : Fd} {T : Table S F C} (hq : Quiet tickle T) {fd : Fd}
    {event : Event} {w : Waiter S F C} (h : (T fd).get event = some w) (ok : Bool) :
    (conc tickle T).delEvent fd event ok =
      if ok then
        .ok ⟨conc tickle (Function.update T fd ((T fd).set event none)), true, some true, []⟩
      else .ok ⟨conc tickle T, false, some false, []⟩ := by
  obtain ⟨hbit, hne⟩ := get_ne_none h
  set s' := (T fd).set event none with hs'
  have hmask : (T fd).mask &&& ~~~event.bits = s'.mask := (mask_set_none (T fd) event).symm
  have hctl := epollCtl_sub tickle T s' hne hq ok
  have hepoll : (conc tickle T).epoll = epollOf tickle T := rfl
  unfold delEvent
  simp only [conc_fdContexts, concCtx, if_neg hbit, hmask, hepoll, hctl]
  by_cases hok : ok
  · simp only [if_pos hok]
    have hp := pending_sub T fd s' (count_set_none (T fd) h)
    have hset := setFdContext_mkM (epollOf tickle (Function.update T fd s')) tickle T fd s' hp
    have hctx : (⟨context (T fd).read, context (T fd).write, fd, s'.mask⟩ :
        FdContext S F C).setContext event {} = concCtx fd s' := by
      cases event with
      | none => cases h
      | read => rfl
      | write => rfl
    cases event with
    | none => cases h
    | read =>
      simp only [getContext, hctx]
      exact congrArg (fun m => Except.ok (⟨m, true, some true, []⟩ : Out S F C)) hset
    | write =>
      simp only [getContext, hctx]
      exact congrArg (fun m => Except.ok (⟨m, true, some true, []⟩ : Out S F C)) hset
  · simp only [if_neg hok]

lemma cancelEvent_conc_none (tickle : Fd) {T : Table S F C} {fd : Fd} {event : Event}
    (h : (T fd).get event = none) (ok : Bool) :
    (conc tickle T).cancelEvent fd event ok = .ok ⟨conc tickle T, false, none, []⟩ := by
  unfold cancelEvent
  exact if_pos ((mask_and_eq_zero_iff (T fd) event).mpr h)

/-- **`cancelEvent` on a registration** ends it with one call of `schedule`. -/
lemma cancelEvent_conc {tickle : Fd} {T : Table S F C} (hq : Quiet tickle T) {fd : Fd}
    {event : Event} {w : Waiter S F C} (h : (T fd).get event = some w) (ok : Bool) :
    (conc tickle T).cancelEvent fd event ok =
      if ok then
        .ok ⟨conc tickle (Function.update T fd ((T fd).set event none)), true, some true,
          [handoff fd event w]⟩
      else .ok ⟨conc tickle T, false, some false, []⟩ := by
  obtain ⟨hbit, hne⟩ := get_ne_none h
  set s' := (T fd).set event none with hs'
  have hmask : (T fd).mask &&& ~~~event.bits = s'.mask := (mask_set_none (T fd) event).symm
  have hctl := epollCtl_sub tickle T s' hne hq ok
  have hepoll : (conc tickle T).epoll = epollOf tickle T := rfl
  unfold cancelEvent
  simp only [conc_fdContexts, concCtx, if_neg hbit, hmask, hepoll, hctl]
  by_cases hok : ok
  · have htrig := trigger_mkM (epollOf tickle (Function.update T fd s')) tickle T fd h
    simp only [if_pos hok]
    rw [show ({ conc tickle T with epoll := epollOf tickle (Function.update T fd s') }) =
      mkM (epollOf tickle (Function.update T fd s')) tickle T from rfl, htrig]
    rfl
  · simp only [if_neg hok]

/-! ### Releasing several events of one descriptor -/

/-- The two guarded triggers, as `cancelAll` and the dispatch loop make them. -/
lemma triggerIf_mkM (epoll : Epoll) (tickle : Fd) (T : Table S F C) (fd : Fd) (event : Event)
    (b : Bool) (h : b = true → (T fd).get event ≠ none) :
    triggerIf b (mkM epoll tickle T) fd event =
      .ok (mkM epoll tickle (if b then Function.update T fd ((T fd).set event none) else T),
        if b then ((T fd).get event).toList.map (handoff fd event) else []) := by
  cases b with
  | false => rfl
  | true =>
    obtain ⟨w, hw⟩ := Option.ne_none_iff_exists'.mp (h rfl)
    simp only [triggerIf, trigger_mkM epoll tickle T fd hw, hw]
    rfl

lemma triggerIf_mkM_none (epoll : Epoll) (tickle : Fd) (T : Table S F C) (fd : Fd)
    (event : Event) (h : (T fd).get event = none) :
    triggerIf true (mkM epoll tickle T) fd event = .error .triggerEvent := by
  simp only [triggerIf, trigger_mkM_none epoll tickle T fd h]
  rfl

/-- Both guarded triggers in a row, when the chosen events are registered. -/
lemma triggerIf_both (epoll : Epoll) (tickle : Fd) (T : Table S F C) (fd : Fd) (r w : Bool)
    (hr : r = true → (T fd).read ≠ none) (hw : w = true → (T fd).write ≠ none) :
    triggerIf r (mkM epoll tickle T) fd .read =
        .ok (mkM epoll tickle (Function.update T fd ((T fd).clear r false)),
          handoffs fd (T fd) r false) ∧
      triggerIf w (mkM epoll tickle (Function.update T fd ((T fd).clear r false))) fd .write =
        .ok (mkM epoll tickle (Function.update T fd ((T fd).clear r w)),
          handoffs fd (T fd) false w) := by
  constructor
  · rw [triggerIf_mkM epoll tickle T fd .read r hr]
    cases r with
    | true => simp [handoffs, Slot.clear, Slot.set, Slot.get]
    | false =>
      have : Function.update T fd ((T fd).clear false false) = T :=
        Function.update_eq_self_iff.mpr rfl
      simp [handoffs, this]
  · have hget : (Function.update T fd ((T fd).clear r false) fd).get .write = (T fd).write := by
      rw [Function.update_self]; rfl
    rw [triggerIf_mkM epoll tickle _ fd .write w (by rw [hget]; exact hw), hget]
    cases w with
    | true => simp [handoffs, Slot.clear, Slot.set]
    | false => simp [handoffs]

/-- When a chosen event is not registered, the triggers stop the process. -/
lemma triggerIf_both_none (epoll : Epoll) (tickle : Fd) (T : Table S F C) (fd : Fd)
    (r w : Bool) (h : (r = true ∧ (T fd).read = none) ∨ (w = true ∧ (T fd).write = none)) :
    (do let (m, h₁) ← triggerIf r (mkM epoll tickle T) fd .read
        let (m, h₂) ← triggerIf w m fd .write
        pure (⟨m, true, some true, h₁ ++ h₂⟩ : Out S F C)) =
      Except.error Fault.triggerEvent := by
  by_cases hr : r = true ∧ (T fd).read = none
  · rw [hr.1, triggerIf_mkM_none epoll tickle T fd .read hr.2]
    rfl
  · have hw := h.resolve_left hr
    obtain ⟨h1, -⟩ := triggerIf_both epoll tickle T fd r false
      (fun h1 h2 => hr ⟨h1, h2⟩) (fun h => by cases h)
    have hget : (Function.update T fd ((T fd).clear r false) fd).get .write = none := by
      rw [Function.update_self]; exact hw.2
    rw [h1, hw.1]
    simp only [bind, Except.bind, triggerIf_mkM_none epoll tickle _ fd .write hget]

/-- **`cancelAll`** ends every registration of the descriptor with a call of `schedule`. -/
lemma cancelAll_conc {tickle : Fd} {T : Table S F C} (hq : Quiet tickle T) (fd : Fd)
    (ok : Bool) :
    (conc tickle T).cancelAll fd ok =
      if (T fd).mask = 0 then .ok ⟨conc tickle T, false, none, []⟩
      else if ok then
        .ok ⟨conc tickle (Function.update T fd {}), true, some true,
          handoffs fd (T fd) true true⟩
      else .ok ⟨conc tickle T, false, some false, []⟩ := by
  by_cases hm : (T fd).mask = 0
  · rw [if_pos hm]
    unfold cancelAll
    exact if_pos hm
  rw [if_neg hm]
  have hctl := epollCtl_del tickle T hm hq ⟨0, .ptr fd⟩ ok
  have hepoll : (conc tickle T).epoll = epollOf tickle T := rfl
  unfold cancelAll
  rw [if_neg (show ¬ ((conc tickle T).fdContexts fd).events = 0 from hm), hepoll, hctl]
  by_cases hok : ok
  · rw [if_pos hok, if_pos hok]
    have hr : (((conc tickle T).fdContexts fd).events &&& Event.bits .read != 0) =
        (T fd).read.isSome := mask_test (T fd) .read
    have hw : (((T fd).clear (T fd).read.isSome false).mask &&& Event.bits .write != 0) =
        (T fd).write.isSome := mask_test _ .write
    obtain ⟨h1, h2⟩ := triggerIf_both (epollOf tickle (Function.update T fd {})) tickle T fd
      (T fd).read.isSome (T fd).write.isSome (fun h => Option.isSome_iff_ne_none.mp h)
      (fun h => Option.isSome_iff_ne_none.mp h)
    have hclear : (T fd).clear (T fd).read.isSome (T fd).write.isSome = {} := by
      obtain ⟨_ | _, _ | _⟩ := T fd <;> rfl
    have hcalls : handoffs fd (T fd) (T fd).read.isSome false ++
        handoffs fd (T fd) false (T fd).write.isSome = handoffs fd (T fd) true true := by
      obtain ⟨_ | _, _ | _⟩ := T fd <;> rfl
    have hmk (epoll : Epoll) : { conc tickle T with epoll := epoll } = mkM epoll tickle T := rfl
    have hctx (epoll : Epoll) (U : Table S F C) :
        ((mkM epoll tickle U).fdContexts fd).events = (U fd).mask := rfl
    simp only [hmk, hr, h1, bind, Except.bind, hctx, Function.update_self, hw, h2, hclear, hcalls]
    rw [if_pos ((mask_eq_zero_iff _).mpr ⟨rfl, rfl⟩)]
    rfl
  · simp only [if_neg hok]

/-! ### Dispatch -/

/-- The kernel reports the event, or an error while it is registered. -/
def Wanted (registered events : Mask) (event : Event) : Prop :=
  events &&& event.bits ≠ 0 ∨
    (events &&& (EPOLLERR ||| EPOLLHUP) ≠ 0 ∧ registered &&& event.bits ≠ 0)

instance (registered events : Mask) (event : Event) :
    Decidable (Wanted registered events event) :=
  inferInstanceAs (Decidable (_ ∨ _))

lemma withErrors_and (registered events : Mask) (event : Event) :
    withErrors registered events &&& event.bits = 0 ↔ ¬ Wanted registered events event := by
  have hor (x y z : Mask) : (x ||| y) &&& z = 0 ↔ x &&& z = 0 ∧ y &&& z = 0 := by
    rw [BitVec.and_or_distrib_right]; exact BitVec.or_eq_zero_iff
  have hsub : (EPOLLIN ||| EPOLLOUT) &&& registered &&& event.bits =
      registered &&& event.bits := by
    have hz : (EPOLLIN ||| EPOLLOUT) &&& event.bits = event.bits := by
      cases event <;> decide
    rw [BitVec.and_comm (EPOLLIN ||| EPOLLOUT), BitVec.and_assoc, hz]
  unfold withErrors Wanted
  by_cases herr : events &&& (EPOLLERR ||| EPOLLHUP) = 0
  · simp [herr]
  · rw [if_neg herr, hor, hsub]
    simp only [ne_eq, herr, not_false_eq_true, true_and, not_or, not_not]

def chosen (r w : Bool) : Mask :=
  (if r then Event.bits .read else 0) ||| (if w then Event.bits .write else 0)

lemma realEvents_eq (registered events : Mask) :
    realEvents registered events =
      chosen (decide (Wanted registered events .read))
        (decide (Wanted registered events .write)) := by
  have hr : withErrors registered events &&& EPOLLIN = 0 ↔ ¬ Wanted registered events .read :=
    withErrors_and registered events .read
  have hw : withErrors registered events &&& EPOLLOUT = 0 ↔ ¬ Wanted registered events .write :=
    withErrors_and registered events .write
  have hite (P Q : Prop) [Decidable P] [Decidable Q] (h : P ↔ ¬ Q) (x : Mask) :
      (if P then 0 else x) = if decide Q then x else 0 := by
    by_cases hq : Q <;> simp [h, hq]
  unfold realEvents chosen
  rw [hite _ _ hr, hite _ _ hw]

lemma chosen_read (r w : Bool) : (chosen r w &&& Event.bits .read != 0) = r := by
  cases r <;> cases w <;> decide

lemma chosen_write (r w : Bool) : (chosen r w &&& Event.bits .write != 0) = w := by
  cases r <;> cases w <;> decide

lemma mask_and_chosen (s : Slot S F C) (r w : Bool) :
    s.mask &&& chosen r w = 0 ↔ (r = true → s.read = none) ∧ (w = true → s.write = none) := by
  obtain ⟨_ | _, _ | _⟩ := s <;> cases r <;> cases w <;>
    simp [Slot.mask, chosen, Event.bits]

lemma mask_diff_chosen (s : Slot S F C) (r w : Bool) :
    s.mask &&& ~~~chosen r w = (s.clear r w).mask := by
  obtain ⟨_ | _, _ | _⟩ := s <;> cases r <;> cases w <;>
    simp [Slot.mask, Slot.clear, chosen, Event.bits]

/-- **Dispatch** of an entry that stands for the events `r` and `w`. If neither is
registered, or `epoll_ctl` fails, it does nothing; if both chosen ones are registered, it
ends them with a call of `schedule` each; if only one of two is, the process stops. -/
lemma dispatch_conc {tickle : Fd} {T : Table S F C} (hq : Quiet tickle T) (fd : Fd)
    (events : Mask) (ok : Bool) {r w : Bool}
    (hr : r = decide (Wanted (T fd).mask events .read))
    (hw : w = decide (Wanted (T fd).mask events .write)) :
    (conc tickle T).dispatch fd events ok =
      if (r = true → (T fd).read = none) ∧ (w = true → (T fd).write = none) then
        .ok ⟨conc tickle T, false, none, []⟩
      else if ok = false then .ok ⟨conc tickle T, false, some false, []⟩
      else if (r = true ∧ (T fd).read = none) ∨ (w = true ∧ (T fd).write = none) then
        .error .triggerEvent
      else .ok ⟨conc tickle (Function.update T fd ((T fd).clear r w)), true, some true,
        handoffs fd (T fd) r w⟩ := by
  have hreal : realEvents (T fd).mask events = chosen r w := by rw [realEvents_eq, hr, hw]
  unfold dispatch
  simp only [conc_fdContexts, concCtx, hreal]
  by_cases hnone : (r = true → (T fd).read = none) ∧ (w = true → (T fd).write = none)
  · rw [if_pos hnone, if_pos ((mask_and_chosen (T fd) r w).mpr hnone)]
  have hover : ¬ (T fd).mask &&& chosen r w = 0 := fun h =>
    hnone ((mask_and_chosen (T fd) r w).mp h)
  have hm : (T fd).mask ≠ 0 := fun h0 => hover (by rw [h0]; exact BitVec.zero_and)
  have hctl := epollCtl_sub tickle T ((T fd).clear r w) hm hq ok
  have hepoll : (conc tickle T).epoll = epollOf tickle T := rfl
  rw [if_neg hnone, if_neg hover, mask_diff_chosen, hepoll, hctl]
  cases ok with
  | false => simp
  | true =>
    have hmk (epoll : Epoll) : { conc tickle T with epoll := epoll } = mkM epoll tickle T := rfl
    simp only [if_true, hmk, chosen_read, chosen_write]
    by_cases hbad : (r = true ∧ (T fd).read = none) ∨ (w = true ∧ (T fd).write = none)
    · rw [if_neg (by decide), if_pos hbad]
      exact triggerIf_both_none _ tickle T fd r w hbad
    · obtain ⟨h1, h2⟩ := triggerIf_both (epollOf tickle (Function.update T fd ((T fd).clear r w)))
        tickle T fd r w (fun h h' => hbad (.inl ⟨h, h'⟩)) (fun h h' => hbad (.inr ⟨h, h'⟩))
      rw [if_neg (by decide), if_neg hbad]
      simp only [bind, Except.bind, h1, h2]
      have hcalls : handoffs fd (T fd) r false ++ handoffs fd (T fd) false w =
          handoffs fd (T fd) r w := by
        simp [handoffs]
      rw [hcalls]
      rfl

end Sylar.EventOps
