import Sylar.IoInv

/-!
The dispatch loop on a batch that `epoll_wait` filled earlier.

Between the return of `epoll_wait` and the lock of the `FdContext`, other threads may change
what is registered for the descriptor. The loop then triggers an event that is no longer
registered when another one of the same entry still is.
-/

namespace Sylar.Batch

open Lib Lib.Tally Sylar.FiberModel Sylar.IoModel Sylar.EventTable Sylar.EventOps Sylar.IoInv
  IOManager

variable {S F C W : Type}

/-- The manager, and the part of the batch each worker has still to go through. -/
structure Batches (S F C W : Type) where
  m : IOManager S F C
  batch : W → List EpollEvent

def start (tickle : Fd) : Batches S F C W := ⟨init tickle, fun _ => []⟩

/-- What a thread does: a call on the table, `epoll_wait` in the idle fiber of a worker, or
the next round of that worker's loop over the batch. -/
inductive Act (S F C W : Type)
  | io (a : Action S F C)
  | epollWait (w : W) (events : List EpollEvent)
  | next (w : W) (ok : Bool)

def member : EpollData → Fd
  | .fd x => x
  | .ptr x => x

/-- The kernel reports members of the set, with events they are registered for and with
`EPOLLERR` and `EPOLLHUP`. -/
def Reported (epoll : Epoll) (e : EpollEvent) : Prop :=
  ∃ r ∈ epoll (member e.data), r.data = e.data ∧ e.events ≠ 0 ∧
    e.events &&& ~~~((r.events &&& (EPOLLIN ||| EPOLLOUT)) ||| EPOLLERR ||| EPOLLHUP) = 0

instance (epoll : Epoll) (e : EpollEvent) : Decidable (Reported epoll e) :=
  inferInstanceAs (Decidable (∃ r ∈ epoll (member e.data), _))

/-- One round of the loop: the entry of the tickle pipe drains the pipe. -/
def dispatchEntry (m : IOManager S F C) (e : EpollEvent) (ok : Bool) :
    Except Fault (Out S F C) :=
  match e.data with
  | .fd _ => .ok ⟨m, false, none, []⟩
  | .ptr fd => m.dispatch fd e.events ok

/-- A call on the table that is not a dispatch is one that `IoInv.Proper` allows; `epoll_wait`
fills at most `MAX_EVNETS` entries, one for each descriptor. -/
def step [DecidableEq W] (b : Batches S F C W) : Act S F C W → Option (Batches S F C W)
  | .io a =>
    match a with
    | .dispatch .. => none
    | a => if Proper b.m a then
        match call b.m a with
        | .ok out => some { b with m := out.m }
        | .error _ => none
      else none
  | .epollWait w events =>
    if b.batch w = [] ∧ events.length ≤ 256 ∧ (events.map EpollEvent.data).Nodup ∧
        ∀ e ∈ events, Reported b.m.epoll e then
      some { b with batch := Function.update b.batch w events }
    else none
  | .next w ok =>
    match b.batch w with
    | [] => none
    | e :: rest =>
      match dispatchEntry b.m e ok with
      | .ok out => some ⟨out.m, Function.update b.batch w rest⟩
      | .error _ => none

/-! ### One round -/

/-- The round on an entry with `events` triggers registered events only, and all of those
that the entry reports. -/
def Safe (m : IOManager S F C) (fd : Fd) (events : Mask) (ok : Bool) : Prop :=
  m.dispatch fd events ok ≠ .error .triggerEvent ∧
  ∀ out, m.dispatch fd events ok = .ok out →
    (∀ h ∈ out.handoffs, (m.fdContexts fd).events &&& h.event.bits ≠ 0) ∧
    ∀ event : Event, events &&& event.bits ≠ 0 → (m.fdContexts fd).events &&& event.bits ≠ 0 →
      ∃ h ∈ out.handoffs, h.fd = fd ∧ h.event = event

/-- All reported events are still registered; or none is, and no error makes the others
count. When `epoll_ctl` fails, no reported event may be registered. -/
def Fresh (registered events : Mask) (ok : Bool) : Prop :=
  (ok = true ∧ ∀ event : Event, events &&& event.bits ≠ 0 → registered &&& event.bits ≠ 0) ∨
  ((∀ event : Event, events &&& event.bits ≠ 0 → registered &&& event.bits = 0) ∧
    (ok = true → events &&& (EPOLLERR ||| EPOLLHUP) ≠ 0 → registered = 0))

lemma mem_handoffs {fd : Fd} {s : Slot S F C} {r w : Bool} {h : Handoff S F C}
    (hh : h ∈ handoffs fd s r w) : s.get h.event ≠ none := by
  obtain ⟨_ | x, _ | y⟩ := s <;> cases r <;> cases w <;> simp_all [handoffs, handoff, Slot.get]
  rcases hh with rfl | rfl <;> simp

lemma handoffs_of_chosen {fd : Fd} {s : Slot S F C} {r w : Bool} {event : Event}
    (hc : (event = .read ∧ r = true) ∨ (event = .write ∧ w = true)) (hs : s.get event ≠ none) :
    ∃ h ∈ handoffs fd s r w, h.fd = fd ∧ h.event = event := by
  obtain ⟨x, hx⟩ := Option.ne_none_iff_exists'.mp hs
  refine ⟨handoff fd event x, ?_, rfl, rfl⟩
  rcases hc with ⟨rfl, rfl⟩ | ⟨rfl, rfl⟩
  · simp [handoffs, show s.read = some x from hx]
  · simp [handoffs, show s.write = some x from hx]

lemma not_wanted_none (registered events : Mask) : ¬ Wanted registered events .none := by
  simp [Wanted, Event.bits]

lemma nothing_chosen_iff (s : Slot S F C) (events : Mask) :
    (decide (Wanted s.mask events .read) = true → s.read = none) ∧
      (decide (Wanted s.mask events .write) = true → s.write = none) ↔
    ∀ event, Wanted s.mask events event → s.get event = none := by
  simp only [decide_eq_true_eq]
  constructor
  · rintro ⟨hr, hw⟩ event hwant
    cases event with
    | none => rfl
    | read => exact hr hwant
    | write => exact hw hwant
  · exact fun h => ⟨h .read, h .write⟩

lemma withdrawn_chosen_iff (s : Slot S F C) (events : Mask) :
    (decide (Wanted s.mask events .read) = true ∧ s.read = none) ∨
      (decide (Wanted s.mask events .write) = true ∧ s.write = none) ↔
    ∃ event, Wanted s.mask events event ∧ s.get event = none := by
  simp only [decide_eq_true_eq]
  constructor
  · rintro (h | h)
    · exact ⟨.read, h⟩
    · exact ⟨.write, h⟩
  · rintro ⟨event, hwant, hnone⟩
    cases event with
    | none => exact absurd hwant (not_wanted_none _ _)
    | read => exact .inl ⟨hwant, hnone⟩
    | write => exact .inr ⟨hwant, hnone⟩

/-- **One round is safe exactly on a fresh entry.** -/
lemma safe_iff_fresh {tickle : Fd} {T : Table S F C} (hq : Quiet tickle T) (fd : Fd)
    (events : Mask) (ok : Bool) :
    Safe (conc tickle T) fd events ok ↔ Fresh (T fd).mask events ok := by
  have hreg (event : Event) : (T fd).mask &&& event.bits = 0 ↔ (T fd).get event = none :=
    mask_and_eq_zero_iff (T fd) event
  have hnone := nothing_chosen_iff (T fd) events
  have hgone := withdrawn_chosen_iff (T fd) events
  unfold Safe Fresh
  rw [dispatch_conc hq fd events ok rfl rfl]
  simp only [conc_fdContexts, concCtx, ne_eq, hreg]
  split
  · -- nothing the entry stands for is registered
    rename_i hn
    have hn := hnone.mp hn
    refine ⟨fun _ => .inr ⟨fun event hrep => hn event (.inl hrep), fun _ herr => ?_⟩, fun _ =>
      ⟨by simp, fun out hout => ?_⟩⟩
    · have hall (event : Event) : (T fd).get event = none := by
        by_contra hne
        exact hne (hn event (.inr ⟨herr, fun h0 => hne ((hreg event).mp h0)⟩))
      exact (mask_eq_zero_iff (T fd)).mpr ⟨hall .read, hall .write⟩
    · cases hout
      exact ⟨by simp, fun event hrep hset => absurd (hn event (.inl hrep)) hset⟩
  · rename_i hn
    have hn : ∃ event, Wanted (T fd).mask events event ∧ (T fd).get event ≠ none := by
      by_contra hne
      exact hn (hnone.mpr fun event hwant => not_not.mp fun h => hne ⟨event, hwant, h⟩)
    split
    · -- `epoll_ctl` fails, and the loop goes on without a trigger
      rename_i hok
      subst hok
      simp only [Bool.false_eq_true, false_and, false_implies, and_true, false_or]
      refine ⟨fun h event hrep => ?_, fun h => ⟨by simp, fun out hout => ?_⟩⟩
      · by_contra hset
        obtain ⟨x, hx, -⟩ := (h.2 _ rfl).2 event hrep hset
        cases hx
      · cases hout
        exact ⟨by simp, fun event hrep hset => absurd (h event hrep) hset⟩
    · rename_i hok
      have hok : ok = true := by simpa using hok
      split
      · -- one event of the entry was withdrawn and another one was not
        rename_i hg
        obtain ⟨event, hwant, hout⟩ := hgone.mp hg
        have hrep : ¬ events &&& event.bits = 0 :=
          hwant.resolve_right fun h => h.2 ((hreg event).mpr hout)
        obtain ⟨event', hwant', hset⟩ := hn
        refine ⟨fun h => absurd rfl h.1, fun h => ?_⟩
        rcases h with ⟨-, hall⟩ | ⟨hall, herr⟩
        · exact absurd hout (hall event hrep)
        · rcases hwant' with hrep' | ⟨herr', -⟩
          · exact absurd (hall event' hrep') hset
          · have hz := herr hok herr'
            exact absurd ((hreg event').mp (by rw [hz]; exact BitVec.zero_and)) hset
      · -- everything the entry stands for is registered
        rename_i hg
        have hall (event : Event) (hwant : Wanted (T fd).mask events event) :
            (T fd).get event ≠ none := fun h0 => hg (hgone.mpr ⟨event, hwant, h0⟩)
        refine ⟨fun _ => .inl ⟨hok, fun event hrep => hall event (.inl hrep)⟩, fun _ =>
          ⟨by simp, fun out hout => ?_⟩⟩
        cases hout
        refine ⟨fun h hh => mem_handoffs hh, fun event hrep hset => handoffs_of_chosen ?_ hset⟩
        cases event with
        | none => exact absurd rfl hset
        | read => exact .inl ⟨rfl, decide_eq_true (.inl hrep)⟩
        | write => exact .inr ⟨rfl, decide_eq_true (.inl hrep)⟩

/-! ### Runs -/

lemma dispatchEntry_kept {tickle : Fd} {m : IOManager S F C} (h : Kept tickle m)
    {e : EpollEvent} {ok : Bool} {out : Out S F C} (ho : dispatchEntry m e ok = .ok out) :
    Kept tickle out.m := by
  unfold dispatchEntry at ho
  split at ho
  · cases ho
    exact h
  · rename_i fd _
    exact call_kept (a := .dispatch fd e.events ok) h trivial ho

lemma step_kept [DecidableEq W] {tickle : Fd} (b : Batches S F C W) (a : Act S F C W)
    (b' : Batches S F C W) (h : Kept tickle b.m) (hs : step b a = some b') : Kept tickle b'.m := by
  cases a with
  | io a =>
    simp only [step] at hs
    split at hs
    · cases hs
    · simp only [Option.ite_none_right_eq_some] at hs
      obtain ⟨hp, hs⟩ := hs
      split at hs
      · rename_i out hout
        obtain rfl := Option.some.inj hs
        exact call_kept h hp hout
      · cases hs
  | epollWait w events =>
    simp only [step, Option.ite_none_right_eq_some, Option.some.injEq] at hs
    obtain ⟨-, rfl⟩ := hs
    exact h
  | next w ok =>
    simp only [step] at hs
    split at hs
    · cases hs
    · split at hs
      · rename_i out hout
        obtain rfl := Option.some.inj hs
        exact dispatchEntry_kept h hout
      · cases hs

/-- The round of a worker's loop that comes next is safe. -/
def SafeNext (b : Batches S F C W) : Act S F C W → Prop
  | .next w ok => ∀ events fd rest, b.batch w = ⟨events, .ptr fd⟩ :: rest → Safe b.m fd events ok
  | _ => True

/-- The round of a worker's loop that comes next is on a fresh entry. -/
def FreshNext (b : Batches S F C W) : Act S F C W → Prop
  | .next w ok => ∀ events fd rest, b.batch w = ⟨events, .ptr fd⟩ :: rest →
      Fresh (b.m.fdContexts fd).events events ok
  | _ => True

lemma safeNext_iff_freshNext {tickle : Fd} (b : Batches S F C W) (a : Act S F C W)
    (h : Kept tickle b.m) : SafeNext b a ↔ FreshNext b a := by
  obtain ⟨m, batch⟩ := b
  obtain ⟨T, hq, rfl⟩ := h
  cases a with
  | io a => exact Iff.rfl
  | epollWait w events => exact Iff.rfl
  | next w ok =>
    refine forall_congr' fun events => forall_congr' fun fd => forall_congr' fun rest => ?_
    exact imp_congr_right fun _ => safe_iff_fresh hq fd events ok

/-- **A run goes without a stale trigger exactly when every round is on a fresh entry.** For
every interleaving of the calls, of `epoll_wait` and of the rounds of the workers' loops:
each round triggers registered events only and all the registered ones that are reported, if
and only if each round finds, of what its entry reports, everything still registered, or
nothing (and then no registered event that an error makes count), where a failing `epoll_ctl`
leaves only the latter without the condition on errors. -/
theorem rounds_safe_iff_fresh [DecidableEq W] (tickle : Fd) (as : List (Act S F C W)) :
    Runs.Meets step SafeNext (start tickle) as ↔ Runs.Meets step FreshNext (start tickle) as :=
  Runs.meets_congr (I := fun b => Kept tickle b.m) step_kept safeNext_iff_freshNext
    (init_kept tickle)

/-- Reading and writing are reported together, and reading is withdrawn before the round. -/
theorem withdrawn_event_stops_the_process :
    ¬ Runs.Meets step SafeNext (start 5 : Batches ℕ ℕ ℕ ℕ)
      [.io (.addEvent 7 .read none ⟨some 1, 2, .exec⟩ true),
        .io (.addEvent 7 .write none ⟨some 1, 3, .exec⟩ true),
        .epollWait 0 [⟨EPOLLIN ||| EPOLLOUT, .ptr 7⟩],
        .io (.delEvent 7 .read true), .next 0 true] := fun h =>
  ((((((h.2 _ rfl).2 _ rfl).2 _ rfl).2 _ rfl).1 _ 7 [] rfl).1) rfl

end Sylar.Batch
