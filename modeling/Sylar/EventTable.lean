import Sylar.IoModel
import Sylar.Lib.Tally

/-!
What the event table is for: it says who waits for which event of which descriptor.

A `Table` has two places for each descriptor, and a place is empty or holds one waiter with
the scheduler it is to be handed to. `conc` writes such a table down the way the manager
keeps it, in four copies: the bit mask and the contexts of each `FdContext`, the kernel's
mask, and the counter. The lemmas here compute every operation of the manager on a table
that is written down this way; that the result is again of this form is the invariant.
-/

namespace Sylar.EventTable

open Lib.Tally Sylar.FiberModel Sylar.IoModel IOManager FdContext

variable {S F C : Type}

/-! ### Tables -/

/-- A waiter: the scheduler it belongs to, and the fiber or callback to be scheduled. -/
structure Waiter (S F C : Type) where
  scheduler : S
  task : F ⊕ C

structure Slot (S F C : Type) where
  read : Option (Waiter S F C) := none
  write : Option (Waiter S F C) := none

abbrev Table (S F C : Type) := Fd → Slot S F C

namespace Slot

def get (s : Slot S F C) : Event → Option (Waiter S F C)
  | .read => s.read
  | .write => s.write
  | .none => none

def set (s : Slot S F C) (event : Event) (w : Option (Waiter S F C)) : Slot S F C :=
  match event with
  | .read => { s with read := w }
  | .write => { s with write := w }
  | .none => s

/-- The slot without the waiters of the chosen events. -/
def clear (s : Slot S F C) (r w : Bool) : Slot S F C :=
  ⟨if r then none else s.read, if w then none else s.write⟩

def mask (s : Slot S F C) : Mask :=
  (if s.read.isSome then Event.bits .read else 0) |||
    (if s.write.isSome then Event.bits .write else 0)

def count (s : Slot S F C) : ℕ := s.read.isSome.toNat + s.write.isSome.toNat

end Slot

/-! ### How a table is kept -/

def Waiter.entry (w : Waiter S F C) : FiberAndThread F C :=
  match w.task with
  | .inl f => { fiber := some f }
  | .inr c => { cb := some c }

def Waiter.context (w : Waiter S F C) : EventContext S F C :=
  match w.task with
  | .inl f => { scheduler := some w.scheduler, fiber := some f }
  | .inr c => { scheduler := some w.scheduler, cb := some c }

def context (w : Option (Waiter S F C)) : EventContext S F C :=
  match w with
  | none => {}
  | some w => w.context

def concCtx (fd : Fd) (s : Slot S F C) : FdContext S F C :=
  ⟨context s.read, context s.write, fd, s.mask⟩

/-- The kernel's set: the tickle pipe, and the descriptors with a waiter. -/
def epollOf (tickle : Fd) (T : Table S F C) : Epoll := fun fd =>
  if (T fd).mask ≠ 0 then some ⟨EPOLLET ||| (T fd).mask, .ptr fd⟩
  else if fd = tickle then some ⟨EPOLLIN ||| EPOLLET, .fd tickle⟩ else none

/-- A manager that keeps `T` in its contexts and its counter. -/
def mkM (epoll : Epoll) (tickle : Fd) (T : Table S F C) : IOManager S F C :=
  ⟨fun fd => concCtx fd (T fd), epoll, UInt64.ofNat (tally Slot.count T), tickle⟩

/-- The manager that keeps `T` in all its copies. -/
def conc (tickle : Fd) (T : Table S F C) : IOManager S F C := mkM (epollOf tickle T) tickle T

/-- The call of `schedule` that ends a registration. -/
def handoff (fd : Fd) (event : Event) (w : Waiter S F C) : Handoff S F C :=
  ⟨fd, event, w.scheduler, w.entry⟩

/-- The calls that end the chosen registrations of one descriptor. -/
def handoffs (fd : Fd) (s : Slot S F C) (r w : Bool) : List (Handoff S F C) :=
  (if r then s.read.toList.map (handoff fd .read) else []) ++
    (if w then s.write.toList.map (handoff fd .write) else [])

@[simp] lemma conc_fdContexts (tickle : Fd) (T : Table S F C) (fd : Fd) :
    (conc tickle T).fdContexts fd = concCtx fd (T fd) := rfl

/-! ### Masks -/

lemma mask_eq_zero_iff (s : Slot S F C) : s.mask = 0 ↔ s.read = none ∧ s.write = none := by
  obtain ⟨_ | _, _ | _⟩ := s <;> simp [Slot.mask, Event.bits]

lemma mask_and_eq_zero_iff (s : Slot S F C) (event : Event) :
    s.mask &&& event.bits = 0 ↔ s.get event = none := by
  obtain ⟨_ | _, _ | _⟩ := s <;> cases event <;> simp [Slot.mask, Slot.get, Event.bits]

lemma mask_test (s : Slot S F C) (event : Event) :
    (s.mask &&& event.bits != 0) = (s.get event).isSome := by
  rw [Bool.eq_iff_iff, bne_iff_ne, ne_eq, mask_and_eq_zero_iff, Option.isSome_iff_ne_none]

lemma mask_set_some (s : Slot S F C) {event : Event} (he : event ≠ .none) (w : Waiter S F C) :
    (s.set event (some w)).mask = s.mask ||| event.bits := by
  obtain ⟨_ | _, _ | _⟩ := s <;> cases event <;>
    first | exact absurd rfl he | simp [Slot.mask, Slot.set, Event.bits]

lemma mask_set_none (s : Slot S F C) (event : Event) :
    (s.set event none).mask = s.mask &&& ~~~event.bits := by
  obtain ⟨_ | _, _ | _⟩ := s <;> cases event <;> simp [Slot.mask, Slot.set, Event.bits]

lemma count_set_some (s : Slot S F C) {event : Event} (he : event ≠ .none)
    (h : s.get event = none) (w : Waiter S F C) :
    (s.set event (some w)).count = s.count + 1 := by
  obtain ⟨r, w'⟩ := s
  cases event with
  | none => exact absurd rfl he
  | read => obtain rfl : r = none := h; simp [Slot.count, Slot.set]; omega
  | write => obtain rfl : w' = none := h; simp [Slot.count, Slot.set]

lemma count_set_none (s : Slot S F C) {event : Event} {w : Waiter S F C}
    (h : s.get event = some w) : (s.set event none).count + 1 = s.count := by
  obtain ⟨r, w'⟩ := s
  cases event with
  | none => cases h
  | read => obtain rfl : r = some w := h; simp [Slot.count, Slot.set]; omega
  | write => obtain rfl : w' = some w := h; simp [Slot.count, Slot.set]

lemma count_le_two (s : Slot S F C) : s.count ≤ 2 := by
  obtain ⟨_ | _, _ | _⟩ := s <;> simp [Slot.count]

/-! ### The kernel's copy -/

lemma epollOf_of_ne (tickle : Fd) {T : Table S F C} {fd : Fd} (h : (T fd).mask ≠ 0) :
    epollOf tickle T fd = some ⟨EPOLLET ||| (T fd).mask, .ptr fd⟩ := if_pos h

lemma epollOf_of_eq (tickle : Fd) {T : Table S F C} {fd : Fd} (h : (T fd).mask = 0) :
    epollOf tickle T fd =
      if fd = tickle then some ⟨EPOLLIN ||| EPOLLET, .fd tickle⟩ else none :=
  if_neg (not_not.mpr h)

lemma epollOf_update_of_ne (tickle : Fd) (T : Table S F C) {x fd : Fd} (s : Slot S F C)
    (h : x ≠ fd) : epollOf tickle (Function.update T fd s) x = epollOf tickle T x := by
  unfold epollOf
  rw [Function.update_of_ne h]

lemma epollOf_update (tickle : Fd) (T : Table S F C) (fd : Fd) (s : Slot S F C)
    (h : s.mask ≠ 0) :
    Function.update (epollOf tickle T) fd (some ⟨EPOLLET ||| s.mask, .ptr fd⟩) =
      epollOf tickle (Function.update T fd s) := by
  funext x
  by_cases hx : x = fd
  · subst hx
    rw [Function.update_self, epollOf_of_ne tickle (by rwa [Function.update_self]),
      Function.update_self]
  · rw [Function.update_of_ne hx, epollOf_update_of_ne tickle T s hx]

lemma epollOf_update_empty (tickle : Fd) (T : Table S F C) {fd : Fd} (s : Slot S F C)
    (h : s.mask = 0) (hfd : fd ≠ tickle) :
    Function.update (epollOf tickle T) fd none = epollOf tickle (Function.update T fd s) := by
  funext x
  by_cases hx : x = fd
  · subst hx
    rw [Function.update_self, epollOf_of_eq tickle (by rwa [Function.update_self]), if_neg hfd]
  · rw [Function.update_of_ne hx, epollOf_update_of_ne tickle T s hx]

/-- **Adding chooses between `ADD` and `MOD` as the kernel wants it**, except on the tickle
pipe, which is a member from the start. -/
lemma epollCtl_add (tickle : Fd) (T : Table S F C) (fd : Fd) (s : Slot S F C)
    (hs : s.mask ≠ 0) (ht : (T tickle).mask = 0) (ok : Bool) :
    epollCtl ok (epollOf tickle T) (.choose (T fd).mask .mod .add) fd
        ⟨EPOLLET ||| s.mask, .ptr fd⟩ =
      if ok ∧ fd ≠ tickle then some (epollOf tickle (Function.update T fd s)) else none := by
  by_cases hm : (T fd).mask = 0
  · rw [EpollCtlOp.choose, if_pos hm]
    have hmem : (epollOf tickle T fd).isNone ↔ fd ≠ tickle := by
      rw [epollOf_of_eq tickle hm]
      by_cases hfd : fd = tickle <;> simp [hfd]
    simp only [epollCtl, hmem, epollOf_update tickle T fd s hs]
  · have hfd : fd ≠ tickle := by rintro rfl; exact hm ht
    rw [EpollCtlOp.choose, if_neg hm]
    simp only [epollCtl, epollOf_of_ne tickle hm, Option.isSome_some, and_true,
      epollOf_update tickle T fd s hs, hfd, ne_eq, not_false_eq_true]

/-- **Removing chooses between `MOD` and `DEL` as the kernel wants it.** -/
lemma epollCtl_sub (tickle : Fd) (T : Table S F C) {fd : Fd} (s : Slot S F C)
    (hm : (T fd).mask ≠ 0) (ht : (T tickle).mask = 0) (ok : Bool) :
    epollCtl ok (epollOf tickle T) (.choose s.mask .mod .del) fd
        ⟨EPOLLET ||| s.mask, .ptr fd⟩ =
      if ok then some (epollOf tickle (Function.update T fd s)) else none := by
  have hfd : fd ≠ tickle := by rintro rfl; exact hm ht
  by_cases hs : s.mask = 0
  · rw [EpollCtlOp.choose, if_pos hs]
    simp only [epollCtl, epollOf_of_ne tickle hm, Option.isSome_some, and_true,
      epollOf_update_empty tickle T s hs hfd]
  · rw [EpollCtlOp.choose, if_neg hs]
    simp only [epollCtl, epollOf_of_ne tickle hm, Option.isSome_some, and_true,
      epollOf_update tickle T fd s hs]

lemma epollCtl_del (tickle : Fd) (T : Table S F C) {fd : Fd} (hm : (T fd).mask ≠ 0)
    (ht : (T tickle).mask = 0) (e : EpollEvent) (ok : Bool) :
    epollCtl ok (epollOf tickle T) .del fd e =
      if ok then some (epollOf tickle (Function.update T fd {})) else none := by
  have hfd : fd ≠ tickle := by rintro rfl; exact hm ht
  have hempty : ({} : Slot S F C).mask = 0 := (mask_eq_zero_iff _).mpr ⟨rfl, rfl⟩
  simp only [epollCtl, epollOf_of_ne tickle hm, Option.isSome_some, and_true,
    epollOf_update_empty tickle T {} hempty hfd]

/-! ### The counter's copy -/

lemma pending_add (T : Table S F C) (fd : Fd) (s : Slot S F C)
    (h : s.count = (T fd).count + 1) :
    UInt64.ofNat (tally Slot.count T) + 1 =
      UInt64.ofNat (tally Slot.count (Function.update T fd s)) := by
  have := tally_update Slot.count T fd s
  have heq : tally Slot.count (Function.update T fd s) = tally Slot.count T + 1 := by omega
  rw [heq, UInt64.ofNat_add]; rfl

lemma pending_sub (T : Table S F C) (fd : Fd) (s : Slot S F C)
    (h : s.count + 1 = (T fd).count) :
    UInt64.ofNat (tally Slot.count T) - 1 =
      UInt64.ofNat (tally Slot.count (Function.update T fd s)) := by
  have := tally_update Slot.count T fd s
  have heq : tally Slot.count T = tally Slot.count (Function.update T fd s) + 1 := by omega
  rw [heq, UInt64.ofNat_add]
  exact UInt64.add_sub_cancel _ _

lemma pending_toNat (tickle : Fd) (T : Table S F C) :
    (conc tickle T).pendingEventCount.toNat = tally Slot.count T := by
  have hcard : Fintype.card Fd = 2147483648 := Fintype.card_fin _
  have h := tally_le count_le_two T
  rw [hcard] at h
  exact UInt64.toNat_ofNat_of_lt' (by
    show tally Slot.count T < 18446744073709551616
    omega)

end Sylar.EventTable
