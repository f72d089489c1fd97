import Sylar.TimerExpiry

/-!
Whether the poller hears of every deadline that is earlier than the one it waits for.

`getNextTimer` tells the poller how long it may sleep. An operation that leaves an earlier
deadline behind has to call `onTimerInsertedAtFront`; `addTimer` and `reset` do, `refresh`
does not.
-/

namespace Sylar.TimerNotify

open Lib Sylar.TimerModel Sylar.TimerInv Sylar.TimerExpiry TimerManager

variable {C : Type}

/-- The manager with what happened to it: the last clock value that was read, the moment up
to which the last `getNextTimer` lets the poller sleep, and whether `onTimerInsertedAtFront`
has been called since. -/
structure History (C : Type) where
  m : TimerManager C
  clock : UInt64
  told : Option ℕ := none
  called : Bool := false

inductive Action (C : Type)
  | call (a : TimerInv.Action C)
  | getNextTimer (now : UInt64)

/-- The clock value the call reads, if it reads one. -/
def reading : TimerInv.Action C → Option UInt64
  | .addTimer _ _ _ now _ | .refresh _ now | .reset _ _ true now | .listExpiredCb now _ => some now
  | _ => none

def Fits (now ms : UInt64) : Prop := now.toNat + ms.toNat < UInt64.size

/-- No deadline that the call computes from the clock wraps. -/
def NoWrap (m : TimerManager C) : TimerInv.Action C → Prop
  | .addTimer ms _ _ now _ => Fits now ms
  | .refresh t now => (m.heap t).cb.isSome → Fits now (m.heap t).ms
  | .reset t ms true now => (m.heap t).cb.isSome → Fits now ms
  | .listExpiredCb now _ =>
    ∀ t ∈ m.timers, (m.heap t).next ≤ now → (m.heap t).recurring = true → Fits now (m.heap t).ms
  | _ => True

instance (now ms : UInt64) : Decidable (Fits now ms) := inferInstanceAs (Decidable (_ < _))

instance (m : TimerManager C) (a : TimerInv.Action C) : Decidable (NoWrap m a) :=
  match a with
  | .addTimer .. => inferInstanceAs (Decidable (Fits _ _))
  | .refresh .. | .reset _ _ true _ => inferInstanceAs (Decidable (_ → Fits _ _))
  | .listExpiredCb .. => inferInstanceAs (Decidable (∀ t ∈ m.timers, _ → _ → Fits _ _))
  | .cancel _ | .reset _ _ false _ => isTrue trivial

/-- Whether the call ends with `onTimerInsertedAtFront`. -/
def notifies (m : TimerManager C) : TimerInv.Action C → Bool
  | .addTimer ms cb recurring now addr => (m.addTimer ms (some cb) recurring now addr).2.2
  | .reset t ms from_now now => (m.reset t ms from_now now).2.2
  | _ => false

/-- The moment the answer of `getNextTimer` stands for: past every deadline when there is no
timer. -/
def wakeAt (m : TimerManager C) (now : UInt64) : ℕ :=
  if m.timers = [] then UInt64.size else now.toNat + (m.getNextTimer now).2.toNat

/-- One call, by a clock that does not go back and does not wrap. -/
def step (h : History C) : Action C → Option (History C)
  | .call a =>
    if (reading a).all (h.clock ≤ ·) ∧ NoWrap h.m a then
      (TimerInv.step h.m a).map fun m =>
        { h with m := m, clock := (reading a).getD h.clock, called := h.called || notifies h.m a }
    else none
  | .getNextTimer now =>
    if h.clock ≤ now then
      some ⟨(h.m.getNextTimer now).1, now,
        if (h.m.getNextTimer now).2 = 0 then none else some (wakeAt h.m now), false⟩
    else none

def start (now : UInt64) : History C := ⟨TimerInv.init now, now, none, false⟩

/-- Some deadline is before `b`. -/
def Early (m : TimerManager C) (b : ℕ) : Prop := ∃ t ∈ m.timers, (m.heap t).next.toNat < b

/-- When a deadline is earlier than what the poller was told, `onTimerInsertedAtFront` has been
called since. -/
def Told (h : History C) : Prop := ∀ b, h.told = some b → Early h.m b → h.called = true

/-- No `refresh` of a timer with a callback computes a deadline before the moment the poller
was told, while `tickled_` is not set. -/
def NotForward (h : History C) : Action C → Prop
  | .call (.refresh t now) => ∀ b, h.told = some b → h.m.tickled = false →
      (h.m.heap t).cb.isSome → b ≤ now.toNat + (h.m.heap t).ms.toNat
  | _ => True

/-! ### One insertion -/

/-- A timer that is inserted is at or after `b`, or it is at the front and `tickled_` was not
set. -/
lemma addTimerLocked_early {m : TimerManager C} {t b : ℕ} (htick : m.tickled = false)
    (hb : ∀ y ∈ m.timers, b ≤ (m.heap y).next.toNat) :
    b ≤ (m.heap t).next.toNat ∨ (m.addTimerLocked t).2 = true := by
  by_cases hle : b ≤ (m.heap t).next.toNat
  · exact .inl hle
  · right
    have hfront : (OrdSet.insert m.lt t m.timers).2 = 0 := by
      refine OrdSet.insert_front (fun y hy => ?_) fun y hy => ?_
      · rw [TimerManager.lt, comparator_iff]
        have := hb y hy
        omega
      · have := hb y hy
        rw [← Bool.not_eq_true, TimerManager.lt, comparator_iff]
        omega
    simp [addTimerLocked, hfront, htick]

lemma addTimer_early {m : TimerManager C} (hi : TimerInv.Inv m) (htick : m.tickled = false) {b : ℕ}
    (hb : ∀ t, (m.heap t).cb.isSome → b ≤ (m.heap t).next.toNat) (ms : UInt64) (cb : C)
    (recurring : Bool) (now : UInt64) (addr : ℕ) :
    (∀ t, ((m.addTimer ms (some cb) recurring now addr).1.heap t).cb.isSome →
      b ≤ ((m.addTimer ms (some cb) recurring now addr).1.heap t).next.toNat) ∨
    (m.addTimer ms (some cb) recurring now addr).2.2 = true := by
  have hmade : m.made ∉ m.timers := fun hm => by
    have := ((hi.mem_iff _).mp hm).1
    rw [hi.fresh _ (le_refl _)] at this
    cases this
  have hlock := addTimerLocked_early (t := m.made) (b := b)
    (m := { m.set m.made ⟨recurring, ms, now + ms, some cb, addr⟩ with made := m.made + 1 })
    htick fun y hy => ?_
  · refine hlock.imp (fun hle t ht => ?_) id
    by_cases htm : t = m.made
    · subst htm
      exact hle
    · have hheap : (m.addTimer ms (some cb) recurring now addr).1.heap t = m.heap t :=
        set_heap_ne m _ htm
      rw [hheap] at ht ⊢
      exact hb t ht
  · have hym : y ≠ m.made := fun h => hmade (h ▸ hy)
    show b ≤ ((m.set m.made _).heap y).next.toNat
    rw [set_heap_ne m _ hym]
    exact hb y ((hi.mem_iff y).mp hy).1

lemma reset_early {m : TimerManager C} (hi : TimerInv.Inv m) (htick : m.tickled = false) {b : ℕ}
    (hb : ∀ t, (m.heap t).cb.isSome → b ≤ (m.heap t).next.toNat) (t : ℕ) (ms : UInt64)
    (from_now : Bool) (now : UInt64) :
    (∀ u, ((m.reset t ms from_now now).1.heap u).cb.isSome →
      b ≤ ((m.reset t ms from_now now).1.heap u).next.toNat) ∨
    (m.reset t ms from_now now).2.2 = true := by
  unfold reset
  by_cases h1 : (m.heap t).ms = ms ∧ from_now = false
  · rw [if_pos h1]
    exact .inl hb
  rw [if_neg h1]
  by_cases hcb : (m.heap t).cb.isSome
  · obtain ⟨i, hfind, -, hout⟩ := Out.erase hi hcb
    rw [if_neg (by simpa [Option.isNone_iff_eq_none, Option.isSome_iff_ne_none] using hcb)]
    simp only [hfind]
    generalize hv : ({ m.heap t with
      ms := ms, next := (if from_now then now else (m.heap t).next - ms) + ms } : Timer C) = v
    have hlock := addTimerLocked_early (t := t) (b := b)
      (m := ({ m with timers := m.timers.eraseIdx i } : TimerManager C).set t v) htick
      fun y hy => ?_
    · refine hlock.imp (fun hle u hu => ?_) id
      by_cases hut : u = t
      · subst hut
        exact hle
      · have hheap : ((({ m with timers := m.timers.eraseIdx i } : TimerManager C).set t
            v).addTimerLocked t).1.heap u = m.heap u := set_heap_ne _ v hut
        rw [hheap] at hu ⊢
        exact hb u hu
    · obtain ⟨hycb, hyt⟩ := (hout.mem_iff y).mp hy
      have hyt : y ≠ t := by simpa using hyt
      rw [set_heap_ne _ v hyt]
      exact hb y hycb
  · rw [if_pos (by simpa using hcb)]
    exact .inl hb

/-! ### The other operations -/

lemma refresh_heap {m : TimerManager C} (hi : TimerInv.Inv m) {t : ℕ} (now : UInt64)
    (hcb : (m.heap t).cb.isSome) : (m.refresh t now).1.heap =
      Function.update m.heap t { m.heap t with next := now + (m.heap t).ms } := by
  obtain ⟨i, hfind, -, -⟩ := Out.erase hi hcb
  unfold refresh
  rw [if_neg (by simpa [Option.isNone_iff_eq_none, Option.isSome_iff_ne_none] using hcb)]
  simp only [hfind]
  rfl

lemma refresh_gone {m : TimerManager C} {t : ℕ} (now : UInt64) (hcb : ¬ (m.heap t).cb.isSome) :
    (m.refresh t now).1 = m := by
  unfold refresh
  rw [if_pos (by simpa using hcb)]

/-- `refresh` may bring its timer forward, and nothing is said about it. -/
lemma refresh_early_iff {m : TimerManager C} (hi : TimerInv.Inv m) {b : ℕ}
    (hb : ∀ t, (m.heap t).cb.isSome → b ≤ (m.heap t).next.toNat) {t : ℕ} {now : UInt64}
    (hfit : (m.heap t).cb.isSome → Fits now (m.heap t).ms) :
    (∀ u, ((m.refresh t now).1.heap u).cb.isSome →
      b ≤ ((m.refresh t now).1.heap u).next.toNat) ↔
    ((m.heap t).cb.isSome → b ≤ now.toNat + (m.heap t).ms.toNat) := by
  by_cases hcb : (m.heap t).cb.isSome
  · have hnext : (now + (m.heap t).ms).toNat = now.toNat + (m.heap t).ms.toNat := by
      rw [UInt64.toNat_add, Nat.mod_eq_of_lt (hfit hcb)]
    rw [refresh_heap hi now hcb]
    constructor
    · intro h _
      have := h t (by rw [Function.update_self]; exact hcb)
      rw [Function.update_self] at this
      rw [← hnext]
      exact this
    · intro h u hu
      by_cases hut : u = t
      · subst hut
        rw [Function.update_self]
        show b ≤ (now + (m.heap u).ms).toNat
        rw [hnext]
        exact h hcb
      · rw [Function.update_of_ne hut] at hu ⊢
        exact hb u hu
  · rw [refresh_gone now hcb]
    exact ⟨fun _ h => absurd h hcb, fun _ => hb⟩

lemma cancel_early {m : TimerManager C} {t b : ℕ} {r : TimerManager C × Bool}
    (hr : m.cancel t = .ok r) (hb : ∀ t, (m.heap t).cb.isSome → b ≤ (m.heap t).next.toNat) :
    ∀ u, (r.1.heap u).cb.isSome → b ≤ (r.1.heap u).next.toNat := by
  obtain ⟨-, rfl⟩ | ⟨i, rfl⟩ := TimerInv.cancel_cases hr
  · exact hb
  · intro u hu
    by_cases hut : u = t
    · subst hut
      simp at hu
    · have hheap : (m.set t { m.heap t with cb := none }).heap u = m.heap u := set_heap_ne m _ hut
      dsimp only at hu ⊢
      rw [hheap] at hu ⊢
      exact hb u hu

/-- A timer that has expired comes back no earlier than it was. -/
lemma listExpiredCb_early {m : TimerManager C} (hi : TimerInv.Inv m) {b : ℕ}
    (hb : ∀ t, (m.heap t).cb.isSome → b ≤ (m.heap t).next.toNat) {now : UInt64} (addr : ℕ)
    (hpast : m.previouseTime ≤ now)
    (hfit : ∀ t ∈ m.timers, (m.heap t).next ≤ now → (m.heap t).recurring = true →
      Fits now (m.heap t).ms) :
    ∀ u, ((m.listExpiredCb now addr []).1.heap u).cb.isSome →
      b ≤ ((m.listExpiredCb now addr []).1.heap u).next.toNat := by
  have hroll : (m.detectClockRollover now).2 = false := by
    rw [UInt64.le_iff_toNat_le] at hpast
    have hlt : ¬ now < m.previouseTime := by
      rw [UInt64.lt_iff_toNat_lt]
      omega
    simp [detectClockRollover, hlt]
  obtain ⟨-, hin, hout⟩ := listExpiredCb_spec hi now addr []
  rw [hroll] at hin hout
  intro u hu
  by_cases hdue : u ∈ due m now false
  · obtain ⟨hmem, hle⟩ : u ∈ m.timers ∧ (m.heap u).next ≤ now := by
      simpa [due] using hdue
    rw [hin u hdue, expired] at hu ⊢
    by_cases hrec : (m.heap u).recurring = true
    · rw [if_pos hrec] at hu ⊢
      have hfit := hfit u hmem hle hrec
      have hold := hb u hu
      show b ≤ (now + (m.heap u).ms).toNat
      rw [UInt64.toNat_add, Nat.mod_eq_of_lt hfit]
      rw [UInt64.le_iff_toNat_le] at hle
      omega
    · rw [if_neg hrec] at hu
      cases hu
  · rw [hout u hdue] at hu ⊢
    exact hb u hu

/-! ### `tickled_` and the previous time -/

lemma foldl_expireOne_fields (now : UInt64) (out : List ℕ) (s : TimerManager C × List (Option C)) :
    (out.foldl (expireOne now) s).1.tickled = s.1.tickled ∧
      (out.foldl (expireOne now) s).1.previouseTime = s.1.previouseTime := by
  induction out generalizing s with
  | nil => exact ⟨rfl, rfl⟩
  | cons t out ih =>
    obtain ⟨h1, h2⟩ := ih (expireOne now s t)
    rw [List.foldl_cons, h1, h2]
    unfold expireOne
    dsimp only
    split <;> exact ⟨rfl, rfl⟩

lemma listExpiredCb_fields (m : TimerManager C) (now : UInt64) (addr : ℕ) :
    (m.listExpiredCb now addr []).1.tickled = m.tickled ∧
      ((m.listExpiredCb now addr []).1.previouseTime = m.previouseTime ∨
        (m.listExpiredCb now addr []).1.previouseTime = now) := by
  unfold listExpiredCb
  split
  · exact ⟨rfl, .inl rfl⟩
  · dsimp only
    split
    · exact ⟨rfl, .inr rfl⟩
    · exact ⟨(foldl_expireOne_fields now _ _).1, .inr (foldl_expireOne_fields now _ _).2⟩

lemma reset_fields (m : TimerManager C) (t : ℕ) (ms : UInt64) (from_now : Bool) (now : UInt64) :
    (m.reset t ms from_now now).1.tickled = (m.tickled || (m.reset t ms from_now now).2.2) ∧
      (m.reset t ms from_now now).1.previouseTime = m.previouseTime := by
  unfold reset
  split
  · simp
  · split
    · simp
    · split
      · simp
      · exact ⟨rfl, rfl⟩

/-- `tickled_` is set by the calls that notify, and only they set it. -/
lemma step_fields {m m' : TimerManager C} {a : TimerInv.Action C}
    (hs : TimerInv.step m a = some m') :
    m'.tickled = (m.tickled || notifies m a) ∧
      (m'.previouseTime = m.previouseTime ∨ some m'.previouseTime = reading a) := by
  cases a with
  | addTimer ms cb recurring now addr =>
    simp only [TimerInv.step, Option.ite_none_right_eq_some, Option.some.injEq] at hs
    obtain ⟨-, rfl⟩ := hs
    exact ⟨rfl, .inl rfl⟩
  | cancel t =>
    simp only [TimerInv.step, Option.ite_none_right_eq_some, cancel] at hs
    obtain ⟨-, hs⟩ := hs
    have hsame : m'.tickled = m.tickled ∧ m'.previouseTime = m.previouseTime := by
      split at hs
      · rename_i r hr
        obtain rfl := Option.some.inj hs
        split at hr
        · split at hr
          · cases hr
            exact ⟨rfl, rfl⟩
          · cases hr
        · cases hr
          exact ⟨rfl, rfl⟩
      · cases hs
    simp [notifies, hsame]
  | refresh t now =>
    simp only [TimerInv.step, Option.ite_none_right_eq_some, Option.some.injEq] at hs
    obtain ⟨-, rfl⟩ := hs
    unfold refresh
    split
    · simp [notifies]
    · split <;> simp [notifies, TimerManager.set]
  | reset t ms from_now now =>
    simp only [TimerInv.step, Option.ite_none_right_eq_some, Option.some.injEq] at hs
    obtain ⟨-, rfl⟩ := hs
    obtain ⟨h1, h2⟩ := reset_fields m t ms from_now now
    exact ⟨h1, .inl h2⟩
  | listExpiredCb now addr =>
    obtain rfl := Option.some.inj hs
    obtain ⟨h1, h2⟩ := listExpiredCb_fields m now addr
    refine ⟨by simp [notifies, h1], h2.imp id fun h => ?_⟩
    rw [h]
    rfl

/-! ### What the poller is told -/

lemma getNextTimer_fst (m : TimerManager C) (now : UInt64) :
    (m.getNextTimer now).1 = { m with tickled := false } := by
  unfold getNextTimer
  dsimp only
  split
  · rfl
  · split <;> rfl

lemma not_early_wakeAt {m : TimerManager C} (hi : TimerInv.Inv m) {now : UInt64}
    (hd : (m.getNextTimer now).2 ≠ 0) : ¬ Early m (wakeAt m now) := by
  rintro ⟨t, ht, hlt⟩
  unfold wakeAt at hlt
  rw [if_neg (List.ne_nil_of_mem ht)] at hlt
  unfold getNextTimer at hlt hd
  dsimp only at hlt hd
  split at hlt
  · rename_i hnil
    rw [hnil] at ht
    cases ht
  · rename_i t₀ rest hcons
    simp only [hcons] at hd
    by_cases hge : now ≥ (m.heap t₀).next
    · rw [if_pos hge] at hd
      exact hd rfl
    · rw [if_neg hge] at hlt
      have hge : now.toNat < (m.heap t₀).next.toNat := by
        rw [ge_iff_le, UInt64.le_iff_toNat_le] at hge
        omega
      -- the first timer has the earliest deadline
      have hle : (m.heap t₀).next.toNat ≤ (m.heap t).next.toNat := by
        have hs := hi.sorted
        rw [hcons] at ht hs
        rcases List.mem_cons.mp ht with rfl | ht
        · exact le_refl _
        · have := (List.pairwise_cons.mp hs).1 t ht
          rw [TimerManager.lt, comparator_iff] at this
          omega
      dsimp only at hlt
      rw [UInt64.toNat_sub_of_le _ _ (UInt64.le_iff_toNat_le.mpr hge.le)] at hlt
      omega

/-! ### Runs -/

structure Inv (h : History C) : Prop where
  timers : TimerInv.Inv h.m
  past : h.m.previouseTime ≤ h.clock
  flag : ∀ b, h.told = some b → h.called = h.m.tickled

lemma start_inv (now : UInt64) : Inv (start now : History C) :=
  ⟨TimerInv.init_inv now, UInt64.le_refl now, nofun⟩

lemma call_step {h h' : History C} {a : TimerInv.Action C} (hs : step h (.call a) = some h') :
    ∃ m', TimerInv.step h.m a = some m' ∧ (∀ now ∈ reading a, h.clock ≤ now) ∧ NoWrap h.m a ∧
      h' = { h with
        m := m', clock := (reading a).getD h.clock, called := h.called || notifies h.m a } := by
  simp only [step, Option.ite_none_right_eq_some] at hs
  obtain ⟨⟨hclock, hwrap⟩, hs⟩ := hs
  obtain ⟨m', hm', rfl⟩ := Option.map_eq_some_iff.mp hs
  exact ⟨m', hm', by simpa [Option.all_eq_true] using hclock, hwrap, rfl⟩

lemma step_inv (h : History C) (a : Action C) (h' : History C) (hi : Inv h)
    (hs : step h a = some h') : Inv h' := by
  cases a with
  | call a =>
    obtain ⟨m', hm', hclock, -, rfl⟩ := call_step hs
    obtain ⟨htick, hprev⟩ := step_fields hm'
    refine ⟨TimerInv.step_inv h.m a m' hi.timers hm', ?_, fun b hb => ?_⟩
    · have hle : h.clock ≤ (reading a).getD h.clock := by
        cases hr : reading a with
        | none => exact UInt64.le_refl _
        | some now => exact hclock now hr
      rcases hprev with hprev | hprev
      · exact hprev ▸ UInt64.le_trans hi.past hle
      · dsimp only
        rw [← hprev]
        exact UInt64.le_refl _
    · dsimp only at hb ⊢
      rw [htick, hi.flag b hb]
  | getNextTimer now =>
    simp only [step, Option.ite_none_right_eq_some, Option.some.injEq] at hs
    obtain ⟨hclock, rfl⟩ := hs
    rw [getNextTimer_fst]
    exact ⟨⟨hi.timers.sorted, hi.timers.mem_iff, hi.timers.addr_inj, hi.timers.fresh⟩,
      UInt64.le_trans hi.past hclock, fun _ _ => rfl⟩

/-- With nothing said since the last `getNextTimer`, no deadline is before what it told. -/
lemma deadlines_of_told {h : History C} (hi : Inv h) (ht : Told h) {b : ℕ}
    (hb : h.told = some b) (htick : h.m.tickled = false) (t : ℕ) (hcb : (h.m.heap t).cb.isSome) :
    b ≤ (h.m.heap t).next.toNat := by
  by_contra hlt
  have hcalled := ht b hb ⟨t, (hi.timers.mem_iff t).mpr ⟨hcb, by simp⟩, by omega⟩
  rw [hi.flag b hb, htick] at hcalled
  cases hcalled

/-- A call that brings no deadline before `b`, or notifies. -/
lemma told_of_call {h : History C} (hi : Inv h) (ht : Told h) {m' : TimerManager C}
    (hm' : TimerInv.Inv m') {n : Bool} (clock : UInt64)
    (hearly : ∀ b, h.told = some b → h.m.tickled = false →
      (∀ t, (h.m.heap t).cb.isSome → b ≤ (h.m.heap t).next.toNat) →
      (∀ t, (m'.heap t).cb.isSome → b ≤ (m'.heap t).next.toNat) ∨ n = true) :
    Told { h with m := m', clock := clock, called := h.called || n } := by
  rintro b hb ⟨t, hmem, hlt⟩
  have hcb := ((hm'.mem_iff t).mp hmem).1
  cases htick : h.m.tickled with
  | true => simp [hi.flag b hb, htick]
  | false =>
    rcases hearly b hb htick (deadlines_of_told hi ht hb htick) with hle | rfl
    · have := hle t hcb
      dsimp only at hlt
      omega
    · simp

lemma told_iff (h : History C) (a : Action C) (h' : History C) (hi : Inv h) (ht : Told h)
    (hs : step h a = some h') : Told h' ↔ NotForward h a := by
  cases a with
  | getNextTimer now =>
    refine ⟨fun _ => trivial, fun _ => ?_⟩
    simp only [step, Option.ite_none_right_eq_some, Option.some.injEq] at hs
    obtain ⟨-, rfl⟩ := hs
    intro b hb hearly
    dsimp only at hb hearly
    split at hb
    · cases hb
    · rename_i hd
      obtain rfl := Option.some.inj hb
      rw [getNextTimer_fst] at hearly
      exact absurd hearly (not_early_wakeAt hi.timers hd)
  | call a =>
    obtain ⟨m', hm', hclock, hwrap, rfl⟩ := call_step hs
    have hinv := TimerInv.step_inv h.m a m' hi.timers hm'
    cases a with
    | addTimer ms cb recurring now addr =>
      refine ⟨fun _ => trivial, fun _ => told_of_call hi ht hinv _ fun b hb htick hall => ?_⟩
      simp only [TimerInv.step, Option.ite_none_right_eq_some, Option.some.injEq] at hm'
      obtain ⟨-, rfl⟩ := hm'
      exact addTimer_early hi.timers htick hall ms cb recurring now addr
    | cancel t =>
      refine ⟨fun _ => trivial, fun _ => told_of_call hi ht hinv _ fun b hb htick hall => ?_⟩
      simp only [TimerInv.step, Option.ite_none_right_eq_some] at hm'
      obtain ⟨-, hm'⟩ := hm'
      split at hm'
      · rename_i r hr
        obtain rfl := Option.some.inj hm'
        exact .inl (cancel_early hr hall)
      · cases hm'
    | reset t ms from_now now =>
      refine ⟨fun _ => trivial, fun _ => told_of_call hi ht hinv _ fun b hb htick hall => ?_⟩
      simp only [TimerInv.step, Option.ite_none_right_eq_some, Option.some.injEq] at hm'
      obtain ⟨-, rfl⟩ := hm'
      exact reset_early hi.timers htick hall t ms from_now now
    | listExpiredCb now addr =>
      refine ⟨fun _ => trivial, fun _ => told_of_call hi ht hinv _ fun b hb htick hall => ?_⟩
      obtain rfl := Option.some.inj hm'
      exact .inl (listExpiredCb_early hi.timers hall addr
        (UInt64.le_trans hi.past (hclock now rfl)) hwrap)
    | refresh t now =>
      simp only [TimerInv.step, Option.ite_none_right_eq_some, Option.some.injEq] at hm'
      obtain ⟨-, rfl⟩ := hm'
      constructor
      · intro ht' b hb htick
        have hall := deadlines_of_told hi ht hb htick
        refine (refresh_early_iff hi.timers hall hwrap).mp fun u hu => ?_
        by_contra hlt
        have hcalled := ht' b hb ⟨u, (hinv.mem_iff u).mpr ⟨hu, by simp⟩, by dsimp only; omega⟩
        simp [notifies, hi.flag b hb, htick] at hcalled
      · intro hc
        refine told_of_call hi ht hinv _ fun b hb htick hall => .inl ?_
        exact (refresh_early_iff hi.timers hall hwrap).mpr (hc b hb htick)

/-- **The poller hears of every earlier deadline exactly when no `refresh` brings one forward in
silence.** For every run of calls by a clock that does not go back and does not wrap: at every
moment after a `getNextTimer` that answered more than zero, a deadline before the moment it
stands for means that `onTimerInsertedAtFront` has been called since, if and only if no
`refresh` of a timer with a callback computes a deadline before that moment while `tickled_` is
not set. -/
theorem told_iff_notForward (now : UInt64) (as : List (Action C)) (h : History C)
    (hr : Runs.run step (start now) as = some h) :
    Runs.Always step Told (start now) as ↔ Runs.Meets step NotForward (start now) as :=
  Runs.always_iff_meets (I := Inv) (fun s a s' hi _ _ hs => step_inv s a s' hi hs) told_iff
    (start_inv now) (fun _ => nofun) hr

theorem told_iff_notForward_shortened :
    Runs.Always step Told (start 0 : History ℕ)
      [.call (.addTimer 1000 7 false 10 1), .getNextTimer 10,
        .call (.addTimer 5 8 false 11 2)] := by
  refine (told_iff_notForward 0 _ _ rfl).mpr ?_
  exact Runs.meets_cons trivial rfl (Runs.meets_cons trivial rfl
    (Runs.meets_cons trivial rfl trivial))

/-- A `reset` makes the period of the only timer shorter and leaves its deadline; after the next
`getNextTimer` a `refresh` brings the deadline forward. -/
theorem refresh_is_not_told :
    ¬ ∀ (as : List (Action ℕ)) (h : History ℕ),
      Runs.run step (start 0) as = some h → Told h := by
  intro h
  have htold := h [.call (.addTimer 1000 7 false 10 1), .call (.reset 0 5 false 10),
    .getNextTimer 10, .call (.refresh 0 11)] _ rfl
  have hcalled := htold 1010 rfl ⟨0, .head _, by decide⟩
  cases hcalled

end Sylar.TimerNotify
