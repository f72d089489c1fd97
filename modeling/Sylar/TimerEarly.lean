import Sylar.TimerReset
import Sylar.TimerNotify
import Sylar.HookModel
import Mathlib.Algebra.Ring.Nat

/-!
Whether a timer can fire before its time.

A deadline is a sum of the clock and an interval in 64 bits. A timer is armed by `addTimer`,
by `refresh`, by `reset` from now and by its own recurrence; from then on no call moves its
deadline before the next arming, so what matters is the sum.
-/

namespace Sylar.TimerEarly

open Lib Sylar.TimerModel Sylar.TimerInv Sylar.TimerExpiry Sylar.TimerReset TimerManager
open Sylar.TimerNotify (Fits)

variable {C : Type}

/-- The vector `expired` of a call of `listExpiredCb`. -/
def expiredTimers (m : TimerManager C) (now : UInt64) (addr : ℕ) : List ℕ :=
  match m.timers with
  | [] => []
  | t :: _ =>
    let (m, rollover) := m.detectClockRollover now
    if rollover = false ∧ (m.heap t).next > now then []
    else m.timers.take (m.expiredEnd now addr rollover)

/-- The ways a deadline is computed from the clock. -/
inductive Arming
  | addTimer
  | refresh
  | reset
  | recurrence
  deriving DecidableEq

/-- How the call arms timer `t`, at which clock value and for how long. -/
def arms (m : TimerManager C) (a : TimerReset.Action C) (t : ℕ) :
    Option (Arming × UInt64 × UInt64) :=
  match a with
  | .call (.addTimer ms _ _ now _) | .addEmpty ms _ now _ =>
    if t = m.made then some (.addTimer, now, ms) else none
  | .call (.refresh u now) =>
    if u = t ∧ (m.refresh u now).2 = true then some (.refresh, now, (m.heap t).ms) else none
  | .call (.reset u ms true now) =>
    if u = t ∧ (m.reset u ms true now).2.1 = true then some (.reset, now, ms) else none
  | .call (.listExpiredCb now addr) =>
    if t ∈ expiredTimers m now addr ∧ (m.heap t).recurring = true then
      some (.recurrence, now, (m.heap t).ms)
    else none
  | .call (.reset _ _ false _) | .call (.cancel _) => none

/-- A timer armed in the given way at `now` for `ms`, in any state the calls lead to, is not
taken by any later `listExpiredCb` that reads a clock value in `[now, now + ms)` and sees no
rollover, as long as it is not armed again. -/
def NeverEarly (C : Type) (k : Arming) (now ms : UInt64) : Prop :=
  ∀ (now₀ : UInt64) (as : List (TimerReset.Action C)) (m : TimerManager C),
    Runs.run TimerReset.step (init now₀) as = some m →
  ∀ (a : TimerReset.Action C) (m₁ : TimerManager C), TimerReset.step m a = some m₁ →
  ∀ t, arms m a t = some (k, now, ms) →
  ∀ (bs : List (TimerReset.Action C)) (m₂ : TimerManager C),
    Runs.run TimerReset.step m₁ bs = some m₂ →
    Runs.Meets TimerReset.step (fun m b => arms m b t = none) m₁ bs →
  ∀ (c : UInt64) (addr : ℕ), now.toNat ≤ c.toNat → c.toNat < now.toNat + ms.toNat →
    (m₂.detectClockRollover c).2 = false → t ∉ expiredTimers m₂ c addr

/-! ### Expiry -/

lemma front_le {m : TimerManager C} (h : OrdSet.Sorted m.lt m.timers) {u : ℕ} {rest : List ℕ}
    (hu : m.timers = u :: rest) {t : ℕ} (ht : t ∈ m.timers) :
    (m.heap u).next.toNat ≤ (m.heap t).next.toNat := by
  rw [hu] at h ht
  rcases List.mem_cons.mp ht with rfl | ht
  · exact le_refl _
  · have hlt := (List.pairwise_cons.mp h).1 t ht
    rw [TimerManager.lt, comparator_iff] at hlt
    omega

/-- Without a rollover the timers taken are the members whose deadline is not after the clock. -/
lemma mem_expiredTimers {m : TimerManager C} (h : Held m []) {now : UInt64}
    (hroll : (m.detectClockRollover now).2 = false) (addr t : ℕ) :
    t ∈ expiredTimers m now addr ↔ t ∈ m.timers ∧ (m.heap t).next.toNat ≤ now.toNat := by
  unfold expiredTimers
  split
  · rename_i hnil
    simp [hnil]
  · rename_i u rest hcons
    dsimp only
    rw [hroll]
    split
    · rename_i hearly
      have hlt : now.toNat < (m.heap u).next.toNat := UInt64.lt_iff_toNat_lt.mp hearly.2
      refine iff_of_false List.not_mem_nil ?_
      rintro ⟨ht, hle⟩
      have := front_le h.sorted hcons ht
      omega
    · rw [take_expiredEnd_of_sorted (m := (m.detectClockRollover now).1) h.sorted]
      simp only [due, Bool.false_eq_true, if_false, List.mem_filter, decide_eq_true_eq,
        UInt64.le_iff_toNat_le]
      rfl

lemma expiredTimers_sublist (m : TimerManager C) (now : UInt64) (addr : ℕ) :
    (expiredTimers m now addr).Sublist m.timers := by
  unfold expiredTimers
  split
  · exact List.nil_sublist _
  · dsimp only
    split
    · exact List.nil_sublist _
    · exact List.take_sublist _ _

/-- The loop of `listExpiredCb` is over that vector, with its timers in hand. -/
lemma listExpiredCb_loop {m : TimerManager C} (h : Held m []) (now : UInt64) (addr : ℕ)
    (cbs : List (Option C)) :
    ∃ m' : TimerManager C, m'.heap = m.heap ∧ Held m' (expiredTimers m now addr) ∧
      (m.listExpiredCb now addr cbs).1 =
        ((expiredTimers m now addr).foldl (expireOne now) (m', cbs)).1 := by
  have h' : Held (m.detectClockRollover now).1 [] :=
    ⟨h.sorted, h.apart, h.addr_inj, h.owns, h.made⟩
  unfold expiredTimers listExpiredCb
  cases hm : m.timers with
  | nil => exact ⟨m, rfl, h, rfl⟩
  | cons u rest =>
    dsimp only
    by_cases hearly : (m.detectClockRollover now).2 = false ∧
        ((m.detectClockRollover now).1.heap u).next > now
    · simp only [if_pos hearly]
      exact ⟨(m.detectClockRollover now).1, rfl, h', rfl⟩
    · simp only [if_neg hearly]
      refine ⟨_, ?_, h'.cut _, rfl⟩
      rfl

/-- What `listExpiredCb` does to the timers it takes; it does nothing to the others. -/
lemma listExpiredCb_heap {m : TimerManager C} (h : Held m []) (now : UInt64) (addr : ℕ)
    (cbs : List (Option C)) (t : ℕ) :
    (t ∈ expiredTimers m now addr →
      (m.listExpiredCb now addr cbs).1.heap t = expired now (m.heap t)) ∧
    (t ∉ expiredTimers m now addr → (m.listExpiredCb now addr cbs).1.heap t = m.heap t) := by
  have hnd : (expiredTimers m now addr).Nodup :=
    (h.sorted.nodup (lt_irrefl m)).sublist (expiredTimers_sublist m now addr)
  obtain ⟨m', hheap, -, hloop⟩ := listExpiredCb_loop h now addr cbs
  obtain ⟨-, hin, hout⟩ := foldl_expireOne now _ (m', cbs) hnd
  rw [hloop, ← hheap]
  exact ⟨hin t, hout t⟩

/-- The loop leaves the recurring timers it took in the set. -/
lemma foldl_expireOne_mem (now : UInt64) (out : List ℕ) (s : TimerManager C × List (Option C))
    (h : Held s.1 out) (hnd : out.Nodup) {t : ℕ}
    (ht : t ∈ s.1.timers ∨ (t ∈ out ∧ (s.1.heap t).recurring = true)) :
    t ∈ (out.foldl (expireOne now) s).1.timers := by
  induction out generalizing s with
  | nil => exact ht.resolve_right (by simp)
  | cons u out ih =>
    obtain ⟨hu, hnd'⟩ := List.nodup_cons.mp hnd
    refine ih _ (expireOne_held h hu now s.2) hnd' ?_
    have hset := h.set (t := u) (by simp)
      (v := { s.1.heap u with next := now + (s.1.heap u).ms }) rfl
    rcases ht with ht | ⟨ht, hrec⟩
    · left
      unfold expireOne
      dsimp only
      split
      · exact (hset.mem_insert t).mpr (Or.inr ht)
      · exact ht
    · rcases List.mem_cons.mp ht with rfl | ht
      · left
        unfold expireOne
        dsimp only
        rw [if_pos hrec]
        exact (hset.mem_insert t).mpr (Or.inl rfl)
      · right
        have htu : t ≠ u := fun he => hu (he ▸ ht)
        rw [expireOne_heap_ne now s htu]
        exact ⟨ht, hrec⟩

lemma listExpiredCb_mem {m : TimerManager C} (h : Held m []) {now : UInt64} {addr t : ℕ}
    (ht : t ∈ expiredTimers m now addr) (hrec : (m.heap t).recurring = true)
    (cbs : List (Option C)) : t ∈ (m.listExpiredCb now addr cbs).1.timers := by
  have hnd : (expiredTimers m now addr).Nodup :=
    (h.sorted.nodup (lt_irrefl m)).sublist (expiredTimers_sublist m now addr)
  obtain ⟨m', hheap, hheld, hloop⟩ := listExpiredCb_loop h now addr cbs
  rw [hloop]
  refine foldl_expireOne_mem now _ (m', cbs) hheld hnd (Or.inr ⟨ht, ?_⟩)
  rw [hheap]
  exact hrec

/-! ### One call -/

lemma step_made {m m' : TimerManager C} {a : TimerReset.Action C}
    (hs : TimerReset.step m a = some m') : m.made ≤ m'.made := by
  rcases a with a | ⟨ms, recurring, now, addr⟩
  · exact (step_keeps hs).made
  · simp only [TimerReset.step, Option.ite_none_right_eq_some, Option.some.injEq] at hs
    obtain ⟨-, rfl⟩ := hs
    exact (addTimer_keeps m ms none recurring now addr).made

lemma addTimer_heap_ne (m : TimerManager C) (ms : UInt64) (cb : Option C) (recurring : Bool)
    (now : UInt64) (addr : ℕ) {t : ℕ} (ht : t ≠ m.made) :
    (m.addTimer ms cb recurring now addr).1.heap t = m.heap t :=
  set_heap_ne m _ ht

/-- A call that does not arm a timer leaves its deadline. -/
lemma step_next {m m' : TimerManager C} (h : Held m []) {a : TimerReset.Action C}
    (hs : TimerReset.step m a = some m') {t : ℕ} (ht : t < m.made) (harm : arms m a t = none) :
    (m'.heap t).next = (m.heap t).next := by
  rcases a with a | ⟨ms, recurring, now, addr⟩
  · cases a with
    | addTimer ms cb recurring now addr =>
      simp only [TimerReset.step, TimerInv.step, Option.ite_none_right_eq_some,
        Option.some.injEq] at hs
      obtain ⟨-, rfl⟩ := hs
      rw [addTimer_heap_ne m ms _ recurring now addr ht.ne]
    | cancel u =>
      obtain ⟨r, hr, -⟩ := cancel_held h u
      simp only [TimerReset.step, TimerInv.step, hr, Option.ite_none_right_eq_some,
        Option.some.injEq] at hs
      obtain ⟨-, rfl⟩ := hs
      have hfields : (r.1.heap t).next = (m.heap t).next := by
        obtain ⟨-, rfl⟩ | ⟨i, rfl⟩ := TimerInv.cancel_cases hr
        · rfl
        · show ((m.set u _).heap t).next = _
          by_cases htu : t = u
          · subst htu; rw [set_heap_self]
          · rw [set_heap_ne m _ htu]
      exact hfields
    | refresh u now =>
      simp only [TimerReset.step, TimerInv.step, Option.ite_none_right_eq_some,
        Option.some.injEq] at hs
      obtain ⟨-, rfl⟩ := hs
      by_cases hcb : (m.heap u).cb.isSome
      · obtain ⟨htrue, -, hheap, -⟩ := refresh_held h hcb now
        have hut : t ≠ u := by
          rintro rfl
          simp [arms, htrue] at harm
        rw [hheap, Function.update_of_ne hut]
      · rw [refresh_null hcb]
    | reset u ms from_now now =>
      simp only [TimerReset.step, TimerInv.step, Option.ite_none_right_eq_some,
        Option.some.injEq] at hs
      obtain ⟨-, rfl⟩ := hs
      by_cases hms : (m.heap u).ms = ms ∧ from_now = false
      · rw [reset_same hms]
      by_cases hcb : (m.heap u).cb.isSome
      · obtain ⟨htrue, -, hheap, -⟩ := reset_held h hcb hms now
        rw [hheap]
        by_cases htu : t = u
        · subst htu
          -- not counted from now, the deadline is written back as it was
          cases from_now with
          | true => simp [arms, htrue] at harm
          | false => simp
        · rw [Function.update_of_ne htu]
      · rw [reset_null hcb]
    | listExpiredCb now addr =>
      obtain rfl := Option.some.inj hs
      obtain ⟨hin, hout⟩ := listExpiredCb_heap h now addr [] t
      by_cases hexp : t ∈ expiredTimers m now addr
      · have hrec : (m.heap t).recurring = false := by
          by_contra hrec
          simp [arms, hexp, hrec] at harm
        rw [hin hexp, expired, hrec]
        rfl
      · rw [hout hexp]
  · simp only [TimerReset.step, Option.ite_none_right_eq_some, Option.some.injEq] at hs
    obtain ⟨-, rfl⟩ := hs
    rw [addTimer_heap_ne m ms _ recurring now addr ht.ne]

/-- A new timer is a member, with the fields it was made with. -/
lemma addTimer_arms {m : TimerManager C} (h : Held m []) (ms : UInt64) (cb : Option C)
    (recurring : Bool) (now : UInt64) {addr : ℕ} (haddr : ∀ t ∈ m.timers, (m.heap t).addr ≠ addr) :
    m.made ∈ (m.addTimer ms cb recurring now addr).1.timers ∧
    (m.addTimer ms cb recurring now addr).1.heap m.made = ⟨recurring, ms, now + ms, cb, addr⟩ := by
  refine ⟨?_, set_heap_self m _ _⟩
  have hmade : ∀ t ∈ m.timers, t ≠ m.made := fun t ht => (h.made t (Or.inl ht)).ne
  refine (OrdSet.mem_insert fun y hy => lt_total _ fun hsame => ?_).mpr (Or.inl rfl)
  have hy' : (m.heap y).addr = addr := by
    simp only [set_heap_self, set_heap_ne m _ (hmade y hy)] at hsame
    exact hsame.symm
  exact haddr y hy hy'

/-- An armed timer is a member with the deadline that was computed. -/
lemma armed {m m' : TimerManager C} (h : Held m []) {a : TimerReset.Action C}
    (hs : TimerReset.step m a = some m') {t : ℕ} {k : Arming} {now ms : UInt64}
    (harm : arms m a t = some (k, now, ms)) : t ∈ m'.timers ∧ (m'.heap t).next = now + ms := by
  rcases a with a | ⟨ms', recurring, now', addr⟩
  · cases a with
    | addTimer ms' cb recurring now' addr =>
      simp only [TimerReset.step, TimerInv.step, Option.ite_none_right_eq_some,
        Option.some.injEq] at hs
      obtain ⟨haddr, rfl⟩ := hs
      simp only [arms, Option.ite_none_right_eq_some, Option.some.injEq, Prod.mk.injEq] at harm
      obtain ⟨rfl, -, rfl, rfl⟩ := harm
      obtain ⟨hmem, hheap⟩ := addTimer_arms h ms' (some cb) recurring now' haddr
      exact ⟨hmem, by rw [hheap]⟩
    | cancel u => simp [arms] at harm
    | refresh u now' =>
      simp only [TimerReset.step, TimerInv.step, Option.ite_none_right_eq_some,
        Option.some.injEq] at hs
      obtain ⟨-, rfl⟩ := hs
      simp only [arms, Option.ite_none_right_eq_some, Option.some.injEq, Prod.mk.injEq] at harm
      obtain ⟨⟨rfl, htrue⟩, -, rfl, rfl⟩ := harm
      by_cases hcb : (m.heap u).cb.isSome
      · obtain ⟨-, -, hheap, hmem⟩ := refresh_held h hcb now'
        have hu : u ∈ m.timers := by simpa [Live] using h.owns u hcb
        exact ⟨(hmem u).mpr hu, by rw [hheap, Function.update_self]⟩
      · rw [refresh_null hcb] at htrue
        cases htrue
    | reset u ms' from_now now' =>
      simp only [TimerReset.step, TimerInv.step, Option.ite_none_right_eq_some,
        Option.some.injEq] at hs
      obtain ⟨-, rfl⟩ := hs
      cases from_now with
      | false => simp [arms] at harm
      | true =>
        simp only [arms, Option.ite_none_right_eq_some, Option.some.injEq, Prod.mk.injEq] at harm
        obtain ⟨⟨rfl, htrue⟩, -, rfl, rfl⟩ := harm
        by_cases hcb : (m.heap u).cb.isSome
        · have hms : ¬ ((m.heap u).ms = ms' ∧ true = false) := by simp
          obtain ⟨-, -, hheap, hmem⟩ := reset_held h hcb hms now'
          have hu : u ∈ m.timers := by simpa [Live] using h.owns u hcb
          exact ⟨(hmem u).mpr hu, by rw [hheap, Function.update_self]; rfl⟩
        · rw [reset_null hcb] at htrue
          simp at htrue
    | listExpiredCb now' addr =>
      obtain rfl := Option.some.inj hs
      simp only [arms, Option.ite_none_right_eq_some, Option.some.injEq, Prod.mk.injEq] at harm
      obtain ⟨⟨hexp, hrec⟩, -, rfl, rfl⟩ := harm
      refine ⟨listExpiredCb_mem h hexp hrec [], ?_⟩
      rw [(listExpiredCb_heap h now' addr [] t).1 hexp, expired, if_pos hrec]
  · simp only [TimerReset.step, Option.ite_none_right_eq_some, Option.some.injEq] at hs
    obtain ⟨haddr, rfl⟩ := hs
    simp only [arms, Option.ite_none_right_eq_some, Option.some.injEq, Prod.mk.injEq] at harm
    obtain ⟨rfl, -, rfl, rfl⟩ := harm
    obtain ⟨hmem, hheap⟩ := addTimer_arms h ms' none recurring now' haddr
    exact ⟨hmem, by rw [hheap]⟩

/-- The deadline stays through every run without another arming. -/
lemma run_next {m m' : TimerManager C} {as : List (TimerReset.Action C)} {t : ℕ} (h : Held m [])
    (ht : t < m.made)
    (hmeets : Runs.Meets TimerReset.step (fun m b => arms m b t = none) m as)
    (hr : Runs.run TimerReset.step m as = some m') :
    Held m' [] ∧ (m'.heap t).next = (m.heap t).next := by
  have hinv := Runs.run_inv_of_meets
    (I := fun n => Held n [] ∧ t < n.made ∧ (n.heap t).next = (m.heap t).next)
    (fun n a n' hn harm hs => ⟨step_held n a n' hn.1 hs, lt_of_lt_of_le hn.2.1 (step_made hs),
      (step_next hn.1 hs hn.2.1 harm).trans hn.2.2⟩) ⟨h, ht, rfl⟩ hmeets hr
  exact ⟨hinv.1, hinv.2.2⟩

/-! ### The sum -/

lemma toNat_sum (now ms : UInt64) :
    (now + ms).toNat = (now.toNat + ms.toNat) % UInt64.size :=
  UInt64.toNat_add now ms

lemma neverEarly_of_fits {now ms : UInt64} (hfits : Fits now ms) (k : Arming) :
    NeverEarly C k now ms := by
  intro now₀ as m hr a m₁ hs t harm bs m₂ hr' hmeets c addr hle hlt hroll hexp
  have h : Held m [] := Runs.run_inv step_held (init_held now₀) hr
  have h₁ : Held m₁ [] := step_held m a m₁ h hs
  obtain ⟨hmem, hnext⟩ := armed h hs harm
  obtain ⟨h₂, hnext₂⟩ := run_next h₁ (h₁.made t (Or.inl hmem)) hmeets hr'
  have hdue := ((mem_expiredTimers h₂ hroll addr t).mp hexp).2
  have hsum : (now + ms).toNat = now.toNat + ms.toNat := by
    rw [toNat_sum, Nat.mod_eq_of_lt hfits]
  rw [hnext₂, hnext, hsum] at hdue
  omega

/-- A timer whose deadline wraps is taken at the very clock value it was armed at. -/
lemma not_neverEarly_of_wraps {now ms : UInt64} (hwraps : ¬ Fits now ms) {k : Arming}
    {now₀ : UInt64} {as : List (TimerReset.Action C)} {m m₁ : TimerManager C}
    {a : TimerReset.Action C} {t : ℕ} (hr : Runs.run TimerReset.step (init now₀) as = some m)
    (hs : TimerReset.step m a = some m₁) (harm : arms m a t = some (k, now, ms))
    (hroll : (m₁.detectClockRollover now).2 = false) : ¬ NeverEarly C k now ms := by
  intro hnever
  have h : Held m [] := Runs.run_inv step_held (init_held now₀) hr
  have h₁ : Held m₁ [] := step_held m a m₁ h hs
  obtain ⟨hmem, hnext⟩ := armed h hs harm
  have hms := ms.toNat_lt
  have hnow := now.toNat_lt
  have hsize : UInt64.size = 2 ^ 64 := rfl
  unfold Fits at hwraps
  refine hnever now₀ as m hr a m₁ hs t harm [] m₁ rfl trivial now 0 (le_refl _) (by omega) hroll ?_
  refine (mem_expiredTimers h₁ hroll 0 t).mpr ⟨hmem, ?_⟩
  rw [hnext, toNat_sum, hsize]
  omega

/-- No rollover is seen at the clock value of the last reading. -/
lemma rollover_self {m : TimerManager C} {now : UInt64} (h : m.previouseTime = now) :
    (m.detectClockRollover now).2 = false := by
  simp [detectClockRollover, h]

/-- A timer for `ms` added at `now` to a manager that was made at `now`. -/
def added [Inhabited C] (now ms : UInt64) : TimerManager C :=
  ((init now).addTimer ms (some default) true now 0).1

lemma added_heap [Inhabited C] (now ms : UInt64) :
    (added now ms : TimerManager C).heap 0 = ⟨true, ms, now + ms, some default, 0⟩ := rfl

lemma step_added [Inhabited C] (now ms : UInt64) :
    TimerReset.step (init now) (.call (.addTimer ms (default : C) true now 0)) =
      some (added now ms) := rfl

lemma run_added [Inhabited C] (now ms : UInt64) : Runs.run TimerReset.step (init now)
    [.call (.addTimer ms (default : C) true now 0)] = some (added now ms) := rfl

lemma added_held [Inhabited C] (now ms : UInt64) : Held (added now ms : TimerManager C) [] :=
  Runs.run_inv step_held (init_held now) (run_added now ms)

lemma refresh_previouse (m : TimerManager C) (t : ℕ) (now : UInt64) :
    (m.refresh t now).1.previouseTime = m.previouseTime := by
  unfold refresh
  split
  · rfl
  · split <;> rfl

lemma listExpiredCb_previouse (m : TimerManager C) (now : UInt64) (addr : ℕ) (cbs : List (Option C))
    (hm : m.previouseTime = now) : (m.listExpiredCb now addr cbs).1.previouseTime = now := by
  have hfold : ∀ (out : List ℕ) (s : TimerManager C × List (Option C)),
      (out.foldl (expireOne now) s).1.previouseTime = s.1.previouseTime := by
    intro out
    induction out with
    | nil => exact fun _ => rfl
    | cons t out ih =>
      intro s
      rw [List.foldl_cons, ih]
      unfold expireOne
      dsimp only
      split <;> rfl
  unfold listExpiredCb
  split
  · exact hm
  · dsimp only
    split
    · rfl
    · exact hfold _ _

/-- Whatever arms it, a timer whose deadline wraps can be taken too early. -/
lemma not_neverEarly [Inhabited C] {now ms : UInt64} (hwraps : ¬ Fits now ms) (k : Arming) :
    ¬ NeverEarly C k now ms := by
  have h := added_held (C := C) now ms
  have hcb : (((added now ms : TimerManager C).heap 0).cb).isSome := by rw [added_heap]; rfl
  cases k with
  | addTimer =>
    have hr : Runs.run TimerReset.step (init now) [] = some (init now : TimerManager C) := rfl
    exact not_neverEarly_of_wraps hwraps hr (step_added now ms) (t := 0) rfl (rollover_self rfl)
  | refresh =>
    refine not_neverEarly_of_wraps hwraps (run_added now ms) (a := .call (.refresh 0 now)) (t := 0)
      rfl ?_ (rollover_self (refresh_previouse _ 0 now))
    simp only [arms, (refresh_held h hcb now).1, and_self, if_true, added_heap]
  | reset =>
    refine not_neverEarly_of_wraps hwraps (run_added now ms) (a := .call (.reset 0 ms true now))
      (t := 0) rfl ?_ (rollover_self (TimerNotify.reset_fields _ 0 ms true now).2)
    have hms : ¬ (((added now ms : TimerManager C).heap 0).ms = ms ∧ true = false) := by simp
    simp only [arms, (reset_held h hcb hms now).1, and_self, if_true]
  | recurrence =>
    -- the wrapped deadline is already due when the clock has not moved
    have hexp : 0 ∈ expiredTimers (added now ms : TimerManager C) now 0 := by
      have hms := ms.toNat_lt
      have hnow := now.toNat_lt
      have hsize : UInt64.size = 2 ^ 64 := rfl
      have hroll : ((added now ms : TimerManager C).detectClockRollover now).2 = false :=
        rollover_self rfl
      refine (mem_expiredTimers h hroll 0 0).mpr ⟨List.mem_singleton.mpr rfl, ?_⟩
      unfold Fits at hwraps
      rw [added_heap, toNat_sum, hsize]
      omega
    refine not_neverEarly_of_wraps hwraps (run_added now ms) (a := .call (.listExpiredCb now 0))
      (t := 0) rfl ?_ (rollover_self (listExpiredCb_previouse _ now 0 [] rfl))
    simp only [arms, hexp, added_heap, and_self, if_true]

/-! ### Signed intervals -/

/-- `s_connect_timeout`, as `_HookIniter` sets it from the setting `tcp.connect.timeout`. -/
def sConnectTimeout (value : Int32) : UInt64 := UInt64.ofInt value.toInt

/-- The interval a hooked call gives to `addConditionTimer`, if it does:
`if(to != (uint64_t)-1)`. -/
def conditionTimer (timeout : UInt64) : Option UInt64 :=
  if timeout ≠ -1 then some timeout else none

lemma conditionTimer_eq {timeout ms : UInt64} (h : conditionTimer timeout = some ms) :
    ms = timeout := by
  simp only [conditionTimer, Option.ite_none_right_eq_some, Option.some.injEq] at h
  exact h.2.symm

/-- The deadline of a signed interval fits: one that is negative counts as `2^64` more, and so
fits only while the clock is below its absolute value. -/
def FitsSigned (now : UInt64) (ms : ℤ) : Prop :=
  if 0 ≤ ms then now.toNat + ms < 2 ^ 64 else now.toNat < -ms

instance (now : UInt64) (ms : ℤ) : Decidable (FitsSigned now ms) :=
  inferInstanceAs (Decidable (if 0 ≤ ms then now.toNat + ms < 2 ^ 64 else now.toNat < -ms))

lemma fits_ofInt (now : UInt64) {ms : ℤ} (h : HookModel.IsLong ms) :
    Fits now (UInt64.ofInt ms) ↔ FitsSigned now ms := by
  obtain ⟨hlo, hhi⟩ := h
  have hsize : UInt64.size = 2 ^ 64 := rfl
  have hlt : (ms % 2 ^ 64).toNat < 2 ^ 64 := by omega
  have hval : (UInt64.ofInt ms).toNat = (ms % 2 ^ 64).toNat := by
    unfold UInt64.ofInt
    rw [UInt64.toNat_ofNat_of_lt' hlt]
  unfold Fits FitsSigned
  rw [hsize, hval]
  split <;> omega

lemma isLong_toInt (value : Int32) : HookModel.IsLong value.toInt := by
  have hlo := value.le_toInt
  have hhi := value.toInt_lt
  unfold HookModel.IsLong
  omega

/-- **When a timer can fire early.** However it is armed, it never does exactly when the sum of
the clock and its interval is below `2^64`. So it is for the timeout of a descriptor context that
`do_io` waits with, for what a `setsockopt` of a timeout leaves there, and for the value of
`tcp.connect.timeout`, where a negative interval fits only as long as the clock is below its
absolute value. -/
theorem never_early_iff [Inhabited C] :
    (∀ (k : Arming) (now ms : UInt64),
      NeverEarly C k now ms ↔ now.toNat + ms.toNat < 2 ^ 64) ∧
    (∀ (hook : Bool) (c : HookModel.FdCtx) (so : HookModel.TimeoutSo) (timeout ms : UInt64),
      HookModel.doIoPath hook (some c) so = .wait timeout → conditionTimer timeout = some ms →
      ∀ now : UInt64, NeverEarly C .addTimer now ms ↔
        now.toNat + (c.getTimeout so).toNat < 2 ^ 64) ∧
    (∀ (tv_sec tv_usec : ℤ) (v ms : UInt64) (c : HookModel.FdCtx) (so : HookModel.TimeoutSo),
      HookModel.timevalMs tv_sec tv_usec = some v →
      conditionTimer ((c.setTimeout so v).getTimeout so) = some ms →
      ∀ now : UInt64, NeverEarly C .addTimer now ms ↔
        FitsSigned now (tv_sec * 1000 + tv_usec.tdiv 1000)) ∧
    (∀ (value : Int32) (ms : UInt64), conditionTimer (sConnectTimeout value) = some ms →
      ∀ now : UInt64, NeverEarly C .addTimer now ms ↔ FitsSigned now value.toInt) := by
  have hiff : ∀ (k : Arming) (now ms : UInt64), NeverEarly C k now ms ↔ Fits now ms :=
    fun k now ms => ⟨fun h => by_contra fun hw => not_neverEarly hw k h,
      fun h => neverEarly_of_fits h k⟩
  refine ⟨hiff, fun hook c so timeout ms hpath hms now => ?_,
    fun tv_sec tv_usec v ms c so hv hms now => ?_, fun value ms hms now => ?_⟩
  · have htimeout : timeout = c.getTimeout so := by
      unfold HookModel.doIoPath at hpath
      dsimp only at hpath
      split_ifs at hpath
      exact (HookModel.Path.wait.inj hpath).symm
    rw [hiff, conditionTimer_eq hms, htimeout]
    rfl
  · have hself : (c.setTimeout so v).getTimeout so = v := by cases so <;> rfl
    simp only [HookModel.timevalMs, Option.ite_none_right_eq_some, Option.some.injEq] at hv
    obtain ⟨⟨-, hlong⟩, rfl⟩ := hv
    rw [hiff, conditionTimer_eq hms, hself]
    exact fits_ofInt now hlong
  · rw [hiff, conditionTimer_eq hms]
    exact fits_ofInt now (isLong_toInt value)

theorem never_early_iff_connect :
    NeverEarly ℕ .addTimer 1 (sConnectTimeout (-2)) ∧
      ¬ NeverEarly ℕ .addTimer 2 (sConnectTimeout (-2)) :=
  ⟨(never_early_iff.2.2.2 (-2) _ rfl 1).mpr (by decide),
    fun h => absurd ((never_early_iff.2.2.2 (-2) _ rfl 2).mp h) (by decide)⟩

/-- With `tcp.connect.timeout` at -2 a connect at any clock value of our time is given up at
once. -/
theorem connect_timeout_fires_early :
    ∃ ms, conditionTimer (sConnectTimeout (-2)) = some ms ∧
      ¬ NeverEarly ℕ .addTimer 1700000000000 ms :=
  ⟨_, rfl, not_neverEarly (by decide) .addTimer⟩

end Sylar.TimerEarly
