import Sylar.TimerInv

/-!
What `Timer::reset` does to a deadline, over every set of timers the calls can build.

Here `addTimer` may also be given an empty function. Such a timer is a member of the set like
any other, but `cancel`, `refresh` and `reset` take it for a cancelled one, so membership is no
longer the same as having a callback. What remains is `Held m out`: the members and the timers
an operation has in hand have different addresses, and a timer with a callback is among them.
-/

namespace Sylar.TimerReset

open Lib Sylar.TimerModel Sylar.TimerInv TimerManager

variable {C : Type}

/-! ### The invariant, with some timers in hand -/

/-- The timer is a member or in hand. -/
def Live (m : TimerManager C) (out : List ℕ) (t : ℕ) : Prop := t ∈ m.timers ∨ t ∈ out

structure Held (m : TimerManager C) (out : List ℕ) : Prop where
  sorted : OrdSet.Sorted m.lt m.timers
  apart : ∀ t ∈ out, t ∉ m.timers
  addr_inj : ∀ a b, Live m out a → Live m out b → (m.heap a).addr = (m.heap b).addr → a = b
  owns : ∀ t, (m.heap t).cb.isSome → Live m out t
  made : ∀ t, Live m out t → t < m.made

/-- A timer in hand may get new fields as long as it keeps its address. -/
lemma Held.set {m : TimerManager C} {out : List ℕ} (h : Held m out) {t : ℕ} (ht : t ∈ out)
    {v : Timer C} (haddr : v.addr = (m.heap t).addr) : Held (m.set t v) out := by
  have haddr' : ∀ s, ((m.set t v).heap s).addr = (m.heap s).addr := by
    intro s
    by_cases hs : s = t
    · subst hs; rw [set_heap_self, haddr]
    · rw [set_heap_ne m v hs]
  refine ⟨sorted_set v h.sorted (h.apart t ht), h.apart, fun a b ha hb => ?_, fun s hs => ?_,
    h.made⟩
  · rw [haddr', haddr']
    exact h.addr_inj a b ha hb
  · by_cases hst : s = t
    · subst hst
      exact Or.inr ht
    · rw [set_heap_ne m v hst] at hs
      exact h.owns s hs

/-- Putting a timer back: it goes in, and nobody else moves. -/
lemma Held.mem_insert {m : TimerManager C} {t : ℕ} {out : List ℕ} (h : Held m (t :: out)) (s : ℕ) :
    s ∈ (OrdSet.insert m.lt t m.timers).1 ↔ s = t ∨ s ∈ m.timers := by
  refine OrdSet.mem_insert fun y hy => lt_total m fun haddr => ?_
  have hty : t = y := h.addr_inj t y (Or.inr (by simp)) (Or.inl hy) haddr
  exact h.apart t (by simp) (hty ▸ hy)

lemma Held.insert {m : TimerManager C} {t : ℕ} {out : List ℕ} (h : Held m (t :: out))
    (ht : t ∉ out) : Held { m with timers := (OrdSet.insert m.lt t m.timers).1 } out := by
  have hlive : ∀ s, Live { m with timers := (OrdSet.insert m.lt t m.timers).1 } out s ↔
      Live m (t :: out) s := by
    intro s
    have := h.mem_insert s
    simp only [Live, this, List.mem_cons]
    tauto
  refine ⟨OrdSet.insert_sorted (lt_trans m) h.sorted, fun s hs hm => ?_, fun a b ha hb => ?_,
    fun s hs => (hlive s).mpr (h.owns s hs), fun s hs => h.made s ((hlive s).mp hs)⟩
  · rcases (h.mem_insert s).mp hm with rfl | hm
    · exact ht hs
    · exact h.apart s (List.mem_cons_of_mem _ hs) hm
  · exact h.addr_inj a b ((hlive a).mp ha) ((hlive b).mp hb)

lemma Held.clear {m : TimerManager C} {t : ℕ} {out : List ℕ} (h : Held m (t :: out))
    {v : Timer C} (hv : v.cb = none) (haddr : v.addr = (m.heap t).addr) :
    Held (m.set t v) out := by
  have hset := h.set (t := t) (by simp) haddr
  have hlive : ∀ s, Live (m.set t v) out s → Live (m.set t v) (t :: out) s := fun s hs =>
    hs.imp id (List.mem_cons_of_mem _)
  refine ⟨hset.sorted, fun s hs => hset.apart s (List.mem_cons_of_mem _ hs), fun a b ha hb =>
    hset.addr_inj a b (hlive a ha) (hlive b hb), fun s hs => ?_,
    fun s hs => hset.made s (hlive s hs)⟩
  rcases hset.owns s hs with hm | hm
  · exact Or.inl hm
  · rcases List.mem_cons.mp hm with rfl | hm
    · rw [set_heap_self, hv] at hs
      cases hs
    · exact Or.inr hm

/-- Taking members in hand: `rest` is what is left of the set. -/
lemma Held.take {m : TimerManager C} (h : Held m []) {rest out : List ℕ}
    (hrest : rest.Sublist m.timers) (hmem : ∀ t, t ∈ m.timers ↔ t ∈ rest ∨ t ∈ out)
    (hapart : ∀ t ∈ out, t ∉ rest) : Held { m with timers := rest } out := by
  have hlive : ∀ s, Live { m with timers := rest } out s ↔ Live m [] s := by
    intro s
    have := hmem s
    simp only [Live, this, List.not_mem_nil, or_false]
  exact ⟨h.sorted.sublist hrest, hapart, fun a b ha hb =>
    h.addr_inj a b ((hlive a).mp ha) ((hlive b).mp hb), fun s hs => (hlive s).mpr (h.owns s hs),
    fun s hs => h.made s ((hlive s).mp hs)⟩

lemma Held.erase {m : TimerManager C} (h : Held m []) {t : ℕ} (ht : t ∈ m.timers) :
    ∃ i, OrdSet.find m.lt t m.timers = some i ∧ Held { m with timers := m.timers.eraseIdx i } [t] ∧
      ∀ s, s ≠ t → (s ∈ m.timers.eraseIdx i ↔ s ∈ m.timers) := by
  obtain ⟨l₁, l₂, hl, hfind⟩ := OrdSet.find_of_mem (lt_irrefl m t) h.sorted ht
  have herase : m.timers.eraseIdx l₁.length = l₁ ++ l₂ := by
    rw [hl, List.eraseIdx_append_of_length_le (le_refl _)]; simp
  have hnd : (t :: (l₁ ++ l₂)).Nodup := by
    have := h.sorted.nodup (lt_irrefl m)
    rw [hl] at this
    exact List.perm_middle.nodup_iff.mp this
  have hmem : ∀ s, s ∈ m.timers ↔ s ∈ l₁ ++ l₂ ∨ s ∈ [t] := by
    intro s
    rw [hl]
    simp only [List.mem_append, List.mem_cons, List.not_mem_nil, or_false]
    tauto
  refine ⟨l₁.length, hfind, h.take (List.eraseIdx_sublist _ _) ?_ ?_, fun s hs => ?_⟩
  · rw [herase]
    exact hmem
  · intro s hs
    rw [herase, List.mem_singleton.mp hs]
    exact (List.nodup_cons.mp hnd).1
  · rw [herase, hmem s]
    simp [hs]

lemma Held.cut {m : TimerManager C} (h : Held m []) (i : ℕ) :
    Held { m with timers := m.timers.drop i } (m.timers.take i) := by
  have hnd : (m.timers.take i ++ m.timers.drop i).Nodup := by
    rw [List.take_append_drop]; exact h.sorted.nodup (lt_irrefl m)
  refine h.take (List.drop_sublist _ _) (fun t => ?_) fun t h1 h2 =>
    (List.nodup_append.mp hnd).2.2 t h1 t h2 rfl
  rw [Or.comm, ← List.mem_append, List.take_append_drop]

/-! ### The operations -/

lemma addTimer_held {m : TimerManager C} (h : Held m []) (ms : UInt64) (cb : Option C)
    (recurring : Bool) (now : UInt64) {addr : ℕ} (haddr : ∀ t ∈ m.timers, (m.heap t).addr ≠ addr) :
    Held (m.addTimer ms cb recurring now addr).1 [] := by
  have hfresh : ∀ s, Live m [] s → s ≠ m.made := fun s hs => (h.made s hs).ne
  have hmade : m.made ∉ m.timers := fun hm => hfresh _ (Or.inl hm) rfl
  have hin : Held ({ m.set m.made ⟨recurring, ms, now + ms, cb, addr⟩ with made := m.made + 1 })
      [m.made] := by
    refine ⟨sorted_set _ h.sorted hmade, fun s hs => ?_, fun a b ha hb hab => ?_, fun s hs => ?_,
      fun s hs => ?_⟩
    · rw [List.mem_singleton.mp hs]
      exact hmade
    · rcases ha with ha | ha <;> rcases hb with hb | hb
      · have hab' : (m.heap a).addr = (m.heap b).addr := by
          rwa [set_heap_ne m _ (hfresh a (Or.inl ha)),
            set_heap_ne m _ (hfresh b (Or.inl hb))] at hab
        exact h.addr_inj a b (Or.inl ha) (Or.inl hb) hab'
      · rw [List.mem_singleton.mp hb, set_heap_self, set_heap_ne m _ (hfresh a (Or.inl ha))] at hab
        exact absurd hab (haddr a ha)
      · rw [List.mem_singleton.mp ha, set_heap_self, set_heap_ne m _ (hfresh b (Or.inl hb))] at hab
        exact absurd hab.symm (haddr b hb)
      · rw [List.mem_singleton.mp ha, List.mem_singleton.mp hb]
    · by_cases hst : s = m.made
      · exact Or.inr (by simp [hst])
      · have hs' : (m.heap s).cb.isSome := by rwa [set_heap_ne m _ hst] at hs
        exact (h.owns s hs').imp id (by simp)
    · show s < m.made + 1
      rcases hs with hs | hs
      · have := h.made s (Or.inl hs)
        omega
      · rw [List.mem_singleton.mp hs]
        omega
  have hins := hin.insert (by simp)
  exact ⟨hins.sorted, hins.apart, hins.addr_inj, hins.owns, hins.made⟩

lemma cancel_held {m : TimerManager C} (h : Held m []) (t : ℕ) :
    ∃ r, m.cancel t = .ok r ∧ Held r.1 [] := by
  unfold cancel
  by_cases hcb : (m.heap t).cb.isSome
  · have ht : t ∈ m.timers := by simpa [Live] using h.owns t hcb
    obtain ⟨i, hfind, hout, -⟩ := h.erase ht
    rw [if_pos hcb]
    simp only [lt_set_cb, set_timers, hfind]
    exact ⟨_, rfl, hout.clear rfl rfl⟩
  · rw [if_neg hcb]
    exact ⟨_, rfl, h⟩

/-- What `refresh` does to a timer with a callback: a new deadline, and nothing else. -/
lemma refresh_held {m : TimerManager C} (h : Held m []) {t : ℕ} (hcb : (m.heap t).cb.isSome)
    (now : UInt64) :
    (m.refresh t now).2 = true ∧ Held (m.refresh t now).1 [] ∧
    (m.refresh t now).1.heap =
      Function.update m.heap t { m.heap t with next := now + (m.heap t).ms } ∧
    ∀ s, s ∈ (m.refresh t now).1.timers ↔ s ∈ m.timers := by
  have ht : t ∈ m.timers := by simpa [Live] using h.owns t hcb
  obtain ⟨i, hfind, hout, hother⟩ := h.erase ht
  have hset := hout.set (t := t) (by simp)
    (v := { m.heap t with next := now + (m.heap t).ms }) rfl
  unfold refresh
  rw [if_neg (by simpa [Option.isNone_iff_eq_none, Option.isSome_iff_ne_none] using hcb)]
  simp only [hfind]
  refine ⟨trivial, hset.insert (by simp), rfl, fun s => ?_⟩
  rw [hset.mem_insert s]
  by_cases hs : s = t
  · simp [hs, ht]
  · simp only [hs, false_or]
    exact hother s hs

/-- What `reset` does to a timer with a callback when it does not return at once. -/
lemma reset_held {m : TimerManager C} (h : Held m []) {t : ℕ} (hcb : (m.heap t).cb.isSome)
    {ms : UInt64} {from_now : Bool} (hms : ¬ ((m.heap t).ms = ms ∧ from_now = false))
    (now : UInt64) :
    (m.reset t ms from_now now).2.1 = true ∧ Held (m.reset t ms from_now now).1 [] ∧
    (m.reset t ms from_now now).1.heap = Function.update m.heap t { m.heap t with
      ms := ms, next := (if from_now then now else (m.heap t).next - ms) + ms } ∧
    ∀ s, s ∈ (m.reset t ms from_now now).1.timers ↔ s ∈ m.timers := by
  have ht : t ∈ m.timers := by simpa [Live] using h.owns t hcb
  obtain ⟨i, hfind, hout, hother⟩ := h.erase ht
  have hset := hout.set (t := t) (by simp)
    (v := { m.heap t with
      ms := ms, next := (if from_now then now else (m.heap t).next - ms) + ms }) rfl
  have hins := hset.insert (by simp)
  unfold reset
  rw [if_neg hms,
    if_neg (by simpa [Option.isNone_iff_eq_none, Option.isSome_iff_ne_none] using hcb)]
  simp only [hfind]
  refine ⟨trivial, ⟨hins.sorted, hins.apart, hins.addr_inj, hins.owns, hins.made⟩, rfl, fun s => ?_⟩
  show s ∈ (OrdSet.insert _ t _).1 ↔ _
  rw [hset.mem_insert s]
  by_cases hs : s = t
  · simp [hs, ht]
  · simp only [hs, false_or]
    exact hother s hs

/-- Without a callback `refresh` and `reset` leave the set alone. -/
lemma refresh_null {m : TimerManager C} {t : ℕ} (hcb : ¬ (m.heap t).cb.isSome) (now : UInt64) :
    m.refresh t now = (m, false) := by
  unfold refresh
  rw [if_pos (by simpa using hcb)]

lemma reset_null {m : TimerManager C} {t : ℕ} (hcb : ¬ (m.heap t).cb.isSome) (ms : UInt64)
    (from_now : Bool) (now : UInt64) :
    m.reset t ms from_now now = (m, decide ((m.heap t).ms = ms ∧ from_now = false), false) := by
  unfold reset
  by_cases hms : (m.heap t).ms = ms ∧ from_now = false
  · rw [if_pos hms, decide_eq_true hms]
  · rw [if_neg hms, if_pos (by simpa using hcb), decide_eq_false hms]

lemma reset_same {m : TimerManager C} {t : ℕ} {ms : UInt64} {from_now : Bool}
    (hms : (m.heap t).ms = ms ∧ from_now = false) (now : UInt64) :
    m.reset t ms from_now now = (m, true, false) := by
  unfold reset
  rw [if_pos hms]

lemma expireOne_held {m : TimerManager C} {t : ℕ} {out : List ℕ} (h : Held m (t :: out))
    (ht : t ∉ out) (now : UInt64) (cbs : List (Option C)) :
    Held (expireOne now (m, cbs) t).1 out := by
  unfold expireOne
  dsimp only
  split
  · have hset := h.set (t := t) (by simp)
      (v := { m.heap t with next := now + (m.heap t).ms }) rfl
    exact hset.insert ht
  · exact h.clear rfl rfl

lemma foldl_expireOne_held (now : UInt64) (out : List ℕ) (s : TimerManager C × List (Option C))
    (h : Held s.1 out) (hnd : out.Nodup) : Held (out.foldl (expireOne now) s).1 [] := by
  induction out generalizing s with
  | nil => exact h
  | cons t out ih =>
    obtain ⟨ht, hnd'⟩ := List.nodup_cons.mp hnd
    exact ih _ (expireOne_held h ht now s.2) hnd'

lemma listExpiredCb_held {m : TimerManager C} (h : Held m []) (now : UInt64) (addr : ℕ)
    (cbs : List (Option C)) : Held (m.listExpiredCb now addr cbs).1 [] := by
  have h' : Held (m.detectClockRollover now).1 [] :=
    ⟨h.sorted, h.apart, h.addr_inj, h.owns, h.made⟩
  unfold listExpiredCb
  split
  · exact h
  · dsimp only
    split
    · exact h'
    · refine foldl_expireOne_held now _ _ (h'.cut _) ?_
      exact (h'.sorted.nodup (lt_irrefl _)).sublist (List.take_sublist _ _)

/-! ### Runs -/

/-- A call as in `TimerInv`, or an `addTimer` with an empty function. -/
inductive Action (C : Type)
  | call (a : TimerInv.Action C)
  | addEmpty (ms : UInt64) (recurring : Bool) (now : UInt64) (addr : ℕ)

def step (m : TimerManager C) : Action C → Option (TimerManager C)
  | .call a => TimerInv.step m a
  | .addEmpty ms recurring now addr =>
    if ∀ t ∈ m.timers, (m.heap t).addr ≠ addr then
      some (m.addTimer ms none recurring now addr).1
    else none

lemma init_held (now : UInt64) : Held (init now : TimerManager C) [] :=
  ⟨List.Pairwise.nil, by simp, by simp [Live, init], by simp [init], by simp [Live, init]⟩

lemma step_held (m : TimerManager C) (a : Action C) (m' : TimerManager C) (h : Held m [])
    (hs : step m a = some m') : Held m' [] := by
  rcases a with a | ⟨ms, recurring, now, addr⟩
  · cases a with
    | addTimer ms cb recurring now addr =>
      simp only [step, TimerInv.step, Option.ite_none_right_eq_some, Option.some.injEq] at hs
      obtain ⟨haddr, rfl⟩ := hs
      exact addTimer_held h ms (some cb) recurring now haddr
    | cancel t =>
      obtain ⟨r, hr, hheld⟩ := cancel_held h t
      simp only [step, TimerInv.step, hr, Option.ite_none_right_eq_some, Option.some.injEq] at hs
      obtain ⟨-, rfl⟩ := hs
      exact hheld
    | refresh t now =>
      simp only [step, TimerInv.step, Option.ite_none_right_eq_some, Option.some.injEq] at hs
      obtain ⟨-, rfl⟩ := hs
      by_cases hcb : (m.heap t).cb.isSome
      · exact (refresh_held h hcb now).2.1
      · rw [refresh_null hcb]
        exact h
    | reset t ms from_now now =>
      simp only [step, TimerInv.step, Option.ite_none_right_eq_some, Option.some.injEq] at hs
      obtain ⟨-, rfl⟩ := hs
      by_cases hms : (m.heap t).ms = ms ∧ from_now = false
      · rw [reset_same hms]
        exact h
      · by_cases hcb : (m.heap t).cb.isSome
        · exact (reset_held h hcb hms now).2.1
        · rw [reset_null hcb]
          exact h
    | listExpiredCb now addr =>
      obtain rfl := Option.some.inj hs
      exact listExpiredCb_held h now addr []
  · simp only [step, Option.ite_none_right_eq_some, Option.some.injEq] at hs
    obtain ⟨haddr, rfl⟩ := hs
    exact addTimer_held h ms none recurring now haddr

/-! ### Re-timing -/

/-- What `reset` is for: it succeeds exactly on the pending timers, gives its timer the new
interval from the moment asked for, and touches nothing else. -/
def Retimes (m : TimerManager C) (t : ℕ) (ms : UInt64) (from_now : Bool) (now : UInt64) : Prop :=
  let r := m.reset t ms from_now now
  (r.2.1 = true ↔ t ∈ m.timers) ∧
  (t ∈ m.timers → (r.1.heap t).ms = ms ∧
    (r.1.heap t).next =
      (if from_now then now + ms else (m.heap t).next - (m.heap t).ms + ms) ∧
    ∀ u, u ≠ t → r.1.heap u = m.heap u ∧ (u ∈ r.1.timers ↔ u ∈ m.timers)) ∧
  (t ∉ m.timers → r.1 = m)

/-- When the code does it. A pending timer with a callback has to be counted from now, or given
the interval it has; one with an empty function has to meet the return before the lock, and a
timer that is not pending must not. -/
def CanRetime (m : TimerManager C) (t : ℕ) (ms : UInt64) (from_now : Bool) : Prop :=
  if t ∈ m.timers then
    if (m.heap t).cb.isSome then from_now = true ∨ ms = (m.heap t).ms
    else from_now = false ∧ ms = (m.heap t).ms
  else from_now = true ∨ ms ≠ (m.heap t).ms

lemma retimes_of_same {m : TimerManager C} {t : ℕ} {ms : UInt64} {from_now : Bool}
    (hms : (m.heap t).ms = ms ∧ from_now = false) (now : UInt64) :
    Retimes m t ms from_now now ↔ t ∈ m.timers := by
  obtain ⟨rfl, rfl⟩ := hms
  unfold Retimes
  rw [reset_same ⟨rfl, rfl⟩]
  constructor
  · exact fun h => h.1.mp rfl
  · intro ht
    refine ⟨iff_of_true rfl ht, fun _ => ⟨rfl, ?_, fun u _ => ⟨rfl, Iff.rfl⟩⟩, fun _ => rfl⟩
    simp

lemma retimes_of_null {m : TimerManager C} {t : ℕ} {ms : UInt64} {from_now : Bool}
    (hms : ¬ ((m.heap t).ms = ms ∧ from_now = false)) (hcb : ¬ (m.heap t).cb.isSome)
    (now : UInt64) : Retimes m t ms from_now now ↔ t ∉ m.timers := by
  unfold Retimes
  rw [reset_null hcb, decide_eq_false hms]
  constructor
  · exact fun h ht => absurd (h.1.mpr ht) (by simp)
  · exact fun ht => ⟨iff_of_false (by simp) ht, fun h => absurd h ht, fun _ => rfl⟩

lemma retimes_of_pending {m : TimerManager C} (h : Held m []) {t : ℕ} {ms : UInt64}
    {from_now : Bool} (hms : ¬ ((m.heap t).ms = ms ∧ from_now = false))
    (hcb : (m.heap t).cb.isSome) (now : UInt64) :
    Retimes m t ms from_now now ↔ from_now = true := by
  have ht : t ∈ m.timers := by simpa [Live] using h.owns t hcb
  obtain ⟨htrue, -, hheap, hmem⟩ := reset_held h hcb hms now
  unfold Retimes
  simp only [htrue, hheap, hmem, Function.update_self, ht, true_and, not_true_eq_false,
    false_implies, and_true, forall_const]
  constructor
  · rintro ⟨hnext, -⟩
    -- counted from the old start, the deadline written is the old one
    by_contra hfrom
    have hold : (m.heap t).next = (m.heap t).next - (m.heap t).ms + ms := by
      simpa only [hfrom, if_false, UInt64.sub_add_cancel] using hnext
    have hsame : (m.heap t).ms = ms := by grind
    exact hms ⟨hsame, by simpa using hfrom⟩
  · intro hfrom
    refine ⟨by simp [hfrom], fun u hu => ?_⟩
    rw [Function.update_of_ne hu]

/-- **When a reset re-times its timer.** In every state the calls lead to, for every timer,
interval, start and clock value. -/
theorem reset_retimes_iff (now₀ : UInt64) (as : List (Action C)) (m : TimerManager C)
    (hr : Runs.run step (init now₀) as = some m) (t : ℕ) (ms : UInt64) (from_now : Bool)
    (now : UInt64) : Retimes m t ms from_now now ↔ CanRetime m t ms from_now := by
  have h : Held m [] := Runs.run_inv step_held (init_held now₀) hr
  unfold CanRetime
  by_cases hms : (m.heap t).ms = ms ∧ from_now = false
  · rw [retimes_of_same hms]
    obtain ⟨rfl, rfl⟩ := hms
    by_cases ht : t ∈ m.timers <;> simp [ht]
  · by_cases hcb : (m.heap t).cb.isSome
    · have ht : t ∈ m.timers := by simpa [Live] using h.owns t hcb
      rw [retimes_of_pending h hms hcb, if_pos ht, if_pos hcb]
      constructor
      · exact Or.inl
      · rintro (hfrom | rfl)
        · exact hfrom
        · by_contra hfrom
          exact hms ⟨rfl, by simpa using hfrom⟩
    · rw [retimes_of_null hms hcb, if_neg hcb]
      by_cases ht : t ∈ m.timers
      · rw [if_pos ht]
        refine iff_of_false (not_not_intro ht) ?_
        rintro ⟨rfl, rfl⟩
        exact hms ⟨rfl, rfl⟩
      · rw [if_neg ht]
        refine iff_of_true ht ?_
        by_cases hfrom : from_now = true
        · exact Or.inl hfrom
        · exact Or.inr fun heq => hms ⟨heq.symm, by simpa using hfrom⟩

/-- A timer of 5 ms, pending since clock value 100. -/
def pendingRun : List (Action ℕ) := [.call (.addTimer 5 7 false 100 1)]

theorem reset_retimes_iff_pending :
    ∃ m : TimerManager ℕ, Runs.run step (init 0) pendingRun = some m ∧
      Retimes m 0 9 true 200 ∧ ¬ Retimes m 0 9 false 200 :=
  ⟨_, rfl, (reset_retimes_iff 0 pendingRun _ rfl 0 9 true 200).mpr (Or.inl rfl),
    fun h => absurd ((reset_retimes_iff 0 pendingRun _ rfl 0 9 false 200).mp h) (by
      rintro (h | h) <;> exact absurd h (by decide))⟩

/-- Counted from its start, 9 ms for the timer of 5 ms leave the deadline at 105. -/
theorem reset_misses :
    ¬ ∀ (now₀ : UInt64) (as : List (Action ℕ)) (m : TimerManager ℕ),
      Runs.run step (init now₀) as = some m →
      ∀ (t : ℕ) (ms : UInt64) (from_now : Bool) (now : UInt64), Retimes m t ms from_now now := by
  intro h
  have h9 := h 0 pendingRun _ rfl 0 9 false 200
  have hnext := (h9.2.1 (by decide)).2.1
  exact absurd hnext (by decide)

end Sylar.TimerReset
