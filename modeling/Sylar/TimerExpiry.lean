import Sylar.TimerInv

/-!
Which timers `listExpiredCb` takes, and what it does to them.

The cut in the set is found by looking for a temporary timer at the current time, whose
address may lie anywhere among those of the members; the loop over equal deadlines that
follows makes the address irrelevant.
-/

namespace Sylar.TimerExpiry

open Lib Sylar.TimerModel Sylar.TimerInv TimerManager

variable {C : Type}

/-- The timers that are due at `now`: all of them after a rollover of the clock. -/
def due (m : TimerManager C) (now : UInt64) (rollover : Bool) : List ℕ :=
  if rollover then m.timers else m.timers.filter fun t => decide ((m.heap t).next ≤ now)

def expired (now : UInt64) (v : Timer C) : Timer C :=
  if v.recurring then { v with next := now + v.ms } else { v with cb := none }

/-! ### The cut -/

lemma before_now_iff (v : Timer C) (now : UInt64) (addr : ℕ) :
    comparator (some v) (some { next := now, addr := addr }) = true ↔
      v.next.toNat < now.toNat ∨ (v.next.toNat = now.toNat ∧ v.addr < addr) :=
  comparator_iff _ _

lemma before_now_mono {m : TimerManager C} (now : UInt64) (addr : ℕ) :
    ∀ a ∈ m.timers, ∀ b ∈ m.timers, m.lt a b = true →
      comparator (some (m.heap b)) (some { next := now, addr := addr }) = true →
      comparator (some (m.heap a)) (some { next := now, addr := addr }) = true := by
  intro a _ b _ hab hb
  rw [TimerManager.lt, comparator_iff] at hab
  rw [before_now_iff] at hb ⊢
  omega

/-- **The cut is at the first timer that is not due**, whatever the address of the temporary
timer. -/
lemma take_expiredEnd_of_sorted {m : TimerManager C} (h : OrdSet.Sorted m.lt m.timers)
    (now : UInt64) (addr : ℕ) (rollover : Bool) :
    m.timers.take (m.expiredEnd now addr rollover) = due m now rollover := by
  unfold expiredEnd due
  cases rollover with
  | true =>
    simp only [if_true, OrdSet.take_skip, List.take_length, List.drop_length,
      List.takeWhile_nil, List.append_nil]
  | false =>
    simp only [Bool.false_eq_true, if_false, OrdSet.take_skip, OrdSet.take_lowerBound,
      OrdSet.drop_lowerBound]
    rw [OrdSet.takeWhile_append_takeWhile (r := fun t => decide ((m.heap t).next ≤ now))]
    · -- deadlines only grow along the set
      refine OrdSet.takeWhile_eq_filter h fun a _ b _ hab hb => ?_
      rw [TimerManager.lt, comparator_iff] at hab
      rw [decide_eq_true_eq, UInt64.le_iff_toNat_le] at hb ⊢
      omega
    · intro a _
      rw [Bool.eq_iff_iff, Bool.or_eq_true, before_now_iff, decide_eq_true_eq, beq_iff_eq,
        UInt64.le_iff_toNat_le, ← UInt64.toNat_inj]
      omega
    · intro a ha
      rw [OrdSet.dropWhile_eq_filter h (before_now_mono now addr)] at ha
      simpa using (List.mem_filter.mp ha).2

lemma take_expiredEnd {m : TimerManager C} (h : Inv m) (now : UInt64) (addr : ℕ)
    (rollover : Bool) : m.timers.take (m.expiredEnd now addr rollover) = due m now rollover :=
  take_expiredEnd_of_sorted h.sorted now addr rollover

lemma due_eq_nil {m : TimerManager C} (h : Inv m) {now : UInt64} {t : ℕ} {rest : List ℕ}
    (ht : m.timers = t :: rest) (hlt : now < (m.heap t).next) : due m now false = [] := by
  unfold due
  simp only [Bool.false_eq_true, if_false, List.filter_eq_nil_iff]
  intro a ha
  have hle : (m.heap t).next.toNat ≤ (m.heap a).next.toNat := by
    have hs := h.sorted
    rw [ht] at ha hs
    rcases List.mem_cons.mp ha with rfl | ha'
    · exact le_refl _
    · have := (List.pairwise_cons.mp hs).1 a ha'
      rw [TimerManager.lt, comparator_iff] at this
      omega
  rw [UInt64.lt_iff_toNat_lt] at hlt
  rw [decide_eq_true_eq, UInt64.le_iff_toNat_le]
  omega

/-! ### The loop -/

lemma expireOne_heap_self (now : UInt64) (s : TimerManager C × List (Option C)) (t : ℕ) :
    (expireOne now s t).1.heap t = expired now (s.1.heap t) := by
  unfold expireOne expired
  dsimp only
  split <;> simp

lemma expireOne_cbs (now : UInt64) (s : TimerManager C × List (Option C)) (t : ℕ) :
    (expireOne now s t).2 = s.2 ++ [(s.1.heap t).cb] := by
  unfold expireOne
  dsimp only
  split <;> rfl

/-- The loop handles each timer once: it appends its callback and leaves `expired` of it. -/
lemma foldl_expireOne (now : UInt64) (out : List ℕ) (s : TimerManager C × List (Option C))
    (hnd : out.Nodup) :
    (out.foldl (expireOne now) s).2 = s.2 ++ out.map (fun t => (s.1.heap t).cb) ∧
    (∀ t ∈ out, (out.foldl (expireOne now) s).1.heap t = expired now (s.1.heap t)) ∧
    (∀ t, t ∉ out → (out.foldl (expireOne now) s).1.heap t = s.1.heap t) := by
  induction out generalizing s with
  | nil => simp
  | cons u out ih =>
    obtain ⟨hu, hnd'⟩ := List.nodup_cons.mp hnd
    obtain ⟨h1, h2, h3⟩ := ih (expireOne now s u) hnd'
    have hne : ∀ t ∈ out, t ≠ u := fun t ht he => hu (he ▸ ht)
    refine ⟨?_, fun t ht => ?_, fun t ht => ?_⟩
    · rw [List.foldl_cons, h1, expireOne_cbs, List.map_cons, List.append_assoc,
        List.singleton_append]
      congr 2
      exact List.map_congr_left fun t ht => by rw [expireOne_heap_ne now s (hne t ht)]
    · rcases List.mem_cons.mp ht with rfl | ht'
      · rw [List.foldl_cons, h3 t hu, expireOne_heap_self]
      · rw [List.foldl_cons, h2 t ht', expireOne_heap_ne now s (hne t ht')]
    · rw [List.mem_cons, not_or] at ht
      rw [List.foldl_cons, h3 t ht.2, expireOne_heap_ne now s ht.1]

/-! ### The whole call -/

lemma due_front {m : TimerManager C} (h : Inv m) (now : UInt64) (rollover : Bool) :
    due m now rollover <+: m.timers :=
  take_expiredEnd h now 0 rollover ▸ List.take_prefix _ _

lemma listExpiredCb_spec {m : TimerManager C} (h : Inv m) (now : UInt64) (addr : ℕ)
    (cbs : List (Option C)) :
    (m.listExpiredCb now addr cbs).2 =
      cbs ++ (due m now (m.detectClockRollover now).2).map (fun t => (m.heap t).cb) ∧
    (∀ t ∈ due m now (m.detectClockRollover now).2,
      (m.listExpiredCb now addr cbs).1.heap t = expired now (m.heap t)) ∧
    (∀ t, t ∉ due m now (m.detectClockRollover now).2 →
      (m.listExpiredCb now addr cbs).1.heap t = m.heap t) := by
  have h' : Inv (m.detectClockRollover now).1 := ⟨h.sorted, h.mem_iff, h.addr_inj, h.fresh⟩
  have hdue : ∀ b, due (m.detectClockRollover now).1 now b = due m now b := fun _ => rfl
  unfold listExpiredCb
  split
  · rename_i hnil
    have : due m now (m.detectClockRollover now).2 = [] := by simp [due, hnil]
    simp [this]
  · rename_i t rest hcons
    dsimp only
    split
    · rename_i hearly
      rw [hearly.1, due_eq_nil h hcons hearly.2]
      exact ⟨by simp, fun _ hm => absurd hm List.not_mem_nil, fun _ _ => rfl⟩
    · rw [take_expiredEnd h', hdue]
      refine foldl_expireOne now _ _ ?_
      exact (h.sorted.nodup (lt_irrefl m)).sublist (due_front h now _).sublist

/-- **Expiry is exact.** In every state a sequence of calls leads to, for every previous
time, clock value and address of the temporary timer: the timers that are due are a front
part of the set, once each and by growing deadline; their callbacks are appended in that
order; those that do not recur leave the set and lose their callback; those that recur are
members once, with a deadline one period from now; every other timer is as it was. -/
theorem listExpiredCb_exact (start : UInt64) (as : List (Action C)) (m : TimerManager C)
    (hr : Runs.run step (init start) as = some m) (previouse now : UInt64) (addr : ℕ)
    (cbs : List (Option C)) :
    let m := { m with previouseTime := previouse }
    let d := due m now (m.detectClockRollover now).2
    let r := m.listExpiredCb now addr cbs
    d <+: m.timers ∧ d.Nodup ∧ d.Pairwise (fun a b => (m.heap a).next ≤ (m.heap b).next) ∧
    (∀ t ∈ d, (m.heap t).cb ≠ none) ∧
    r.2 = cbs ++ d.map (fun t => (m.heap t).cb) ∧
    r.1.timers.Nodup ∧
    (∀ t, t ∈ r.1.timers ↔
      (t ∈ m.timers ∧ t ∉ d) ∨ (t ∈ d ∧ (m.heap t).recurring = true)) ∧
    (∀ t ∈ d, (m.heap t).recurring = false → r.1.heap t = { m.heap t with cb := none }) ∧
    (∀ t ∈ d, (m.heap t).recurring = true →
      r.1.heap t = { m.heap t with next := now + (m.heap t).ms }) ∧
    (∀ t, t ∉ d → r.1.heap t = m.heap t) := by
  have h0 : Inv m := Runs.run_inv step_inv (init_inv start) hr
  intro m d r
  have h : Inv m := ⟨h0.sorted, h0.mem_iff, h0.addr_inj, h0.fresh⟩
  have hpre : d <+: m.timers := due_front h now _
  have hnd : m.timers.Nodup := h.sorted.nodup (lt_irrefl m)
  have hr' : Inv r.1 := listExpiredCb_inv h now addr cbs
  obtain ⟨hcbs, hin, hout⟩ := listExpiredCb_spec h now addr cbs
  have hsome : ∀ t ∈ d, (m.heap t).cb.isSome := fun t ht =>
    ((h.mem_iff t).mp (hpre.subset ht)).1
  have hmem : ∀ t, t ∈ r.1.timers ↔ (r.1.heap t).cb.isSome := fun t => by
    simpa using hr'.mem_iff t
  refine ⟨hpre, hnd.sublist hpre.sublist, ?_, fun t ht => Option.isSome_iff_ne_none.mp (hsome t ht),
    hcbs, hr'.sorted.nodup (lt_irrefl _), fun t => ?_, fun t ht hrec => ?_, fun t ht hrec => ?_,
    hout⟩
  · refine (List.Pairwise.imp ?_ h.sorted).sublist hpre.sublist
    intro a b hab
    rw [TimerManager.lt, comparator_iff] at hab
    rw [UInt64.le_iff_toNat_le]
    omega
  · rw [hmem t]
    by_cases ht : t ∈ d
    · have hs := hsome t ht
      rw [hin t ht, expired]
      split
      · rename_i hrec; simp [ht, hrec, hs]
      · rename_i hrec; simp [ht, hrec]
    · rw [hout t ht]
      have := h.mem_iff t
      simp only [List.not_mem_nil, not_false_eq_true, and_true] at this
      simp [ht, this]
  · rw [hin t ht, expired, if_neg (by simp [hrec])]
  · rw [hin t ht, expired, if_pos hrec]

/-- A recurring timer and a timer that ends, both due at the same time, with the temporary
timer's address between theirs. -/
theorem listExpiredCb_exact_tie :
    ∃ m : TimerManager ℕ, Runs.run step (init 0)
        [.addTimer 5 7 true 100 1, .addTimer 5 8 false 100 3, .addTimer 6 9 false 100 4] = some m ∧
      due m 105 (m.detectClockRollover 105).2 = [0, 1] ∧
      (m.listExpiredCb 105 2 []).2 = [some 7, some 8] ∧
      (m.listExpiredCb 105 2 []).1.timers = [2, 0] :=
  ⟨_, rfl, rfl, (listExpiredCb_exact 0
    [.addTimer 5 7 true 100 1, .addTimer 5 8 false 100 3, .addTimer 6 9 false 100 4] _ rfl
    0 105 2 []).2.2.2.2.1, rfl⟩

end Sylar.TimerExpiry
