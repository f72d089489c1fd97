import Sylar.TimerModel
import Sylar.Lib.Runs

/-!
The representation of the timer set, over every sequence of operations.

Between the moment an operation takes a timer out of the set and the moment it puts it back
or clears its callback the set and the callbacks disagree, on that timer only. `Out m out`
says that `out` lists the timers the operation has in hand; every operation is a cut of the
set followed by writes, insertions and clearings, each of which has its own lemma, and the
invariant is `Out m []`.
-/

namespace Sylar.TimerInv

open Lib Sylar.TimerModel TimerManager

variable {C : Type}

/-! ### The order -/

lemma comparator_iff (a b : Timer C) :
    comparator (some a) (some b) = true ↔
      a.next.toNat < b.next.toNat ∨ (a.next.toNat = b.next.toNat ∧ a.addr < b.addr) := by
  simp only [comparator, UInt64.lt_iff_toNat_lt]
  split_ifs with h1 h2
  · simp [h1]
  · simp only [false_iff]; omega
  · simp only [decide_eq_true_eq]; omega

lemma lt_irrefl (m : TimerManager C) (a : ℕ) : m.lt a a = false := by
  rw [← Bool.not_eq_true, TimerManager.lt, comparator_iff]; omega

lemma lt_trans (m : TimerManager C) (a b c : ℕ) (h1 : m.lt a b = true) (h2 : m.lt b c = true) :
    m.lt a c = true := by
  simp only [TimerManager.lt, comparator_iff] at h1 h2 ⊢; omega

lemma lt_total (m : TimerManager C) {a b : ℕ} (h : (m.heap a).addr ≠ (m.heap b).addr) :
    m.lt a b = true ∨ m.lt b a = true := by
  simp only [TimerManager.lt, comparator_iff]; omega

@[simp] lemma set_timers (m : TimerManager C) (t : ℕ) (v : Timer C) :
    (m.set t v).timers = m.timers := rfl

@[simp] lemma set_made (m : TimerManager C) (t : ℕ) (v : Timer C) : (m.set t v).made = m.made :=
  rfl

@[simp] lemma set_heap_self (m : TimerManager C) (t : ℕ) (v : Timer C) :
    (m.set t v).heap t = v := by simp [TimerManager.set]

lemma set_heap_ne (m : TimerManager C) {s t : ℕ} (v : Timer C) (h : s ≠ t) :
    (m.set t v).heap s = m.heap s := by simp [TimerManager.set, h]

/-! ### The invariant, with some timers in hand -/

/-- The set holds the timers that have a callback, except those in `out`. -/
structure Out (m : TimerManager C) (out : List ℕ) : Prop where
  sorted : OrdSet.Sorted m.lt m.timers
  mem_iff : ∀ t, t ∈ m.timers ↔ (m.heap t).cb.isSome ∧ t ∉ out
  addr_inj : ∀ a b, (m.heap a).cb.isSome → (m.heap b).cb.isSome →
    (m.heap a).addr = (m.heap b).addr → a = b
  fresh : ∀ t, m.made ≤ t → (m.heap t).cb = none

abbrev Inv (m : TimerManager C) : Prop := Out m []

lemma Out.not_mem {m : TimerManager C} {out : List ℕ} (h : Out m out) {t : ℕ} (ht : t ∈ out) :
    t ∉ m.timers := fun hm => ((h.mem_iff t).mp hm).2 ht

/-- Writing to an object outside the set leaves the order alone. -/
lemma sorted_set {m : TimerManager C} {t : ℕ} (v : Timer C) (h : OrdSet.Sorted m.lt m.timers)
    (ht : t ∉ m.timers) : OrdSet.Sorted (m.set t v).lt (m.set t v).timers := by
  refine h.congr fun a ha b hb => ?_
  have hat : a ≠ t := by rintro rfl; exact ht ha
  have hbt : b ≠ t := by rintro rfl; exact ht hb
  simp only [TimerManager.lt, set_heap_ne m v hat, set_heap_ne m v hbt]

/-- A timer in hand may get new fields as long as it keeps its callback and address. -/
lemma Out.set {m : TimerManager C} {out : List ℕ} (h : Out m out) {t : ℕ} (ht : t ∈ out)
    {v : Timer C} (hcb : v.cb = (m.heap t).cb) (haddr : v.addr = (m.heap t).addr) :
    Out (m.set t v) out := by
  have hcb' : ∀ s, ((m.set t v).heap s).cb = (m.heap s).cb := by
    intro s
    by_cases hs : s = t
    · subst hs; rw [set_heap_self, hcb]
    · rw [set_heap_ne m v hs]
  have haddr' : ∀ s, ((m.set t v).heap s).addr = (m.heap s).addr := by
    intro s
    by_cases hs : s = t
    · subst hs; rw [set_heap_self, haddr]
    · rw [set_heap_ne m v hs]
  refine ⟨sorted_set v h.sorted (h.not_mem ht), fun s => ?_, fun a b => ?_, fun s hs => ?_⟩
  · rw [hcb', set_timers]; exact h.mem_iff s
  · rw [hcb', hcb', haddr', haddr']; exact h.addr_inj a b
  · rw [hcb']; exact h.fresh s hs

/-- The timer in hand has an address of its own, so it can be inserted. -/
lemma Out.comparable {m : TimerManager C} {t : ℕ} {out : List ℕ} (h : Out m (t :: out))
    (hcb : (m.heap t).cb.isSome) : ∀ y ∈ m.timers, m.lt t y = true ∨ m.lt y t = true := by
  intro y hy
  obtain ⟨hycb, hyout⟩ := (h.mem_iff y).mp hy
  refine lt_total m fun haddr => ?_
  have : t = y := h.addr_inj t y hcb hycb haddr
  subst this
  simp at hyout

lemma Out.insert {m : TimerManager C} {t : ℕ} {out : List ℕ} (h : Out m (t :: out))
    (ht : t ∉ out) (hcb : (m.heap t).cb.isSome) :
    Out { m with timers := (OrdSet.insert m.lt t m.timers).1 } out := by
  have hcmp := h.comparable hcb
  refine ⟨OrdSet.insert_sorted (lt_trans m) h.sorted, fun s => ?_, h.addr_inj, h.fresh⟩
  rw [OrdSet.mem_insert hcmp, h.mem_iff, List.mem_cons]
  constructor
  · rintro (rfl | ⟨hs, hne⟩)
    · exact ⟨hcb, ht⟩
    · exact ⟨hs, fun hso => hne (Or.inr hso)⟩
  · rintro ⟨hs, hso⟩
    by_cases hst : s = t
    · exact Or.inl hst
    · exact Or.inr ⟨hs, fun h' => h'.elim hst hso⟩

lemma Out.clear {m : TimerManager C} {t : ℕ} {out : List ℕ} (h : Out m (t :: out))
    {v : Timer C} (hv : v.cb = none) : Out (m.set t v) out := by
  have hnot : t ∉ m.timers := h.not_mem (by simp)
  have hsome : ∀ s, ((m.set t v).heap s).cb.isSome → s ≠ t ∧ (m.heap s).cb.isSome := by
    intro s hs
    by_cases hst : s = t
    · subst hst; simp [hv] at hs
    · exact ⟨hst, by rwa [set_heap_ne m v hst] at hs⟩
  refine ⟨sorted_set v h.sorted hnot, fun s => ?_, fun a b ha hb hab => ?_, fun s hs => ?_⟩
  · rw [set_timers, h.mem_iff s, List.mem_cons]
    constructor
    · rintro ⟨hs, hne⟩
      have hst : s ≠ t := fun he => hne (Or.inl he)
      exact ⟨by rwa [set_heap_ne m v hst], fun hso => hne (Or.inr hso)⟩
    · rintro ⟨hs, hso⟩
      obtain ⟨hst, hs'⟩ := hsome s hs
      exact ⟨hs', fun h' => h'.elim hst hso⟩
  · obtain ⟨hat, ha'⟩ := hsome a ha
    obtain ⟨hbt, hb'⟩ := hsome b hb
    rw [set_heap_ne m v hat, set_heap_ne m v hbt] at hab
    exact h.addr_inj a b ha' hb' hab
  · by_cases hst : s = t
    · subst hst; simpa using hv
    · rw [set_heap_ne m v hst]; exact h.fresh s hs

lemma Out.cut {m : TimerManager C} (h : Inv m) (i : ℕ) :
    Out { m with timers := m.timers.drop i } (m.timers.take i) := by
  have hnd : (m.timers.take i ++ m.timers.drop i).Nodup := by
    rw [List.take_append_drop]; exact h.sorted.nodup (lt_irrefl m)
  refine ⟨h.sorted.sublist (List.drop_sublist _ _), fun t => ?_, h.addr_inj, h.fresh⟩
  have hmem : t ∈ m.timers ↔ t ∈ m.timers.take i ∨ t ∈ m.timers.drop i := by
    rw [← List.mem_append, List.take_append_drop]
  have hiff := h.mem_iff t
  simp only [List.not_mem_nil, not_false_eq_true, and_true] at hiff
  have hdisj : t ∈ m.timers.take i → t ∉ m.timers.drop i := fun h1 h2 =>
    (List.nodup_append.mp hnd).2.2 t h1 t h2 rfl
  rw [← hiff, hmem]
  constructor
  · exact fun h2 => ⟨Or.inr h2, fun h1 => hdisj h1 h2⟩
  · rintro ⟨h1 | h2, h3⟩
    · exact absurd h1 h3
    · exact h2

/-- **A timer with a callback is found where it stands**, and taking it out leaves the rest
in order. -/
lemma Out.erase {m : TimerManager C} (h : Inv m) {t : ℕ} (hcb : (m.heap t).cb.isSome) :
    ∃ i, OrdSet.find m.lt t m.timers = some i ∧ m.timers[i]? = some t ∧
      Out { m with timers := m.timers.eraseIdx i } [t] := by
  have hmem : t ∈ m.timers := (h.mem_iff t).mpr ⟨hcb, by simp⟩
  obtain ⟨l₁, l₂, hl, hfind⟩ := OrdSet.find_of_mem (lt_irrefl m t) h.sorted hmem
  have herase : m.timers.eraseIdx l₁.length = l₁ ++ l₂ := by
    rw [hl, List.eraseIdx_append_of_length_le (le_refl _)]; simp
  have hnd : (l₁ ++ t :: l₂).Nodup := hl ▸ h.sorted.nodup (lt_irrefl m)
  refine ⟨l₁.length, hfind, by simp [hl], ?_, fun s => ?_, h.addr_inj, h.fresh⟩
  · exact h.sorted.sublist (List.eraseIdx_sublist _ _)
  · have hiff := h.mem_iff s
    simp only [List.not_mem_nil, not_false_eq_true, and_true] at hiff
    rw [← hiff, herase, hl]
    simp only [List.mem_append, List.mem_cons, List.not_mem_nil, or_false]
    constructor
    · intro hs
      refine ⟨hs.imp id Or.inr, fun hst => ?_⟩
      subst hst
      have := List.perm_middle.nodup_iff.mp hnd
      exact (List.nodup_cons.mp this).1 (List.mem_append.mpr hs)
    · rintro ⟨hs, hst⟩
      rcases hs with hs | rfl | hs
      · exact Or.inl hs
      · exact absurd rfl hst
      · exact Or.inr hs

/-! ### The operations -/

lemma addTimerLocked_out {m : TimerManager C} {t : ℕ} (h : Out m [t])
    (hcb : (m.heap t).cb.isSome) : Inv (m.addTimerLocked t).1 := by
  have h' := h.insert (by simp) hcb
  exact ⟨h'.sorted, h'.mem_iff, h'.addr_inj, h'.fresh⟩

lemma addTimer_inv {m : TimerManager C} (h : Inv m) (ms : UInt64) (cb : C) (recurring : Bool)
    (now : UInt64) {addr : ℕ} (haddr : ∀ t ∈ m.timers, (m.heap t).addr ≠ addr) :
    Inv (m.addTimer ms (some cb) recurring now addr).1 := by
  have hmade : m.made ∉ m.timers := fun hm => by
    have := ((h.mem_iff _).mp hm).1
    rw [h.fresh _ (le_refl _)] at this
    simp at this
  refine addTimerLocked_out (t := m.made) ?_ (by simp)
  have hcb : ∀ s, s ≠ m.made → (m.heap s).cb.isSome → (m.heap s).addr ≠ addr := fun s _ hs =>
    haddr s ((h.mem_iff s).mpr ⟨hs, by simp⟩)
  refine ⟨sorted_set _ h.sorted hmade, fun s => ?_, fun a b ha hb hab => ?_, fun s hs => ?_⟩
  · by_cases hs : s = m.made
    · subst hs; simp [hmade]
    · simp only [set_timers, set_heap_ne m _ hs, List.mem_singleton, hs, not_false_eq_true]
      simpa using h.mem_iff s
  · by_cases hat : a = m.made <;> by_cases hbt : b = m.made
    · rw [hat, hbt]
    · rw [hat] at hab ha
      simp only [set_heap_self, set_heap_ne m _ hbt] at hab hb
      exact absurd hab.symm (hcb b hbt hb)
    · rw [hbt] at hab hb
      simp only [set_heap_self, set_heap_ne m _ hat] at hab ha
      exact absurd hab (hcb a hat ha)
    · simp only [set_heap_ne m _ hat, set_heap_ne m _ hbt] at ha hb hab
      exact h.addr_inj a b ha hb hab
  · have hs' : m.made + 1 ≤ s := hs
    have hne : s ≠ m.made := by omega
    simp only [set_heap_ne m _ hne]
    exact h.fresh s (by omega)

lemma lt_set_cb (m : TimerManager C) (t : ℕ) (cb : Option C) :
    (m.set t { m.heap t with cb := cb }).lt = m.lt := by
  funext a b
  have hfield : ∀ s, ((m.set t { m.heap t with cb := cb }).heap s).next = (m.heap s).next ∧
      ((m.set t { m.heap t with cb := cb }).heap s).addr = (m.heap s).addr := by
    intro s
    by_cases hs : s = t
    · subst hs; simp
    · simp [set_heap_ne m _ hs]
  rw [Bool.eq_iff_iff, TimerManager.lt, TimerManager.lt, comparator_iff, comparator_iff,
    (hfield a).1, (hfield a).2, (hfield b).1, (hfield b).2]

/-- `cancel` clears the callback before it looks the timer up, and finds it all the same. -/
lemma cancel_inv {m : TimerManager C} (h : Inv m) (t : ℕ) :
    ∃ r, m.cancel t = .ok r ∧ Inv r.1 := by
  unfold cancel
  by_cases hcb : (m.heap t).cb.isSome
  · obtain ⟨i, hfind, -, hout⟩ := Out.erase h hcb
    rw [if_pos hcb]
    simp only [lt_set_cb, set_timers, hfind]
    refine ⟨_, rfl, ?_⟩
    exact hout.clear rfl
  · rw [if_neg hcb]
    exact ⟨_, rfl, h⟩

lemma refresh_inv {m : TimerManager C} (h : Inv m) (t : ℕ) (now : UInt64) :
    Inv (m.refresh t now).1 := by
  unfold refresh
  by_cases hcb : (m.heap t).cb.isSome
  · obtain ⟨i, hfind, -, hout⟩ := Out.erase h hcb
    rw [if_neg (by simpa [Option.isNone_iff_eq_none, Option.isSome_iff_ne_none] using hcb)]
    simp only [hfind]
    have hset := hout.set (t := t) (by simp)
      (v := { m.heap t with next := now + (m.heap t).ms }) rfl rfl
    exact hset.insert (by simp) (by simpa using hcb)
  · rw [if_pos (by simpa using hcb)]
    exact h

lemma reset_inv {m : TimerManager C} (h : Inv m) (t : ℕ) (ms : UInt64) (from_now : Bool)
    (now : UInt64) : Inv (m.reset t ms from_now now).1 := by
  unfold reset
  by_cases h1 : (m.heap t).ms = ms ∧ from_now = false
  · rw [if_pos h1]; exact h
  rw [if_neg h1]
  by_cases hcb : (m.heap t).cb.isSome
  · obtain ⟨i, hfind, -, hout⟩ := Out.erase h hcb
    rw [if_neg (by simpa [Option.isNone_iff_eq_none, Option.isSome_iff_ne_none] using hcb)]
    simp only [hfind]
    have hset := hout.set (t := t) (by simp)
      (v := { m.heap t with
        ms := ms, next := (if from_now then now else (m.heap t).next - ms) + ms }) rfl rfl
    exact addTimerLocked_out hset (by simpa using hcb)
  · rw [if_pos (by simpa using hcb)]
    exact h

/-- One turn of the expiry loop puts its timer back or clears it. -/
lemma expireOne_out {m : TimerManager C} {t : ℕ} {out : List ℕ} (h : Out m (t :: out))
    (ht : t ∉ out) (hcb : (m.heap t).cb.isSome) (now : UInt64) (cbs : List (Option C)) :
    Out (expireOne now (m, cbs) t).1 out := by
  unfold expireOne
  dsimp only
  split
  · have hset := h.set (t := t) (by simp)
      (v := { m.heap t with next := now + (m.heap t).ms }) rfl rfl
    exact hset.insert ht (by simpa using hcb)
  · exact h.clear rfl

lemma expireOne_heap_ne (now : UInt64) (s : TimerManager C × List (Option C)) {t u : ℕ}
    (h : u ≠ t) : (expireOne now s t).1.heap u = s.1.heap u := by
  unfold expireOne
  by_cases hrec : (s.1.heap t).recurring <;> simp [hrec, set_heap_ne _ _ h]

lemma foldl_expireOne_inv (now : UInt64) (out : List ℕ) (s : TimerManager C × List (Option C))
    (h : Out s.1 out) (hnd : out.Nodup) (hcb : ∀ t ∈ out, (s.1.heap t).cb.isSome) :
    Inv (out.foldl (expireOne now) s).1 := by
  induction out generalizing s with
  | nil => exact h
  | cons t out ih =>
    obtain ⟨ht, hnd'⟩ := List.nodup_cons.mp hnd
    refine ih _ (expireOne_out h ht (hcb t (by simp)) now s.2) hnd' fun u hu => ?_
    have hut : u ≠ t := by rintro rfl; exact ht hu
    rw [expireOne_heap_ne now s hut]
    exact hcb u (by simp [hu])

/-- Whatever is cut off the front of the set, the loop over it restores the invariant. -/
lemma expire_inv {m : TimerManager C} (h : Inv m) (now : UInt64) (i : ℕ)
    (cbs : List (Option C)) :
    Inv ((m.timers.take i).foldl (expireOne now)
      ({ m with timers := m.timers.drop i }, cbs)).1 := by
  refine foldl_expireOne_inv now _ _ (Out.cut h i) ?_ fun t ht => ?_
  · exact (h.sorted.nodup (lt_irrefl m)).sublist (List.take_sublist _ _)
  · exact ((h.mem_iff t).mp (List.mem_of_mem_take ht)).1

lemma listExpiredCb_inv {m : TimerManager C} (h : Inv m) (now : UInt64) (addr : ℕ)
    (cbs : List (Option C)) : Inv (m.listExpiredCb now addr cbs).1 := by
  have h' : Inv (m.detectClockRollover now).1 := ⟨h.sorted, h.mem_iff, h.addr_inj, h.fresh⟩
  unfold listExpiredCb
  split
  · exact h
  · dsimp only
    split
    · exact h'
    · exact expire_inv h' now _ cbs

/-! ### A callback that is gone stays gone -/

/-- No object disappears, and none that has lost its callback gets one. -/
structure Keeps (m m' : TimerManager C) : Prop where
  made : m.made ≤ m'.made
  gone : ∀ s < m.made, (m.heap s).cb = none → (m'.heap s).cb = none

lemma Keeps.refl (m : TimerManager C) : Keeps m m := ⟨le_refl _, fun _ _ h => h⟩

lemma Keeps.trans {m m' m'' : TimerManager C} (h : Keeps m m') (h' : Keeps m' m'') :
    Keeps m m'' :=
  ⟨le_trans h.made h'.made, fun s hs hn => h'.gone s (lt_of_lt_of_le hs h.made) (h.gone s hs hn)⟩

lemma keeps_set (m : TimerManager C) {t : ℕ} {v : Timer C}
    (hv : (m.heap t).cb = none → v.cb = none) : Keeps m (m.set t v) := by
  refine ⟨le_refl _, fun s _ h => ?_⟩
  by_cases hs : s = t
  · subst hs; rw [set_heap_self]; exact hv h
  · rw [set_heap_ne m v hs]; exact h

lemma addTimer_keeps (m : TimerManager C) (ms : UInt64) (cb : Option C) (recurring : Bool)
    (now : UInt64) (addr : ℕ) : Keeps m (m.addTimer ms cb recurring now addr).1 := by
  refine ⟨Nat.le_succ _, fun s hs h => ?_⟩
  have hne : s ≠ m.made := by omega
  simp only [addTimer, addTimerLocked, set_heap_ne m _ hne]
  exact h

/-- A timer with a callback is taken out of the set and loses it; without one nothing happens. -/
lemma cancel_cases {m : TimerManager C} {t : ℕ} {r : TimerManager C × Bool}
    (hr : m.cancel t = .ok r) :
    ((m.heap t).cb = none ∧ r = (m, false)) ∨
      ∃ i, r =
        ({ m.set t { m.heap t with cb := none } with timers := m.timers.eraseIdx i }, true) := by
  unfold cancel at hr
  dsimp only at hr
  split at hr
  · split at hr
    · exact Or.inr ⟨_, (Except.ok.inj hr).symm⟩
    · cases hr
  · rename_i hcb
    exact Or.inl ⟨by simpa using hcb, (Except.ok.inj hr).symm⟩

lemma cancel_keeps {m : TimerManager C} {t : ℕ} {r : TimerManager C × Bool}
    (hr : m.cancel t = .ok r) : Keeps m r.1 := by
  obtain ⟨-, rfl⟩ | ⟨i, rfl⟩ := cancel_cases hr
  · exact .refl m
  · exact ⟨le_refl _, (keeps_set m fun _ => rfl).gone⟩

lemma refresh_keeps (m : TimerManager C) (t : ℕ) (now : UInt64) :
    Keeps m (m.refresh t now).1 := by
  unfold refresh
  split
  · exact .refl m
  · split
    · exact .refl m
    · exact ⟨le_refl _, (keeps_set m (t := t)
        (v := { m.heap t with next := now + (m.heap t).ms }) fun h => h).gone⟩

lemma reset_keeps (m : TimerManager C) (t : ℕ) (ms : UInt64) (from_now : Bool)
    (now : UInt64) : Keeps m (m.reset t ms from_now now).1 := by
  unfold reset
  split
  · exact .refl m
  · split
    · exact .refl m
    · split
      · exact .refl m
      · exact ⟨le_refl _, (keeps_set m (t := t) (v := { m.heap t with
          ms := ms, next := (if from_now then now else (m.heap t).next - ms) + ms })
          fun h => h).gone⟩

lemma foldl_expireOne_keeps (now : UInt64) (out : List ℕ)
    (r : TimerManager C × List (Option C)) : Keeps r.1 (out.foldl (expireOne now) r).1 := by
  induction out generalizing r with
  | nil => exact .refl _
  | cons t out ih =>
    refine Keeps.trans ?_ (ih _)
    unfold expireOne
    dsimp only
    split
    · exact ⟨le_refl _, (keeps_set r.1 (t := t)
        (v := { r.1.heap t with next := now + (r.1.heap t).ms }) fun h => h).gone⟩
    · exact keeps_set r.1 fun _ => rfl

lemma listExpiredCb_keeps (m : TimerManager C) (now : UInt64) (addr : ℕ)
    (cbs : List (Option C)) : Keeps m (m.listExpiredCb now addr cbs).1 := by
  unfold listExpiredCb
  split
  · exact .refl m
  · dsimp only
    split
    · exact ⟨le_refl _, fun _ _ h => h⟩
    · refine Keeps.trans ?_ (foldl_expireOne_keeps now _ _)
      exact ⟨le_refl _, fun _ _ h => h⟩

/-! ### Runs -/

/-- A call on the manager or on one of its timers, with the clock value it reads and the
address a new object gets. -/
inductive Action (C : Type)
  | addTimer (ms : UInt64) (cb : C) (recurring : Bool) (now : UInt64) (addr : ℕ)
  | cancel (t : ℕ)
  | refresh (t : ℕ) (now : UInt64)
  | reset (t : ℕ) (ms : UInt64) (from_now : Bool) (now : UInt64)
  | listExpiredCb (now : UInt64) (addr : ℕ)

/-- A new object is not at the address of a member; a call on a timer needs the timer. -/
def step (m : TimerManager C) : Action C → Option (TimerManager C)
  | .addTimer ms cb recurring now addr =>
    if ∀ t ∈ m.timers, (m.heap t).addr ≠ addr then
      some (m.addTimer ms (some cb) recurring now addr).1
    else none
  | .cancel t =>
    if t < m.made then
      match m.cancel t with
      | .ok r => some r.1
      | .error _ => none
    else none
  | .refresh t now => if t < m.made then some (m.refresh t now).1 else none
  | .reset t ms from_now now =>
    if t < m.made then some (m.reset t ms from_now now).1 else none
  | .listExpiredCb now addr => some (m.listExpiredCb now addr []).1

/-- The manager as it is constructed at clock value `now`. -/
def init (now : UInt64) : TimerManager C := { previouseTime := now }

lemma init_inv (now : UInt64) : Inv (init now : TimerManager C) :=
  ⟨List.Pairwise.nil, fun t => by simp [init], fun a b ha => by simp [init] at ha,
    fun t _ => rfl⟩

lemma step_inv (m : TimerManager C) (a : Action C) (m' : TimerManager C) (h : Inv m)
    (hs : step m a = some m') : Inv m' := by
  cases a with
  | addTimer ms cb recurring now addr =>
    simp only [step] at hs
    split at hs
    · rename_i haddr
      obtain rfl := Option.some.inj hs
      exact addTimer_inv h ms cb recurring now haddr
    · cases hs
  | cancel t =>
    obtain ⟨r, hr, hinv⟩ := cancel_inv h t
    simp only [step, hr] at hs
    split at hs
    · obtain rfl := Option.some.inj hs
      exact hinv
    · cases hs
  | refresh t now =>
    simp only [step, Option.ite_none_right_eq_some, Option.some.injEq] at hs
    obtain ⟨-, rfl⟩ := hs
    exact refresh_inv h t now
  | reset t ms from_now now =>
    simp only [step, Option.ite_none_right_eq_some, Option.some.injEq] at hs
    obtain ⟨-, rfl⟩ := hs
    exact reset_inv h t ms from_now now
  | listExpiredCb now addr =>
    obtain rfl := Option.some.inj hs
    exact listExpiredCb_inv h now addr []

lemma step_keeps {m : TimerManager C} {a : Action C} {m' : TimerManager C}
    (hs : step m a = some m') : Keeps m m' := by
  cases a with
  | addTimer ms cb recurring now addr =>
    simp only [step, Option.ite_none_right_eq_some, Option.some.injEq] at hs
    obtain ⟨-, rfl⟩ := hs
    exact addTimer_keeps m ms (some cb) recurring now addr
  | cancel t =>
    simp only [step, Option.ite_none_right_eq_some] at hs
    obtain ⟨-, hs⟩ := hs
    split at hs
    · rename_i r hr
      obtain rfl := Option.some.inj hs
      exact cancel_keeps hr
    · cases hs
  | refresh t now =>
    simp only [step, Option.ite_none_right_eq_some, Option.some.injEq] at hs
    obtain ⟨-, rfl⟩ := hs
    exact refresh_keeps m t now
  | reset t ms from_now now =>
    simp only [step, Option.ite_none_right_eq_some, Option.some.injEq] at hs
    obtain ⟨-, rfl⟩ := hs
    exact reset_keeps m t ms from_now now
  | listExpiredCb now addr =>
    obtain rfl := Option.some.inj hs
    exact listExpiredCb_keeps m now addr []

lemma run_keeps {m m' : TimerManager C} {as : List (Action C)}
    (hr : Runs.run step m as = some m') : Keeps m m' :=
  Runs.run_inv (I := Keeps m) (fun _ _ _ h hs => h.trans (step_keeps hs)) (.refl m) hr

/-- **The timer set represents the timers that have a callback.** In every state a sequence
of calls leads to, whatever clock values they read: a timer is a member exactly when it has a
callback; no timer is a member twice, and the members stand strictly in the order of their
current deadline and address; a timer with a callback is found at its own position, and
`cancel` never erases at the end; and a timer that has lost its callback is not a member in
any later state. -/
theorem timers_representation (now : UInt64) (as : List (Action C)) (m : TimerManager C)
    (hr : Runs.run step (init now) as = some m) :
    (∀ t, t ∈ m.timers ↔ (m.heap t).cb ≠ none) ∧
    m.timers.Nodup ∧
    m.timers.Pairwise (fun a b => (m.heap a).next.toNat < (m.heap b).next.toNat ∨
      ((m.heap a).next.toNat = (m.heap b).next.toNat ∧ (m.heap a).addr < (m.heap b).addr)) ∧
    (∀ t, (m.heap t).cb ≠ none →
      ∃ i, OrdSet.find m.lt t m.timers = some i ∧ m.timers[i]? = some t) ∧
    (∀ t, ∃ r, m.cancel t = .ok r) ∧
    (∀ t < m.made, (m.heap t).cb = none → ∀ (as' : List (Action C)) (m' : TimerManager C),
      Runs.run step m as' = some m' → t ∉ m'.timers) := by
  have h : Inv m := Runs.run_inv step_inv (init_inv now) hr
  have hmem : ∀ t, t ∈ m.timers ↔ (m.heap t).cb ≠ none := fun t => by
    simpa [Option.isSome_iff_ne_none] using h.mem_iff t
  refine ⟨hmem, h.sorted.nodup (lt_irrefl m), ?_, fun t ht => ?_, fun t => ?_, ?_⟩
  · exact List.Pairwise.imp (fun hab => (comparator_iff _ _).mp hab) h.sorted
  · obtain ⟨i, hi, hget, -⟩ := Out.erase h (Option.isSome_iff_ne_none.mpr ht)
    exact ⟨i, hi, hget⟩
  · obtain ⟨r, hr', -⟩ := cancel_inv h t
    exact ⟨r, hr'⟩
  · intro t ht hcb as' m' hr' hmem'
    have h' : Inv m' := Runs.run_inv step_inv h hr'
    have hsome := ((h'.mem_iff t).mp hmem').1
    rw [(run_keeps hr').gone t ht hcb] at hsome
    simp at hsome

theorem timers_representation_cancelled :
    ∃ m : TimerManager ℕ, Runs.run step (init 0)
        [.addTimer 5 7 true 100 1, .addTimer 3 8 false 100 2, .cancel 0] = some m ∧
      m.timers = [1] ∧ ∀ t, t ∈ m.timers ↔ (m.heap t).cb ≠ none :=
  ⟨_, rfl, rfl, (timers_representation 0
    [.addTimer 5 7 true 100 1, .addTimer 3 8 false 100 2, .cancel 0] _ rfl).1⟩

end Sylar.TimerInv
