import Sylar.RunQueue

/-!
How often an entry of the run queue is passed over: each scan that could have had it and takes
another brings it one place forward.
-/

namespace Sylar.Bypass

open Lib Sylar.FiberModel FiberAndThread Sylar.SchedulerModel Scheduler
open Sylar.SchedulerSteps Sylar.RunQueue

variable {W F C : Type} {n : ℕ} {ft : FiberAndThread F C}

def ahead (n : ℕ) (q : List (ℕ × FiberAndThread F C)) : ℕ := (q.map Prod.fst).idxOf n

lemma ahead_append {q : List (ℕ × FiberAndThread F C)} (h : n ∈ q.map Prod.fst)
    (q' : List (ℕ × FiberAndThread F C)) : ahead n (q ++ q') = ahead n q := by
  rw [ahead, ahead, List.map_append, List.idxOf_append_of_mem h]

section Erase

variable {e : ℕ × FiberAndThread F C} {q₁ q₂ : List (ℕ × FiberAndThread F C)}

lemma ahead_erase_after (h : n ∈ q₁.map Prod.fst) :
    ahead n (q₁ ++ e :: q₂) = ahead n (q₁ ++ q₂) := by
  rw [ahead_append h, ahead_append h]

lemma ahead_erase_before (h : n ∉ q₁.map Prod.fst) (he : e.1 ≠ n) :
    ahead n (q₁ ++ e :: q₂) = ahead n (q₁ ++ q₂) + 1 := by
  unfold ahead
  rw [List.map_append, List.map_append, List.idxOf_append_of_notMem h,
    List.idxOf_append_of_notMem h, List.map_cons, List.idxOf_cons_ne _ he]
  rfl

end Erase

/-- The scan takes an entry, and comes by a worker that could take `ft`. -/
def takes (tid : W → ℤ) (ft : FiberAndThread F C) (s : Scheduler W F C) : Action W F C → ℕ
  | .worker w .scan =>
    if (scan (tid w) s.state s.fibers).taken.isSome ∧ pinned (tid w) ft = false ∧
      executing s.state ft = false then 1 else 0
  | _ => 0

variable [DecidableEq W] [DecidableEq F] {tid : W → ℤ} {s s' : Scheduler W F C}

lemma step_scan {w : W} (hs : step tid s (.worker w .scan) = some s') :
    s' = s.scanStep (tid w) w := by
  unfold step work at hs
  cases ht : (s.worker w).tickle <;> cases hpc : (s.worker w).pc <;> simp [ht, hpc] at hs
  exact hs.symm

omit [DecidableEq F] in
lemma setWorker_fibers (s : Scheduler W F C) (w : W) (v : Worker F C) :
    (s.setWorker w v).fibers = s.fibers := rfl

/-- A scan that takes an entry with the entry `n` in reach takes one from before it. -/
lemma scan_before {w : W} (hs : step tid s (.worker w .scan) = some s')
    (hn : (n, ft) ∈ s.fibers) (hn' : n ∈ s'.fibers.map Prod.fst)
    (huniq : (s.fibers.map Prod.fst).count n ≤ 1)
    (htaken : (scan (tid w) s.state s.fibers).taken.isSome)
    (hreach : Eligible (tid w) s.state ft) : ahead n s'.fibers + 1 = ahead n s.fibers := by
  obtain ⟨e, he⟩ := Option.isSome_iff_exists.mp htaken
  obtain ⟨q₁, q₂, hq, hrest, hno, -, -⟩ := scan_taken he
  have hq' : s'.fibers = q₁ ++ q₂ := by
    rw [step_scan hs, scanStep]
    simp only [he]
    rw [setWorker_fibers, ← hrest]
  rw [hq'] at hn' ⊢
  rw [hq] at hn huniq ⊢
  have hcount := List.count_pos_iff.mpr hn'
  simp only [List.map_append, List.map_cons, List.count_append, List.count_cons,
    beq_iff_eq] at huniq hcount
  have hne : e.1 ≠ n := fun h => by rw [if_pos h] at huniq; omega
  have hbefore : n ∉ q₁.map Prod.fst := by
    intro h
    have hpos := List.count_pos_iff.mpr h
    rcases List.mem_append.mp hn with hn | hn
    · exact hno _ hn hreach
    · rcases List.mem_cons.mp hn with rfl | hn
      · exact hne rfl
      · have hlast : 0 < (q₂.map Prod.fst).count n :=
          List.count_pos_iff.mpr (List.mem_map.mpr ⟨(n, ft), hn, rfl⟩)
        omega
  rw [ahead_erase_before hbefore hne]

variable [Fintype W]

omit [DecidableEq W] [DecidableEq F] in
lemma count_le_one (h : Inv s) (n : ℕ) : (s.fibers.map Prod.fst).count n ≤ 1 := by
  have hplace := h.place n
  split at hplace <;> omega

/-- An entry that is still in the queue was in it before, and no further from the front. -/
lemma ahead_step {a : Action W F C} (h : Inv s) (hlt : n < s.issued.length)
    (hs : step tid s a = some s') (hn : n ∈ s'.fibers.map Prod.fst) :
    n ∈ s.fibers.map Prod.fst ∧ ahead n s'.fibers ≤ ahead n s.fibers := by
  cases kind_of_trans (step_trans hs) with
  | none hq => rw [hq] at hn ⊢; exact ⟨hn, Nat.le_refl _⟩
  | release w k hq => rw [hq] at hn ⊢; exact ⟨hn, Nat.le_refl _⟩
  | push fts hq =>
    rw [hq, List.map_append, List.mem_append] at hn
    rcases hn with hn | hn
    · rw [hq, ahead_append hn]
      exact ⟨hn, Nat.le_refl _⟩
    · obtain ⟨e, he, rfl⟩ := List.mem_map.mp hn
      have hle := (mem_number he).1
      omega
  | take w k gt q₁ q₂ hq hq' =>
    have huniq := count_le_one h n
    rw [hq] at huniq
    rw [hq'] at hn ⊢
    rw [hq]
    have hcount := List.count_pos_iff.mpr hn
    simp only [List.map_append, List.map_cons, List.count_append, List.count_cons,
      beq_iff_eq] at huniq hcount
    have hk : k ≠ n := fun hk => by rw [if_pos hk] at huniq; omega
    have hin : n ∈ (q₁ ++ (k, gt) :: q₂).map Prod.fst :=
      (((List.sublist_cons_self (k, gt) q₂).append_left q₁).map Prod.fst).subset hn
    by_cases h₁ : n ∈ q₁.map Prod.fst
    · exact ⟨hin, Nat.le_of_eq (ahead_erase_after h₁).symm⟩
    · refine ⟨hin, ?_⟩
      rw [ahead_erase_before h₁ hk]
      exact Nat.le_succ _

lemma takes_step {a : Action W F C} (h : Inv s) (hft : s.issued[n]? = some ft)
    (hs : step tid s a = some s') (hn : n ∈ s'.fibers.map Prod.fst) :
    takes tid ft s a + ahead n s'.fibers ≤ ahead n s.fibers := by
  obtain ⟨hin, hle⟩ := ahead_step h (List.getElem?_eq_some_iff.mp hft).1 hs hn
  cases a with
  | worker w b =>
    cases b with
    | scan =>
      rw [takes]
      split
      case isTrue htakes =>
        obtain ⟨htaken, hpin, hexec⟩ := htakes
        obtain ⟨⟨k, gt⟩, hmem, rfl⟩ := List.mem_map.mp hin
        obtain rfl := Option.some.inj ((h.queued _ hmem).symm.trans hft)
        have hreach := (eligible_iff (tid w) s.state gt).mpr ⟨hpin, hexec⟩
        have heq : ahead k s'.fibers + 1 = ahead k s.fibers :=
          scan_before hs hmem hn (count_le_one h k) htaken hreach
        show 1 + ahead k s'.fibers ≤ ahead k s.fibers
        omega
      case isFalse => rwa [Nat.zero_add]
    | _ => rwa [takes, Nat.zero_add]; exact nofun
  | _ => rwa [takes, Nat.zero_add]; exact nofun

/-- **Bounded bypass.** As long as an entry waits, every scan of a worker that could have had it and
takes another brings it nearer to the front, and nothing puts it back: no more such scans pass it
over than there were entries before it. -/
theorem bounded_bypass (tid : W → ℤ) {as bs : List (Action W F C)} {s s' : Scheduler W F C}
    (hr : Runs.run (step tid) {} as = some s) (hr' : Runs.run (step tid) s bs = some s')
    (hft : s.issued[n]? = some ft) (hn : n ∈ s'.fibers.map Prod.fst) :
    n ∈ s.fibers.map Prod.fst ∧
      Runs.cost (step tid) (takes tid ft) s bs + ahead n s'.fibers ≤ ahead n s.fibers := by
  have h : Inv s := Runs.run_inv step_inv init_inv hr
  have hstep : ∀ (s : Scheduler W F C) a s', Inv s ∧ s.issued[n]? = some ft →
      step tid s a = some s' → (Inv s' ∧ s'.issued[n]? = some ft) ∧
        (n ∈ s'.fibers.map Prod.fst → n ∈ s.fibers.map Prod.fst ∧
          takes tid ft s a + ahead n s'.fibers ≤ ahead n s.fibers) := by
    rintro s a s' ⟨h, hft⟩ hs
    have hlt := (List.getElem?_eq_some_iff.mp hft).1
    have hft' : s'.issued[n]? = some ft := by
      obtain ⟨l, hl⟩ := step_issued hs
      rw [← hl, List.getElem?_append_left hlt]
      exact hft
    exact ⟨⟨step_inv s a s' h hs, hft'⟩,
      fun hn => ⟨(ahead_step h hlt hs hn).1, takes_step h hft hs hn⟩⟩
  exact Runs.cost_le hstep ⟨h, hft⟩ hr' hn

/-- A worker takes the callback that was queued first while the second waits. -/
theorem bounded_bypass_second :
    ∃ s s' : Scheduler Bool ℕ ℕ, Runs.run (step fun w => if w then 7 else 8) {}
        [.schedule (.cb (some 5)) (-1), .schedule (.cb (some 6)) 7, .worker true .start] = some s ∧
      Runs.run (step fun w => if w then 7 else 8) s [.worker true .scan] = some s' ∧
      Runs.cost (step fun w => if w then 7 else 8)
        (takes (fun w => if w then 7 else 8) (make (.cb (some 6)) 7)) s [.worker true .scan] +
          ahead 1 s'.fibers ≤ ahead 1 s.fibers := by
  have hrun : ((Runs.run (step fun w => if w then 7 else 8) ({} : Scheduler Bool ℕ ℕ)
      ([.schedule (.cb (some 5)) (-1), .schedule (.cb (some 6)) 7, .worker true .start] ++
        [.worker true .scan])).map fun s => s.fibers.map Prod.fst) = some [1] := rfl
  obtain ⟨s', hs', hfibers⟩ := Option.map_eq_some_iff.mp hrun
  obtain ⟨s, hs, hscan⟩ := Runs.run_append.mp hs'
  have hissued : ((Runs.run (step fun w => if w then 7 else 8) ({} : Scheduler Bool ℕ ℕ)
      [.schedule (.cb (some 5)) (-1), .schedule (.cb (some 6)) 7, .worker true .start]).map
        fun s => s.issued[1]?) = some (some (make (.cb (some 6)) 7)) := rfl
  rw [hs] at hissued
  have hin : 1 ∈ s'.fibers.map Prod.fst := by rw [hfibers]; exact List.mem_cons_self
  exact ⟨s, s', hs, hscan, (bounded_bypass _ hs hscan (Option.some.inj hissued) hin).2⟩

end Sylar.Bypass
