import Mathlib.Data.List.Basic
import Mathlib.Tactic.Common

/-!
The balanced tree over the places of an interval, and the path of a bisection through it.

A bisection towards a cut passes the root of the tree, then a child of it, and so on down to the
cut. Of any interval of places beside the cut or around it, the first place it passes is the one
that lies least deep.
-/

namespace Lib.Bisect

/-- The middle of the places from `l` up to `r`. -/
def mid (l r : ℕ) : ℕ := (l + r - 1) / 2

lemma le_mid {l r : ℕ} (h : l < r) : l ≤ mid l r := by
  unfold mid
  omega

lemma mid_lt {l r : ℕ} (h : l < r) : mid l r < r := by
  unfold mid
  omega

/-- The depth of `i` in the balanced tree over the places from `l` up to `r`: the middle one is the
root, and those before it and behind it form its subtrees. -/
def depth (l r i : ℕ) : ℕ :=
  if l < r then
    if i = mid l r then 0
    else if i < mid l r then depth l (mid l r) i + 1
    else depth (mid l r + 1) r i + 1
  else 0
termination_by r - l
decreasing_by
  all_goals
    have := le_mid ‹l < r›
    have := mid_lt ‹l < r›
    omega

/-- The places that a bisection towards the cut before `u` passes. -/
def path (l r u : ℕ) : List ℕ :=
  if l < r then
    mid l r :: if u ≤ mid l r then path l (mid l r) u else path (mid l r + 1) r u
  else []
termination_by r - l
decreasing_by
  all_goals
    have := le_mid ‹l < r›
    have := mid_lt ‹l < r›
    omega

/-- `i` lies less deep than all the other places of `P`. -/
def Top (l r : ℕ) (P : ℕ → Prop) (i : ℕ) : Prop :=
  P i ∧ ∀ j, P j → j ≠ i → depth l r i < depth l r j

lemma Top.unique {l r : ℕ} {P : ℕ → Prop} {i j : ℕ} (hi : Top l r P i) (hj : Top l r P j) :
    i = j := by
  by_contra hne
  have hij := hi.2 j hj.1 (Ne.symm hne)
  have hji := hj.2 i hi.1 hne
  omega

/-! ### Depths in the subtrees -/

section Depth

variable {l r i : ℕ}

lemma depth_mid (h : l < r) : depth l r (mid l r) = 0 := by
  rw [depth, if_pos h, if_pos rfl]

lemma depth_of_lt (h : l < r) (hi : i < mid l r) : depth l r i = depth l (mid l r) i + 1 := by
  rw [depth, if_pos h, if_neg (Nat.ne_of_lt hi), if_pos hi]

lemma depth_of_gt (h : l < r) (hi : mid l r < i) : depth l r i = depth (mid l r + 1) r i + 1 := by
  rw [depth, if_pos h, if_neg (Nat.ne_of_gt hi),
    if_neg (Nat.lt_asymm hi)]

lemma depth_pos (h : l < r) (hi : i ≠ mid l r) : 0 < depth l r i := by
  rcases Nat.lt_or_gt_of_ne hi with hlt | hgt
  · rw [depth_of_lt h hlt]
    omega
  · rw [depth_of_gt h hgt]
    omega

variable {P : ℕ → Prop}

lemma top_mid (h : l < r) (hm : P (mid l r)) : Top l r P (mid l r) := by
  refine ⟨hm, fun j _ hne => ?_⟩
  rw [depth_mid h]
  exact depth_pos h hne

lemma Top.of_left (h : l < r) (hP : ∀ j, P j → j < mid l r) (hi : Top l (mid l r) P i) :
    Top l r P i := by
  refine ⟨hi.1, fun j hj hne => ?_⟩
  rw [depth_of_lt h (hP i hi.1), depth_of_lt h (hP j hj)]
  exact Nat.succ_lt_succ (hi.2 j hj hne)

lemma Top.of_right (h : l < r) (hP : ∀ j, P j → mid l r < j) (hi : Top (mid l r + 1) r P i) :
    Top l r P i := by
  refine ⟨hi.1, fun j hj hne => ?_⟩
  rw [depth_of_gt h (hP i hi.1), depth_of_gt h (hP j hj)]
  exact Nat.succ_lt_succ (hi.2 j hj hne)

end Depth

/-! ### The path -/

variable {l r u : ℕ}

lemma mem_path_bounds {i : ℕ} (hi : i ∈ path l r u) : l ≤ i ∧ i < r := by
  induction hn : r - l using Nat.strongRecOn generalizing l r with
  | ind n ih =>
    rw [path] at hi
    split at hi
    · next h =>
      have hle := le_mid h
      have hlt := mid_lt h
      rcases List.mem_cons.1 hi with rfl | hi
      · exact ⟨hle, hlt⟩
      split at hi
      · obtain ⟨h1, h2⟩ := ih _ (by omega) hi rfl
        exact ⟨h1, by omega⟩
      · obtain ⟨h1, h2⟩ := ih _ (by omega) hi rfl
        exact ⟨by omega, h2⟩
    · simp at hi

/-- A place that is passed is nearer to the cut than those that were passed before on its side. -/
lemma path_pairwise (l r u : ℕ) :
    (path l r u).Pairwise fun a b => (a < u → a < b) ∧ (u ≤ a → b < a) := by
  induction hn : r - l using Nat.strongRecOn generalizing l r with
  | ind n ih =>
    rw [path]
    split
    · next h =>
      have hle := le_mid h
      have hlt := mid_lt h
      split
      · next hu =>
        refine List.pairwise_cons.2 ⟨fun b hb => ?_, ih _ (by omega) _ _ rfl⟩
        have := mem_path_bounds hb
        omega
      · next hu =>
        refine List.pairwise_cons.2 ⟨fun b hb => ?_, ih _ (by omega) _ _ rfl⟩
        have := mem_path_bounds hb
        omega
    · exact .nil

lemma first_le {i m : ℕ} (hf : (path l r u).find? (· < u) = some i) (hm : m ∈ path l r u)
    (hmu : m < u) : i ≤ m := by
  obtain ⟨hi, as, bs, heq, has⟩ := List.find?_eq_some_iff_append.1 hf
  have hpair := path_pairwise l r u
  rw [heq] at hm hpair
  rcases List.mem_append.1 hm with hm | hm
  · simpa [hmu] using has m hm
  · rcases List.mem_cons.1 hm with rfl | hm
    · exact Nat.le_refl _
    · have := (List.pairwise_cons.1 (List.pairwise_append.1 hpair).2.1).1 m hm
      have : i < u := by simpa using hi
      omega

/-- With a place all those between it and the cut are in `P`. -/
def Around (u : ℕ) (P : ℕ → Prop) : Prop :=
  ∀ i j, P i → (i ≤ j ∧ j < u) ∨ (u ≤ j ∧ j ≤ i) → P j

/-- **The first place of `P` that is passed is the one that lies least deep.** -/
theorem find?_path {P : ℕ → Prop} [DecidablePred P] (hP : Around u P)
    (hb : ∀ i, P i → l ≤ i ∧ i < r) :
    (∀ i, (path l r u).find? (P ·) = some i → Top l r P i) ∧
      ((path l r u).find? (P ·) = none → ∀ i, ¬ P i) := by
  induction hn : r - l using Nat.strongRecOn generalizing l r with
  | ind n ih =>
    rw [path]
    by_cases h : l < r
    · have hle := le_mid h
      have hlt := mid_lt h
      rw [if_pos h]
      by_cases hm : P (mid l r)
      · rw [List.find?_cons_of_pos (by simpa using hm)]
        refine ⟨fun i hi => ?_, fun hi => by simp at hi⟩
        obtain rfl := Option.some.inj hi
        exact top_mid h hm
      · rw [List.find?_cons_of_neg (by simpa using hm)]
        by_cases hu : u ≤ mid l r
        · have hleft : ∀ j, P j → j < mid l r := fun j hj => by
            by_contra hge
            exact hm (hP j _ hj (.inr ⟨hu, by omega⟩))
          rw [if_pos hu]
          obtain ⟨h1, h2⟩ := ih _ (by omega) (fun i hi => ⟨(hb i hi).1, hleft i hi⟩) rfl
          exact ⟨fun i hi => (h1 i hi).of_left h hleft, h2⟩
        · have hright : ∀ j, P j → mid l r < j := fun j hj => by
            by_contra hle'
            exact hm (hP j _ hj (.inl ⟨by omega, by omega⟩))
          rw [if_neg hu]
          obtain ⟨h1, h2⟩ := ih _ (by omega) (fun i hi => ⟨hright i hi, (hb i hi).2⟩) rfl
          exact ⟨fun i hi => (h1 i hi).of_right h hright, h2⟩
    · rw [if_neg h]
      refine ⟨fun i hi => by simp at hi, fun _ i hi => ?_⟩
      have := hb i hi
      omega

lemma exists_first {P : ℕ → Prop} [DecidablePred P] (hP : Around u P)
    (hb : ∀ i, P i → l ≤ i ∧ i < r) (hex : ∃ i, P i) :
    ∃ i, (path l r u).find? (P ·) = some i ∧ Top l r P i := by
  obtain ⟨hsome, hnone⟩ := find?_path hP hb
  cases hf : (path l r u).find? (P ·) with
  | none =>
    obtain ⟨i, hi⟩ := hex
    exact absurd hi (hnone hf i)
  | some i => exact ⟨i, rfl, hsome i hf⟩

lemma pred_mem_path (hl : l < u) (hr : u ≤ r) : u - 1 ∈ path l r u := by
  obtain ⟨i, hf, rfl, -⟩ := exists_first (l := l) (r := r) (u := u) (P := (· = u - 1))
    (fun i j hi hij => by omega) (fun i hi => by omega) ⟨u - 1, rfl⟩
  exact List.mem_of_find?_eq_some hf

lemma around_from {i : ℕ} (hi : i ≤ u) (hr : u ≤ r) : Around u fun x => i ≤ x ∧ x < r :=
  fun x j hx hj => by omega

/-- The places behind the cut: the one that lies least deep is the greatest that is passed. -/
lemma top_of_path (hl : l ≤ u) (hr : u < r) : ∃ t, Top l r (fun x => u ≤ x ∧ x < r) t ∧
    t ∈ path l r u ∧ ∀ s ∈ path l r u, s ≤ t := by
  obtain ⟨t, hf, htop⟩ := exists_first (l := l) (r := r)
    (around_from (Nat.le_refl u) (Nat.le_of_lt hr)) (fun i hi => by omega) ⟨u, Nat.le_refl u, hr⟩
  refine ⟨t, htop, List.mem_of_find?_eq_some hf, fun s hs => ?_⟩
  by_contra hlt
  obtain ⟨-, as, bs, heq, has⟩ := List.find?_eq_some_iff_append.1 hf
  have hpair := path_pairwise l r u
  have hu := htop.1.1
  have hsr := (mem_path_bounds hs).2
  rw [heq] at hpair hs
  rcases List.mem_append.1 hs with hs | hs
  · have := has s hs
    simp only [Bool.not_eq_eq_eq_not, Bool.not_true, decide_eq_false_iff_not] at this
    omega
  · rcases List.mem_cons.1 hs with rfl | hs
    · exact hlt (Nat.le_refl _)
    · have := (List.pairwise_cons.1 (List.pairwise_append.1 hpair).2.1).1 s hs
      omega

/-- On the way to a place before the cut: the one that lies least deep of those from there on is the
greatest that is passed. -/
lemma top_of_prefix {i : ℕ} {as bs : List ℕ} (heq : path l r u = as ++ i :: bs) (hi : i < u)
    (hr : u ≤ r) : ∃ t, Top l r (fun x => i ≤ x ∧ x < r) t ∧ t ∈ as ++ [i] ∧
      ∀ s ∈ as ++ [i], s ≤ t := by
  have hmem : i ∈ path l r u := by simp [heq]
  have hbound := mem_path_bounds hmem
  obtain ⟨t, hf, htop⟩ := exists_first (l := l) (r := r)
    (around_from (Nat.le_of_lt hi) hr) (fun x hx => by omega) ⟨i, Nat.le_refl i, hbound.2⟩
  have hpair := path_pairwise l r u
  have hall : ∀ s ∈ path l r u, s < r := fun s hs => (mem_path_bounds hs).2
  rw [heq] at hf hpair hall
  obtain ⟨-, hpost, hcross⟩ := List.pairwise_append.1 hpair
  have hti := htop.1.1
  cases hfa : as.find? (fun x => decide (i ≤ x ∧ x < r)) with
  | none =>
    -- nothing before `i` is as great as it
    have htop' : i = t := by
      rw [List.find?_append, hfa, Option.none_or, List.find?_cons_of_pos
        (by simpa using hbound.2)] at hf
      exact Option.some.inj hf
    refine ⟨t, htop, by simp [htop'], fun s hs => ?_⟩
    rcases List.mem_append.1 hs with hs | hs
    · have h1 := List.find?_eq_none.1 hfa s hs
      have h2 := hall s (List.mem_append_left _ hs)
      simp only [decide_eq_true_eq] at h1
      omega
    · exact Nat.le_of_eq ((List.mem_singleton.1 hs).trans htop')
  | some t' =>
    obtain rfl : t' = t := by
      rw [List.find?_append, hfa, Option.some_or] at hf
      exact Option.some.inj hf
    have hmem' := List.mem_of_find?_eq_some hfa
    refine ⟨t', htop, List.mem_append_left _ hmem', fun s hs => ?_⟩
    by_contra hlt
    have hturn := hcross t' hmem' i List.mem_cons_self
    obtain ⟨-, as', bs', heq', has'⟩ := List.find?_eq_some_iff_append.1 hfa
    rcases List.mem_append.1 hs with hs | hs
    · have hsr := hall s (List.mem_append_left _ hs)
      have hpre := (List.pairwise_append.1 hpair).1
      rw [heq'] at hs hpre
      rcases List.mem_append.1 hs with hs | hs
      · have := has' s hs
        simp only [Bool.not_eq_eq_eq_not, Bool.not_true, decide_eq_false_iff_not] at this
        omega
      · rcases List.mem_cons.1 hs with rfl | hs
        · exact hlt (Nat.le_refl _)
        · have := (List.pairwise_cons.1 (List.pairwise_append.1 hpre).2.1).1 s hs
          omega
    · rw [List.mem_singleton.1 hs] at hlt
      omega

end Lib.Bisect
