import Mathlib.Algebra.BigOperators.Group.Finset.Basic
import Mathlib.Algebra.Order.BigOperators.Group.Finset
import Mathlib.Data.Fintype.BigOperators
import Mathlib.Tactic.Common

/-!
A quantity counted over the cells of a finite table, and how it follows an update of one
cell. A shared counter that a program keeps beside the table is compared with it.
-/

namespace Lib.Tally

variable {ι α : Type*} [Fintype ι]

def tally (g : α → ℕ) (c : ι → α) : ℕ := ∑ i, g (c i)

/-- One cell is replaced: the sum moves by the difference. -/
lemma tally_update [DecidableEq ι] (g : α → ℕ) (c : ι → α) (i : ι) (v : α) :
    tally g (Function.update c i v) + g (c i) = tally g c + g v := by
  unfold tally
  have h1 : ∑ j ∈ Finset.univ.erase i, g (Function.update c i v j) + g v =
      ∑ j, g (Function.update c i v j) := by
    rw [← Finset.sum_erase_add _ _ (Finset.mem_univ i), Function.update_self]
  have h2 : ∑ j ∈ Finset.univ.erase i, g (c j) + g (c i) = ∑ j, g (c j) :=
    Finset.sum_erase_add _ _ (Finset.mem_univ i)
  have h3 : ∑ j ∈ Finset.univ.erase i, g (Function.update c i v j) =
      ∑ j ∈ Finset.univ.erase i, g (c j) :=
    Finset.sum_congr rfl fun j hj => by
      rw [Function.update_of_ne (Finset.ne_of_mem_erase hj)]
  omega

lemma tally_congr {g : α → ℕ} {c d : ι → α} (h : ∀ i, g (c i) = g (d i)) :
    tally g c = tally g d :=
  Finset.sum_congr rfl fun i _ => h i

lemma tally_of_ne [DecidableEq ι] (g : α → ℕ) {c d : ι → α} {i : ι} (h : ∀ j, j ≠ i → d j = c j) :
    tally g d + g (c i) = tally g c + g (d i) := by
  have hd : d = Function.update c i (d i) := by
    funext j
    by_cases hj : j = i
    · subst hj; rw [Function.update_self]
    · rw [Function.update_of_ne hj, h j hj]
  rw [hd, tally_update, Function.update_self]

lemma le_tally (g : α → ℕ) (c : ι → α) (i : ι) : g (c i) ≤ tally g c :=
  Finset.single_le_sum (f := fun i => g (c i)) (fun _ _ => Nat.zero_le _) (Finset.mem_univ i)

lemma eq_of_tally_le_one [DecidableEq ι] {g : α → ℕ} {c : ι → α} (h : tally g c ≤ 1) {i j : ι}
    (hi : g (c i) ≠ 0) (hj : g (c j) ≠ 0) : i = j := by
  by_contra hij
  have hle : ∑ k ∈ {i, j}, g (c k) ≤ tally g c :=
    Finset.sum_le_sum_of_subset (Finset.subset_univ _)
  rw [Finset.sum_pair hij] at hle
  omega

lemma tally_eq_zero_iff (g : α → ℕ) (c : ι → α) : tally g c = 0 ↔ ∀ i, g (c i) = 0 := by
  simp [tally]

lemma tally_const_eq_zero {g : α → ℕ} {a : α} (h : g a = 0) : tally g (fun _ : ι => a) = 0 :=
  (tally_eq_zero_iff g _).mpr fun _ => h

lemma tally_le {g : α → ℕ} {n : ℕ} (h : ∀ a, g a ≤ n) (c : ι → α) :
    tally g c ≤ Fintype.card ι * n := by
  have := Finset.sum_le_card_nsmul Finset.univ (fun i => g (c i)) n fun i _ => h (c i)
  simpa [tally] using this

/-- A sum of zeros and ones is the number of cells with a one. -/
lemma tally_eq_card {g : α → ℕ} {p : α → Prop} [DecidablePred p]
    (h : ∀ a, g a = if p a then 1 else 0) (c : ι → α) :
    tally g c = (Finset.univ.filter fun i => p (c i)).card := by
  rw [Finset.card_filter]
  exact Finset.sum_congr rfl fun i _ => h (c i)

end Lib.Tally
