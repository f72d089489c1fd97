import Mathlib.Algebra.BigOperators.Fin
import Mathlib.Algebra.Order.BigOperators.Group.Finset
import Mathlib.Data.Nat.Bitwise
import Mathlib.Tactic.Common

/-!
The one bits of a word, and how many of them a word has that is part of a run of ones.
-/

namespace Lib.Popcount

def onesBelow (w n : ℕ) : ℕ := (List.range w).countP n.testBit

variable {v w : ℕ}

def ones (x : BitVec w) : ℕ := onesBelow w x.toNat

@[simp] lemma onesBelow_zero (n : ℕ) : onesBelow 0 n = 0 := rfl

lemma onesBelow_succ (w n : ℕ) :
    onesBelow (w + 1) n = onesBelow w (n / 2) + (n.testBit 0).toNat := by
  have hshift : n.testBit ∘ Nat.succ = (n / 2).testBit := by
    funext i
    exact Nat.testBit_succ n i
  rw [onesBelow, List.range_succ_eq_map, List.countP_cons, List.countP_map, hshift]
  cases n.testBit 0 <;> rfl

/-- **`n &&& (n - 1)` has one bit less.** -/
lemma onesBelow_and_sub_one {n : ℕ} (hn : n ≠ 0) (hlt : n < 2 ^ w) :
    onesBelow w (n &&& (n - 1)) + 1 = onesBelow w n := by
  induction w generalizing n with
  | zero =>
    rw [Nat.pow_zero] at hlt
    omega
  | succ w ih =>
    rw [onesBelow_succ, onesBelow_succ, Nat.and_div_two, Nat.testBit_and, Nat.testBit_zero,
      Nat.testBit_zero]
    rcases Nat.mod_two_eq_zero_or_one n with heven | hodd
    · have hhalf : (n - 1) / 2 = n / 2 - 1 := by omega
      have hbit : decide (n % 2 = 1) = false := by simp [heven]
      rw [hhalf, hbit, ← ih (n := n / 2) (by omega) (by omega)]
      rfl
    · have hhalf : (n - 1) / 2 = n / 2 := by omega
      have hbit : decide (n % 2 = 1) = true := by simp [hodd]
      have hclear : decide ((n - 1) % 2 = 1) = false := by
        rw [decide_eq_false_iff_not]
        omega
      rw [hhalf, hbit, hclear, Nat.and_self]
      rfl

lemma ones_and_sub_one {x : BitVec w} (hx : x ≠ 0#w) : ones (x &&& (x - 1#w)) + 1 = ones x := by
  have hne : x.toNat ≠ 0 := fun h => hx (BitVec.eq_of_toNat_eq (by simpa using h))
  have hw : w ≠ 0 := by
    rintro rfl
    exact hx (BitVec.eq_nil x)
  have hone : (1#w).toNat = 1 := by
    rw [BitVec.toNat_ofNat, Nat.mod_eq_of_lt (Nat.one_lt_two_pow hw)]
  have hle : 1#w ≤ x := by
    rw [BitVec.le_def, hone]
    omega
  rw [ones, ones, BitVec.toNat_and, BitVec.toNat_sub_of_le hle, hone]
  exact onesBelow_and_sub_one hne x.isLt

lemma ones_zero : ones 0#w = 0 := by
  rw [ones, onesBelow, List.countP_eq_zero]
  simp

lemma ones_eq_countP (x : BitVec w) : ones x = (List.range w).countP x.getLsbD := rfl

lemma ones_le (x : BitVec w) : ones x ≤ w := by
  have hle := List.countP_le_length (p := x.getLsbD) (l := List.range w)
  rwa [List.length_range] at hle

lemma ones_append (x : BitVec v) (y : BitVec w) : ones (x ++ y) = ones x + ones y := by
  have hrange : List.range (v + w) = List.range w ++ (List.range v).map (w + ·) := by
    rw [Nat.add_comm v w, List.range_add]
  rw [ones_eq_countP, ones_eq_countP, ones_eq_countP, hrange, List.countP_append, List.countP_map,
    Nat.add_comm]
  congr 1
  · refine List.countP_congr fun i hi => ?_
    rw [Function.comp_apply, BitVec.getLsbD_append, if_neg (by omega), Nat.add_sub_cancel_left]
  · refine List.countP_congr fun i hi => ?_
    rw [BitVec.getLsbD_append, if_pos (List.mem_range.1 hi)]

/-! ### Runs of ones -/

/-- The first `p` bits of a word are ones, and the others are not. -/
lemma ones_of_leading {x : BitVec w} {p : ℕ} (h : ∀ i < w, x.getMsbD i = decide (i < p)) :
    ones x = min w p := by
  have hbit : ∀ i ∈ List.range w, x.getLsbD i = true ↔ decide (w - p ≤ i) = true := by
    intro i hi
    have hlt := List.mem_range.1 hi
    have hmsb := h (w - 1 - i) (by omega)
    rw [BitVec.getMsbD_eq_getLsbD, show w - 1 - (w - 1 - i) = i by omega] at hmsb
    rw [decide_eq_true (show w - 1 - i < w by omega), Bool.true_and] at hmsb
    rw [hmsb, decide_eq_true_iff, decide_eq_true_iff]
    omega
  have hrange : List.range w = List.range (w - p) ++ (List.range (min w p)).map (w - p + ·) := by
    rw [← List.range_add]
    congr 1
    omega
  rw [ones_eq_countP, List.countP_congr hbit, hrange, List.countP_append, List.countP_map]
  have hlow : (List.range (w - p)).countP (fun i => decide (w - p ≤ i)) = 0 := by
    rw [List.countP_eq_zero]
    intro i hi
    have hlt := List.mem_range.1 hi
    rw [decide_eq_true_iff]
    omega
  have hhigh : (List.range (min w p)).countP
      ((fun i => decide (w - p ≤ i)) ∘ fun i => w - p + i) = min w p := by
    rw [List.countP_eq_length.2, List.length_range]
    intro i hi
    exact decide_eq_true (Nat.le_add_right (w - p) i)
  rw [hlow, hhigh, Nat.zero_add]

/-- The words of an array in which the first `p` bits are ones. -/
structure Leading {n : ℕ} (m : Fin n → BitVec w) (p : ℕ) : Prop where
  le : p ≤ n * w
  bit : ∀ i k, k < w → (m i).getMsbD k = decide (i * w + k < p)

lemma sum_min (w p n : ℕ) : ∑ i ∈ Finset.range n, min w (p - i * w) = min (n * w) p := by
  induction n with
  | zero => simp
  | succ n ih =>
    rw [Finset.sum_range_succ, ih, Nat.succ_mul]
    omega

theorem Leading.sum_ones {n p : ℕ} {m : Fin n → BitVec w} (h : Leading m p) :
    ∑ i, ones (m i) = p := by
  have hones : ∀ i : Fin n, ones (m i) = min w (p - i * w) := fun i =>
    ones_of_leading fun k hk => by
      rw [h.bit i k hk, decide_eq_decide]
      omega
  calc ∑ i, ones (m i) = ∑ i : Fin n, min w (p - i * w) := Finset.sum_congr rfl fun i _ => hones i
    _ = ∑ i ∈ Finset.range n, min w (p - i * w) :=
      Fin.sum_univ_eq_sum_range (fun i => min w (p - i * w)) n
    _ = min (n * w) p := sum_min w p n
    _ = p := Nat.min_eq_right h.le

end Lib.Popcount
