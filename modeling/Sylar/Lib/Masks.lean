import Mathlib.Algebra.Ring.Nat
import Mathlib.Data.List.OfFn
import Mathlib.Tactic.Common

/-!
Words whose low bits are set, their complements, and the bytes of a word in reverse.
-/

namespace Lib.Masks

variable {w : ℕ}

/-- The word with exactly the `k` least significant bits set. -/
def low (w k : ℕ) : BitVec w := BitVec.ofNat w (2 ^ k - 1)

lemma getLsbD_low {k i : ℕ} (hi : i < w) : (low w k).getLsbD i = decide (i < k) := by
  rw [low, BitVec.getLsbD_ofNat, Nat.testBit_two_pow_sub_one]
  simp [hi]

/-- The complement has exactly the most significant bits set. -/
lemma getMsbD_not_low {k i : ℕ} (hk : k ≤ w) (hi : i < w) :
    (~~~low w k).getMsbD i = decide (i < w - k) := by
  rw [BitVec.getMsbD_not, BitVec.getMsbD_eq_getLsbD, getLsbD_low (by omega)]
  by_cases h : i < w - k
  · have hnot : ¬w - 1 - i < k := by omega
    simp [hi, h, hnot]
  · have hlt : w - 1 - i < k := by omega
    simp [hi, h, hlt]

lemma low_zero : low w 0 = 0#w := by simp [low]

lemma low_self : low w w = BitVec.allOnes w := by
  apply BitVec.eq_of_getLsbD_eq
  intro i hi
  simp [getLsbD_low hi, hi]

lemma setWidth_low {v k : ℕ} (h : w ≤ v) : (low v k).setWidth w = low w k := by
  apply BitVec.eq_of_getLsbD_eq
  intro i hi
  rw [BitVec.getLsbD_setWidth, getLsbD_low hi, getLsbD_low (by omega)]
  simp [hi]

/-- Two complementary parts of a word agree only where both are empty. -/
lemma and_eq_and_not_iff (a m : BitVec w) : a &&& m = a &&& ~~~m ↔ a = 0#w := by
  constructor
  · intro h
    apply BitVec.eq_of_getLsbD_eq
    intro i hi
    have hbit : (a &&& m).getLsbD i = (a &&& ~~~m).getLsbD i := by rw [h]
    rw [BitVec.getLsbD_and, BitVec.getLsbD_and, BitVec.getLsbD_not] at hbit
    cases ha : a.getLsbD i with
    | false => simp
    | true =>
      rw [ha] at hbit
      cases m.getLsbD i <;> simp [hi] at hbit
  · rintro rfl
    simp

/-- Where the bit `i` comes from when the bytes are reversed. -/
def source (w i : ℕ) : ℕ := (w / 8 - 1 - i / 8) * 8 + i % 8

/-- The bytes of a word in reverse. -/
def byteswap (x : BitVec w) : BitVec w :=
  (BitVec.ofBoolListLE (List.ofFn fun i : Fin w => x.getLsbD (source w i))).cast List.length_ofFn

lemma getLsbD_byteswap (x : BitVec w) {i : ℕ} (hi : i < w) :
    (byteswap x).getLsbD i = x.getLsbD (source w i) := by
  rw [byteswap, BitVec.getLsbD_cast, BitVec.getLsbD_ofBoolListLE, List.getD_eq_getElem?_getD]
  simp [hi]

lemma source_lt {i : ℕ} (hw : w % 8 = 0) (hi : i < w) : source w i < w := by
  unfold source
  omega

lemma source_source {i : ℕ} (hw : w % 8 = 0) (hi : i < w) : source w (source w i) = i := by
  unfold source
  omega

lemma byteswap_byteswap (hw : w % 8 = 0) (x : BitVec w) : byteswap (byteswap x) = x := by
  apply BitVec.eq_of_getLsbD_eq
  intro i hi
  rw [getLsbD_byteswap _ hi, getLsbD_byteswap _ (source_lt hw hi), source_source hw hi]

lemma byteswap_and (x y : BitVec w) : byteswap (x &&& y) = byteswap x &&& byteswap y := by
  apply BitVec.eq_of_getLsbD_eq
  intro i hi
  simp only [BitVec.getLsbD_and, getLsbD_byteswap _ hi]

lemma byteswap_or (x y : BitVec w) : byteswap (x ||| y) = byteswap x ||| byteswap y := by
  apply BitVec.eq_of_getLsbD_eq
  intro i hi
  simp only [BitVec.getLsbD_or, getLsbD_byteswap _ hi]

lemma byteswap_not (hw : w % 8 = 0) (x : BitVec w) : byteswap (~~~x) = ~~~byteswap x := by
  apply BitVec.eq_of_getLsbD_eq
  intro i hi
  rw [getLsbD_byteswap _ hi, BitVec.getLsbD_not, BitVec.getLsbD_not, getLsbD_byteswap _ hi]
  simp only [hi, source_lt hw hi]

end Lib.Masks
