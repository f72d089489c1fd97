import Mathlib.Logic.Function.Iterate
import Mathlib.Algebra.Ring.Nat
import Mathlib.Tactic.Common

/-!
Termination by a potential that some steps may raise.

A machine takes one step after another until it halts. Each step lowers the potential, or is paid
for: what it may add is bounded by a multiple of what it adds to a payment. If the payments of
the whole run are bounded, the machine halts.
-/

namespace Lib.Amortised

variable {S : Type*} {next : S → S} {halted : S → Prop} {I : S → Prop} {Φ paid : S → ℕ} {k : ℕ}
  {s : S}

lemma invariant_iterate (hkeep : ∀ s, I s → I (next s)) (h0 : I s) (n : ℕ) :
    I (next^[n] s) := by
  induction n with
  | zero => exact h0
  | succ n ih =>
    rw [Function.iterate_succ_apply']
    exact hkeep _ ih

/-- The steps before the machine halts, against the payments. -/
lemma steps_le (hkeep : ∀ s, I s → I (next s))
    (hstep : ∀ s, I s → ¬ halted s → Φ (next s) + 1 + k * paid s ≤ Φ s + k * paid (next s))
    (h0 : I s) (n : ℕ) (hrun : ∀ m < n, ¬ halted (next^[m] s)) :
    n + Φ (next^[n] s) + k * paid s ≤ Φ s + k * paid (next^[n] s) := by
  induction n with
  | zero => simp
  | succ n ih =>
    have hprev := ih fun m hm => hrun m (by omega)
    have hlast := hstep _ (invariant_iterate hkeep h0 n) (hrun n (by omega))
    rw [Function.iterate_succ_apply']
    omega

/-- **A machine whose payments are bounded halts.** -/
theorem exists_halted (Φ paid : S → ℕ) (hkeep : ∀ s, I s → I (next s))
    (hstep : ∀ s, I s → ¬ halted s → Φ (next s) + 1 + k * paid s ≤ Φ s + k * paid (next s))
    (h0 : I s) {N : ℕ} (hpaid : ∀ n, paid (next^[n] s) ≤ N) : ∃ n, halted (next^[n] s) := by
  by_contra hnever
  simp only [not_exists] at hnever
  have hle := steps_le hkeep hstep h0 (Φ s + k * N + 1) fun m _ => hnever m
  have hpay : k * paid (next^[Φ s + k * N + 1] s) ≤ k * N :=
    Nat.mul_le_mul_left k (hpaid _)
  omega

end Lib.Amortised
