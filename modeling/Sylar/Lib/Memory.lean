import Mathlib.Data.List.Lex
import Mathlib.Data.List.TakeWhile
import Mathlib.Order.Lattice
import Mathlib.Tactic.Common

/-!
Buffers as the C library looks at them.
-/

namespace Lib.Memory

section Search

variable {α : Type} [DecidableEq α] {s u v : List α} {c : α} {p n : ℕ}

/-- The first `c` among the `n` places from `p` on. -/
def memchr (s : List α) (p n : ℕ) (c : α) : Option ℕ :=
  (((s.drop p).take n).idxOf? c).map (p + ·)

/-- The string at the start of a buffer, which `nul` ends. -/
def cstr (nul : α) (s : List α) : List α := s.takeWhile (· ≠ nul)

lemma idxOf?_append_cons (h : c ∉ u) : (u ++ c :: v).idxOf? c = some u.length := by
  induction u with
  | nil => simp [List.idxOf?_cons]
  | cons a u ih =>
    have hne : ¬a = c := fun heq => h (heq ▸ List.mem_cons_self)
    rw [List.cons_append, List.idxOf?_cons, ih fun hmem => h (List.mem_cons_of_mem a hmem)]
    simp [hne]

lemma memchr_eq_some (hs : (s.drop p).take n = u ++ c :: v) (h : c ∉ u) :
    memchr s p n c = some (p + u.length) := by
  rw [memchr, hs, idxOf?_append_cons h, Option.map_some]

lemma memchr_eq_none (hs : (s.drop p).take n = u) (h : c ∉ u) : memchr s p n c = none := by
  rw [memchr, hs, List.idxOf?_eq_none_iff.2 h, Option.map_none]

lemma memchr_eq_none_iff (hs : (s.drop p).take n = u) : memchr s p n c = none ↔ c ∉ u := by
  rw [memchr, hs, Option.map_eq_none_iff, List.idxOf?_eq_none_iff]

lemma not_mem_cstr : c ∉ cstr c s := fun hmem => by
  simpa using List.mem_takeWhile_imp hmem

lemma cstr_eq_self (h : c ∉ s) : cstr c s = s :=
  List.takeWhile_eq_self_iff.2 fun a ha => by
    simpa using fun heq : a = c => h (heq ▸ ha)

lemma cstr_append (h : c ∉ u) : cstr c (u ++ c :: v) = u := by
  rw [cstr, List.takeWhile_append_of_pos]
  · simp
  · intro a ha
    simpa using fun heq : a = c => h (heq ▸ ha)

end Search

/-! ### Comparison -/

section Compare

variable {α : Type} [LinearOrder α]

/-- The first `n` places of two buffers are compared; outside of them there is no value. -/
def memcmp : List α → List α → ℕ → Option Ordering
  | _, _, 0 => some .eq
  | a :: s, b :: t, n + 1 =>
    if a < b then some .lt else if b < a then some .gt else memcmp s t n
  | _, _, _ + 1 => none

/-- What is behind the places that are compared does not matter. -/
lemma memcmp_take {n i j : ℕ} (hi : n ≤ i) (hj : n ≤ j) (s t : List α) :
    memcmp (s.take i) (t.take j) n = memcmp s t n := by
  induction n generalizing s t i j with
  | zero => simp [memcmp]
  | succ n ih =>
    obtain ⟨i, rfl⟩ := Nat.exists_eq_add_of_lt hi
    obtain ⟨j, rfl⟩ := Nat.exists_eq_add_of_lt hj
    cases s with
    | nil => simp [memcmp]
    | cons a s =>
      cases t with
      | nil => simp [memcmp]
      | cons b t =>
        rw [List.take_succ_cons, List.take_succ_cons, memcmp, memcmp, ih (by omega) (by omega)]

/-- **`memcmp` on the shorter length and then the lengths give the lexicographic order.** -/
theorem memcmp_min (x y : List α) : ∃ c, memcmp x y (min x.length y.length) = some c ∧
    (c = .lt ∨ c = .eq ∧ x.length < y.length ↔ x < y) ∧
    (c = .eq ∧ x.length = y.length ↔ x = y) := by
  induction x generalizing y with
  | nil =>
    refine ⟨.eq, by simp [memcmp], ?_⟩
    cases y <;> simp
  | cons a x ih =>
    cases y with
    | nil => exact ⟨.eq, by simp [memcmp], by simp⟩
    | cons b y =>
      rw [List.length_cons, List.length_cons, Nat.succ_min_succ, memcmp]
      rcases lt_trichotomy a b with hlt | rfl | hgt
      · exact ⟨.lt, if_pos hlt, by simp [List.cons_lt_cons_iff, hlt], by simp [hlt.ne]⟩
      · obtain ⟨c, hc, hless, heq⟩ := ih y
        rw [if_neg (lt_irrefl a), if_neg (lt_irrefl a)]
        refine ⟨c, hc, ?_, ?_⟩
        · rw [Nat.succ_lt_succ_iff, hless]
          simp
        · rw [Nat.succ_inj, heq]
          simp
      · refine ⟨.gt, by rw [if_neg hgt.not_gt, if_pos hgt], ?_, by simp [hgt.ne']⟩
        simp [List.cons_lt_cons_iff, hgt.not_gt, hgt.ne']

end Compare

end Lib.Memory
