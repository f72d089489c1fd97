import Mathlib.Data.List.Basic
import Mathlib.Tactic.Common

/-!
Numbers as they are printed in a base up to 16, and read back. Numbers are printed by
`Nat.toDigits`, without leading zeros and with small letters.
-/

namespace Lib.Numeral

def digit (c : Char) : Option ℕ :=
  if '0' ≤ c ∧ c ≤ '9' then some (c.toNat - 48)
  else if 'a' ≤ c ∧ c ≤ 'f' then some (c.toNat - 87)
  else if 'A' ≤ c ∧ c ≤ 'F' then some (c.toNat - 55)
  else none

/-- The value of digits below the base, after those with the value `n`. -/
def readFrom (b n : ℕ) : List Char → Option ℕ
  | [] => some n
  | c :: s =>
    match digit c with
    | some d => if d < b then readFrom b (b * n + d) s else none
    | none => none

def read (b : ℕ) (s : List Char) : Option ℕ := if s = [] then none else readFrom b 0 s

variable {b : ℕ}

lemma digit_digitChar : ∀ d < 16, digit d.digitChar = some d := by decide

lemma readFrom_append (n : ℕ) (s t : List Char) :
    readFrom b n (s ++ t) = (readFrom b n s).bind fun m => readFrom b m t := by
  induction s generalizing n with
  | nil => rfl
  | cons c s ih =>
    rw [List.cons_append, readFrom, readFrom]
    cases digit c with
    | none => rfl
    | some d =>
      simp only
      split
      · exact ih _
      · rfl

lemma readFrom_digitChar {d : ℕ} (h16 : b ≤ 16) (hd : d < b) (n : ℕ) :
    readFrom b n [d.digitChar] = some (b * n + d) := by
  simp only [readFrom, digit_digitChar d (by omega)]
  rw [if_pos hd]

lemma readFrom_toDigits (hb : 1 < b) (h16 : b ≤ 16) (n : ℕ) :
    readFrom b 0 (Nat.toDigits b n) = some n := by
  induction n using Nat.strongRecOn with
  | ind n ih =>
    by_cases hn : n < b
    · rw [Nat.toDigits_of_lt_base hn, readFrom_digitChar h16 hn, Nat.mul_zero, Nat.zero_add]
    · have hle : b ≤ n := Nat.le_of_not_lt hn
      rw [Nat.toDigits_of_base_le hb hle, readFrom_append,
        ih (n / b) (Nat.div_lt_self (by omega) hb), Option.bind_some,
        readFrom_digitChar h16 (Nat.mod_lt n (by omega)), Nat.div_add_mod]

/-- **What is printed is read back.** -/
theorem read_toDigits (hb : 1 < b) (h16 : b ≤ 16) (n : ℕ) :
    read b (Nat.toDigits b n) = some n := by
  rw [read, if_neg Nat.toDigits_ne_nil, readFrom_toDigits hb h16]

lemma toDigits_injective (hb : 1 < b) (h16 : b ≤ 16) {m n : ℕ}
    (h : Nat.toDigits b m = Nat.toDigits b n) : m = n := by
  have hread := read_toDigits hb h16 m
  rw [h, read_toDigits hb h16] at hread
  exact (Option.some.inj hread).symm

lemma isSome_digit_of_readFrom {s : List Char} {m n : ℕ} (h : readFrom b m s = some n) :
    ∀ c ∈ s, (digit c).isSome := by
  induction s generalizing m with
  | nil => simp
  | cons c s ih =>
    rw [readFrom] at h
    cases hd : digit c with
    | none => simp [hd] at h
    | some d =>
      simp only [hd] at h
      split at h
      · exact List.forall_mem_cons.2 ⟨by simp [hd], ih h⟩
      · simp at h

lemma isSome_digit_of_read {s : List Char} {n : ℕ} (h : read b s = some n) :
    ∀ c ∈ s, (digit c).isSome := by
  rw [read] at h
  split at h
  · simp at h
  · exact isSome_digit_of_readFrom h

lemma not_mem_toDigits (hb : 1 < b) (h16 : b ≤ 16) {c : Char} (hc : digit c = none) (n : ℕ) :
    c ∉ Nat.toDigits b n := by
  intro hmem
  have hsome := isSome_digit_of_read (read_toDigits hb h16 n) c hmem
  simp [hc] at hsome

end Lib.Numeral
