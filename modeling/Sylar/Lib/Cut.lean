import Mathlib.Data.List.Basic
import Mathlib.Order.Lattice
import Mathlib.Tactic.Common

/-!
Lists cut at a predicate: the part up to and including the first element that satisfies it, as a
loop visits them that stops there; and, in a sorted list, the elements below a bound, which stand in
front of the others and are found by their number.
-/

namespace Lib.Cut

variable {α : Type*}

section UpTo

variable (p : α → Prop) [DecidablePred p]

/-- The elements up to the first that satisfies `p`, and that one. -/
def upTo : List α → List α
  | [] => []
  | a :: l => if p a then [a] else a :: upTo l

variable {p}

@[simp] lemma upTo_nil : upTo p [] = [] := rfl

lemma upTo_cons_of_pos {a : α} (ha : p a) (l : List α) : upTo p (a :: l) = [a] := if_pos ha

lemma upTo_cons_of_neg {a : α} (ha : ¬p a) (l : List α) : upTo p (a :: l) = a :: upTo p l :=
  if_neg ha

lemma mem_upTo_cons_self (a : α) (l : List α) : a ∈ upTo p (a :: l) := by
  by_cases ha : p a
  · simp [upTo_cons_of_pos ha]
  · simp [upTo_cons_of_neg ha]

lemma upTo_cons_ne_nil (a : α) (l : List α) : upTo p (a :: l) ≠ [] :=
  List.ne_nil_of_mem (mem_upTo_cons_self a l)

lemma upTo_isPrefix (l : List α) : upTo p l <+: l := by
  induction l with
  | nil => exact List.prefix_rfl
  | cons a l ih =>
    by_cases ha : p a
    · rw [upTo_cons_of_pos ha]
      exact ⟨l, rfl⟩
    · obtain ⟨rest, hrest⟩ := ih
      rw [upTo_cons_of_neg ha]
      exact ⟨rest, by rw [List.cons_append, hrest]⟩

lemma upTo_of_find_none {l : List α} (h : l.find? (p ·) = none) : upTo p l = l := by
  induction l with
  | nil => rfl
  | cons a l ih =>
    have ha : ¬p a := by simpa using List.find?_eq_none.1 h a List.mem_cons_self
    rw [List.find?_cons_of_neg (by simpa using ha)] at h
    rw [upTo_cons_of_neg ha, ih h]

lemma upTo_of_find_some {l : List α} {a : α} (h : l.find? (p ·) = some a) :
    ∃ as bs, l = as ++ a :: bs ∧ upTo p l = as ++ [a] := by
  induction l with
  | nil => simp at h
  | cons b l ih =>
    by_cases hb : p b
    · rw [List.find?_cons_of_pos (by simpa using hb)] at h
      obtain rfl := Option.some.inj h
      exact ⟨[], l, rfl, upTo_cons_of_pos hb l⟩
    · rw [List.find?_cons_of_neg (by simpa using hb)] at h
      obtain ⟨as, bs, rfl, hup⟩ := ih h
      exact ⟨b :: as, bs, rfl, by rw [upTo_cons_of_neg hb, hup, List.cons_append]⟩

/-- The first that satisfies a weaker predicate is reached. -/
lemma mem_upTo_of_find {q : α → Prop} [DecidablePred q] (hpq : ∀ a, p a → q a) {l : List α} {a : α}
    (h : l.find? (q ·) = some a) : a ∈ upTo p l := by
  induction l with
  | nil => simp at h
  | cons b l ih =>
    by_cases hb : q b
    · rw [List.find?_cons_of_pos (by simpa using hb)] at h
      obtain rfl := Option.some.inj h
      exact mem_upTo_cons_self b l
    · rw [List.find?_cons_of_neg (by simpa using hb)] at h
      rw [upTo_cons_of_neg fun hp => hb (hpq b hp)]
      exact List.mem_cons_of_mem b (ih h)

/-- If the first that satisfies a weaker predicate satisfies this one, it is the first to do so. -/
lemma find?_of_imp {q : α → Prop} [DecidablePred q] {l : List α} {a : α}
    (hpq : ∀ b ∈ l, p b → q b) (h : l.find? (q ·) = some a) (ha : p a) :
    l.find? (p ·) = some a := by
  obtain ⟨-, as, bs, rfl, has⟩ := List.find?_eq_some_iff_append.1 h
  refine List.find?_eq_some_iff_append.2 ⟨by simpa using ha, as, bs, rfl, fun b hb => ?_⟩
  have hq : ¬q b := by simpa using has b hb
  simpa using fun hp => hq (hpq b (List.mem_append_left _ hb) hp)

lemma neg_of_mem_dropLast_upTo {l : List α} {a : α} (ha : a ∈ (upTo p l).dropLast) : ¬p a := by
  induction l with
  | nil => simp at ha
  | cons b l ih =>
    by_cases hb : p b
    · simp [upTo_cons_of_pos hb] at ha
    · rw [upTo_cons_of_neg hb] at ha
      cases hl : upTo p l with
      | nil => simp [hl] at ha
      | cons c cs =>
        rw [hl, List.dropLast_cons_of_ne_nil (by simp), ← hl] at ha
        rcases List.mem_cons.1 ha with rfl | ha
        · exact hb
        · exact ih ha

end UpTo

section Sorted

variable [LinearOrder α]

/-- In a sorted list the elements that satisfy a predicate which only lower ones satisfy are those
at the places below their number. -/
lemma iff_lt_countP {l : List α} (hl : l.Pairwise (· ≤ ·)) {p : α → Prop} [DecidablePred p]
    (hp : ∀ {x y : α}, x ≤ y → p y → p x) {i : ℕ} {a : α} (ha : l[i]? = some a) :
    p a ↔ i < l.countP fun x => decide (p x) := by
  induction l generalizing i with
  | nil => simp at ha
  | cons b l ih =>
    obtain ⟨hb, hl⟩ := List.pairwise_cons.1 hl
    by_cases hbv : p b
    · rw [List.countP_cons_of_pos (by simpa using hbv)]
      cases i with
      | zero =>
        obtain rfl : b = a := by simpa using ha
        simp [hbv]
      | succ j =>
        rw [ih hl (by simpa using ha)]
        omega
    · -- nothing behind `b` satisfies it either
      have hnone : ∀ x ∈ l, ¬p x := fun x hx hxv => hbv (hp (hb x hx) hxv)
      have hzero : (b :: l).countP (fun x => decide (p x)) = 0 := by
        rw [List.countP_eq_zero]
        intro x hx
        rcases List.mem_cons.1 hx with rfl | hx
        · simpa using hbv
        · simpa using hnone x hx
      have hnot : ¬p a := by
        have hmem := List.mem_of_getElem? ha
        rcases List.mem_cons.1 hmem with rfl | hmem
        · exact hbv
        · exact hnone a hmem
      rw [hzero]
      simp [hnot]

lemma le_iff_lt_countP {l : List α} (hl : l.Pairwise (· ≤ ·)) (v : α) {i : ℕ} {a : α}
    (ha : l[i]? = some a) : a ≤ v ↔ i < l.countP fun x => decide (x ≤ v) :=
  iff_lt_countP hl (fun hxy hy => hxy.trans hy) ha

lemma lt_iff_lt_countP {l : List α} (hl : l.Pairwise (· ≤ ·)) (v : α) {i : ℕ} {a : α}
    (ha : l[i]? = some a) : a < v ↔ i < l.countP fun x => decide (x < v) :=
  iff_lt_countP hl (fun hxy hy => hxy.trans_lt hy) ha

/-- Without `v` itself, the elements up to `v` are those below it. -/
lemma countP_le_eq_countP_lt {l : List α} {v : α} (hv : v ∉ l) :
    (l.countP fun x => decide (x ≤ v)) = l.countP fun x => decide (x < v) := by
  refine List.countP_congr fun x hx => ?_
  have hne : x ≠ v := by
    rintro rfl
    exact hv hx
  simpa using (lt_iff_le_and_ne.trans (and_iff_left hne)).symm

end Sorted

end Lib.Cut
