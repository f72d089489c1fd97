import Mathlib.Data.List.TakeWhile
import Mathlib.Data.List.Perm.Basic
import Mathlib.Tactic.Common

/-!
An ordered set with a comparison, as the list of its elements in order.

Positions in the list play the part of iterators: the length of the list is the end. The
comparison is a parameter and may read data that changes, so the set being in order is a
hypothesis of the lemmas and never a property of the type.
-/

namespace Lib.OrdSet

variable {α : Type*}

/-- The first position whose element is not before the key. -/
def lowerBound (before : α → Bool) (l : List α) : ℕ := (l.takeWhile before).length

/-- The position reached from `i` by stepping over elements that satisfy `p`. -/
def skip (p : α → Bool) (l : List α) (i : ℕ) : ℕ := i + ((l.drop i).takeWhile p).length

variable (lt : α → α → Bool)

/-- The position of an element equivalent to `x`, if there is one. -/
def find (x : α) (l : List α) : Option ℕ :=
  match l[lowerBound (lt · x) l]? with
  | some y => if lt x y then none else some (lowerBound (lt · x) l)
  | none => none

/-- The set with `x`, and the position of `x` or of the element that kept it out. -/
def insert (x : α) (l : List α) : List α × ℕ :=
  match find lt x l with
  | some i => (l, i)
  | none => (l.takeWhile (lt · x) ++ x :: l.dropWhile (lt · x), lowerBound (lt · x) l)

/-- Every element is before all that follow it. -/
def Sorted (l : List α) : Prop := l.Pairwise fun a b => lt a b = true

/-! ### Prefixes cut off by a predicate -/

lemma take_lowerBound (p : α → Bool) (l : List α) : l.take (lowerBound p l) = l.takeWhile p := by
  have h : l.take (lowerBound p l) = (l.takeWhile p ++ l.dropWhile p).take (lowerBound p l) := by
    rw [List.takeWhile_append_dropWhile]
  rw [h, lowerBound, List.take_left]

lemma drop_lowerBound (p : α → Bool) (l : List α) : l.drop (lowerBound p l) = l.dropWhile p := by
  have h : l.drop (lowerBound p l) = (l.takeWhile p ++ l.dropWhile p).drop (lowerBound p l) := by
    rw [List.takeWhile_append_dropWhile]
  rw [h, lowerBound, List.drop_left]

lemma take_skip (p : α → Bool) (l : List α) (i : ℕ) :
    l.take (skip p l i) = l.take i ++ (l.drop i).takeWhile p := by
  rw [skip, List.take_add]
  exact congrArg _ (take_lowerBound p (l.drop i))

variable {lt}

/-- Where the list is ordered so that `p` can only stop holding, the cut at the first
failure keeps exactly the elements with `p`. -/
lemma takeWhile_eq_filter {R : α → α → Prop} {p : α → Bool} {l : List α} (h : l.Pairwise R)
    (hp : ∀ a ∈ l, ∀ b ∈ l, R a b → p b = true → p a = true) : l.takeWhile p = l.filter p := by
  induction l with
  | nil => rfl
  | cons a l ih =>
    obtain ⟨ha, hl⟩ := List.pairwise_cons.mp h
    have ih' := ih hl fun x hx y hy => hp x (by simp [hx]) y (by simp [hy])
    by_cases hpa : p a
    · rw [List.takeWhile_cons_of_pos hpa, List.filter_cons_of_pos hpa, ih']
    · rw [List.takeWhile_cons_of_neg hpa, List.filter_cons_of_neg hpa]
      refine (List.filter_eq_nil_iff.mpr fun b hb hpb => hpa ?_).symm
      exact hp a (by simp) b (by simp [hb]) (ha b hb) hpb

lemma dropWhile_eq_filter {R : α → α → Prop} {p : α → Bool} {l : List α} (h : l.Pairwise R)
    (hp : ∀ a ∈ l, ∀ b ∈ l, R a b → p b = true → p a = true) :
    l.dropWhile p = l.filter (fun a => !p a) := by
  induction l with
  | nil => rfl
  | cons a l ih =>
    obtain ⟨ha, hl⟩ := List.pairwise_cons.mp h
    have ih' := ih hl fun x hx y hy => hp x (by simp [hx]) y (by simp [hy])
    by_cases hpa : p a
    · rw [List.dropWhile_cons_of_pos hpa, List.filter_cons_of_neg (by simp [hpa]), ih']
    · rw [List.dropWhile_cons_of_neg hpa]
      refine (List.filter_eq_self.mpr fun b hb => ?_).symm
      rcases List.mem_cons.mp hb with rfl | hb'
      · simpa using hpa
      · have : ¬ p b = true := fun hpb => hpa (hp a (by simp) b hb (ha b hb') hpb)
        simpa using this

lemma takeWhile_congr {p q : α → Bool} {l : List α} (h : ∀ a ∈ l, p a = q a) :
    l.takeWhile p = l.takeWhile q := by
  induction l with
  | nil => rfl
  | cons a l ih =>
    simp only [List.takeWhile_cons, h a (by simp), ih fun b hb => h b (by simp [hb])]

/-- Cutting at the first failure of `p` and then stepping over `q` cuts at the first
failure of `r`, when `r` is `p` or `q` and nothing behind the first cut has `p`. -/
lemma takeWhile_append_takeWhile {p q r : α → Bool} {l : List α}
    (hr : ∀ a ∈ l, r a = (p a || q a)) (hp : ∀ a ∈ l.dropWhile p, p a = false) :
    l.takeWhile p ++ (l.dropWhile p).takeWhile q = l.takeWhile r := by
  induction l with
  | nil => rfl
  | cons a l ih =>
    by_cases hpa : p a
    · have hra : r a = true := by simp [hr a (by simp), hpa]
      rw [List.takeWhile_cons_of_pos hpa, List.dropWhile_cons_of_pos hpa,
        List.takeWhile_cons_of_pos hra, List.cons_append,
        ih (fun b hb => hr b (by simp [hb])) (by rwa [List.dropWhile_cons_of_pos hpa] at hp)]
    · rw [List.takeWhile_cons_of_neg hpa, List.dropWhile_cons_of_neg hpa, List.nil_append]
      rw [List.dropWhile_cons_of_neg hpa] at hp
      exact takeWhile_congr fun b hb => by simp [hr b hb, hp b hb]

/-! ### Lookup -/

/-- **A member is found.** -/
lemma find_of_mem {x : α} {l : List α} (hirr : lt x x = false) (h : Sorted lt l) (hx : x ∈ l) :
    ∃ l₁ l₂, l = l₁ ++ x :: l₂ ∧ find lt x l = some l₁.length := by
  obtain ⟨l₁, l₂, rfl⟩ := List.append_of_mem hx
  have hpre : ∀ a ∈ l₁, lt a x = true := fun a ha =>
    (List.pairwise_append.mp h).2.2 a ha x (by simp)
  have htake : (l₁ ++ x :: l₂).takeWhile (lt · x) = l₁ := by
    rw [List.takeWhile_append_of_pos hpre, List.takeWhile_cons_of_neg (by simp [hirr]),
      List.append_nil]
  refine ⟨l₁, l₂, rfl, ?_⟩
  simp [find, lowerBound, htake, hirr]

/-- An element comparable with every member is not found. -/
lemma find_eq_none {x : α} {l : List α} (hcmp : ∀ y ∈ l, lt x y = true ∨ lt y x = true) :
    find lt x l = none := by
  unfold find
  rcases hy : l[lowerBound (lt · x) l]? with _ | y
  · rfl
  · have hdrop : (l.dropWhile (lt · x)).head? = some y := by
      rw [← drop_lowerBound, List.head?_drop, hy]
    have hmem : y ∈ l := List.mem_of_getElem? hy
    have hnot : ¬ lt y x = true := by
      intro hlt
      have := List.head?_dropWhile_not (lt · x) l
      rw [hdrop] at this
      simp [hlt] at this
    simp [(hcmp y hmem).resolve_right hnot]

/-! ### Insertion -/

lemma insert_fst {x : α} {l : List α} (hcmp : ∀ y ∈ l, lt x y = true ∨ lt y x = true) :
    (insert lt x l).1 = l.takeWhile (lt · x) ++ x :: l.dropWhile (lt · x) := by
  simp [insert, find_eq_none hcmp]

lemma insert_perm {x : α} {l : List α} (hcmp : ∀ y ∈ l, lt x y = true ∨ lt y x = true) :
    ((insert lt x l).1).Perm (x :: l) := by
  rw [insert_fst hcmp]
  refine List.perm_middle.trans (List.Perm.cons x ?_)
  rw [List.takeWhile_append_dropWhile]

lemma mem_insert {x y : α} {l : List α} (hcmp : ∀ z ∈ l, lt x z = true ∨ lt z x = true) :
    y ∈ (insert lt x l).1 ↔ y = x ∨ y ∈ l := by
  rw [(insert_perm hcmp).mem_iff, List.mem_cons]

/-- An element before all others is inserted at the front. -/
lemma insert_front {x : α} {l : List α} (h : ∀ y ∈ l, lt x y = true)
    (h' : ∀ y ∈ l, lt y x = false) : (insert lt x l).2 = 0 := by
  have hnone : find lt x l = none := find_eq_none fun y hy => .inl (h y hy)
  rw [insert, hnone]
  cases l with
  | nil => rfl
  | cons y l => simp [lowerBound, h' y (by simp)]

/-- What is not found goes before the first element that is not before it. -/
lemma lt_of_find_eq_none {x z : α} {l rest : List α} (h : find lt x l = none)
    (hd : l.dropWhile (lt · x) = z :: rest) : lt x z = true := by
  have hz : l[lowerBound (lt · x) l]? = some z := by
    rw [← List.head?_drop, drop_lowerBound, hd]
    rfl
  simpa [find, hz] using h

/-- **Insertion keeps the order.** -/
lemma insert_sorted {x : α} {l : List α}
    (htrans : ∀ a b c, lt a b = true → lt b c = true → lt a c = true) (h : Sorted lt l) :
    Sorted lt (insert lt x l).1 := by
  unfold insert
  split
  · exact h
  · rename_i hfind
    have hpre : ∀ a ∈ l.takeWhile (lt · x), lt a x = true := fun a ha =>
      List.mem_takeWhile_imp (p := (lt · x)) ha
    have hpost : ∀ b ∈ l.dropWhile (lt · x), lt x b = true := by
      intro b hb
      rcases hd : l.dropWhile (lt · x) with _ | ⟨z, rest⟩
      · rw [hd] at hb
        cases hb
      · have hxz := lt_of_find_eq_none hfind hd
        have hsub : (z :: rest).Pairwise fun a b => lt a b = true := by
          rw [← hd]
          exact h.sublist (List.dropWhile_sublist _)
        rw [hd] at hb
        rcases List.mem_cons.mp hb with rfl | hb'
        · exact hxz
        · exact htrans x z b hxz ((List.pairwise_cons.mp hsub).1 b hb')
    refine List.pairwise_append.mpr ⟨h.sublist (List.takeWhile_sublist _), ?_, ?_⟩
    · exact List.pairwise_cons.mpr ⟨hpost, h.sublist (List.dropWhile_sublist _)⟩
    · intro a ha b hb
      rcases List.mem_cons.mp hb with rfl | hb'
      · exact hpre a ha
      · exact htrans a x b (hpre a ha) (hpost b hb')

lemma insert_last {x : α} {l : List α} (h : ∀ y ∈ l, lt y x = true) :
    (insert lt x l).1 = l ++ [x] := by
  have htake : l.takeWhile (lt · x) = l := List.takeWhile_eq_self_iff.mpr h
  have hdrop : l.dropWhile (lt · x) = [] := List.dropWhile_eq_nil_iff.mpr h
  simp [insert, find, lowerBound, htake, hdrop]

/-- The order only depends on the comparison between members. -/
lemma Sorted.congr {lt' : α → α → Bool} {l : List α} (h : Sorted lt l)
    (heq : ∀ a ∈ l, ∀ b ∈ l, lt' a b = lt a b) : Sorted lt' l :=
  List.Pairwise.imp_of_mem (fun ha hb hab => by rw [heq _ ha _ hb]; exact hab) h

lemma Sorted.nodup {l : List α} (hirr : ∀ a, lt a a = false) (h : Sorted lt l) : l.Nodup :=
  List.Pairwise.imp (fun {a b} hab heq => by subst heq; simp [hirr] at hab) h

end Lib.OrdSet
