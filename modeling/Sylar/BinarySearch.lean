import Mathlib.Algebra.Order.Ring.Int
import Mathlib.Algebra.Ring.Int.Defs
import Sylar.Lib.Bisect
import Sylar.Lib.Cut

/-!
`BinarySearch`.

What the second comparison reads is `arr[mid < v]`: the element at 1 or at 0, taken for a truth
value. A read outside of the array and an `int` that overflows have no value.
-/

namespace Sylar.BinarySearch

open Lib.Bisect Lib.Cut

variable {T : Type} [LinearOrder T]

/-- What the language makes of an `int` beside a `T`, and of a `T` as a condition. -/
structure Conv (T : Type) where
  /-- `mid < v`. -/
  below : ℤ → T → Bool
  truthy : T → Bool
  /-- The conversion of `mid` keeps the order. -/
  below_of_le : ∀ {i j : ℤ} {v : T}, i ≤ j → below j v = true → below i v = true

abbrev Fits (x : ℤ) : Prop := -2 ^ 31 ≤ x ∧ x < 2 ^ 31

def read (arr : List T) (i : ℤ) : Option T := if 0 ≤ i then arr[i.toNat]? else none

variable (c : Conv T) (arr : List T) (v : T)

/-- `arr[mid < v]`. -/
def misread (mid : ℤ) : Option T := read arr (if c.below mid v then 1 else 0)

lemma tdiv_two {left right : ℤ} (h : left ≤ right) :
    left ≤ (left + right).tdiv 2 ∧ (left + right).tdiv 2 ≤ right := by
  have hsign : (2 : ℤ).sign = 1 := rfl
  rw [Int.tdiv_eq_ediv, hsign]
  split <;> omega

def loop (left right : ℤ) : Option ℤ :=
  if left ≤ right then
    if Fits (left + right) then
      let mid := (left + right).tdiv 2
      match read arr mid with
      | none => none
      | some a =>
        if v < a then loop left (mid - 1)
        else
          match misread c arr v mid with
          | none => none
          | some b => if c.truthy b then loop (mid + 1) right else some mid
    else none
  else if Fits (left + 1) then some (-(left + 1))
  else none
termination_by (right + 1 - left).toNat
decreasing_by
  all_goals
    have := tdiv_two ‹left ≤ right›
    omega

def binarySearch : Option ℤ := loop c arr v 0 (arr.length - 1)

/-- What is asked of a binary search: a place of `v` if there is one, and else the number of the
elements below `v`, as `-(k + 1)`. -/
def Found (r : Option ℤ) : Prop :=
  ∃ i, r = some i ∧ (v ∈ arr → 0 ≤ i ∧ read arr i = some v) ∧
    (v ∉ arr → i = -((arr.countP fun x => decide (x < v) : ℕ) + 1))

/-- An array in ascending order whose length is an `int`. -/
structure SortedArray (T : Type) [LinearOrder T] where
  arr : List T
  sorted : arr.Pairwise (· ≤ ·)
  length_lt : arr.length < 2 ^ 31

/-! ### When the stray read does no harm -/

/-- The number of the elements up to `v`: the place behind the last of them. -/
def upper : ℕ := arr.countP fun x => decide (x ≤ v)

/-- The place of the first element that is not below `v`. -/
def lower : ℕ := arr.countP fun x => decide (x < v)

/-- `i` is the least deep of the places before `u` in the balanced tree over the array. -/
abbrev TopBelow (i : ℕ) : Prop := Top 0 arr.length (· < upper arr v) i

/-- `i` is the least deep of the places before `u` that are not below `v` as numbers. -/
abbrev TopAbove (i : ℕ) : Prop :=
  Top 0 arr.length (fun j => j < upper arr v ∧ c.below j v = false) i

/-- The places from `i` on do not lead the bisection to where `left + right` overflows. -/
def Room (i : ℕ) : Prop :=
  arr.length ≤ 2 ^ 30 ∨ ∃ j < 2 ^ 30, Top 0 arr.length (fun x => i ≤ x ∧ x < arr.length) j

def SecondTruthy : Prop := ∃ b, arr[1]? = some b ∧ c.truthy b = true

/-- Where `BinarySearch` works: every element is above `v`; or `v` is absent and the elements that
are read in the place of the comparison are not zero; or it is element 1 that is read first, it is
zero, and `v` is at the place that is reached then; or it is element 0 that stops the search, and
`v` is at the place of that. -/
inductive Cond : Prop
  | allAbove (h : ∀ x ∈ arr, v < x)
  | absent (hv : v ∉ arr)
      (hsecond : ∀ i, TopBelow arr v i → c.below i v = true → SecondTruthy c arr)
      (hfirst : c.below (upper arr v - 1) v = false → ∃ b, arr[0]? = some b ∧ c.truthy b = true)
      (hroom : Room arr (upper arr v))
  | second (i : ℕ) (hi : TopBelow arr v i) (hbelow : c.below i v = true) (b : T)
      (hb : arr[1]? = some b) (hzero : c.truthy b = false) (hplace : lower arr v ≤ i)
  | first (i : ℕ) (hi : TopAbove c arr v i) (b : T) (hb : arr[0]? = some b)
      (hzero : c.truthy b = false)
      (hsecond : ∀ j, TopBelow arr v j → c.below j v = true → SecondTruthy c arr)
      (hplace : lower arr v ≤ i) (hroom : Room arr i)

/-! ### The loop -/

/-- The search stops at a place: it should turn to the right there, and reads a zero element. -/
def Stops (m : ℕ) : Prop := m < upper arr v ∧ (misread c arr v m).map c.truthy = some false

instance : DecidablePred (Stops c arr v) := fun _ => inferInstanceAs (Decidable (_ ∧ _))

/-- What the search answers, read off the places that the bisection passes. -/
def verdict : List ℕ → Option ℤ
  | [] => some (-(upper arr v + 1))
  | m :: ms =>
    if m < 2 ^ 30 then
      if m < upper arr v then
        match misread c arr v m with
        | none => none
        | some b => if c.truthy b then verdict ms else some m
      else verdict ms
    else none

variable {c arr v}

omit [LinearOrder T] in
lemma read_natCast (arr : List T) (i : ℕ) : read arr i = arr[i]? := by
  rw [read, if_pos (by omega), Int.toNat_natCast]

/-- In the range that is left the comparison tells on which side the place lies. -/
lemma lt_iff_upper_le (a : SortedArray T) {m : ℕ} {x : T} (hx : a.arr[m]? = some x) :
    v < x ↔ upper a.arr v ≤ m := by
  rw [← not_le, le_iff_lt_countP a.sorted v hx, upper, not_lt]

lemma upper_le_length (arr : List T) (v : T) : upper arr v ≤ arr.length := List.countP_le_length

/-- The middle of `left` and `right`, one of which is the place before `r`. -/
lemma tdiv_eq_mid {l r : ℕ} (h : l < r) : ((l : ℤ) + (r - 1)).tdiv 2 = mid l r := by
  rw [Int.tdiv_eq_ediv_of_nonneg (by omega)]
  unfold mid
  omega

/-- **The loop bisects towards the place behind the last element up to `v`.** -/
lemma loop_eq (a : SortedArray T) {l r : ℕ} (hr : r ≤ a.arr.length) (hlu : l ≤ upper a.arr v)
    (hur : upper a.arr v ≤ r) (hsmall : l ≤ 2 ^ 30) :
    loop c a.arr v l (r - 1) = verdict c a.arr v (path l r (upper a.arr v)) := by
  have hlen := a.length_lt
  induction hn : r - l using Nat.strongRecOn generalizing l r with
  | ind n ih =>
    rw [loop, path]
    by_cases hle : l < r
    · have hlo := le_mid hle
      have hhi := mid_lt hle
      have hsum : Fits ((l : ℤ) + (r - 1)) ↔ mid l r < 2 ^ 30 := by
        unfold mid Fits
        omega
      have hget : a.arr[mid l r]? = some a.arr[mid l r] := List.getElem?_eq_getElem _
      have hside := lt_iff_upper_le (v := v) a hget
      rw [if_pos (by omega), if_pos hle, verdict]
      by_cases hfits : mid l r < 2 ^ 30
      · rw [if_pos (hsum.2 hfits), if_pos hfits]
        simp only [tdiv_eq_mid hle, read_natCast, hget]
        by_cases hv : upper a.arr v ≤ mid l r
        · rw [if_pos (hside.2 hv), if_neg (not_lt.2 hv), if_pos hv]
          exact ih _ (by omega) (by omega) hlu hv hsmall rfl
        · have hrest := ih (r - (mid l r + 1)) (by omega) (l := mid l r + 1) hr (by omega) hur
            (by omega) rfl
          rw [Nat.cast_add_one] at hrest
          rw [if_neg (fun h => hv (hside.1 h)), if_pos (not_le.1 hv), if_neg hv, hrest]
      · rw [if_neg fun hf => hfits (hsum.1 hf), if_neg hfits]
    · -- nothing is left, and the place is at `l`
      have hu : upper a.arr v = l := by omega
      have hfits : Fits ((l : ℤ) + 1) := by
        unfold Fits
        omega
      rw [if_neg (by omega), if_neg hle, if_pos hfits, verdict, hu]

/-! ### The answer, read off the path -/

/-- Up to the first place where the search stops, no sum overflows and the element in the place of
the comparison exists; `v` is at that place, and nowhere if there is none. -/
structure OnPath (c : Conv T) (arr : List T) (v : T) (ms : List ℕ) : Prop where
  reads : ∀ m ∈ upTo (Stops c arr v) ms,
    m < 2 ^ 30 ∧ (m < upper arr v → misread c arr v m ≠ none)
  stop : ∀ m, ms.find? (Stops c arr v) = some m → lower arr v ≤ m
  none : ms.find? (Stops c arr v) = none → v ∉ arr

lemma onPath_cons_iff {m : ℕ} {ms : List ℕ} (hm : ¬Stops c arr v m)
    (hread : m < 2 ^ 30 ∧ (m < upper arr v → misread c arr v m ≠ none)) :
    OnPath c arr v (m :: ms) ↔ OnPath c arr v ms := by
  have hfind : (m :: ms).find? (Stops c arr v) = ms.find? (Stops c arr v) :=
    List.find?_cons_of_neg (by simpa using hm)
  have hup : upTo (Stops c arr v) (m :: ms) = m :: upTo (Stops c arr v) ms := upTo_cons_of_neg hm ms
  constructor
  · intro h
    refine ⟨fun t ht => h.reads t ?_, fun t ht => h.stop t (hfind.trans ht), fun hn => ?_⟩
    · rw [hup]
      exact List.mem_cons_of_mem _ ht
    · exact h.none (hfind.trans hn)
  · intro h
    refine ⟨fun t ht => ?_, fun t ht => h.stop t (hfind.symm.trans ht), fun hn => ?_⟩
    · rw [hup] at ht
      rcases List.mem_cons.1 ht with rfl | ht
      · exact hread
      · exact h.reads t ht
    · exact h.none (hfind.symm.trans hn)

lemma found_some_iff (a : SortedArray T) {m : ℕ} (hm : m < upper a.arr v) :
    Found a.arr v (some (m : ℤ)) ↔ lower a.arr v ≤ m := by
  have hlt : m < a.arr.length := hm.trans_le (upper_le_length a.arr v)
  have hget : a.arr[m]? = some a.arr[m] := List.getElem?_eq_getElem hlt
  have hle : a.arr[m] ≤ v := (le_iff_lt_countP a.sorted v hget).2 hm
  have hplace : a.arr[m] = v ↔ lower a.arr v ≤ m := by
    rw [← not_lt, lower, ← lt_iff_lt_countP a.sorted v hget]
    exact ⟨fun h => not_lt.2 h.ge, fun h => le_antisymm hle (not_lt.1 h)⟩
  rw [← hplace]
  constructor
  · rintro ⟨i, hi, hin, hout⟩
    obtain rfl : (m : ℤ) = i := by simpa using hi
    by_cases hv : v ∈ a.arr
    · simpa [read_natCast, hget] using (hin hv).2
    · have := hout hv
      omega
  · intro hread
    refine ⟨m, rfl, fun _ => ⟨by omega, by rw [read_natCast, hget, hread]⟩, fun hv => absurd ?_ hv⟩
    exact hread ▸ List.getElem_mem hlt

lemma not_found_none : ¬Found arr v none := by
  rintro ⟨i, hi, -⟩
  simp at hi

lemma found_verdict_iff (a : SortedArray T) (ms : List ℕ) :
    Found a.arr v (verdict c a.arr v ms) ↔ OnPath c a.arr v ms := by
  induction ms with
  | nil =>
    rw [verdict]
    constructor
    · rintro ⟨i, hi, hin, -⟩
      refine ⟨by simp, by simp, fun _ hv => ?_⟩
      obtain rfl : -((upper a.arr v : ℤ) + 1) = i := by simpa using hi
      have := (hin hv).1
      omega
    · intro h
      have hv := h.none rfl
      refine ⟨_, rfl, fun hmem => absurd hmem hv, fun _ => ?_⟩
      rw [upper, countP_le_eq_countP_lt hv]
  | cons m ms ih =>
    have hhead := mem_upTo_cons_self (p := Stops c a.arr v) m ms
    rw [verdict]
    by_cases hsum : m < 2 ^ 30
    · rw [if_pos hsum]
      by_cases hright : m < upper a.arr v
      · rw [if_pos hright]
        cases hmis : misread c a.arr v m with
        | none =>
          refine iff_of_false not_found_none fun h => ?_
          exact (h.reads m hhead).2 hright hmis
        | some b =>
          simp only
          cases hb : c.truthy b with
          | true =>
            have hs : ¬Stops c a.arr v m := by
              rintro ⟨-, hstop⟩
              simp [hmis, hb] at hstop
            rw [if_pos rfl, ih, onPath_cons_iff hs ⟨hsum, fun _ => by simp [hmis]⟩]
          | false =>
            have hs : Stops c a.arr v m := ⟨hright, by simp [hmis, hb]⟩
            have hfind : (m :: ms).find? (Stops c a.arr v) = some m :=
              List.find?_cons_of_pos (by simpa using hs)
            rw [if_neg (by simp), found_some_iff a hright]
            constructor
            · intro hplace
              refine ⟨fun t ht => ?_, fun t ht => ?_, fun hn => ?_⟩
              · rw [upTo_cons_of_pos hs, List.mem_singleton] at ht
                rw [ht]
                exact ⟨hsum, fun _ => by simp [hmis]⟩
              · obtain rfl : m = t := by simpa [hfind] using ht
                exact hplace
              · simp [hfind] at hn
            · exact fun h => h.stop m hfind
      · have hs : ¬Stops c a.arr v m := fun h => hright h.1
        rw [if_neg hright, ih, onPath_cons_iff hs ⟨hsum, fun h => absurd h hright⟩]
    · rw [if_neg hsum]
      exact iff_of_false not_found_none fun h => hsum (h.reads m hhead).1

/-! ### The path, read off the tree -/

lemma forall_path_lt_iff (arr : List T) (v : T) :
    (∀ m ∈ path 0 arr.length (upper arr v), m < 2 ^ 30) ↔ Room arr (upper arr v) := by
  have hbound : ∀ m ∈ path 0 arr.length (upper arr v), m < arr.length :=
    fun m hm => (mem_path_bounds hm).2
  rcases Nat.lt_or_ge (upper arr v) arr.length with hlt | hge
  · obtain ⟨t, htop, hmem, hmax⟩ := top_of_path (l := 0) (Nat.zero_le _) hlt
    constructor
    · exact fun h => .inr ⟨t, h t hmem, htop⟩
    · rintro (hn | ⟨j, hj, hjt⟩) m hm
      · exact (hbound m hm).trans_le hn
      · exact (hmax m hm).trans_lt (hjt.unique htop ▸ hj)
  · have hle := upper_le_length arr v
    constructor
    · intro h
      refine .inl ?_
      rcases Nat.eq_zero_or_pos (upper arr v) with hz | hpos
      · omega
      · have := h _ (pred_mem_path hpos hle)
        omega
    · rintro (hn | ⟨j, hj, ⟨hjt, -⟩⟩) m hm
      · exact (hbound m hm).trans_le hn
      · omega

lemma forall_prefix_lt_iff {i : ℕ} {as bs : List ℕ}
    (heq : path 0 arr.length (upper arr v) = as ++ i :: bs) (hi : i < upper arr v) :
    (∀ m ∈ as ++ [i], m < 2 ^ 30) ↔ Room arr i := by
  obtain ⟨t, htop, hmem, hmax⟩ := top_of_prefix heq hi (upper_le_length arr v)
  constructor
  · exact fun h => .inr ⟨t, h t hmem, htop⟩
  · rintro (hn | ⟨j, hj, hjt⟩) m hm
    · have hlt : t < arr.length := htop.1.2
      have := hmax m hm
      omega
    · exact (hmax m hm).trans_lt (hjt.unique htop ▸ hj)

section OnPath

variable (hex : ∀ m ∈ path 0 arr.length (upper arr v), m < upper arr v → misread c arr v m ≠ none)
include hex

lemma onPath_of_no_stop (hno : ∀ m ∈ path 0 arr.length (upper arr v), ¬Stops c arr v m) :
    OnPath c arr v (path 0 arr.length (upper arr v)) ↔ v ∉ arr ∧ Room arr (upper arr v) := by
  have hfind : (path 0 arr.length (upper arr v)).find? (Stops c arr v) = none :=
    List.find?_eq_none.2 fun m hm => by simpa using hno m hm
  rw [← forall_path_lt_iff]
  constructor
  · intro h
    refine ⟨h.none hfind, fun m hm => (h.reads m ?_).1⟩
    rwa [upTo_of_find_none hfind]
  · rintro ⟨hv, hlt⟩
    refine ⟨fun m hm => ?_, fun m hm => ?_, fun _ => hv⟩
    · rw [upTo_of_find_none hfind] at hm
      exact ⟨hlt m hm, hex m hm⟩
    · simp [hfind] at hm

lemma onPath_of_stop {i : ℕ}
    (hfind : (path 0 arr.length (upper arr v)).find? (Stops c arr v) = some i) :
    OnPath c arr v (path 0 arr.length (upper arr v)) ↔ lower arr v ≤ i ∧ Room arr i := by
  obtain ⟨as, bs, heq, hup⟩ := upTo_of_find_some hfind
  have hi : Stops c arr v i := by simpa using List.find?_some hfind
  rw [← forall_prefix_lt_iff heq hi.1]
  constructor
  · intro h
    exact ⟨h.stop i hfind, fun m hm => (h.reads m (hup ▸ hm)).1⟩
  · rintro ⟨hplace, hlt⟩
    refine ⟨fun m hm => ⟨hlt m (hup ▸ hm), hex m ?_⟩, fun m hm => ?_, fun hn => ?_⟩
    · rw [heq, List.mem_append, List.mem_cons]
      rw [hup, List.mem_append, List.mem_singleton] at hm
      exact hm.imp_right .inl
    · exact Option.some.inj (hfind.symm.trans hm) ▸ hplace
    · simp [hfind] at hn

end OnPath

/-! ### What is read in the place of the comparison -/

omit [LinearOrder T] in
lemma misread_of_below {m : ℕ} (h : c.below m v = true) : misread c arr v m = arr[1]? := by
  rw [misread, if_pos h]
  exact read_natCast arr 1

omit [LinearOrder T] in
lemma misread_of_not_below {m : ℕ} (h : c.below m v = false) : misread c arr v m = arr[0]? := by
  rw [misread, if_neg (by simp [h])]
  exact read_natCast arr 0

lemma upper_pos_iff : 0 < upper arr v ↔ ∃ x ∈ arr, x ≤ v := by
  rw [upper, List.countP_pos_iff]
  simp

lemma around_below (u : ℕ) : Around u (· < u) := fun i j hi hij => by omega

omit [LinearOrder T] in
/-- The places that are not below `v` as numbers follow on those that are. -/
lemma around_above (c : Conv T) (v : T) (u : ℕ) :
    Around u fun j => j < u ∧ c.below j v = false := by
  rintro i j ⟨hiu, hi⟩ (⟨hij, hju⟩ | ⟨huj, hji⟩)
  · refine ⟨hju, ?_⟩
    by_contra hj
    have := c.below_of_le (i := i) (j := j) (by omega) (by simpa using hj)
    simp [hi] at this
  · omega

section First

variable (hpos : 0 < upper arr v)
include hpos

lemma exists_topBelow : ∃ i, TopBelow arr v i ∧
    (path 0 arr.length (upper arr v)).find? (· < upper arr v) = some i := by
  have hle := upper_le_length arr v
  obtain ⟨i, hf, htop⟩ := exists_first (l := 0) (r := arr.length) (around_below (upper arr v))
    (fun i hi => by omega) ⟨0, hpos⟩
  exact ⟨i, htop, hf⟩

omit hpos in
/-- The first turn to the right comes before any overflow. -/
lemma room_of_first {i : ℕ} (hn : arr.length < 2 ^ 31)
    (hf : (path 0 arr.length (upper arr v)).find? (· < upper arr v) = some i) : Room arr i := by
  have hmem := List.mem_of_find?_eq_some hf
  have hiu : i < upper arr v := by simpa using List.find?_some hf
  have hlt : 0 < arr.length := (Nat.zero_le i).trans_lt (mem_path_bounds hmem).2
  have hhead : mid 0 arr.length ∈ path 0 arr.length (upper arr v) := by
    rw [path, if_pos hlt]
    exact List.mem_cons_self
  have hle : i ≤ mid 0 arr.length := by
    by_contra hgt
    exact hgt (first_le hf hhead (by omega))
  refine .inr ⟨mid 0 arr.length, ?_, top_mid hlt ⟨hle, mid_lt hlt⟩⟩
  unfold mid
  omega

omit hpos in
lemma not_allAbove (hpos : 0 < upper arr v) : ¬∀ x ∈ arr, v < x := fun h => by
  obtain ⟨x, hx, hxv⟩ := upper_pos_iff.1 hpos
  exact absurd (h x hx) (not_lt.2 hxv)

variable {i : ℕ} (htop : TopBelow arr v i)
  (hf : (path 0 arr.length (upper arr v)).find? (· < upper arr v) = some i)
include htop hf

/-- Where element 1 is read at the first turn to the right, and is zero or missing, the search
ends there. -/
lemma onPath_of_second (hn : arr.length < 2 ^ 31) (hib : c.below i v = true)
    (hno : ¬SecondTruthy c arr) :
    OnPath c arr v (path 0 arr.length (upper arr v)) ↔ Cond c arr v := by
  have hnot := not_allAbove hpos
  cases hb₁ : arr[1]? with
  | none =>
    refine iff_of_false (fun h => ?_) ?_
    · have hread := h.reads i (mem_upTo_of_find (fun m (hm : Stops c arr v m) => hm.1) hf)
      exact hread.2 htop.1 ((misread_of_below hib).trans hb₁)
    · rintro (h | ⟨-, h, -, -⟩ | ⟨j, -, -, b, hb, -⟩ | ⟨j, -, b, -, -, h, -⟩)
      · exact hnot h
      · exact hno (h i htop hib)
      · simp [hb₁] at hb
      · exact hno (h i htop hib)
  | some b =>
    have hzero : c.truthy b = false := by
      by_contra hb
      exact hno ⟨b, hb₁, by simpa using hb⟩
    have hstops : Stops c arr v i := ⟨htop.1, by simp [misread_of_below hib, hb₁, hzero]⟩
    have hfind : (path 0 arr.length (upper arr v)).find? (Stops c arr v) = some i :=
      find?_of_imp (fun m _ (hm : Stops c arr v m) => hm.1) hf hstops
    have hle := upper_le_length arr v
    have hex : ∀ m ∈ path 0 arr.length (upper arr v), m < upper arr v →
        misread c arr v m ≠ none := fun m _ _ => by
      cases hmb : c.below m v with
      | true => simp [misread_of_below hmb, hb₁]
      | false =>
        rw [misread_of_not_below hmb, List.getElem?_eq_getElem (by omega)]
        simp
    rw [onPath_of_stop hex hfind, and_iff_left (room_of_first hn hf)]
    constructor
    · exact fun hplace => .second i htop hib b hb₁ hzero hplace
    · rintro (h | ⟨-, h, -, -⟩ | ⟨j, hj, -, -, -, -, hplace⟩ | ⟨j, -, b, -, -, h, -⟩)
      · exact absurd h hnot
      · exact absurd (h i htop hib) hno
      · exact hj.unique htop ▸ hplace
      · exact absurd (h i htop hib) hno

omit hpos htop in
/-- A place on the way that is below `v` shows that the first turn to the right is. -/
lemma below_first {m : ℕ} (hm : m ∈ path 0 arr.length (upper arr v)) (hmu : m < upper arr v)
    (hmb : c.below m v = true) : c.below i v = true :=
  c.below_of_le (by exact_mod_cast first_le hf hm hmu) hmb

variable (htruthy : c.below i v = true → SecondTruthy c arr) {b₀ : T} (hb₀ : arr[0]? = some b₀)
include htruthy hb₀

omit hpos htop in
lemma misread_ne_none {m : ℕ} (hm : m ∈ path 0 arr.length (upper arr v)) (hmu : m < upper arr v) :
    misread c arr v m ≠ none := by
  cases hmb : c.below m v with
  | true =>
    obtain ⟨b, hb, -⟩ := htruthy (below_first hf hm hmu hmb)
    simp [misread_of_below hmb, hb]
  | false => simp [misread_of_not_below hmb, hb₀]

omit hpos htop in
/-- The search stops where element 0 is read and is zero. -/
lemma stops_iff {m : ℕ} (hm : m ∈ path 0 arr.length (upper arr v)) : Stops c arr v m ↔
    (m < upper arr v ∧ c.below m v = false) ∧ c.truthy b₀ = false := by
  unfold Stops
  rw [and_assoc]
  refine and_congr_right fun hmu => ?_
  cases hmb : c.below m v with
  | true =>
    obtain ⟨b, hb, hbt⟩ := htruthy (below_first hf hm hmu hmb)
    simp [misread_of_below hmb, hb, hbt]
  | false => simp [misread_of_not_below hmb, hb₀]

omit hf hb₀ hpos in
lemma secondTruthy_of_top (j : ℕ) (hj : TopBelow arr v j) (hjb : c.below j v = true) :
    SecondTruthy c arr :=
  htruthy (hj.unique htop ▸ hjb)

lemma onPath_of_quiet (hquiet : c.truthy b₀ = true ∨ c.below (upper arr v - 1) v = true) :
    OnPath c arr v (path 0 arr.length (upper arr v)) ↔ Cond c arr v := by
  have hno : ∀ m ∈ path 0 arr.length (upper arr v), ¬Stops c arr v m := by
    intro m hm hs
    obtain ⟨⟨hmu, hmb⟩, hzero⟩ := (stops_iff hf htruthy hb₀ hm).1 hs
    rcases hquiet with ht | hlast
    · simp [ht] at hzero
    · rw [c.below_of_le (by omega) hlast] at hmb
      cases hmb
  rw [onPath_of_no_stop (fun m hm hmu => misread_ne_none hf htruthy hb₀ hm hmu) hno]
  constructor
  · rintro ⟨hv, hroom⟩
    refine .absent hv (secondTruthy_of_top htop htruthy) (fun hlast => ⟨b₀, hb₀, ?_⟩) hroom
    exact hquiet.resolve_right (by simp [hlast])
  · rintro (h | ⟨hv, -, -, hroom⟩ | ⟨j, hj, hjb, b, hb, hzero, -⟩ |
      ⟨j, ⟨⟨hju, hjb⟩, -⟩, b, hb, hzero, -, -, -⟩)
    · exact absurd h (not_allAbove hpos)
    · exact ⟨hv, hroom⟩
    · obtain ⟨b', hb', ht⟩ := secondTruthy_of_top htop htruthy j hj hjb
      cases hb.symm.trans hb'
      simp [ht] at hzero
    · obtain rfl := Option.some.inj (hb₀.symm.trans hb)
      rcases hquiet with ht | hlast
      · simp [ht] at hzero
      · rw [c.below_of_le (by omega) hlast] at hjb
        cases hjb

/-- Where element 0 is zero and read, it stops the search. -/
lemma onPath_of_first (hzero : c.truthy b₀ = false)
    (hlast : c.below (upper arr v - 1) v = false) :
    OnPath c arr v (path 0 arr.length (upper arr v)) ↔ Cond c arr v := by
  have hle := upper_le_length arr v
  have hcast : ((upper arr v - 1 : ℕ) : ℤ) = upper arr v - 1 := by omega
  obtain ⟨k, hfk, hk⟩ := exists_first (l := 0) (r := arr.length)
    (around_above c v (upper arr v)) (fun i hi => by omega)
    ⟨upper arr v - 1, by omega, by rwa [hcast]⟩
  have hfind : (path 0 arr.length (upper arr v)).find? (Stops c arr v) = some k :=
    find?_of_imp (fun m hm hs => ((stops_iff hf htruthy hb₀ hm).1 hs).1) hfk
      ((stops_iff hf htruthy hb₀ (List.mem_of_find?_eq_some hfk)).2 ⟨hk.1, hzero⟩)
  rw [onPath_of_stop (fun m hm hmu => misread_ne_none hf htruthy hb₀ hm hmu) hfind]
  constructor
  · rintro ⟨hplace, hroom⟩
    exact .first k hk b₀ hb₀ hzero (secondTruthy_of_top htop htruthy) hplace hroom
  · rintro (h | ⟨-, -, h, -⟩ | ⟨j, hj, hjb, b, hb, hzero', -⟩ |
      ⟨j, hj, -, -, -, -, hplace, hroom⟩)
    · exact absurd h (not_allAbove hpos)
    · obtain ⟨b, hb, ht⟩ := h hlast
      obtain rfl := Option.some.inj (hb₀.symm.trans hb)
      simp [ht] at hzero
    · obtain ⟨b', hb', ht⟩ := secondTruthy_of_top htop htruthy j hj hjb
      cases hb.symm.trans hb'
      simp [ht] at hzero'
    · obtain rfl := hj.unique hk
      exact ⟨hplace, hroom⟩

end First

/-- **The search goes well along the path exactly where the condition holds.** -/
lemma onPath_iff_cond (hn : arr.length < 2 ^ 31) (hpos : 0 < upper arr v) :
    OnPath c arr v (path 0 arr.length (upper arr v)) ↔ Cond c arr v := by
  obtain ⟨i, htop, hf⟩ := exists_topBelow hpos
  have hle := upper_le_length arr v
  obtain ⟨b₀, hb₀⟩ : ∃ b, arr[0]? = some b := ⟨_, List.getElem?_eq_getElem (by omega)⟩
  by_cases hbad : c.below i v = true ∧ ¬SecondTruthy c arr
  · exact onPath_of_second hpos htop hf hn hbad.1 hbad.2
  · have htruthy (hib : c.below i v = true) : SecondTruthy c arr := by
      by_contra hno
      exact hbad ⟨hib, hno⟩
    by_cases hquiet : c.truthy b₀ = true ∨ c.below (upper arr v - 1) v = true
    · exact onPath_of_quiet hpos htop hf htruthy hb₀ hquiet
    · obtain ⟨hzero, hlast⟩ := not_or.1 hquiet
      exact onPath_of_first hpos htop hf htruthy hb₀ (by simpa using hzero) (by simpa using hlast)

/-- Below all elements the search only turns to the left. -/
lemma onPath_of_upper_eq_zero (hn : arr.length < 2 ^ 31) (hu : upper arr v = 0) :
    OnPath c arr v (path 0 arr.length (upper arr v)) := by
  have hv : v ∉ arr := fun hv => by
    have := upper_pos_iff.2 ⟨v, hv, le_rfl⟩
    omega
  refine (onPath_of_no_stop (fun m _ hm => by omega) fun m _ hs => ?_).2 ⟨hv, ?_⟩
  · have := hs.1
    omega
  · rw [hu]
    rcases Nat.eq_zero_or_pos arr.length with hz | hlt
    · exact .inl (by omega)
    · refine .inr ⟨mid 0 arr.length, ?_, top_mid hlt ⟨Nat.zero_le _, mid_lt hlt⟩⟩
      unfold mid
      omega

/-- **`BinarySearch` finds what it should exactly where its stray read does no harm.** -/
theorem found_iff (c : Conv T) (a : SortedArray T) (v : T) :
    Found a.arr v (binarySearch c a.arr v) ↔ Cond c a.arr v := by
  have hloop := loop_eq (c := c) (v := v) a le_rfl (Nat.zero_le _) (upper_le_length a.arr v)
    (Nat.zero_le _)
  rw [binarySearch, ← Nat.cast_zero, hloop, found_verdict_iff]
  rcases Nat.eq_zero_or_pos (upper a.arr v) with hu | hpos
  · refine iff_of_true (onPath_of_upper_eq_zero a.length_lt hu) (.allAbove fun x hx => ?_)
    by_contra hxv
    have := upper_pos_iff.2 ⟨x, hx, not_lt.1 hxv⟩
    omega
  · exact onPath_iff_cond a.length_lt hpos

def ints : Conv ℤ where
  below mid v := mid < v
  truthy x := x ≠ 0
  below_of_le hij hj := by simpa using hij.trans_lt (by simpa using hj)

/-- The first of three numbers is not found. -/
theorem first_of_three : ¬Found [1, 2, 3] 1 (binarySearch ints [1, 2, 3] 1) := by
  have hrun : binarySearch ints [1, 2, 3] 1 = some (-2) := by
    simp [binarySearch, loop, read, misread, ints, Fits]
  rintro ⟨i, hi, hin, -⟩
  obtain rfl : -2 = i := by simpa [hrun] using hi
  have := (hin (by simp)).1
  omega

end Sylar.BinarySearch
