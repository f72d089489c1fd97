import Mathlib.Algebra.Ring.Nat
import Sylar.Lib.Numeral

/-!
The text forms of IPv6 addresses (RFC 4291, section 2.2, forms 1 and 2): eight groups of up to four
hexadecimal digits between colons, where `::` may stand once for one or more groups of zeros.
-/

namespace Lib.Ipv6

open Lib.Numeral

def group (s : List Char) : Option ℕ := if s.length ≤ 4 then read 16 s else none

def groups (s : List Char) : Option (List ℕ) :=
  if s = [] then some [] else (s.splitOn ':').mapM group

/-- The text before and behind the first `::`. -/
def cut : List Char → Option (List Char × List Char)
  | ':' :: ':' :: s => some ([], s)
  | c :: s => (cut s).map fun p => (c :: p.1, p.2)
  | [] => none

/-- The eight groups that a text denotes. -/
def parse (s : List Char) : Option (List ℕ) :=
  match cut s with
  | none => (groups s).filter fun x => x.length = 8
  | some (s, t) => do
    let x ← groups s
    let y ← groups t
    if x.length + y.length < 8 then some (x ++ List.replicate (8 - x.length - y.length) 0 ++ y)
    else none

def join (x : List ℕ) : List Char := [':'].intercalate (x.map (Nat.toDigits 16))

def NoPair (s : List Char) : Prop := ∀ u v, s ≠ u ++ ':' :: ':' :: v

/-! ### Groups -/

lemma group_toDigits {n : ℕ} (hn : n < 2 ^ 16) : group (Nat.toDigits 16 n) = some n := by
  have hlen : (Nat.toDigits 16 n).length ≤ 4 :=
    (Nat.length_toDigits_le_iff (by decide) (by decide)).2 hn
  rw [group, if_pos hlen, read_toDigits (by decide) (by decide)]

lemma colon_not_mem (n : ℕ) : ':' ∉ Nat.toDigits 16 n :=
  not_mem_toDigits (by decide) (by decide) (by decide) n

lemma join_ne_nil {x : List ℕ} (h : x ≠ []) : join x ≠ [] := by
  cases x with
  | nil => exact absurd rfl h
  | cons n x => cases x <;> simp [join]

lemma splitOn_join {x : List ℕ} (h : x ≠ []) :
    (join x).splitOn ':' = x.map (Nat.toDigits 16) := by
  refine List.splitOn_intercalate ':' (fun l hl => ?_) (by simpa using h)
  obtain ⟨n, -, rfl⟩ := List.mem_map.1 hl
  exact colon_not_mem n

lemma mapM_group {x : List ℕ} (h : ∀ n ∈ x, n < 2 ^ 16) :
    (x.map (Nat.toDigits 16)).mapM group = some x := by
  induction x with
  | nil => rfl
  | cons n x ih =>
    obtain ⟨hn, hx⟩ := List.forall_mem_cons.1 h
    rw [List.map_cons, List.mapM_cons, group_toDigits hn, ih hx]
    rfl

lemma groups_join {x : List ℕ} (h : ∀ n ∈ x, n < 2 ^ 16) : groups (join x) = some x := by
  by_cases hx : x = []
  · subst hx
    rfl
  · rw [groups, if_neg (join_ne_nil hx), splitOn_join hx, mapM_group h]

/-! ### No second `::` -/

lemma mapM_eq_none_of_mem {α β : Type} {f : α → Option β} {l : List α} {a : α} (ha : a ∈ l)
    (hf : f a = none) : l.mapM f = none := by
  induction l with
  | nil => cases ha
  | cons b l ih =>
    rw [List.mapM_cons]
    rcases List.mem_cons.1 ha with rfl | ha
    · rw [hf]
      rfl
    · rw [ih ha]
      cases f b <;> rfl

lemma groups_eq_none {s : List Char} (hs : s ≠ []) (h : [] ∈ s.splitOn ':') :
    groups s = none := by
  rw [groups, if_neg hs]
  exact mapM_eq_none_of_mem h rfl

lemma noPair_of_groups {s : List Char} {x : List ℕ} (h : groups s = some x) : NoPair s := by
  rintro u v rfl
  have hempty : [] ∈ (u ++ ':' :: ':' :: v).splitOn ':' := by
    rw [List.splitOn_append_cons_self, List.splitOn_cons_eq_if_modifyHead]
    simp
  rw [groups_eq_none (by simp) hempty] at h
  cases h

lemma groups_colon (v : List Char) : groups (':' :: v) = none := by
  refine groups_eq_none (List.cons_ne_nil _ _) ?_
  rw [List.splitOn_cons_eq_if_modifyHead]
  simp

lemma groups_concat_colon (u : List Char) : groups (u ++ [':']) = none := by
  refine groups_eq_none (by simp) ?_
  rw [List.splitOn_append_cons_self]
  simp

/-! ### The cut -/

lemma cut_eq_some {s l r : List Char} (h : cut s = some (l, r)) : s = l ++ ':' :: ':' :: r := by
  fun_induction cut s generalizing l with
  | case1 s =>
    cases h
    rfl
  | case2 c s _ ih =>
    obtain ⟨⟨l', r'⟩, hcut, heq⟩ := Option.map_eq_some_iff.1 h
    cases heq
    rw [ih hcut, List.cons_append]
  | case3 => cases h

lemma cut_append {u v : List Char} (h : NoPair (u ++ [':'])) :
    cut (u ++ ':' :: ':' :: v) = some (u, v) := by
  induction u with
  | nil => rw [List.nil_append, cut]
  | cons c u ih =>
    have htail : NoPair (u ++ [':']) := fun a b heq => h (c :: a) b (by simp [heq])
    rw [List.cons_append, cut, ih htail]
    · rfl
    · rintro s rfl hs
      cases u with
      | nil => exact h [] [] (by simp)
      | cons d u =>
        obtain ⟨rfl, -⟩ := List.cons.inj hs
        exact h [] (u ++ [':']) (by simp)

lemma cut_eq_none {s : List Char} (h : NoPair s) : cut s = none := by
  cases hcut : cut s with
  | none => rfl
  | some p => exact absurd (cut_eq_some hcut) (h p.1 p.2)

lemma noPair_join {x : List ℕ} (h : ∀ n ∈ x, n < 2 ^ 16) : NoPair (join x) :=
  noPair_of_groups (groups_join h)

lemma noPair_join_colon {x : List ℕ} (h : ∀ n ∈ x, n < 2 ^ 16) : NoPair (join x ++ [':']) := by
  intro u v heq
  rcases List.eq_nil_or_concat' v with rfl | ⟨v, c, rfl⟩
  · have hlast : join x = u ++ [':'] := by
      refine List.append_cancel_right (heq.trans ?_)
      simp
    have hnone := groups_concat_colon u
    rw [← hlast, groups_join h] at hnone
    cases hnone
  · have hall : join x ++ [':'] = (u ++ ':' :: ':' :: v) ++ [c] := by simp [heq]
    exact noPair_join h u v (List.append_inj_left' hall rfl)

/-! ### Texts that are read back -/

/-- **Eight groups are read back.** -/
theorem parse_join {x : List ℕ} (h : ∀ n ∈ x, n < 2 ^ 16) (hlen : x.length = 8) :
    parse (join x) = some x := by
  rw [parse, cut_eq_none (noPair_join h)]
  simp [groups_join h, hlen]

/-- **Fewer groups around a `::` are read back with the zeros between them.** -/
theorem parse_compressed {x y : List ℕ} (hx : ∀ n ∈ x, n < 2 ^ 16) (hy : ∀ n ∈ y, n < 2 ^ 16)
    (hlen : x.length + y.length < 8) :
    parse (join x ++ ':' :: ':' :: join y) =
      some (x ++ List.replicate (8 - x.length - y.length) 0 ++ y) := by
  rw [parse, cut_append (noPair_join_colon hx)]
  simp [groups_join hx, groups_join hy, hlen]

example : parse "2001:db8::1".toList = some [0x2001, 0xdb8, 0, 0, 0, 0, 0, 1] := by decide

lemma front_eq {l r u v : List Char} {x y : List ℕ} (hl : groups l = some x)
    (hr : groups r = some y) (heq : l ++ ':' :: ':' :: r = u ++ ':' :: ':' :: v) : l = u := by
  rcases List.append_eq_append_iff.1 heq with ⟨a, rfl, ha⟩ | ⟨a, rfl, ha⟩
  · match a, ha with
    | [], _ => exact (List.append_nil l).symm
    | [c], ha =>
      simp only [List.singleton_append, List.cons.injEq, true_and] at ha
      rw [ha.2, groups_colon] at hr
      cases hr
    | c :: d :: a, ha =>
      simp only [List.cons_append, List.cons.injEq] at ha
      exact absurd ha.2.2 (noPair_of_groups hr a v)
  · match a, ha with
    | [], _ => exact List.append_nil u
    | [c], ha =>
      simp only [List.singleton_append, List.cons.injEq] at ha
      rw [← ha.1, groups_concat_colon] at hl
      cases hl
    | c :: d :: a, ha =>
      simp only [List.cons_append, List.cons.injEq] at ha
      obtain ⟨rfl, rfl, -⟩ := ha
      exact absurd rfl (noPair_of_groups hl u a)

lemma cut_of_pair {s u v : List Char} {x : List ℕ} (h : parse s = some x)
    (hs : s = u ++ ':' :: ':' :: v) : ∃ r, cut s = some (u, r) := by
  rw [parse] at h
  cases hcut : cut s with
  | none =>
    rw [hcut] at h
    obtain ⟨hgroups, -⟩ := Option.filter_eq_some_iff.1 h
    exact absurd hs (noPair_of_groups hgroups u v)
  | some p =>
    obtain ⟨l, r⟩ := p
    rw [hcut] at h
    simp only [Option.bind_eq_bind, Option.bind_eq_some_iff] at h
    obtain ⟨x, hl, y, hr, -⟩ := h
    rw [front_eq hl hr ((cut_eq_some hcut).symm.trans hs)]
    exact ⟨r, rfl⟩

/-- **A text that denotes an address has at most one `::`.** -/
theorem pair_unique {s : List Char} {x : List ℕ} (h : parse s = some x) {u v u' v' : List Char}
    (hu : s = u ++ ':' :: ':' :: v) (hu' : s = u' ++ ':' :: ':' :: v') : u = u' := by
  obtain ⟨r, hr⟩ := cut_of_pair h hu
  obtain ⟨r', hr'⟩ := cut_of_pair h hu'
  have heq := hr.symm.trans hr'
  simp only [Option.some.injEq, Prod.mk.injEq] at heq
  exact heq.1

end Lib.Ipv6
