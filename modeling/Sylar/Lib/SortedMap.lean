import Mathlib.Data.List.Basic
import Mathlib.Order.Lattice
import Mathlib.Tactic.Common

/-!
An ordered map as the list of its entries, in the order of their keys.
-/

namespace Lib.SortedMap

variable {K V : Type*} [LinearOrder K]

def put (key : K) (v : V) : List (K × V) → List (K × V)
  | [] => [(key, v)]
  | e :: m =>
    if key < e.1 then (key, v) :: e :: m
    else if key = e.1 then (key, v) :: m
    else e :: put key v m

def Sorted (m : List (K × V)) : Prop := m.Pairwise fun e f => e.1 < f.1

variable {m : List (K × V)} {key k : K} {v : V}

section Lookup

variable [BEq K] [LawfulBEq K]

lemma lookup_put_self : (put key v m).lookup key = some v := by
  induction m with
  | nil => rw [put, List.lookup_cons_self]
  | cons e m ih =>
    rw [put]
    split
    · rw [List.lookup_cons_self]
    · split
      · rw [List.lookup_cons_self]
      · rename_i hne
        rw [List.lookup_cons, beq_false_of_ne hne]
        exact ih

lemma lookup_put_of_ne (h : k ≠ key) : (put key v m).lookup k = m.lookup k := by
  induction m with
  | nil => rw [put, List.lookup_cons, beq_false_of_ne h]
  | cons e m ih =>
    rw [put]
    split
    · rw [List.lookup_cons, beq_false_of_ne h]
    · split
      · rename_i heq
        rw [List.lookup_cons, List.lookup_cons, beq_false_of_ne h, beq_false_of_ne (heq ▸ h)]
      · rw [List.lookup_cons, List.lookup_cons, ih]

end Lookup

lemma mem_put {e : K × V} (h : e ∈ put key v m) : e = (key, v) ∨ e ∈ m := by
  induction m with
  | nil => exact .inl (List.mem_singleton.mp h)
  | cons f m ih =>
    rw [put] at h
    split at h
    · exact List.mem_cons.mp h
    · split at h
      · exact (List.mem_cons.mp h).imp id (List.mem_cons_of_mem f)
      · rcases List.mem_cons.mp h with rfl | h
        · exact .inr List.mem_cons_self
        · exact (ih h).imp id (List.mem_cons_of_mem f)

/-- **The map stays ordered**, so that no key is in it twice. -/
lemma sorted_put (h : Sorted m) : Sorted (put key v m) := by
  induction m with
  | nil => exact List.pairwise_singleton _ _
  | cons e m ih =>
    obtain ⟨hlt, hm⟩ := List.pairwise_cons.mp h
    rw [put]
    split
    · rename_i hkey
      refine List.pairwise_cons.mpr ⟨fun f hf => ?_, h⟩
      rcases List.mem_cons.mp hf with rfl | hf
      · exact hkey
      · exact lt_trans hkey (hlt f hf)
    · split
      · rename_i heq
        exact List.pairwise_cons.mpr ⟨fun f hf => heq ▸ hlt f hf, hm⟩
      · rename_i hkey hne
        refine List.pairwise_cons.mpr ⟨fun f hf => ?_, ih hm⟩
        rcases mem_put hf with rfl | hf
        · exact lt_of_le_of_ne (not_lt.mp hkey) (Ne.symm hne)
        · exact hlt f hf

end Lib.SortedMap
