import Mathlib.Data.List.DropRight
import Mathlib.Data.List.Infix

/-!
The trim functions of `StringUtil`.

A string is its list of bytes, and `npos` is `none`.
-/

namespace Sylar.Trim

def findFirstNotOf (str delimit : List UInt8) : Option ℕ := str.findIdx? (· ∉ delimit)

def findLastNotOf (str delimit : List UInt8) : Option ℕ :=
  (str.reverse.findIdx? (· ∉ delimit)).map fun i => str.length - 1 - i

/-- `substr(pos, n)`, for a position in the string. -/
def substr (str : List UInt8) (pos n : ℕ) : List UInt8 := (str.drop pos).take n

/-- `StringUtil::Trim`. With `end` at `npos` the length would wrap to more than there is. -/
def trim (str delimit : List UInt8) : List UInt8 :=
  match findFirstNotOf str delimit with
  | none => []
  | some first =>
    match findLastNotOf str delimit with
    | none => str.drop first
    | some last => substr str first (last - first + 1)

def trimLeft (str delimit : List UInt8) : List UInt8 :=
  match findFirstNotOf str delimit with
  | none => []
  | some first => str.drop first

/-- `StringUtil::TrimRight`, which passes the position of the last character as the length. -/
def trimRight (str delimit : List UInt8) : List UInt8 :=
  match findLastNotOf str delimit with
  | none => []
  | some last => substr str 0 last

/-! ### What they are for -/

/-- `r` is the longest suffix of `s` that is empty or starts with a character not in `d`. -/
structure LeftTrimmed (s d r : List UInt8) : Prop where
  suffix : r <:+ s
  first : ∀ c ∈ r.head?, c ∉ d
  longest : ∀ t, t <:+ s → (∀ c ∈ t.head?, c ∉ d) → t.length ≤ r.length

/-- `r` is the longest prefix of `s` that is empty or ends with a character not in `d`. -/
structure RightTrimmed (s d r : List UInt8) : Prop where
  front : r <+: s
  last : ∀ c ∈ r.getLast?, c ∉ d
  longest : ∀ t, t <+: s → (∀ c ∈ t.getLast?, c ∉ d) → t.length ≤ r.length

structure Agree (s d : List UInt8) : Prop where
  left : LeftTrimmed s d (trimLeft s d)
  right : RightTrimmed s d (trimRight s d)
  right_left : trim s d = trimLeft (trimRight s d) d
  left_right : trim s d = trimRight (trimLeft s d) d

variable {s d r : List UInt8}

/-! ### What they compute -/

def delim (d : List UInt8) (c : UInt8) : Bool := c ∈ d

lemma findFirstNotOf_eq (s d : List UInt8) :
    findFirstNotOf s d = if s.dropWhile (delim d) = [] then none
      else some (s.takeWhile (delim d)).length := by
  induction s with
  | nil => rfl
  | cons c s ih =>
    unfold findFirstNotOf at ih ⊢
    by_cases hc : c ∈ d
    · have hd : delim d c = true := by simpa [delim] using hc
      have hno : decide (c ∉ d) = false := by simp [hc]
      rw [List.findIdx?_cons, hno, ih, List.dropWhile_cons_of_pos hd,
        List.takeWhile_cons_of_pos hd, List.length_cons]
      by_cases h : s.dropWhile (delim d) = []
      · rw [if_pos h, if_pos h]
        rfl
      · rw [if_neg h, if_neg h]
        rfl
    · have hd : ¬ delim d c = true := by simpa [delim] using hc
      have hyes : decide (c ∉ d) = true := by simp [hc]
      rw [List.findIdx?_cons, hyes, List.dropWhile_cons_of_neg hd, List.takeWhile_cons_of_neg hd]
      simp

lemma drop_takeWhile (p : UInt8 → Bool) (s : List UInt8) :
    s.drop (s.takeWhile p).length = s.dropWhile p :=
  calc s.drop (s.takeWhile p).length
      = (s.takeWhile p ++ s.dropWhile p).drop (s.takeWhile p).length := by
        rw [List.takeWhile_append_dropWhile]
    _ = s.dropWhile p := List.drop_left' rfl

lemma trimLeft_eq (s d : List UInt8) : trimLeft s d = s.dropWhile (delim d) := by
  unfold trimLeft
  rw [findFirstNotOf_eq]
  split
  · rename_i h
    split at h
    · rename_i hnil
      exact hnil.symm
    · cases h
  · rename_i first h
    split at h
    · cases h
    · obtain rfl := Option.some.inj h
      exact drop_takeWhile (delim d) s

/-- The position of the last character that is no delimiter. -/
lemma findLastNotOf_eq (s d : List UInt8) :
    findLastNotOf s d = if s.rdropWhile (delim d) = [] then none
      else some ((s.rdropWhile (delim d)).length - 1) := by
  have hrev : (s.reverse.dropWhile (delim d)).length = (s.rdropWhile (delim d)).length := by
    rw [List.rdropWhile, List.length_reverse]
  have hnil : s.reverse.dropWhile (delim d) = [] ↔ s.rdropWhile (delim d) = [] := by
    rw [← List.length_eq_zero_iff, hrev, List.length_eq_zero_iff]
  have hlen : (s.reverse.takeWhile (delim d)).length + (s.rdropWhile (delim d)).length =
      s.length := by
    rw [← hrev, ← List.length_append, List.takeWhile_append_dropWhile, List.length_reverse]
  have hfirst := findFirstNotOf_eq s.reverse d
  unfold findFirstNotOf at hfirst
  unfold findLastNotOf
  rw [hfirst]
  by_cases h : s.rdropWhile (delim d) = []
  · rw [if_pos (hnil.mpr h), if_pos h]
    rfl
  · rw [if_neg (mt hnil.mp h), if_neg h, Option.map_some]
    congr 1
    omega

/-- `TrimRight` drops the delimiters at the end, and one character more. -/
lemma trimRight_eq (s d : List UInt8) : trimRight s d = (s.rdropWhile (delim d)).dropLast := by
  unfold trimRight
  rw [findLastNotOf_eq]
  split
  · rename_i h
    split at h
    · rename_i hnil
      rw [hnil]
      rfl
    · cases h
  · rename_i last h
    split at h
    · cases h
    · obtain rfl := Option.some.inj h
      obtain ⟨t, ht⟩ := List.rdropWhile_prefix (delim d) (l := s)
      have hle : (s.rdropWhile (delim d)).length - 1 ≤ (s.rdropWhile (delim d)).length := by omega
      calc substr s 0 ((s.rdropWhile (delim d)).length - 1)
          = (s.rdropWhile (delim d) ++ t).take ((s.rdropWhile (delim d)).length - 1) := by
            rw [ht]
            rfl
        _ = (s.rdropWhile (delim d)).take ((s.rdropWhile (delim d)).length - 1) :=
            List.take_append_of_le_length hle
        _ = (s.rdropWhile (delim d)).dropLast := List.dropLast_eq_take.symm

lemma head?_dropWhile_delim {c : UInt8} (h : c ∈ (s.dropWhile (delim d)).head?) : c ∉ d := by
  intro hc
  have hd : delim d c = true := by simpa [delim] using hc
  have hno := List.head?_dropWhile_not (delim d) s
  rw [Option.mem_def.mp h] at hno
  simp [hd] at hno

/-- A suffix that starts with no delimiter starts behind the delimiters at the beginning. -/
lemma suffix_dropWhile {t : List UInt8} (ht : t <:+ s) (hfirst : ∀ c ∈ t.head?, c ∉ d) :
    t <:+ s.dropWhile (delim d) := by
  induction s with
  | nil => exact ht
  | cons c s ih =>
    by_cases hc : delim d c = true
    · rw [List.dropWhile_cons_of_pos hc]
      rcases List.suffix_cons_iff.mp ht with rfl | ht
      · exact absurd (by simpa [delim] using hc) (hfirst c rfl)
      · exact ih ht
    · rw [List.dropWhile_cons_of_neg hc]
      exact ht

lemma trimLeft_leftTrimmed (s d : List UInt8) : LeftTrimmed s d (trimLeft s d) := by
  rw [trimLeft_eq]
  exact ⟨List.dropWhile_suffix _, fun c => head?_dropWhile_delim,
    fun t ht hfirst => (suffix_dropWhile ht hfirst).length_le⟩

lemma getLast?_rdropWhile_delim {c : UInt8} (h : c ∈ (s.rdropWhile (delim d)).getLast?) :
    c ∉ d := by
  rw [List.rdropWhile, List.getLast?_reverse] at h
  exact head?_dropWhile_delim h

lemma rdropWhile_append {p : UInt8 → Bool} {t u : List UInt8} (h : u.rdropWhile p ≠ []) :
    (t ++ u).rdropWhile p = t ++ u.rdropWhile p := by
  have hne : ¬ (u.reverse.dropWhile p).isEmpty = true := by
    rw [List.isEmpty_iff]
    intro hnil
    exact h (by rw [List.rdropWhile, hnil, List.reverse_nil])
  rw [List.rdropWhile, List.rdropWhile, List.reverse_append, List.dropWhile_append, if_neg hne,
    List.reverse_append, List.reverse_reverse]

/-- Where there is a character that is no delimiter, it is kept from both ends. -/
lemma rdropWhile_ne_nil (h : s.dropWhile (delim d) ≠ []) :
    (s.dropWhile (delim d)).rdropWhile (delim d) ≠ [] := by
  intro hnil
  obtain ⟨c, t, ht⟩ := List.exists_cons_of_ne_nil h
  have hc : c ∉ d := head?_dropWhile_delim (s := s) (by rw [ht]; rfl)
  have hall := List.rdropWhile_eq_nil_iff.mp hnil c (by rw [ht]; exact List.mem_cons_self)
  simp [delim, hc] at hall

lemma trim_eq (s d : List UInt8) :
    trim s d = (s.dropWhile (delim d)).rdropWhile (delim d) := by
  unfold trim
  rw [findFirstNotOf_eq, findLastNotOf_eq]
  by_cases hnil : s.dropWhile (delim d) = []
  · simp [hnil]
  · have hne := rdropWhile_ne_nil hnil
    obtain ⟨m, hm⟩ : ∃ m, (s.dropWhile (delim d)).rdropWhile (delim d) = m := ⟨_, rfl⟩
    -- behind the delimiters at the beginning, the end is that of the whole
    have hend : s.rdropWhile (delim d) = s.takeWhile (delim d) ++ m := by
      rw [← hm, ← rdropWhile_append hne, List.takeWhile_append_dropWhile]
    rw [hm] at hne
    have hlen : 0 < m.length := List.length_pos_of_ne_nil hne
    have hstart : s.takeWhile (delim d) ++ m ≠ [] := fun h => hne (List.append_eq_nil_iff.mp h).2
    have hcount : (s.takeWhile (delim d) ++ m).length - 1 - (s.takeWhile (delim d)).length + 1 =
        m.length := by
      rw [List.length_append]
      omega
    have hfront := List.rdropWhile_prefix (delim d) (s.dropWhile (delim d))
    rw [hm] at hfront
    obtain ⟨t, ht⟩ := hfront
    rw [if_neg hnil, hend, if_neg hstart, hm]
    simp only
    rw [substr, hcount, drop_takeWhile, ← ht]
    exact List.take_left' rfl

/-! ### When they agree -/

lemma rightTrimmed_nil (h : ∀ c ∈ s, c ∈ d) : RightTrimmed s d [] := by
  have hnil : [] <+: s := List.nil_prefix
  refine ⟨hnil, by simp, fun t ht hlast => ?_⟩
  rcases List.eq_nil_or_concat' t with rfl | ⟨t, c, rfl⟩
  · exact Nat.le_refl 0
  · have hmem : c ∈ t ++ [c] := List.mem_append_right t List.mem_cons_self
    exact absurd (h c (ht.subset hmem)) (hlast c (by simp))

/-- `TrimRight` takes one character too many unless there is nothing to keep. -/
lemma all_of_rightTrimmed (h : RightTrimmed s d (trimRight s d)) : ∀ c ∈ s, c ∈ d := by
  have hfront := List.rdropWhile_prefix (delim d) s
  have hle := h.longest (s.rdropWhile (delim d)) hfront fun c => getLast?_rdropWhile_delim
  rw [trimRight_eq, List.length_dropLast] at hle
  have hzero : (s.rdropWhile (delim d)).length = 0 := by omega
  intro c hc
  have hd := List.rdropWhile_eq_nil_iff.mp (List.eq_nil_of_length_eq_zero hzero) c hc
  simpa [delim] using hd

/-- `TrimRight` of a word is the word without its last letter. -/
theorem trimRight_loses_a_character : ¬ ∀ s d, Agree s d := by
  intro h
  have hlen := (h [97] [32]).right.longest [97] (List.prefix_refl _) (by simp)
  have hright : trimRight [97] [32] = [] := rfl
  rw [hright] at hlen
  exact absurd hlen (by decide)

/-- **The trim functions agree exactly on the strings of delimiters.** `TrimLeft` is right on every
string and `Trim` takes off what it should; `TrimRight` takes off one character more. -/
theorem agree_iff_all_delimiters (s d : List UInt8) : Agree s d ↔ ∀ c ∈ s, c ∈ d := by
  constructor
  · exact fun h => all_of_rightTrimmed h.right
  · intro h
    have hall : ∀ c ∈ s, delim d c = true := fun c hc => by simpa [delim] using h c hc
    have hright : trimRight s d = [] := by
      rw [trimRight_eq, List.rdropWhile_eq_nil_iff.mpr hall]
      rfl
    have hleft : trimLeft s d = [] := by
      rw [trimLeft_eq]
      exact List.dropWhile_eq_nil_iff.mpr hall
    have htrim : trim s d = [] := by
      rw [trim_eq, ← trimLeft_eq, hleft]
      rfl
    refine ⟨trimLeft_leftTrimmed s d, ?_, ?_, ?_⟩
    · rw [hright]
      exact rightTrimmed_nil h
    · rw [htrim, hright]
      rfl
    · rw [htrim, hleft]
      rfl

end Sylar.Trim
