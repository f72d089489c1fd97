import Sylar.Lib.JsonString

/-!
`JsonUtil::NeedEscape` and `JsonUtil::Escape`.

`Escape` counts the bytes of its result, makes a string of that many zero bytes and appends the
result to it.
-/

namespace Sylar.JsonEscape

open Lib.JsonString

/-- The cases of the three `switch`es: the letter behind the backslash. -/
def letter (c : UInt8) : Option UInt8 :=
  if c = 0x0c then some 'f'.toUInt8
  else if c = 0x09 then some 't'.toUInt8
  else if c = 0x0d then some 'r'.toUInt8
  else if c = 0x0a then some 'n'.toUInt8
  else if c = 0x08 then some 'b'.toUInt8
  else if c = 0x22 then some 0x22
  else if c = 0x5c then some 0x5c
  else none

def needEscape : List UInt8 → Bool
  | [] => false
  | c :: v => if (letter c).isSome then true else needEscape v

def sizePass (size : ℕ) : List UInt8 → ℕ
  | [] => size
  | c :: v => sizePass (if (letter c).isSome then size + 2 else size + 1) v

def copyPass (rt : List UInt8) : List UInt8 → List UInt8
  | [] => rt
  | c :: v =>
    match letter c with
    | some e => copyPass (rt ++ [0x5c, e]) v
    | none => copyPass (rt ++ [c]) v

def escape (v : List UInt8) : List UInt8 :=
  let size := sizePass 0 v
  if size = v.length then v
  else copyPass (List.replicate size 0) v  -- `rt.resize(size)`

/-! ### The passes -/

lemma sizePass_eq (v : List UInt8) (size : ℕ) :
    sizePass size v = size + v.length + v.countP fun c => (letter c).isSome := by
  induction v generalizing size with
  | nil => rfl
  | cons c v ih =>
    rw [sizePass, ih, List.length_cons, List.countP_cons]
    by_cases hc : (letter c).isSome = true
    · rw [if_pos hc, if_pos hc]
      omega
    · rw [if_neg hc, if_neg hc]
      omega

lemma copyPass_eq (v rt : List UInt8) : ∃ t, copyPass rt v = rt ++ t := by
  induction v generalizing rt with
  | nil => exact ⟨[], by simp [copyPass]⟩
  | cons c v ih =>
    unfold copyPass
    split
    · next e _ =>
      obtain ⟨t, ht⟩ := ih (rt ++ [0x5c, e])
      exact ⟨[0x5c, e] ++ t, by rw [ht, List.append_assoc]⟩
    · obtain ⟨t, ht⟩ := ih (rt ++ [c])
      exact ⟨[c] ++ t, by rw [ht, List.append_assoc]⟩

/-- The string is looked for a byte with a case of its own. -/
lemma needEscape_eq_false_iff (v : List UInt8) :
    needEscape v = false ↔ ∀ c ∈ v, (letter c).isSome = false := by
  induction v with
  | nil => simp [needEscape]
  | cons c v ih =>
    rw [needEscape, List.forall_mem_cons, ← ih]
    cases (letter c).isSome <;> simp

/-- The passes agree with `NeedEscape` on whether there is something to do. -/
lemma sizePass_eq_length_iff (v : List UInt8) :
    sizePass 0 v = v.length ↔ needEscape v = false := by
  rw [sizePass_eq, needEscape_eq_false_iff, Nat.zero_add, Nat.add_eq_left, List.countP_eq_zero]
  simp

lemma escape_of_not_need {v : List UInt8} (h : needEscape v = false) : escape v = v :=
  if_pos ((sizePass_eq_length_iff v).2 h)

/-- Where there is something to escape, zero bytes come first. -/
lemma escape_of_need {v : List UInt8} (h : needEscape v = true) :
    ∃ size t, v.length < size ∧ escape v = List.replicate size 0 ++ t := by
  have hne : sizePass 0 v ≠ v.length := by
    rw [ne_eq, sizePass_eq_length_iff, h]
    simp
  have hlt : v.length < sizePass 0 v := by
    rw [sizePass_eq] at hne ⊢
    omega
  obtain ⟨t, ht⟩ := copyPass_eq v (List.replicate (sizePass 0 v) 0)
  exact ⟨_, t, hlt, by rw [escape, if_neg hne, ht]⟩

/-- **`Escape` changes a string exactly where `NeedEscape` says so.** -/
theorem escape_eq_self_iff (v : List UInt8) : escape v = v ↔ needEscape v = false := by
  refine ⟨fun h => ?_, escape_of_not_need⟩
  cases hn : needEscape v with
  | false => rfl
  | true =>
    obtain ⟨size, t, hlt, heq⟩ := escape_of_need hn
    have hlen := congrArg List.length (heq.symm.trans h)
    rw [List.length_append, List.length_replicate] at hlen
    omega

/-! ### Literals -/

/-- What is asked of the two functions at the string `v`. -/
structure Correct (v : List Char) : Prop where
  literal : Literal (0x22 :: escape (utf8 v) ++ [0x22]) v
  agree : escape (utf8 v) = utf8 v ↔ needEscape (utf8 v) = false

lemma letter_eq_none {b : UInt8} (h : 0x20 ≤ b.toNat) (h1 : b ≠ 0x22) (h2 : b ≠ 0x5c) :
    (letter b).isSome = false := by
  have hne : ∀ c : UInt8, c.toNat < 0x20 → b ≠ c := by
    rintro c hc rfl
    omega
  simp [letter, hne 0x0c (by decide), hne 0x09 (by decide), hne 0x0d (by decide),
    hne 0x0a (by decide), hne 0x08 (by decide), h1, h2]

/-- A string without control characters, quotes and backslashes is left alone. -/
lemma needEscape_of_unescaped {v : List Char} (h : ∀ c ∈ v, Unescaped c) :
    needEscape (utf8 v) = false := by
  rw [needEscape_eq_false_iff]
  intro b hb
  obtain ⟨c, hc, hbc⟩ := List.mem_flatMap.1 hb
  obtain ⟨hge, hquote, hback⟩ := h c hc
  rcases mem_utf8EncodeChar hbc with ⟨-, hval⟩ | ⟨-, hval⟩
  · have hchar : ∀ d : Char, c ≠ d → b.toNat ≠ d.toNat := by
      intro d hd heq
      exact hd (Char.toNat_inj.1 (hval.symm.trans heq))
    refine letter_eq_none (by omega) ?_ ?_
    · rintro rfl
      exact hchar _ hquote rfl
    · rintro rfl
      exact hchar _ hback rfl
  · refine letter_eq_none (by omega) ?_ ?_ <;>
    · rintro rfl
      exact absurd hval (by decide)

/-- A literal is only made of a string that needs no escape. -/
lemma unescaped_of_literal {v : List Char}
    (h : Literal (0x22 :: escape (utf8 v) ++ [0x22]) v) : ∀ c ∈ v, Unescaped c := by
  have hge : ∀ b ∈ escape (utf8 v), 0x20 ≤ b.toNat := fun b hb =>
    h.ge b (List.mem_append_left _ (List.mem_cons_of_mem _ hb))
  have hneed : needEscape (utf8 v) = false := by
    cases hn : needEscape (utf8 v) with
    | false => rfl
    | true =>
      obtain ⟨size, t, hlt, heq⟩ := escape_of_need hn
      have hzero : (0 : UInt8) ∈ escape (utf8 v) := by
        rw [heq]
        exact List.mem_append_left _ (List.mem_replicate.2 ⟨by omega, rfl⟩)
      exact absurd (hge 0 hzero) (by decide)
  rw [escape_of_not_need hneed] at hge
  rw [needEscape_eq_false_iff] at hneed
  intro c hc
  by_contra hbad
  -- a character that is not allowed is a single byte
  have hlt : c.toNat < 0x80 := by
    by_contra hlarge
    refine hbad ⟨by omega, ?_, ?_⟩ <;>
    · rintro rfl
      exact absurd hlarge (by decide)
  have hmem : UInt8.ofNat c.toNat ∈ utf8 v := by
    refine List.mem_flatMap.2 ⟨c, hc, ?_⟩
    rw [utf8EncodeChar_of_lt hlt]
    exact List.mem_singleton_self _
  have hval := hge _ hmem
  rw [UInt8.toNat_ofNat'] at hval
  refine hbad ⟨by omega, ?_, ?_⟩
  · rintro rfl
    exact absurd (hneed _ hmem) (by decide)
  · rintro rfl
    exact absurd (hneed _ hmem) (by decide)

/-- **`Escape` makes a literal of a string exactly where the string needs none of its work**: where
a byte is escaped, as many zero bytes as there should be bytes stand before the result, and the
other control characters are left as they are. -/
theorem correct_iff (v : List Char) : Correct v ↔ ∀ c ∈ v, Unescaped c := by
  constructor
  · exact fun h => unescaped_of_literal h.literal
  · intro h
    have hlit := literal_of_unescaped h
    refine ⟨?_, escape_eq_self_iff _⟩
    rw [escape_of_not_need (needEscape_of_unescaped h)]
    rwa [utf8_append, utf8_cons] at hlit

/-- A single quote mark: two zero bytes, a backslash and the mark. -/
theorem escape_quote : escape (utf8 ['\x22']) = [0, 0, 0x5c, 0x22] ∧ ¬Correct ['\x22'] := by
  have hrun : escape (utf8 ['\x22']) = [0, 0, 0x5c, 0x22] := by decide
  refine ⟨hrun, fun h => ?_⟩
  have hge := h.literal.ge 0 (by rw [hrun]; decide)
  exact absurd hge (by decide)

end Sylar.JsonEscape
