import Mathlib.Data.List.Basic
import Mathlib.Tactic.Common

/-!
The string literals of JSON (RFC 8259, section 7) and what they denote. The grammar is over
characters; a text is their UTF-8 encoding.
-/

namespace Lib.JsonString

/-- `unescaped = %x20-21 / %x23-5B / %x5D-10FFFF`. -/
def Unescaped (c : Char) : Prop := 0x20 ≤ c.toNat ∧ c ≠ '\x22' ∧ c ≠ '\x5c'

instance (c : Char) : Decidable (Unescaped c) := inferInstanceAs (Decidable (_ ∧ _))

/-- What may follow a backslash, and what the two denote. -/
def escapes : List (Char × Char) :=
  [('\x22', '\x22'), ('\x5c', '\x5c'), ('/', '/'), ('b', '\x08'), ('f', '\x0c'), ('n', '\n'),
    ('r', '\r'), ('t', '\t')]

def hexdig (c : Char) : Option ℕ :=
  if '0' ≤ c ∧ c ≤ '9' then some (c.toNat - 48)
  else if 'A' ≤ c ∧ c ≤ 'F' then some (c.toNat - 55)
  else if 'a' ≤ c ∧ c ≤ 'f' then some (c.toNat - 87)
  else none

inductive Hex4 : List Char → ℕ → Prop
  | mk {a b c d w x y z} : hexdig a = some w → hexdig b = some x → hexdig c = some y →
      hexdig d = some z → Hex4 [a, b, c, d] (((w * 16 + x) * 16 + y) * 16 + z)

/-- `*char` with the characters it denotes. -/
inductive Body : List Char → List Char → Prop
  | nil : Body [] []
  | unescaped {c t v} : Unescaped c → Body t v → Body (c :: t) (c :: v)
  | escape {e c t v} : (e, c) ∈ escapes → Body t v → Body ('\x5c' :: e :: t) (c :: v)
  | unicode {h c t v} : Hex4 h c.toNat → Body t v → Body ('\x5c' :: 'u' :: (h ++ t)) (c :: v)
  /-- A character beyond the first plane as its two surrogates. -/
  | surrogates {h l m n c t v} : Hex4 h m → Hex4 l n → 0xd800 ≤ m → m < 0xdc00 → 0xdc00 ≤ n →
      n < 0xe000 → c.toNat = 0x10000 + (m - 0xd800) * 0x400 + (n - 0xdc00) → Body t v →
      Body ('\x5c' :: 'u' :: (h ++ '\x5c' :: 'u' :: (l ++ t))) (c :: v)

def utf8 (l : List Char) : List UInt8 := l.flatMap String.utf8EncodeChar

/-- The text is a string literal that denotes `v`. -/
def Literal (text : List UInt8) (v : List Char) : Prop :=
  ∃ body, text = utf8 ('\x22' :: body ++ ['\x22']) ∧ Body body v

lemma utf8_cons (c : Char) (l : List Char) : utf8 (c :: l) = String.utf8EncodeChar c ++ utf8 l :=
  rfl

lemma utf8_append (l m : List Char) : utf8 (l ++ m) = utf8 l ++ utf8 m := List.flatMap_append

lemma hexdig_ge {c : Char} {n : ℕ} (h : hexdig c = some n) : 0x20 ≤ c.toNat := by
  have hle : ∀ a : Char, a ≤ c → a.toNat ≤ c.toNat := fun a ha => ha
  unfold hexdig at h
  split at h
  · next hc => exact Nat.le_trans (by decide) (hle '0' hc.1)
  · split at h
    · next hc => exact Nat.le_trans (by decide) (hle 'A' hc.1)
    · split at h
      · next hc => exact Nat.le_trans (by decide) (hle 'a' hc.1)
      · simp at h

lemma Hex4.ge {h : List Char} {n : ℕ} (hh : Hex4 h n) : ∀ c ∈ h, 0x20 ≤ c.toNat := by
  obtain ⟨ha, hb, hc, hd⟩ := hh
  simp only [List.mem_cons, List.not_mem_nil, or_false]
  rintro x (rfl | rfl | rfl | rfl)
  · exact hexdig_ge ha
  · exact hexdig_ge hb
  · exact hexdig_ge hc
  · exact hexdig_ge hd

lemma Body.ge {t v : List Char} (h : Body t v) : ∀ c ∈ t, 0x20 ≤ c.toNat := by
  induction h with
  | nil => simp
  | unescaped hc _ ih => exact List.forall_mem_cons.2 ⟨hc.1, ih⟩
  | escape he _ ih =>
    refine List.forall_mem_cons.2 ⟨by decide, List.forall_mem_cons.2 ⟨?_, ih⟩⟩
    have hall : ∀ p ∈ escapes, 0x20 ≤ p.1.toNat := by decide
    exact hall _ he
  | unicode hh _ ih =>
    refine List.forall_mem_cons.2 ⟨by decide, List.forall_mem_cons.2 ⟨by decide, ?_⟩⟩
    exact List.forall_mem_append.2 ⟨hh.ge, ih⟩
  | surrogates hh hl _ _ _ _ _ _ ih =>
    refine List.forall_mem_cons.2 ⟨by decide, List.forall_mem_cons.2 ⟨by decide, ?_⟩⟩
    refine List.forall_mem_append.2 ⟨hh.ge, List.forall_mem_cons.2 ⟨by decide, ?_⟩⟩
    exact List.forall_mem_cons.2 ⟨by decide, List.forall_mem_append.2 ⟨hl.ge, ih⟩⟩

/-- A character below 0x80 is its own byte; the bytes of the others are all above. -/
lemma mem_utf8EncodeChar {c : Char} {b : UInt8} (hb : b ∈ String.utf8EncodeChar c) :
    (c.toNat < 0x80 ∧ b.toNat = c.toNat) ∨ (0x80 ≤ c.toNat ∧ 0x80 ≤ b.toNat) := by
  have hv : c.val.toNat = c.toNat := rfl
  unfold String.utf8EncodeChar at hb
  simp only [hv] at hb
  split at hb
  · left
    obtain rfl := List.mem_singleton.1 hb
    refine ⟨by omega, ?_⟩
    rw [UInt8.toNat_ofNat']
    omega
  · right
    refine ⟨by omega, ?_⟩
    split at hb
    · simp only [List.mem_cons, List.not_mem_nil, or_false] at hb
      rcases hb with rfl | rfl <;> rw [UInt8.toNat_ofNat'] <;> omega
    · split at hb
      · simp only [List.mem_cons, List.not_mem_nil, or_false] at hb
        rcases hb with rfl | rfl | rfl <;> rw [UInt8.toNat_ofNat'] <;> omega
      · simp only [List.mem_cons, List.not_mem_nil, or_false] at hb
        rcases hb with rfl | rfl | rfl | rfl <;> rw [UInt8.toNat_ofNat'] <;> omega

lemma utf8EncodeChar_of_lt {c : Char} (hc : c.toNat < 0x80) :
    String.utf8EncodeChar c = [UInt8.ofNat c.toNat] := by
  have hv : c.val.toNat ≤ 0x7f := Nat.le_of_lt_succ hc
  exact if_pos hv

/-- **A literal has no byte below 0x20.** -/
theorem Literal.ge {text : List UInt8} {v : List Char} (h : Literal text v) :
    ∀ b ∈ text, 0x20 ≤ b.toNat := by
  obtain ⟨body, rfl, hbody⟩ := h
  intro b hb
  obtain ⟨c, hc, hbc⟩ := List.mem_flatMap.1 hb
  have hge : 0x20 ≤ c.toNat := by
    rcases List.mem_append.1 hc with hc | hc
    · rcases List.mem_cons.1 hc with rfl | hc
      · decide
      · exact hbody.ge c hc
    · rw [List.mem_singleton.1 hc]
      decide
  rcases mem_utf8EncodeChar hbc with ⟨-, hval⟩ | ⟨-, hval⟩ <;> omega

/-- **Text that needs no escape denotes itself.** -/
theorem literal_of_unescaped {v : List Char} (h : ∀ c ∈ v, Unescaped c) :
    Literal (utf8 ('\x22' :: v ++ ['\x22'])) v := by
  refine ⟨v, rfl, ?_⟩
  induction v with
  | nil => exact .nil
  | cons c v ih =>
    obtain ⟨hc, hv⟩ := List.forall_mem_cons.1 h
    exact .unescaped hc (ih hv)

end Lib.JsonString
