import Mathlib.Data.List.Basic
import Mathlib.Tactic.Common

/-!
`UrlEncode` and `UrlDecode` of `StringUtil`.

A string is its list of bytes. Both functions run over the string and start a copy at the first
byte that changes; `ss` is the copy, if there is one, and `seen` is what lies behind the pointer.
-/

namespace Sylar.UrlCode

def uriChars : List UInt8 := [
  0, 0, 0, 0, 0, 0, 0, 0,   0, 0, 0, 0, 0, 0, 0, 0,
  0, 0, 0, 0, 0, 0, 0, 0,   0, 0, 0, 0, 0, 0, 0, 0,
  0, 0, 0, 0, 0, 0, 0, 0,   0, 0, 0, 0, 0, 1, 1, 0,
  1, 1, 1, 1, 1, 1, 1, 1,   1, 1, 0, 0, 0, 1, 0, 0,
  0, 1, 1, 1, 1, 1, 1, 1,   1, 1, 1, 1, 1, 1, 1, 1,
  1, 1, 1, 1, 1, 1, 1, 1,   1, 1, 1, 0, 0, 0, 0, 1,
  0, 1, 1, 1, 1, 1, 1, 1,   1, 1, 1, 1, 1, 1, 1, 1,
  1, 1, 1, 1, 1, 1, 1, 1,   1, 1, 1, 0, 0, 0, 1, 0,
  0, 0, 0, 0, 0, 0, 0, 0,   0, 0, 0, 0, 0, 0, 0, 0,
  0, 0, 0, 0, 0, 0, 0, 0,   0, 0, 0, 0, 0, 0, 0, 0,
  0, 0, 0, 0, 0, 0, 0, 0,   0, 0, 0, 0, 0, 0, 0, 0,
  0, 0, 0, 0, 0, 0, 0, 0,   0, 0, 0, 0, 0, 0, 0, 0,
  0, 0, 0, 0, 0, 0, 0, 0,   0, 0, 0, 0, 0, 0, 0, 0,
  0, 0, 0, 0, 0, 0, 0, 0,   0, 0, 0, 0, 0, 0, 0, 0,
  0, 0, 0, 0, 0, 0, 0, 0,   0, 0, 0, 0, 0, 0, 0, 0,
  0, 0, 0, 0, 0, 0, 0, 0,   0, 0, 0, 0, 0, 0, 0, 0]

def xdigitChars : List UInt8 := [
  0, 0, 0, 0, 0, 0, 0, 0, 0, 0, 0, 0, 0, 0, 0, 0,
  0, 0, 0, 0, 0, 0, 0, 0, 0, 0, 0, 0, 0, 0, 0, 0,
  0, 0, 0, 0, 0, 0, 0, 0, 0, 0, 0, 0, 0, 0, 0, 0,
  0, 1, 2, 3, 4, 5, 6, 7, 8, 9, 0, 0, 0, 0, 0, 0,
  0, 10, 11, 12, 13, 14, 15, 0, 0, 0, 0, 0, 0, 0, 0, 0,
  0, 0, 0, 0, 0, 0, 0, 0, 0, 0, 0, 0, 0, 0, 0, 0,
  0, 10, 11, 12, 13, 14, 15, 0, 0, 0, 0, 0, 0, 0, 0, 0,
  0, 0, 0, 0, 0, 0, 0, 0, 0, 0, 0, 0, 0, 0, 0, 0,
  0, 0, 0, 0, 0, 0, 0, 0, 0, 0, 0, 0, 0, 0, 0, 0,
  0, 0, 0, 0, 0, 0, 0, 0, 0, 0, 0, 0, 0, 0, 0, 0,
  0, 0, 0, 0, 0, 0, 0, 0, 0, 0, 0, 0, 0, 0, 0, 0,
  0, 0, 0, 0, 0, 0, 0, 0, 0, 0, 0, 0, 0, 0, 0, 0,
  0, 0, 0, 0, 0, 0, 0, 0, 0, 0, 0, 0, 0, 0, 0, 0,
  0, 0, 0, 0, 0, 0, 0, 0, 0, 0, 0, 0, 0, 0, 0, 0,
  0, 0, 0, 0, 0, 0, 0, 0, 0, 0, 0, 0, 0, 0, 0, 0,
  0, 0, 0, 0, 0, 0, 0, 0, 0, 0, 0, 0, 0, 0, 0, 0]

def hexdigits : List UInt8 := "0123456789ABCDEF".toList.map Char.toUInt8

def unreserved (c : UInt8) : Bool := uriChars.getD c.toNat 0 ≠ 0

def hexdigit (n : UInt8) : UInt8 := hexdigits.getD n.toNat 0

def isxdigit (c : UInt8) : Bool :=
  (48 ≤ c ∧ c ≤ 57) ∨ (65 ≤ c ∧ c ≤ 70) ∨ (97 ≤ c ∧ c ≤ 102)

def xvalue (h l : UInt8) : UInt8 :=
  xdigitChars.getD h.toNat 0 <<< 4 ||| xdigitChars.getD l.toNat 0

/-- What a byte is replaced by: a `+` for a space, or `%` and its digits. -/
def replacement (c : UInt8) (space_as_plus : Bool) : List UInt8 :=
  if c = ' '.toUInt8 ∧ space_as_plus then ['+'.toUInt8]
  else ['%'.toUInt8, hexdigit (c >>> 4), hexdigit (c &&& 0xf)]

def encodeLoop (space_as_plus : Bool) (seen : List UInt8) (ss : Option (List UInt8)) :
    List UInt8 → Option (List UInt8)
  | [] => ss
  | c :: rest =>
    if unreserved c then
      encodeLoop space_as_plus (seen ++ [c]) (ss.map fun t => t ++ [c]) rest
    else
      encodeLoop space_as_plus (seen ++ [c])
        (some (ss.getD seen ++ replacement c space_as_plus)) rest

def urlEncode (str : List UInt8) (space_as_plus : Bool) : List UInt8 :=
  (encodeLoop space_as_plus [] none str).getD str

def digits (c : UInt8) : List UInt8 → Option (UInt8 × UInt8)
  | h :: l :: _ =>
    if c = '%'.toUInt8 ∧ isxdigit h ∧ isxdigit l then some (h, l) else none
  | _ => none

def decodeLoop (space_as_plus : Bool) (seen : List UInt8) (ss : Option (List UInt8)) :
    List UInt8 → Option (List UInt8)
  | [] => ss
  | c :: rest =>
    if c = '+'.toUInt8 ∧ space_as_plus then
      decodeLoop space_as_plus (seen ++ [c]) (some (ss.getD seen ++ [' '.toUInt8])) rest
    else
      match digits c rest with
      | some (h, l) =>
        -- `c += 2`, and the loop adds one
        decodeLoop space_as_plus (seen ++ [c, h, l]) (some (ss.getD seen ++ [xvalue h l]))
          (rest.drop 2)
      | none => decodeLoop space_as_plus (seen ++ [c]) (ss.map fun t => t ++ [c]) rest
termination_by rest => rest.length

def urlDecode (str : List UInt8) (space_as_plus : Bool) : List UInt8 :=
  (decodeLoop space_as_plus [] none str).getD str

/-! ### The bytes -/

lemma forall_byte {P : UInt8 → Prop} (h : ∀ n < 256, P (UInt8.ofNat n)) (c : UInt8) : P c := by
  have hc := h c.toNat c.toNat_lt
  rwa [UInt8.ofNat_toNat] at hc

/-- The digits of the encoder are those that the decoder reads. -/
lemma digits_of_byte (c : UInt8) : isxdigit (hexdigit (c >>> 4)) = true ∧
    isxdigit (hexdigit (c &&& 0xf)) = true ∧
    xvalue (hexdigit (c >>> 4)) (hexdigit (c &&& 0xf)) = c :=
  forall_byte (P := fun c => isxdigit (hexdigit (c >>> 4)) = true ∧
    isxdigit (hexdigit (c &&& 0xf)) = true ∧
    xvalue (hexdigit (c >>> 4)) (hexdigit (c &&& 0xf)) = c) (by decide +kernel) c

lemma hexdigit_mem (c : UInt8) :
    hexdigit (c >>> 4) ∈ hexdigits ∧ hexdigit (c &&& 0xf) ∈ hexdigits :=
  forall_byte (P := fun c => hexdigit (c >>> 4) ∈ hexdigits ∧ hexdigit (c &&& 0xf) ∈ hexdigits)
    (by decide +kernel) c

lemma ne_of_unreserved {c : UInt8} (h : unreserved c = true) :
    c ≠ '%'.toUInt8 ∧ c ≠ '+'.toUInt8 := by
  constructor
  · rintro rfl
    exact absurd h (by decide)
  · rintro rfl
    exact absurd h (by decide)

/-! ### Encoding -/

def code (space_as_plus : Bool) (c : UInt8) : List UInt8 :=
  if unreserved c then [c] else replacement c space_as_plus

/-- The copy that starts late is the copy of the whole string. -/
lemma encodeLoop_eq (b : Bool) (rest seen : List UInt8) (ss : Option (List UInt8)) :
    (encodeLoop b seen ss rest).getD (seen ++ rest) = ss.getD seen ++ rest.flatMap (code b) := by
  induction rest generalizing seen ss with
  | nil => simp [encodeLoop]
  | cons c rest ih =>
    have hseen : seen ++ c :: rest = (seen ++ [c]) ++ rest := by simp
    by_cases hc : unreserved c = true
    · have hcode : code b c = [c] := by simp [code, hc]
      rw [encodeLoop, if_pos hc, hseen, ih]
      -- a copy grows as the string behind the pointer does
      cases ss <;> simp [hcode]
    · have hcode : code b c = replacement c b := by simp [code, hc]
      rw [encodeLoop, if_neg hc, hseen, ih]
      simp [hcode]

lemma urlEncode_eq (s : List UInt8) (b : Bool) : urlEncode s b = s.flatMap (code b) := by
  have h := encodeLoop_eq b s [] none
  simpa [urlEncode] using h

/-! ### Decoding -/

def decoded (space_as_plus : Bool) : List UInt8 → List UInt8
  | [] => []
  | c :: rest =>
    if c = '+'.toUInt8 ∧ space_as_plus then ' '.toUInt8 :: decoded space_as_plus rest
    else
      match digits c rest with
      | some (h, l) => xvalue h l :: decoded space_as_plus (rest.drop 2)
      | none => c :: decoded space_as_plus rest
termination_by rest => rest.length

lemma digits_eq_some {c h l : UInt8} {rest : List UInt8} (hd : digits c rest = some (h, l)) :
    rest = h :: l :: rest.drop 2 ∧ c = '%'.toUInt8 ∧ isxdigit h = true ∧ isxdigit l = true := by
  match rest, hd with
  | x :: y :: t, hd =>
    simp only [digits] at hd
    split at hd
    · next hc =>
      obtain ⟨rfl, rfl⟩ : x = h ∧ y = l := by simpa using hd
      exact ⟨rfl, hc⟩
    · simp at hd

/-- The copy that starts late is the reading of the whole string. -/
lemma decodeLoop_eq (b : Bool) (rest seen : List UInt8) (ss : Option (List UInt8)) :
    (decodeLoop b seen ss rest).getD (seen ++ rest) = ss.getD seen ++ decoded b rest := by
  induction hn : rest.length using Nat.strongRecOn generalizing rest seen ss with
  | ind n ih =>
    match rest, hn with
    | [], _ => simp [decodeLoop, decoded]
    | c :: rest, hn =>
      have hseen : seen ++ c :: rest = (seen ++ [c]) ++ rest := by simp
      simp only [List.length_cons] at hn
      rw [decodeLoop, decoded]
      by_cases hplus : c = '+'.toUInt8 ∧ b = true
      · rw [if_pos hplus, if_pos hplus, hseen, ih rest.length (by omega) _ _ _ rfl]
        simp
      · rw [if_neg hplus, if_neg hplus]
        cases hd : digits c rest with
        | some hl =>
          obtain ⟨h, l⟩ := hl
          obtain ⟨hrest, -⟩ := digits_eq_some hd
          have hall : seen ++ c :: rest = (seen ++ [c, h, l]) ++ rest.drop 2 := by
            rw [hrest]
            simp
          have hshort : (rest.drop 2).length < n := by
            rw [List.length_drop]
            omega
          simp only
          rw [hall, ih _ hshort _ _ _ rfl]
          simp
        | none =>
          simp only
          rw [hseen, ih rest.length (by omega) _ _ _ rfl]
          cases ss <;> simp

lemma urlDecode_eq (s : List UInt8) (b : Bool) : urlDecode s b = decoded b s := by
  have h := decodeLoop_eq b s [] none
  simpa [urlDecode] using h

/-! ### One byte there and back -/

/-- A decoder that reads `+` as the encoder writes it, or an encoder that writes none, gives back
each byte. -/
lemma decoded_code {b b' : Bool} (hb : b' = b ∨ b = false) (c : UInt8) (t : List UInt8) :
    decoded b' (code b c ++ t) = c :: decoded b' t := by
  by_cases hc : unreserved c = true
  · obtain ⟨hpercent, hplus⟩ := ne_of_unreserved hc
    have hd : digits c t = none := by
      cases hd : digits c t with
      | none => rfl
      | some hl => exact absurd (digits_eq_some hd).2.1 hpercent
    have hcode : code b c = [c] := by simp [code, hc]
    rw [hcode, List.singleton_append, decoded, if_neg fun h => hplus h.1, hd]
  · have hcode : code b c = replacement c b := by simp [code, hc]
    rw [hcode, replacement]
    by_cases hspace : c = ' '.toUInt8 ∧ b = true
    · have hb' : b' = true := by
        rcases hb with h | h
        · rw [h, hspace.2]
        · rw [hspace.2] at h
          simp at h
      rw [if_pos hspace, List.singleton_append, decoded, if_pos ⟨rfl, hb'⟩, hspace.1]
    · obtain ⟨hh, hl, hv⟩ := digits_of_byte c
      have hd : digits '%'.toUInt8 (hexdigit (c >>> 4) :: hexdigit (c &&& 0xf) :: t)
          = some (hexdigit (c >>> 4), hexdigit (c &&& 0xf)) := by
        simp [digits, hh, hl]
      have hne : ¬('%'.toUInt8 = '+'.toUInt8 ∧ b' = true) := by
        intro h
        exact absurd h.1 (by decide)
      rw [if_neg hspace]
      simp only [List.cons_append, List.nil_append]
      rw [decoded, if_neg hne, hd]
      simp [hv]

lemma decoded_flatMap {b b' : Bool} (hb : b' = b ∨ b = false) (s : List UInt8) :
    decoded b' (s.flatMap (code b)) = s := by
  induction s with
  | nil => simp [decoded]
  | cons c s ih => rw [List.flatMap_cons, decoded_code hb, ih]

/-! ### The form of an encoded string -/

/-- Unreserved characters, triples of a `%` and two digits, and a `+` for a space. -/
inductive Encoded (space_as_plus : Bool) : List UInt8 → Prop
  | nil : Encoded space_as_plus []
  | unreserved {c t} : unreserved c = true → Encoded space_as_plus t →
      Encoded space_as_plus (c :: t)
  | triple {h l t} : h ∈ hexdigits → l ∈ hexdigits → Encoded space_as_plus t →
      Encoded space_as_plus ('%'.toUInt8 :: h :: l :: t)
  | plus {t} : space_as_plus = true → Encoded space_as_plus t →
      Encoded space_as_plus ('+'.toUInt8 :: t)

lemma encoded_code {b : Bool} (c : UInt8) {t : List UInt8} (h : Encoded b t) :
    Encoded b (code b c ++ t) := by
  by_cases hc : unreserved c = true
  · rw [code, if_pos hc]
    exact .unreserved hc h
  · rw [code, if_neg hc, replacement]
    split
    · next hspace => exact .plus hspace.2 h
    · exact .triple (hexdigit_mem c).1 (hexdigit_mem c).2 h

lemma encoded_flatMap (b : Bool) (s : List UInt8) : Encoded b (s.flatMap (code b)) := by
  induction s with
  | nil => exact .nil
  | cons c s ih =>
    rw [List.flatMap_cons]
    exact encoded_code c ih

lemma replacement_ne (c : UInt8) (b : Bool) {s t : List UInt8} (hlen : s.length ≤ t.length) :
    replacement c b ++ t ≠ c :: s := by
  intro h
  rw [replacement] at h
  split at h
  · next hspace =>
    have hhead : '+'.toUInt8 = c := by
      simp only [List.singleton_append] at h
      exact (List.cons.inj h).1
    rw [hspace.1] at hhead
    exact absurd hhead (by decide)
  · have hlen' := congrArg List.length h
    simp at hlen'
    omega

lemma length_le_flatMap (b : Bool) (s : List UInt8) : s.length ≤ (s.flatMap (code b)).length := by
  induction s with
  | nil => simp
  | cons c s ih =>
    have hone : 1 ≤ (code b c).length := by
      unfold code replacement
      split
      · simp
      · split <;> simp
    rw [List.flatMap_cons, List.length_append, List.length_cons]
    omega

lemma flatMap_code_eq_iff (b : Bool) (s : List UInt8) :
    s.flatMap (code b) = s ↔ ∀ c ∈ s, unreserved c = true := by
  induction s with
  | nil => simp
  | cons c s ih =>
    rw [List.flatMap_cons, List.forall_mem_cons]
    by_cases hc : unreserved c = true
    · have hcode : code b c = [c] := by simp [code, hc]
      rw [hcode, List.singleton_append, List.cons.injEq, ih]
      simp [hc]
    · have hcode : code b c = replacement c b := by simp [code, hc]
      have hne := replacement_ne c b (length_le_flatMap b s)
      rw [hcode]
      simp [hne, hc]

/-- **What `UrlEncode` writes `UrlDecode` reads back**, with the same treatment of spaces or where
none became a `+`. An encoded string has only unreserved characters, triples and, where it is asked
for, `+`; it is the string itself exactly where nothing is to be replaced. -/
theorem urlDecode_urlEncode (s : List UInt8) :
    (∀ b, urlDecode (urlEncode s b) b = s) ∧ urlDecode (urlEncode s false) true = s ∧
      (∀ b, Encoded b (urlEncode s b)) ∧
      ∀ b, urlEncode s b = s ↔ ∀ c ∈ s, unreserved c = true := by
  refine ⟨fun b => ?_, ?_, fun b => ?_, fun b => ?_⟩
  · rw [urlDecode_eq, urlEncode_eq]
    exact decoded_flatMap (.inl rfl) s
  · rw [urlDecode_eq, urlEncode_eq]
    exact decoded_flatMap (.inr rfl) s
  · rw [urlEncode_eq]
    exact encoded_flatMap b s
  · rw [urlEncode_eq]
    exact flatMap_code_eq_iff b s

end Sylar.UrlCode
