import Sylar.AddressText

/-!
Addresses from their text. Texts are C strings; `inet_pton` is a parameter.
-/

namespace Sylar.AddressCreate

open Lib.Numeral Lib.Masks Sylar.Subnet Sylar.AddressText

structure Quad where
  b0 : BitVec 8
  b1 : BitVec 8
  b2 : BitVec 8
  b3 : BitVec 8
  deriving DecidableEq

def Quad.dword (little : Bool) (x : Quad) : BitVec 32 :=
  if little then x.b3 ++ x.b2 ++ x.b1 ++ x.b0 else x.b0 ++ x.b1 ++ x.b2 ++ x.b3

def Quad.dotted (x : Quad) : List Char :=
  decimal x.b0.toNat ++ '.' :: decimal x.b1.toNat ++ '.' :: decimal x.b2.toNat ++
    '.' :: decimal x.b3.toNat

/-- `inet_pton` for one family: what it returns, and what it stores if it does. -/
abbrev Pton (α : Type) := List Char → ℤ × Option α

/-- What is documented of `inet_pton(AF_INET, …)`. -/
structure InetPton (inet_pton : Pton Quad) : Prop where
  range : ∀ s, (inet_pton s).1 = 1 ∨ (inet_pton s).1 = 0 ∨ (inet_pton s).1 = -1
  accepts : ∀ s, (inet_pton s).1 = 1 ↔ ∃ x : Quad, s = x.dotted
  stores : ∀ x : Quad, (inet_pton x.dotted).2 = some x

namespace IPv4Address

def Create (little : Bool) (inet_pton : Pton Quad) (address : List Char) (port : BitVec 16) :
    Option SockaddrIn :=
  let rt := { IPv4Address.make little 0 0 with sin_port := byteswapOnLittleEndian little port }
  let (result, dst) := inet_pton address
  let rt := match dst with
    | some x => { rt with sin_addr := x.dword little }
    | none => rt
  if result < 0 then none else some rt

end IPv4Address

namespace IPv6Address

def make : SockaddrIn6 := ⟨AF_INET6, 0, 0, fun _ => 0, 0⟩

def Create (little : Bool) (inet_pton : Pton (Fin 16 → BitVec 8)) (address : List Char)
    (port : BitVec 16) : Option SockaddrIn6 :=
  let rt := { make with sin6_port := byteswapOnLittleEndian little port }
  let (result, dst) := inet_pton address
  let rt := match dst with
    | some x => { rt with s6_addr := x }
    | none => rt
  if result ≤ 0 then none else some rt

lemma Create_eq_none_iff (little : Bool) (inet_pton : Pton (Fin 16 → BitVec 8))
    (address : List Char) (port : BitVec 16) :
    Create little inet_pton address port = none ↔ (inet_pton address).1 ≤ 0 := by
  simp [Create]

end IPv6Address

/-! ### The text of what is stored -/

section Text

variable (little : Bool) (x : Quad)

lemma byteswap_dword : byteswap (x.b3 ++ x.b2 ++ x.b1 ++ x.b0 : BitVec 32) =
    (x.b0 ++ x.b1 ++ x.b2 ++ x.b3 : BitVec 32) := by
  apply BitVec.eq_of_getLsbD_eq
  intro i hi
  rw [getLsbD_byteswap _ hi, source]
  simp only [BitVec.getLsbD_append]
  have hbyte : i / 8 = 0 ∨ i / 8 = 1 ∨ i / 8 = 2 ∨ i / 8 = 3 := by omega
  rcases hbyte with h | h | h | h
  · have hsource : (32 / 8 - 1 - i / 8) * 8 + i % 8 = i + 24 := by omega
    rw [hsource]
    grind
  · have hsource : (32 / 8 - 1 - i / 8) * 8 + i % 8 = i + 8 := by omega
    rw [hsource]
    grind
  · have hsource : (32 / 8 - 1 - i / 8) * 8 + i % 8 = i - 8 := by omega
    rw [hsource]
    grind
  · have hsource : (32 / 8 - 1 - i / 8) * 8 + i % 8 = i - 24 := by omega
    rw [hsource]
    grind

lemma host_dword : byteswapOnLittleEndian little (x.dword little) =
    (x.b0 ++ x.b1 ++ x.b2 ++ x.b3 : BitVec 32) := by
  cases little with
  | false => rfl
  | true => exact byteswap_dword x

lemma toNat_append_byte {w : ℕ} (x : BitVec w) (y : BitVec 8) :
    (x ++ y).toNat = 256 * x.toNat + y.toNat := by
  rw [BitVec.toNat_append, ← Nat.shiftLeft_add_eq_or_of_lt y.isLt, Nat.shiftLeft_eq, Nat.mul_comm]

lemma toNat_byte (y : BitVec 32) (n : ℕ) :
    ((y >>> n) &&& 0xff).toNat = y.toNat / 2 ^ n % 256 := by
  rw [BitVec.toNat_and, BitVec.toNat_ushiftRight, Nat.shiftRight_eq_div_pow]
  exact Nat.and_two_pow_sub_one_eq_mod _ 8

lemma text_dword {a : SockaddrIn} (h : a.sin_addr = x.dword little) :
    IPv4Address.text little a = x.dotted := by
  have h0 := x.b0.isLt
  have h1 := x.b1.isLt
  have h2 := x.b2.isLt
  have h3 := x.b3.isLt
  have hvalue : (x.b0 ++ x.b1 ++ x.b2 ++ x.b3 : BitVec 32).toNat =
      256 * (256 * (256 * x.b0.toNat + x.b1.toNat) + x.b2.toNat) + x.b3.toNat := by
    rw [toNat_append_byte, toNat_append_byte, toNat_append_byte]
  have hb0 : (256 * (256 * (256 * x.b0.toNat + x.b1.toNat) + x.b2.toNat) + x.b3.toNat) / 2 ^ 24 %
      256 = x.b0.toNat := by omega
  have hb1 : (256 * (256 * (256 * x.b0.toNat + x.b1.toNat) + x.b2.toNat) + x.b3.toNat) / 2 ^ 16 %
      256 = x.b1.toNat := by omega
  have hb2 : (256 * (256 * (256 * x.b0.toNat + x.b1.toNat) + x.b2.toNat) + x.b3.toNat) / 2 ^ 8 %
      256 = x.b2.toNat := by omega
  have hb3 : ((x.b0 ++ x.b1 ++ x.b2 ++ x.b3 : BitVec 32) &&& 0xff).toNat = x.b3.toNat := by
    have hbyte := toNat_byte (x.b0 ++ x.b1 ++ x.b2 ++ x.b3 : BitVec 32) 0
    rw [BitVec.ushiftRight_zero] at hbyte
    rw [hbyte, hvalue]
    omega
  rw [IPv4Address.text, h, host_dword]
  simp only [toNat_byte, hvalue, hb0, hb1, hb2, hb3, Quad.dotted]

end Text

/-! ### What `Create` returns -/

section Create

variable {inet_pton : Pton Quad} {address : List Char} {little : Bool} {port : BitVec 16}

structure Correct (little : Bool) (inet_pton : Pton Quad) (address : List Char)
    (port : BitVec 16) : Prop where
  null : IPv4Address.Create little inet_pton address port = none ↔ (inet_pton address).1 ≠ 1
  accepted : (inet_pton address).1 = 1 → ∃ a,
    IPv4Address.Create little inet_pton address port = some a ∧
      IPv4Address.getPort little a = port ∧
      IPv4Address.toString little a = address ++ ':' :: decimal port.toNat

lemma Create_eq_none_iff :
    IPv4Address.Create little inet_pton address port = none ↔ (inet_pton address).1 < 0 := by
  simp [IPv4Address.Create]

lemma Create_dotted (h : InetPton inet_pton) (x : Quad) :
    IPv4Address.Create little inet_pton x.dotted port =
      some ⟨AF_INET, byteswapOnLittleEndian little port, x.dword little⟩ := by
  have hresult := (h.accepts x.dotted).2 ⟨x, rfl⟩
  simp only [IPv4Address.Create, h.stores x, hresult]
  rfl

/-- **`IPv4Address::Create` gives an address for every text that is not one, too.** -/
theorem create_correct_iff (h : InetPton inet_pton) (little : Bool) (address : List Char)
    (port : BitVec 16) :
    Correct little inet_pton address port ↔
      (∃ x : Quad, address = x.dotted) ∨ (inet_pton address).1 = -1 := by
  constructor
  · intro hc
    rcases h.range address with hone | hzero | hminus
    · exact Or.inl ((h.accepts address).1 hone)
    · have hlt := Create_eq_none_iff.1 (hc.null.2 (by omega))
      omega
    · exact Or.inr hminus
  · rintro (⟨x, rfl⟩ | hminus)
    · have hone := (h.accepts x.dotted).2 ⟨x, rfl⟩
      refine ⟨Create_eq_none_iff.trans (by omega), fun _ => ⟨_, Create_dotted h x, ?_, ?_⟩⟩
      · exact byteswapOnLittleEndian_self (by rfl) little port
      · rw [IPv4Address.toString, text_dword little x rfl, IPv4Address.getPort,
          byteswapOnLittleEndian_self (by rfl)]
    · exact ⟨Create_eq_none_iff.trans (by omega), fun hone => by omega⟩

end Create

/-! ### An `inet_pton` -/

/-- A byte in decimal, without superfluous zeros. -/
def number (t : List Char) : Option (BitVec 8) :=
  (read 10 t).bind fun n => if n < 256 ∧ t = decimal n then some (BitVec.ofNat 8 n) else none

def inetPton (s : List Char) : ℤ × Option Quad :=
  match (s.splitOn '.').map number with
  | [some b0, some b1, some b2, some b3] => (1, some ⟨b0, b1, b2, b3⟩)
  | _ => (0, none)

lemma number_decimal (x : BitVec 8) : number (decimal x.toNat) = some x := by
  rw [number, read_toDigits (by decide) (by decide), Option.bind_some, if_pos ⟨x.isLt, rfl⟩,
    BitVec.ofNat_toNat, BitVec.setWidth_eq]

lemma eq_of_number {t : List Char} {x : BitVec 8} (h : number t = some x) :
    t = decimal x.toNat := by
  obtain ⟨n, -, hn⟩ := Option.bind_eq_some_iff.1 h
  split at hn
  case isTrue hlt =>
    cases hn
    rw [BitVec.toNat_ofNat, Nat.mod_eq_of_lt hlt.1]
    exact hlt.2
  case isFalse => cases hn

def Quad.parts (x : Quad) : List (List Char) :=
  [decimal x.b0.toNat, decimal x.b1.toNat, decimal x.b2.toNat, decimal x.b3.toNat]

lemma dotted_eq (x : Quad) : x.dotted = ['.'].intercalate x.parts := by
  simp [Quad.dotted, Quad.parts]

lemma inetPton_dotted (x : Quad) : inetPton x.dotted = (1, some x) := by
  have hparts : x.dotted.splitOn '.' = x.parts := by
    rw [dotted_eq]
    refine List.splitOn_intercalate '.' (fun t ht => ?_) (List.cons_ne_nil _ _)
    have hdot : ∀ n, '.' ∉ decimal n := not_mem_decimal (by decide)
    simp only [Quad.parts, List.mem_cons, List.not_mem_nil, or_false] at ht
    rcases ht with rfl | rfl | rfl | rfl <;> exact hdot _
  rw [inetPton, hparts]
  simp only [Quad.parts, List.map_cons, List.map_nil, number_decimal]

lemma eq_dotted {s : List Char} (h : (inetPton s).1 = 1) : ∃ x : Quad, s = x.dotted := by
  rw [inetPton] at h
  split at h
  case h_1 b0 b1 b2 b3 hmap =>
    refine ⟨⟨b0, b1, b2, b3⟩, ?_⟩
    obtain ⟨t0, ts, hsplit, h0, hmap⟩ := List.map_eq_cons_iff.1 hmap
    obtain ⟨t1, ts, rfl, h1, hmap⟩ := List.map_eq_cons_iff.1 hmap
    obtain ⟨t2, ts, rfl, h2, hmap⟩ := List.map_eq_cons_iff.1 hmap
    obtain ⟨t3, ts, rfl, h3, hmap⟩ := List.map_eq_cons_iff.1 hmap
    rw [List.map_eq_nil_iff.1 hmap] at hsplit
    rw [dotted_eq, Quad.parts, ← eq_of_number h0, ← eq_of_number h1, ← eq_of_number h2,
      ← eq_of_number h3, ← hsplit, List.intercalate_splitOn]
  case h_2 => cases h

lemma inetPton_documented : InetPton inetPton where
  range s := by
    rw [inetPton]
    split
    · exact Or.inl rfl
    · exact Or.inr (Or.inl rfl)
  accepts s := ⟨eq_dotted, fun ⟨x, hx⟩ => by rw [hx, inetPton_dotted]⟩
  stores x := by rw [inetPton_dotted]

theorem create_correct_localhost :
    Correct true inetPton (Quad.dotted ⟨127, 0, 0, 1⟩) 8080 :=
  (create_correct_iff inetPton_documented true _ 8080).2 (Or.inl ⟨_, rfl⟩)

/-- A text that is no address becomes 0.0.0.0. -/
theorem create_garbage :
    InetPton inetPton ∧ (inetPton "garbage".toList).1 = 0 ∧
    IPv4Address.Create true inetPton "garbage".toList 80 = some (IPv4Address.make true 0 80) ∧
    ¬Correct true inetPton "garbage".toList 80 := by
  refine ⟨inetPton_documented, by decide, rfl, fun h => ?_⟩
  have hnull := h.null.2 (by decide)
  exact absurd (Create_eq_none_iff.1 hnull) (by decide)

end Sylar.AddressCreate
