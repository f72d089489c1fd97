import Mathlib.Order.Fin.Basic
import Sylar.UnixPath

/-!
The order of addresses of all kinds.
-/

namespace Sylar.AddressOrder

open Lib.Memory Sylar.UnixPath

/-- The objects of the classes that derive from `Address`, with what their `addr_` holds. -/
inductive Address
  | ipv4 (addr_ : Vector Byte 16)
  | ipv6 (addr_ : Vector Byte 28)
  | unix (a : UnixAddress)
  | unknown (addr_ : Vector Byte 16)

namespace Address

def getAddr : Address → List Byte
  | ipv4 addr_ => addr_.toList
  | ipv6 addr_ => addr_.toList
  | unix a => a.addr_.sun_family.toList ++ a.addr_.sun_path.toList
  | unknown addr_ => addr_.toList

def getAddrLen : Address → UInt32
  | ipv4 _ => 16
  | ipv6 _ => 28
  | unix a => a.length_
  | unknown _ => 16

/-- `operator<`; there is no value where `memcmp` reads outside of the storage. -/
def lt (a b : Address) : Option Bool :=
  let minlen := min a.getAddrLen.toNat b.getAddrLen.toNat
  (memcmp a.getAddr b.getAddr minlen).map fun result =>
    match result with
    | .lt => true
    | .gt => false
    | .eq => decide (a.getAddrLen < b.getAddrLen)

def eq (a b : Address) : Option Bool :=
  if a.getAddrLen = b.getAddrLen then
    (memcmp a.getAddr b.getAddr a.getAddrLen.toNat).map fun result => decide (result = .eq)
  else some false

def ne (a b : Address) : Option Bool := (eq a b).map not

def bytes (a : Address) : List Byte := a.getAddr.take a.getAddrLen.toNat

end Address

/-- An address whose length does not exceed its storage. -/
structure Stored where
  address : Address
  fits : address.getAddrLen.toNat ≤ address.getAddr.length

/-! ### The order of the bytes -/

variable (a b c : Stored)

lemma length_bytes : a.address.bytes.length = a.address.getAddrLen.toNat := by
  rw [Address.bytes, List.length_take, Nat.min_eq_left a.fits]

/-- The first bytes of the storages are compared as the bytes of the addresses. -/
lemma memcmp_getAddr {n : ℕ} (ha : n ≤ a.address.getAddrLen.toNat)
    (hb : n ≤ b.address.getAddrLen.toNat) :
    memcmp a.address.getAddr b.address.getAddr n = memcmp a.address.bytes b.address.bytes n :=
  (memcmp_take ha hb a.address.getAddr b.address.getAddr).symm

lemma lt_eq : a.address.lt b.address = some (decide (a.address.bytes < b.address.bytes)) := by
  obtain ⟨c, hc, hless, -⟩ := memcmp_min a.address.bytes b.address.bytes
  rw [length_bytes, length_bytes] at hc hless
  rw [Address.lt, memcmp_getAddr a b (Nat.min_le_left _ _) (Nat.min_le_right _ _), hc,
    Option.map_some]
  simp only [← hless, UInt32.lt_iff_toNat_lt]
  cases c <;> simp

lemma eq_eq : a.address.eq b.address = some (decide (a.address.bytes = b.address.bytes)) := by
  obtain ⟨c, hc, -, heq⟩ := memcmp_min a.address.bytes b.address.bytes
  rw [length_bytes, length_bytes, UInt32.toNat_inj] at heq
  rw [length_bytes, length_bytes] at hc
  rw [Address.eq]
  split
  case isTrue hlen =>
    rw [hlen, Nat.min_self] at hc
    rw [memcmp_getAddr a b (Nat.le_of_eq rfl) (Nat.le_of_eq (by rw [hlen])), hlen, hc,
      Option.map_some]
    simp [← heq, hlen]
  case isFalse hlen =>
    have hne : ¬a.address.bytes = b.address.bytes := fun h => hlen (heq.2 h).2
    simp [hne]

/-- What the operators say of two addresses: less, greater, equal and unequal. -/
def verdict (a b : Stored) : Option Bool × Option Bool × Option Bool × Option Bool :=
  (a.address.lt b.address, b.address.lt a.address, a.address.eq b.address, a.address.ne b.address)

/-- **The order is strict, transitive and total on the bytes of addresses.** -/
theorem address_order :
    (∀ a b : Stored,
      a.address.lt b.address = some (decide (a.address.bytes < b.address.bytes)) ∧
      a.address.eq b.address = some (decide (a.address.bytes = b.address.bytes))) ∧
    (∀ a : Stored, a.address.lt a.address = some false) ∧
    (∀ a b c : Stored, a.address.lt b.address = some true → b.address.lt c.address = some true →
      a.address.lt c.address = some true) ∧
    ∀ a b : Stored, verdict a b = (some true, some false, some false, some true) ∨
      verdict a b = (some false, some true, some false, some true) ∨
      verdict a b = (some false, some false, some true, some false) := by
  refine ⟨fun a b => ⟨lt_eq a b, eq_eq a b⟩, fun a => ?_, fun a b c hab hbc => ?_, fun a b => ?_⟩
  · simp [lt_eq]
  · simp only [lt_eq, Option.some.injEq, decide_eq_true_eq] at hab hbc ⊢
    exact lt_trans hab hbc
  · simp only [verdict, Address.ne, lt_eq, eq_eq]
    rcases lt_trichotomy a.address.bytes b.address.bytes with h | h | h
    · simp [h, h.ne, h.not_gt]
    · simp [h]
    · simp [h, h.ne', h.not_gt]

def unixOf (length_ : UInt32) : Address := .unix ⟨⟨AF_UNIX true, store [] 0⟩, length_⟩

theorem address_order_unix : (unixOf 3).lt (unixOf 5) = some true :=
  address_order.2.2.1 ⟨unixOf 3, by decide⟩ ⟨unixOf 4, by decide⟩ ⟨unixOf 5, by decide⟩
    (by decide) (by decide)

end Sylar.AddressOrder
