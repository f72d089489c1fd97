import Mathlib.Data.List.ReduceOption
import Sylar.AddressCreate
import Sylar.Lib.Popcount

/-!
The addresses of the interfaces, with the prefix lengths that `GetInterfaceAddresses` counts off
the netmasks.

A null pointer that is read has no value.
-/

namespace Sylar.Interfaces

open Lib.Popcount Sylar.Subnet Sylar.AddressCreate

/-! ### One bits -/

section Count

variable {w : ℕ}

/-- The loop of `CountBytes`. Each round clears a bit of `value`. -/
def count (value : BitVec w) (result : BitVec 32) : BitVec 32 :=
  if value = 0#w then result else count (value &&& (value - 1#w)) (result + 1)
termination_by ones value
decreasing_by
  rename_i h
  have hless := ones_and_sub_one h
  omega

def CountBytes (value : BitVec w) : BitVec 32 := count value 0

end Count

/-! ### The list of interfaces -/

structure Sockaddr where
  sa_family : BitVec 16
  sa_data : ℕ → BitVec 8

namespace Sockaddr

variable (little : Bool) (a : Sockaddr)

def inBytes (i : Fin 4) : BitVec 8 := a.sa_data (2 + i)

def in6Bytes (i : Fin 16) : BitVec 8 := a.sa_data (6 + i)

def quad (i : ℕ) : Quad := ⟨a.sa_data i, a.sa_data (i + 1), a.sa_data (i + 2), a.sa_data (i + 3)⟩

def port : BitVec 16 :=
  if little then a.sa_data 1 ++ a.sa_data 0 else a.sa_data 0 ++ a.sa_data 1

def toIn : SockaddrIn := ⟨a.sa_family, a.port little, (a.quad 2).dword little⟩

def toIn6 : SockaddrIn6 where
  sin6_family := a.sa_family
  sin6_port := a.port little
  sin6_flowinfo := (a.quad 2).dword little
  s6_addr := a.in6Bytes
  sin6_scope_id := (a.quad 22).dword little

end Sockaddr

structure Ifaddrs where
  ifa_name : List Char
  ifa_addr : Option Sockaddr
  ifa_netmask : Option Sockaddr

inductive Address
  | ipv4 (addr : SockaddrIn)
  | ipv6 (addr : SockaddrIn6)
  | unknown (addr : Sockaddr)

def Create (little : Bool) (addr : Sockaddr) : Address :=
  if addr.sa_family = AF_INET then .ipv4 (addr.toIn little)
  else if addr.sa_family = AF_INET6 then .ipv6 (addr.toIn6 little)
  else .unknown addr

def AF_UNSPEC : ℤ := 0

/-- What is kept for an interface: its name, an address and `prefix_len`. -/
abbrev Record := List Char × Address × BitVec 32

/-- `std::multimap::insert`: behind the entries with the same key. -/
def insert (result : List Record) (x : Record) : List Record :=
  (result.takeWhile fun y => ¬x.1 < y.1) ++ x :: result.dropWhile fun y => ¬x.1 < y.1

/-- The `switch`: `addr`, if it is set, and `prefix_len`. -/
def addrAndPrefix (little : Bool) (addr : Sockaddr) (netmask : Option Sockaddr) :
    Option (Option Address × BitVec 32) :=
  if addr.sa_family = AF_INET then
    netmask.map fun m => (some (Create little addr), CountBytes (m.toIn little).sin_addr)
  else if addr.sa_family = AF_INET6 then
    netmask.map fun m => (some (Create little addr),
      (List.finRange 16).foldl (fun prefix_len i =>
        prefix_len + CountBytes ((m.toIn6 little).s6_addr i)) 0)
  else some (none, ~~~0)

def Asked (family : ℤ) (addr : Sockaddr) : Prop :=
  family = AF_UNSPEC ∨ family = addr.sa_family.toNat

instance (family : ℤ) (addr : Sockaddr) : Decidable (Asked family addr) :=
  inferInstanceAs (Decidable (_ ∨ _))

/-- What one round of the loop inserts, if anything. -/
def record (little : Bool) (family : ℤ) (next : Ifaddrs) : Option (Option Record) :=
  next.ifa_addr.bind fun addr =>
    if Asked family addr then
      (addrAndPrefix little addr next.ifa_netmask).map fun r =>
        r.1.map fun a => (next.ifa_name, a, r.2)
    else some none

def loop (little : Bool) (family : ℤ) (result : List Record) : List Ifaddrs → Option (List Record)
  | [] => some result
  | next :: rest =>
    match record little family next with
    | none => none
    | some none => loop little family result rest
    | some (some x) => loop little family (insert result x) rest

/-- `Address::GetInterfaceAddresses`, where `getifaddrs` may fail. -/
def GetInterfaceAddresses (little : Bool) (family : ℤ) (getifaddrs : Option (List Ifaddrs))
    (result : List Record) : Option (Bool × List Record) :=
  match getifaddrs with
  | none => some (false, result)
  | some results => (loop little family result results).map fun out => (!out.isEmpty, out)

/-! ### What is counted -/

section Count

variable {w : ℕ}

lemma count_eq (value : BitVec w) (result : BitVec 32) :
    count value result = result + BitVec.ofNat 32 (ones value) := by
  induction value, result using count.induct with
  | case1 result =>
    rw [count, if_pos rfl, ones_zero]
    simp
  | case2 value result hne ih =>
    rw [count, if_neg hne, ih, ← ones_and_sub_one hne, Nat.add_comm (ones _) 1, BitVec.ofNat_add,
      ← BitVec.add_assoc]
    rfl

lemma CountBytes_eq (value : BitVec w) : CountBytes value = BitVec.ofNat 32 (ones value) := by
  rw [CountBytes, count_eq]
  simp

end Count

lemma ones_dword (little : Bool) (x : Quad) :
    ones (x.dword little) = ones x.b0 + ones x.b1 + ones x.b2 + ones x.b3 := by
  cases little with
  | false => simp only [Quad.dword, Bool.false_eq_true, if_false, ones_append]
  | true =>
    simp only [Quad.dword, if_true, ones_append]
    omega

lemma ones_toIn (little : Bool) (m : Sockaddr) :
    ones (m.toIn little).sin_addr = ∑ i, ones (m.inBytes i) := by
  rw [Sockaddr.toIn, ones_dword, Fin.sum_univ_four]
  rfl

lemma foldl_CountBytes {n : ℕ} (f : Fin n → BitVec 8) (is : List (Fin n)) (x : BitVec 32) :
    is.foldl (fun y i => y + CountBytes (f i)) x =
      x + BitVec.ofNat 32 (is.map fun i => ones (f i)).sum := by
  induction is generalizing x with
  | nil => simp
  | cons i is ih =>
    rw [List.foldl_cons, ih, CountBytes_eq, List.map_cons, List.sum_cons, BitVec.ofNat_add,
      BitVec.add_assoc]

lemma sum_CountBytes {n : ℕ} (f : Fin n → BitVec 8) :
    (List.finRange n).foldl (fun y i => y + CountBytes (f i)) 0 =
      BitVec.ofNat 32 (∑ i, ones (f i)) := by
  rw [foldl_CountBytes, ← List.ofFn_eq_map, List.sum_ofFn]
  exact BitVec.zero_add _

/-- The bytes of a netmask with `p` leading ones, stored in some order. -/
def Stored {n : ℕ} (m : Fin n → BitVec 8) (p : ℕ) : Prop :=
  ∃ σ : Equiv.Perm (Fin n), Leading (m ∘ σ) p

lemma Stored.sum_ones {n p : ℕ} {m : Fin n → BitVec 8} (h : Stored m p) :
    ∑ i, ones (m i) = p := by
  obtain ⟨σ, hσ⟩ := h
  rw [← Equiv.sum_comp σ fun i => ones (m i)]
  exact hσ.sum_ones

/-! ### What is recorded -/

variable {little : Bool} {family : ℤ} {result out : List Record} {ifas : List Ifaddrs}
  {e : Ifaddrs} {x : Record}

lemma insert_perm (result : List Record) (x : Record) : (insert result x).Perm (x :: result) := by
  refine List.perm_middle.trans (List.Perm.cons x ?_)
  rw [List.takeWhile_append_dropWhile]

/-- **Every entry that the loop takes is in the result, with what was there before.** -/
lemma loop_perm (h : loop little family result ifas = some out) :
    ∃ xs, List.Forall₂ (fun e x => record little family e = some x) ifas xs ∧
      out.Perm (result ++ xs.reduceOption) := by
  induction ifas generalizing result with
  | nil =>
    obtain rfl := Option.some.inj h
    exact ⟨[], .nil, by simp⟩
  | cons next rest ih =>
    rw [loop] at h
    split at h
    case h_1 => cases h
    case h_2 hnext =>
      obtain ⟨xs, hxs, hperm⟩ := ih h
      exact ⟨none :: xs, .cons hnext hxs, by rwa [List.reduceOption_cons_of_none]⟩
    case h_3 x hnext =>
      obtain ⟨xs, hxs, hperm⟩ := ih h
      refine ⟨some x :: xs, .cons hnext hxs, hperm.trans ?_⟩
      rw [List.reduceOption_cons_of_some]
      exact ((insert_perm result x).append_right _).trans List.perm_middle.symm

/-- Nothing that the loop reads of the entry is null. -/
def Complete (family : ℤ) (e : Ifaddrs) : Prop :=
  ∃ a, e.ifa_addr = some a ∧
    (Asked family a → a.sa_family = AF_INET ∨ a.sa_family = AF_INET6 → e.ifa_netmask ≠ none)

lemma record_of_complete (little : Bool) (h : Complete family e) :
    ∃ x, record little family e = some x := by
  obtain ⟨a, ha, hmask⟩ := h
  rw [record, ha, Option.bind_some]
  split
  case isFalse => exact ⟨none, rfl⟩
  case isTrue hasked =>
    rw [addrAndPrefix]
    split
    case isTrue hfamily =>
      obtain ⟨m, hm⟩ := Option.ne_none_iff_exists'.1 (hmask hasked (Or.inl hfamily))
      rw [hm]
      exact ⟨_, rfl⟩
    case isFalse =>
      split
      case isTrue hfamily =>
        obtain ⟨m, hm⟩ := Option.ne_none_iff_exists'.1 (hmask hasked (Or.inr hfamily))
        rw [hm]
        exact ⟨_, rfl⟩
      case isFalse => exact ⟨none, rfl⟩

lemma loop_of_complete (little : Bool) (result : List Record)
    (h : ∀ e ∈ ifas, Complete family e) : ∃ out, loop little family result ifas = some out := by
  induction ifas generalizing result with
  | nil => exact ⟨result, rfl⟩
  | cons next rest ih =>
    have hrest := fun e he => h e (List.mem_cons_of_mem next he)
    obtain ⟨x, hx⟩ := record_of_complete little (h next List.mem_cons_self)
    rw [loop, hx]
    cases x with
    | none => exact ih result hrest
    | some x => exact ih (insert result x) hrest

variable {a m : Sockaddr}

section Netmask

variable (ha : e.ifa_addr = some a) (hm : e.ifa_netmask = some m) (hasked : Asked family a)
include ha hm hasked

lemma record_inet (little : Bool) (hfamily : a.sa_family = AF_INET) :
    record little family e = some (some (e.ifa_name, .ipv4 (a.toIn little),
      BitVec.ofNat 32 (∑ i, ones (m.inBytes i)))) := by
  rw [record, ha, Option.bind_some, if_pos hasked, addrAndPrefix, if_pos hfamily, hm, Create,
    if_pos hfamily, Option.map_some, Option.map_some, CountBytes_eq, ones_toIn]
  rfl

lemma record_inet6 (little : Bool) (hfamily : a.sa_family = AF_INET6) :
    record little family e = some (some (e.ifa_name, .ipv6 (a.toIn6 little),
      BitVec.ofNat 32 (∑ i, ones (m.in6Bytes i)))) := by
  have hne : a.sa_family ≠ AF_INET := by
    rw [hfamily]
    decide
  rw [record, ha, Option.bind_some, if_pos hasked, addrAndPrefix, if_neg hne, if_pos hfamily, hm,
    Create, if_neg hne, if_pos hfamily, Option.map_some, Option.map_some, sum_CountBytes]
  rfl

end Netmask

/-- What an entry adds to the result: nothing, or its one record, whose `prefix_len` is the number
of leading ones of the netmask. -/
inductive Recorded (little : Bool) (family : ℤ) (e : Ifaddrs) : Option Record → Prop
  | skipped (a : Sockaddr) (ha : e.ifa_addr = some a)
      (hother : Asked family a → a.sa_family ≠ AF_INET ∧ a.sa_family ≠ AF_INET6) :
      Recorded little family e none
  | inet (a m : Sockaddr) (ha : e.ifa_addr = some a) (hm : e.ifa_netmask = some m)
      (hasked : Asked family a) (hfamily : a.sa_family = AF_INET) (prefix_len : BitVec 32)
      (hp : ∀ p, Stored m.inBytes p → prefix_len.toNat = p) :
      Recorded little family e (some (e.ifa_name, .ipv4 (a.toIn little), prefix_len))
  | inet6 (a m : Sockaddr) (ha : e.ifa_addr = some a) (hm : e.ifa_netmask = some m)
      (hasked : Asked family a) (hfamily : a.sa_family = AF_INET6) (prefix_len : BitVec 32)
      (hp : ∀ p, Stored m.in6Bytes p → prefix_len.toNat = p) :
      Recorded little family e (some (e.ifa_name, .ipv6 (a.toIn6 little), prefix_len))

lemma Stored.toNat_ones {n p : ℕ} {m : Fin n → BitVec 8} (hn : 8 * n < 2 ^ 32) (h : Stored m p) :
    (BitVec.ofNat 32 (∑ i, ones (m i))).toNat = p := by
  have hle := h.choose_spec.le
  rw [h.sum_ones, BitVec.toNat_ofNat, Nat.mod_eq_of_lt (by omega)]

/-- **What one round records.** -/
lemma recorded_of_record {x : Option Record} (h : record little family e = some x) :
    Recorded little family e x := by
  obtain ⟨a, ha⟩ : ∃ a, e.ifa_addr = some a := by
    cases ha : e.ifa_addr with
    | none => simp [record, ha] at h
    | some a => exact ⟨a, rfl⟩
  by_cases hasked : Asked family a
  · -- the netmask of an entry that counts is read, so it is there
    have hmask (hf : a.sa_family = AF_INET ∨ a.sa_family = AF_INET6) :
        ∃ m, e.ifa_netmask = some m := by
      cases hm : e.ifa_netmask with
      | none =>
        rw [record, ha, Option.bind_some, if_pos hasked, addrAndPrefix, hm] at h
        rcases hf with hf | hf
        · simp [hf] at h
        · simp [hf, AF_INET, AF_INET6] at h
      | some m => exact ⟨m, rfl⟩
    by_cases hin : a.sa_family = AF_INET
    · obtain ⟨m, hm⟩ := hmask (.inl hin)
      obtain rfl := Option.some.inj ((record_inet ha hm hasked little hin).symm.trans h)
      exact .inet a m ha hm hasked hin _ fun p hp => hp.toNat_ones (by decide)
    · by_cases hin6 : a.sa_family = AF_INET6
      · obtain ⟨m, hm⟩ := hmask (.inr hin6)
        obtain rfl := Option.some.inj ((record_inet6 ha hm hasked little hin6).symm.trans h)
        exact .inet6 a m ha hm hasked hin6 _ fun p hp => hp.toNat_ones (by decide)
      · rw [record, ha, Option.bind_some, if_pos hasked, addrAndPrefix, if_neg hin,
          if_neg hin6] at h
        obtain rfl := Option.some.inj h
        exact .skipped a ha fun _ => ⟨hin, hin6⟩
  · rw [record, ha, Option.bind_some, if_neg hasked] at h
    obtain rfl := Option.some.inj h
    exact .skipped a ha fun hn => absurd hn hasked

/-- **`CountBytes` counts the one bits, and the prefix length of an interface is the number of
leading ones of its netmask.** The result is what was there before and one record for each entry of
the families that count. -/
theorem netmask_prefix :
    (∀ {w : ℕ} (value : BitVec w), CountBytes value = BitVec.ofNat 32 (ones value) ∧
      (w < 2 ^ 32 → (CountBytes value).toNat = ones value)) ∧
    ∀ (little : Bool) (family : ℤ) (result : List Record) (ifas : List Ifaddrs),
      ((∀ e ∈ ifas, Complete family e) →
        ∃ r, GetInterfaceAddresses little family (some ifas) result = some r) ∧
      ∀ r, GetInterfaceAddresses little family (some ifas) result = some r →
        ∃ xs, List.Forall₂ (Recorded little family) ifas xs ∧
          r.2.Perm (result ++ xs.reduceOption) := by
  refine ⟨fun value => ⟨CountBytes_eq value, fun hw => ?_⟩, fun little family result ifas =>
    ⟨fun h => ?_, fun r hr => ?_⟩⟩
  · have hlt := Nat.lt_of_le_of_lt (ones_le value) hw
    rw [CountBytes_eq, BitVec.toNat_ofNat, Nat.mod_eq_of_lt hlt]
  · obtain ⟨out, hout⟩ := loop_of_complete little result h
    exact ⟨_, by rw [GetInterfaceAddresses, hout]; rfl⟩
  · obtain ⟨out, hout, rfl⟩ := Option.map_eq_some_iff.1 hr
    obtain ⟨xs, hxs, hperm⟩ := loop_perm hout
    exact ⟨xs, hxs.imp fun _ _ => recorded_of_record, hperm⟩

def Sockaddr.inet (x : Quad) : Sockaddr :=
  ⟨AF_INET, fun i => [0, 0, x.b0, x.b1, x.b2, x.b3].getD i 0⟩

/-- An interface 10.0.0.1 with the netmask 255.255.255.0. -/
def eth0 : Ifaddrs :=
  ⟨"eth0".toList, some (.inet ⟨10, 0, 0, 1⟩), some (.inet ⟨255, 255, 255, 0⟩)⟩

theorem netmask_prefix_eth0 :
    ∃ r, GetInterfaceAddresses true AF_UNSPEC (some [eth0]) [] = some r ∧
      ∃ prefix_len : BitVec 32, prefix_len.toNat = 24 ∧
        r.2 = [(eth0.ifa_name, .ipv4 ((Sockaddr.inet ⟨10, 0, 0, 1⟩).toIn true), prefix_len)] := by
  have hprefix := netmask_prefix.2 true AF_UNSPEC [] [eth0]
  obtain ⟨r, hr⟩ := hprefix.1 fun e he => by
    obtain rfl := List.mem_singleton.1 he
    exact ⟨_, rfl, fun _ _ => Option.some_ne_none _⟩
  have hmask : Stored (Sockaddr.inet ⟨255, 255, 255, 0⟩).inBytes 24 :=
    ⟨Equiv.refl _, by decide, by decide⟩
  obtain ⟨xs, hxs, hperm⟩ := hprefix.2 r hr
  obtain ⟨x, _, hrec, hnil, rfl⟩ := List.forall₂_cons_left_iff.1 hxs
  obtain rfl := List.forall₂_nil_left_iff.1 hnil
  refine ⟨r, hr, ?_⟩
  cases hrec with
  | skipped a ha hother =>
    cases ha
    exact absurd rfl (hother (Or.inl rfl)).1
  | inet a m ha hm hasked hfamily prefix_len hp =>
    cases ha
    cases hm
    exact ⟨prefix_len, hp 24 hmask, List.perm_singleton.1 hperm⟩
  | inet6 a m ha hm hasked hfamily =>
    cases ha
    exact absurd hfamily (by decide)

end Sylar.Interfaces
