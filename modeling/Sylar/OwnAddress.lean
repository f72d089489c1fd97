import Sylar.AddressCreate

/-!
The address that `GetIPv4Inet` takes for its own.
-/

namespace Sylar.OwnAddress

open Sylar.Subnet Sylar.AddressCreate

structure Sockaddr where
  sa_family : BitVec 16
  /-- What stands at `sin_addr.s_addr`. -/
  s_addr : BitVec 32

/-- An entry of the list that `getifaddrs` gives. -/
structure Ifaddrs where
  ifa_name : List Char
  ifa_addr : Option Sockaddr

def localhost (little : Bool) : BitVec 32 := Quad.dword little ⟨127, 0, 0, 1⟩

/-- `strncasecmp` gives 0: the strings agree in any case, up to `n` characters. -/
def strncasecmp : List Char → List Char → ℕ → Bool
  | _, _, 0 => true
  | c :: s, d :: t, n + 1 => c.toLower == d.toLower && strncasecmp s t n
  | [], [], _ + 1 => true
  | _, _, _ + 1 => false

/-- The loop. Whether the address is `localhost` is asked only after it has been assigned. -/
def loop (ipv4 : BitVec 32) : List Ifaddrs → BitVec 32
  | [] => ipv4
  | ifa :: ifas =>
    match ifa.ifa_addr with
    | none => ipv4
    | some addr =>
      if addr.sa_family ≠ AF_INET then loop ipv4 ifas
      else if strncasecmp ifa.ifa_name "lo".toList 2 then loop ipv4 ifas
      else loop addr.s_addr ifas

/-- `GetIPv4Inet`, where `getifaddrs` may fail. -/
def GetIPv4Inet (little : Bool) (getifaddrs : Option (List Ifaddrs)) : BitVec 32 :=
  match getifaddrs with
  | none => localhost little
  | some ifas => loop (localhost little) ifas

/-! ### What is to be returned -/

/-- An IPv4 address other than 127.0.0.1, of an interface that is no loopback interface. -/
structure Eligible (little : Bool) (lo : List Char → Prop) (ifa : Ifaddrs) (x : BitVec 32) :
    Prop where
  addr : ifa.ifa_addr = some ⟨AF_INET, x⟩
  name : ¬lo ifa.ifa_name
  ne : x ≠ localhost little

/-- `x` is such an address, or 127.0.0.1 where there is none. -/
def Own (little : Bool) (lo : List Char → Prop) (ifas : List Ifaddrs) (x : BitVec 32) : Prop :=
  (∃ ifa ∈ ifas, Eligible little lo ifa x) ∨
    (∀ ifa ∈ ifas, ∀ y, ¬Eligible little lo ifa y) ∧ x = localhost little

def StartsLo (name : List Char) : Prop := "lo".toList <+: name

def StartsLoAnyCase (name : List Char) : Prop := strncasecmp name "lo".toList 2

/-! ### The last entry that counts -/

variable {little : Bool} {lo : List Char → Prop} {ifas : List Ifaddrs}

/-- The address that the loop takes from an entry. -/
def taken (ifa : Ifaddrs) : Option (BitVec 32) :=
  if strncasecmp ifa.ifa_name "lo".toList 2 then none
  else (ifa.ifa_addr.filter fun addr => addr.sa_family = AF_INET).map Sockaddr.s_addr

/-- The addresses that are taken before the first entry without one. -/
def candidates (ifas : List Ifaddrs) : List (BitVec 32) :=
  (ifas.takeWhile fun ifa => ifa.ifa_addr.isSome).filterMap taken

lemma candidates_cons {ifa : Ifaddrs} {addr : Sockaddr} (h : ifa.ifa_addr = some addr) :
    candidates (ifa :: ifas) = (taken ifa).toList ++ candidates ifas := by
  rw [candidates, List.takeWhile_cons_of_pos (by simp [h]), List.filterMap_cons]
  cases taken ifa <;> rfl

lemma loop_eq (ipv4 : BitVec 32) (ifas : List Ifaddrs) :
    loop ipv4 ifas = (candidates ifas).getLast?.getD ipv4 := by
  induction ifas generalizing ipv4 with
  | nil => rfl
  | cons ifa ifas ih =>
    cases haddr : ifa.ifa_addr with
    | none => simp [loop, candidates, haddr]
    | some addr =>
      simp only [candidates_cons haddr, loop, haddr]
      by_cases hfamily : addr.sa_family = AF_INET
      · by_cases hlo : strncasecmp ifa.ifa_name "lo".toList 2
        · have hnone : taken ifa = none := if_pos hlo
          rw [if_neg (not_not.2 hfamily), if_pos hlo, ih, hnone]
          rfl
        · have hsome : taken ifa = some addr.s_addr := by
            rw [taken, if_neg hlo, haddr]
            simp [hfamily]
          rw [if_neg (not_not.2 hfamily), if_neg hlo, ih, hsome, Option.toList_some,
            List.singleton_append, List.getLast?_cons]
          cases (candidates ifas).getLast? <;> rfl
      · have hnone : taken ifa = none := by simp [taken, haddr, hfamily]
        rw [if_pos hfamily, ih, hnone]
        rfl

/-- An address that is taken is eligible if it is not 127.0.0.1. -/
lemma eligible_of_mem (hlo : ∀ name, lo name → StartsLoAnyCase name) {x : BitVec 32}
    (hx : x ∈ candidates ifas) (hne : x ≠ localhost little) :
    ∃ ifa ∈ ifas, Eligible little lo ifa x := by
  obtain ⟨ifa, hifa, htaken⟩ := List.mem_filterMap.1 hx
  refine ⟨ifa, (List.takeWhile_sublist _).subset hifa, ?_⟩
  rw [taken] at htaken
  split at htaken
  case isTrue => cases htaken
  case isFalse hname =>
    obtain ⟨addr, haddr, rfl⟩ := Option.map_eq_some_iff.1 htaken
    obtain ⟨haddr, hfamily⟩ := Option.filter_eq_some_iff.1 haddr
    refine ⟨?_, fun h => hname (hlo _ h), hne⟩
    rw [haddr, ← of_decide_eq_true hfamily]

lemma own_loop_iff (hlo : ∀ name, lo name → StartsLoAnyCase name) :
    Own little lo ifas (GetIPv4Inet little (some ifas)) ↔
      (∀ ifa ∈ ifas, ∀ y, ¬Eligible little lo ifa y) ∨
        ∃ x, (candidates ifas).getLast? = some x ∧ x ≠ localhost little := by
  have hloop := loop_eq (localhost little) ifas
  cases hlast : (candidates ifas).getLast? with
  | none =>
    rw [hlast, Option.getD_none] at hloop
    rw [GetIPv4Inet, hloop]
    constructor
    · rintro (⟨ifa, -, h⟩ | ⟨hnone, -⟩)
      · exact absurd rfl h.ne
      · exact Or.inl hnone
    · rintro (hnone | ⟨x, hx, -⟩)
      · exact Or.inr ⟨hnone, rfl⟩
      · cases hx
  | some x =>
    rw [hlast, Option.getD_some] at hloop
    rw [GetIPv4Inet, hloop]
    constructor
    · rintro (⟨ifa, -, h⟩ | ⟨hnone, -⟩)
      · exact Or.inr ⟨x, rfl, h.ne⟩
      · exact Or.inl hnone
    · by_cases hne : x = localhost little
      · rintro (hnone | ⟨y, hy, hy'⟩)
        · exact Or.inr ⟨hnone, hne⟩
        · cases hy
          exact absurd hne hy'
      · exact fun _ => Or.inl (eligible_of_mem hlo (List.mem_of_getLast? hlast) hne)

lemma startsLoAnyCase_of_startsLo {name : List Char} (h : StartsLo name) :
    StartsLoAnyCase name := by
  obtain ⟨t, rfl⟩ := h
  simp [StartsLoAnyCase, strncasecmp]

/-- **The own address is returned if and only if there is none, or the last address that is taken is
not 127.0.0.1**, whether or not the case of the name matters. -/
theorem GetIPv4Inet_own_iff (little : Bool) (ifas : List Ifaddrs) :
    (Own little StartsLo ifas (GetIPv4Inet little (some ifas)) ↔
      (∀ ifa ∈ ifas, ∀ y, ¬Eligible little StartsLo ifa y) ∨
        ∃ x, (candidates ifas).getLast? = some x ∧ x ≠ localhost little) ∧
    (Own little StartsLoAnyCase ifas (GetIPv4Inet little (some ifas)) ↔
      (∀ ifa ∈ ifas, ∀ y, ¬Eligible little StartsLoAnyCase ifa y) ∨
        ∃ x, (candidates ifas).getLast? = some x ∧ x ≠ localhost little) :=
  ⟨own_loop_iff fun _ h => startsLoAnyCase_of_startsLo h, own_loop_iff fun _ h => h⟩

/-- A point-to-point interface without an address hides the interfaces behind it. -/
def behindNull : List Ifaddrs :=
  [⟨"tun0".toList, none⟩, ⟨"eth0".toList, some ⟨AF_INET, Quad.dword true ⟨10, 0, 0, 1⟩⟩⟩]

theorem behindNull_lost :
    GetIPv4Inet true (some behindNull) = localhost true ∧
    ¬Own true StartsLo behindNull (GetIPv4Inet true (some behindNull)) ∧
    ¬Own true StartsLoAnyCase behindNull (GetIPv4Inet true (some behindNull)) := by
  have hname : ¬StartsLoAnyCase "eth0".toList := by
    unfold StartsLoAnyCase
    decide
  have hne : Quad.dword true ⟨10, 0, 0, 1⟩ ≠ localhost true := by decide
  have hlost : ∀ lo : List Char → Prop, (¬lo "eth0".toList) →
      ¬Own true lo behindNull (localhost true) := by
    rintro lo hlo (⟨ifa, -, h⟩ | ⟨hnone, -⟩)
    · exact h.ne rfl
    · exact hnone _ (List.mem_cons_of_mem _ List.mem_cons_self) _ ⟨rfl, hlo, hne⟩
  exact ⟨rfl, hlost _ fun h => hname (startsLoAnyCase_of_startsLo h), hlost _ hname⟩

end Sylar.OwnAddress
