import Sylar.HostSplit
import Sylar.Interfaces

/-!
Looking up the text of an address.

`getaddrinfo` is a parameter. Of it only what is documented of numeric hosts with numeric services
is used, for the flags that the code gives: each entry of the list is that address with that port.
-/

namespace Sylar.AddressLookup

open Lib.Ipv6 Lib.Masks Lib.Numeral Sylar.Subnet Sylar.AddressText Sylar.AddressCreate
open Sylar.HostSplit Sylar.Interfaces

def AI_NUMERICHOST : ℤ := 4

structure Hints where
  ai_flags : ℤ
  ai_family : ℤ
  ai_socktype : ℤ
  ai_protocol : ℤ

/-- What it returns, and the `ai_addr` of the entries. -/
abbrev Getaddrinfo := List Char → Option (List Char) → Hints → ℤ × List (Option Sockaddr)

namespace Address

variable (little : Bool) (getaddrinfo : Getaddrinfo)

def Create (addr : Option Sockaddr) : Option Address := addr.map (Interfaces.Create little)

/-- `Address::Lookup`, and what it makes of `result`. -/
def Lookup (result : List (Option Address)) (host : List Char) (family type protocol : ℤ) :
    Bool × List (Option Address) :=
  let (node, service) := lookupArgs host
  let (error, results) := getaddrinfo node service ⟨0, family, type, protocol⟩
  if error ≠ 0 then (false, result)
  else
    let result := result ++ results.map (Create little)
    (!result.isEmpty, result)

def LookupAny (host : List Char) (family type protocol : ℤ) : Option Address :=
  let (found, result) := Lookup little getaddrinfo [] host family type protocol
  if found then result.head?.join else none

end Address

namespace IPAddress

variable (little : Bool) (getaddrinfo : Getaddrinfo)

def cast : Option Address → Option Address
  | some (.ipv4 addr) => some (.ipv4 addr)
  | some (.ipv6 addr) => some (.ipv6 addr)
  | _ => none

def LookupAny (host : List Char) (family type protocol : ℤ) : Option Address :=
  let (found, result) := Address.Lookup little getaddrinfo [] host family type protocol
  if found then result.findSome? cast else none

def setPort (v : BitVec 16) : Address → Address
  | .ipv4 addr => .ipv4 { addr with sin_port := byteswapOnLittleEndian little v }
  | .ipv6 addr => .ipv6 { addr with sin6_port := byteswapOnLittleEndian little v }
  | a => a

/-- `IPAddress::Create`. There is no value where `results` is null and is read. -/
def Create (address : List Char) (port : BitVec 16) : Option (Option Address) :=
  let (error, results) := getaddrinfo address none ⟨AI_NUMERICHOST, AF_UNSPEC, 0, 0⟩
  if error ≠ 0 then some none
  else results.head?.map fun addr => (cast (Address.Create little addr)).map (setPort little port)

end IPAddress

/-! ### Numeric hosts -/

/-- A `sockaddr_in` with the address `x` and a port. -/
structure IsInet (x : Quad) (port : BitVec 16) (addr : Sockaddr) : Prop where
  family : addr.sa_family = AF_INET
  port : addr.sa_data 0 ++ addr.sa_data 1 = port
  address : addr.quad 2 = x

/-- A `sockaddr_in6` with the address of `a` and a port. -/
structure IsInet6 (a : SockaddrIn6) (port : BitVec 16) (addr : Sockaddr) : Prop where
  family : addr.sa_family = AF_INET6
  port : addr.sa_data 0 ++ addr.sa_data 1 = port
  flowinfo : addr.quad 2 = ⟨0, 0, 0, 0⟩
  address : addr.in6Bytes = a.s6_addr
  scope_id : addr.quad 22 = ⟨0, 0, 0, 0⟩

/-- There is no error, and there are entries, all of which are as `P` says. -/
structure Finds (r : ℤ × List (Option Sockaddr)) (P : Sockaddr → Prop) : Prop where
  error : r.1 = 0
  ne_nil : r.2 ≠ []
  all : ∀ p ∈ r.2, ∃ addr, p = some addr ∧ P addr

/-- What is documented of `getaddrinfo` for a numeric host and a numeric service or none, without
flags or with `AI_NUMERICHOST`. -/
structure Numeric (getaddrinfo : Getaddrinfo) : Prop where
  inet : ∀ (x : Quad) (port : Option (BitVec 16)) (flags family : ℤ),
    flags = 0 ∨ flags = AI_NUMERICHOST → family = AF_UNSPEC ∨ family = AF_INET.toNat →
    Finds (getaddrinfo x.dotted (port.map fun p => decimal p.toNat) ⟨flags, family, 0, 0⟩)
      (IsInet x (port.getD 0))
  inet6 : ∀ (t : List Char) (a : SockaddrIn6) (port : Option (BitVec 16)) (flags family : ℤ),
    parse t = some (IPv6Address.groups a) → flags = 0 ∨ flags = AI_NUMERICHOST →
    family = AF_UNSPEC ∨ family = AF_INET6.toNat →
    Finds (getaddrinfo t (port.map fun p => decimal p.toNat) ⟨flags, family, 0, 0⟩)
      (IsInet6 a (port.getD 0))

section Create

variable {little : Bool} {addr : Sockaddr} {port : BitVec 16}

lemma port_eq (h : addr.sa_data 0 ++ addr.sa_data 1 = port) :
    addr.port little = byteswapOnLittleEndian little port := by
  rw [← h, Sockaddr.port, byteswapOnLittleEndian]
  cases little with
  | false => rw [if_neg Bool.false_ne_true, if_neg Bool.false_ne_true]
  | true =>
    rw [if_pos rfl, if_pos rfl]
    exact (IPv6Address.byteswap_append (addr.sa_data 1) (addr.sa_data 0)).symm

lemma dword_zero (little : Bool) : Quad.dword little ⟨0, 0, 0, 0⟩ = 0 := by
  cases little <;> rfl

/-- The bytes of a number, the first of which is the highest. -/
def ofBytes (x : Quad) : BitVec 32 := x.b0 ++ x.b1 ++ x.b2 ++ x.b3

lemma exists_ofBytes (v : BitVec 32) : ∃ x, ofBytes x = v := by
  refine ⟨⟨v.extractLsb' 24 8, v.extractLsb' 16 8, v.extractLsb' 8 8, v.extractLsb' 0 8⟩, ?_⟩
  apply BitVec.eq_of_toNat_eq
  rw [ofBytes, toNat_append_byte, toNat_append_byte, toNat_append_byte]
  simp only [BitVec.extractLsb'_toNat, Nat.shiftRight_eq_div_pow]
  have hv := v.isLt
  omega

lemma exists_dword (little : Bool) (v : BitVec 32) : ∃ x : Quad, x.dword little = v := by
  obtain ⟨x, hx⟩ := exists_ofBytes v
  cases little with
  | false => exact ⟨x, hx⟩
  | true => exact ⟨⟨x.b3, x.b2, x.b1, x.b0⟩, hx⟩

lemma create_inet {x : Quad} (h : IsInet x port addr) : Create little addr =
    .ipv4 ⟨AF_INET, byteswapOnLittleEndian little port, x.dword little⟩ := by
  rw [Interfaces.Create, if_pos h.family, Sockaddr.toIn, h.family, port_eq h.port, h.address]

lemma create_inet6 {a : SockaddrIn6} (h : IsInet6 a port addr) : Create little addr =
    .ipv6 ⟨AF_INET6, byteswapOnLittleEndian little port, 0, a.s6_addr, 0⟩ := by
  have hne : ¬AF_INET6 = AF_INET := by decide
  rw [Interfaces.Create, h.family, if_neg hne, if_pos rfl, Sockaddr.toIn6, h.family,
    port_eq h.port, h.flowinfo, h.address, h.scope_id, dword_zero]

end Create

/-! ### What is found -/

section Found

variable {little : Bool} {getaddrinfo : Getaddrinfo} {host : List Char} {P : Sockaddr → Prop}
  {b : Address}

lemma lookup_of_finds {family : ℤ} {node : List Char} {service : Option (List Char)}
    (hargs : lookupArgs host = (node, service))
    (h : Finds (getaddrinfo node service ⟨0, family, 0, 0⟩) P)
    (hcreate : ∀ addr, P addr → Interfaces.Create little addr = b) :
    ∃ result, Address.Lookup little getaddrinfo [] host family 0 0 = (true, some b :: result) ∧
      ∀ p ∈ result, p = some b := by
  have hsame : ∀ p ∈ (getaddrinfo node service ⟨0, family, 0, 0⟩).2,
      Address.Create little p = some b := by
    intro p hp
    obtain ⟨addr, rfl, haddr⟩ := h.all p hp
    exact congrArg some (hcreate addr haddr)
  obtain ⟨p, ps, hps⟩ := List.exists_cons_of_ne_nil h.ne_nil
  rw [hps, List.forall_mem_cons] at hsame
  refine ⟨ps.map (Address.Create little), ?_, fun q hq => ?_⟩
  · simp only [Address.Lookup, hargs, h.error, hps, List.map_cons, hsame.1]
    rfl
  · obtain ⟨p, hp, rfl⟩ := List.mem_map.1 hq
    exact hsame.2 p hp

lemma lookupAny_of_finds {family : ℤ} {node : List Char} {service : Option (List Char)}
    (hargs : lookupArgs host = (node, service))
    (h : Finds (getaddrinfo node service ⟨0, family, 0, 0⟩) P)
    (hcreate : ∀ addr, P addr → Interfaces.Create little addr = b)
    (hcast : IPAddress.cast (some b) = some b) :
    Address.LookupAny little getaddrinfo host family 0 0 = some b ∧
      IPAddress.LookupAny little getaddrinfo host family 0 0 = some b := by
  obtain ⟨result, hresult, -⟩ := lookup_of_finds hargs h hcreate
  constructor
  · rw [Address.LookupAny, hresult]
    rfl
  · rw [IPAddress.LookupAny, hresult]
    simp only [if_true, List.findSome?_cons, hcast]

lemma create_of_finds {port : BitVec 16}
    (h : Finds (getaddrinfo host none ⟨AI_NUMERICHOST, AF_UNSPEC, 0, 0⟩) P)
    (hcreate : ∀ addr, P addr → Interfaces.Create little addr = b)
    (hcast : IPAddress.cast (some b) = some b) :
    IPAddress.Create little getaddrinfo host port =
      some (some (IPAddress.setPort little port b)) := by
  obtain ⟨p, ps, hps⟩ := List.exists_cons_of_ne_nil h.ne_nil
  obtain ⟨addr, rfl, haddr⟩ := h.all p (by simp [hps])
  have hb : Address.Create little (some addr) = some b := congrArg some (hcreate addr haddr)
  simp only [IPAddress.Create, h.error, hps, List.head?_cons, Option.map_some, hb, hcast]
  rfl

end Found

/-- What is read back of an address: its text says nothing of the flow and the scope. -/
def shown (a : SockaddrIn6) : SockaddrIn6 := { a with sin6_flowinfo := 0, sin6_scope_id := 0 }

lemma shown_eq_iff (a : SockaddrIn6) :
    shown a = a ↔ a.sin6_flowinfo = 0 ∧ a.sin6_scope_id = 0 := by
  obtain ⟨family, port, flowinfo, addr, scope_id⟩ := a
  simp only [shown, SockaddrIn6.mk.injEq, true_and]
  tauto

/-- Whichever way the text of an address is looked up, `b` is found: `text` with its port, or `host`
without it. -/
structure LeadsTo (little : Bool) (getaddrinfo : Getaddrinfo) (family : ℤ) (text host : List Char)
    (port : BitVec 16) (b : Address) : Prop where
  lookup : ∃ result, Address.Lookup little getaddrinfo [] text family 0 0 =
    (true, some b :: result) ∧ ∀ p ∈ result, p = some b
  lookupAny : Address.LookupAny little getaddrinfo text family 0 0 = some b
  lookupAnyIPAddress : IPAddress.LookupAny little getaddrinfo text family 0 0 = some b
  create : IPAddress.Create little getaddrinfo host port = some (some b)

section RoundTrip

variable {getaddrinfo : Getaddrinfo} (h : Numeric getaddrinfo) (little : Bool) {family : ℤ}
include h

lemma lookup_ipv4 (a : SockaddrIn) (ha : a.sin_family = AF_INET)
    (hfamily : family = AF_UNSPEC ∨ family = AF_INET.toNat) :
    LeadsTo little getaddrinfo family (IPv4Address.toString little a) (IPv4Address.text little a)
      (IPv4Address.getPort little a) (.ipv4 a) := by
  obtain ⟨x, hx⟩ := exists_dword little a.sin_addr
  have htext := text_dword little x hx.symm
  have hport : byteswapOnLittleEndian little (IPv4Address.getPort little a) = a.sin_port :=
    byteswapOnLittleEndian_self (by rfl) little a.sin_port
  have hmake : (⟨AF_INET, a.sin_port, x.dword little⟩ : SockaddrIn) = a := by rw [hx, ← ha]
  have hcreate : ∀ addr, IsInet x (IPv4Address.getPort little a) addr →
      Interfaces.Create little addr = .ipv4 a := fun addr haddr => by
    rw [create_inet haddr, hport, hmake]
  have hargs := lookupArgs_ipv4 little a
  rw [htext] at hargs ⊢
  have hfinds := h.inet x (some (IPv4Address.getPort little a)) 0 family (Or.inl rfl) hfamily
  have hlookup := lookupAny_of_finds hargs hfinds hcreate rfl
  refine ⟨lookup_of_finds hargs hfinds hcreate, hlookup.1, hlookup.2, ?_⟩
  rw [create_of_finds (h.inet x none AI_NUMERICHOST AF_UNSPEC (Or.inr rfl) (Or.inl rfl))
    (fun addr haddr => create_inet haddr) rfl, IPAddress.setPort, hport, hmake]

lemma lookup_ipv6 (a : SockaddrIn6) (ha : a.sin6_family = AF_INET6)
    (hfamily : family = AF_UNSPEC ∨ family = AF_INET6.toNat) :
    LeadsTo little getaddrinfo family (IPv6Address.toString little a) (IPv6Address.text little a)
      (IPv6Address.getPort little a) (.ipv6 (shown a)) := by
  have hparse := IPv6Address.parse_text little a
  have hport : byteswapOnLittleEndian little (IPv6Address.getPort little a) = a.sin6_port :=
    byteswapOnLittleEndian_self (by rfl) little a.sin6_port
  have hmake : (⟨AF_INET6, a.sin6_port, 0, a.s6_addr, 0⟩ : SockaddrIn6) = shown a := by
    rw [shown, ha]
  have hcreate : ∀ addr, IsInet6 a (IPv6Address.getPort little a) addr →
      Interfaces.Create little addr = .ipv6 (shown a) := fun addr haddr => by
    rw [create_inet6 haddr, hport, hmake]
  have hargs := lookupArgs_ipv6 little a
  have hfinds := h.inet6 _ a (some (IPv6Address.getPort little a)) 0 family hparse (Or.inl rfl)
    hfamily
  have hlookup := lookupAny_of_finds hargs hfinds hcreate rfl
  refine ⟨lookup_of_finds hargs hfinds hcreate, hlookup.1, hlookup.2, ?_⟩
  rw [create_of_finds (h.inet6 _ a none AI_NUMERICHOST AF_UNSPEC hparse (Or.inr rfl) (Or.inl rfl))
    (fun addr haddr => create_inet6 haddr) rfl, IPAddress.setPort, hport, hmake]

end RoundTrip

/-- **The text of an address leads back to it**, but for the flow and the scope of an IPv6 address,
if any family or its own is asked for, and no type or protocol. -/
theorem lookup_toString {getaddrinfo : Getaddrinfo} (h : Numeric getaddrinfo) (little : Bool) :
    (∀ (a : SockaddrIn) (family : ℤ), a.sin_family = AF_INET →
      family = AF_UNSPEC ∨ family = AF_INET.toNat →
      LeadsTo little getaddrinfo family (IPv4Address.toString little a)
        (IPv4Address.text little a) (IPv4Address.getPort little a) (.ipv4 a)) ∧
    ∀ (a : SockaddrIn6) (family : ℤ), a.sin6_family = AF_INET6 →
      family = AF_UNSPEC ∨ family = AF_INET6.toNat →
      ∃ b, LeadsTo little getaddrinfo family (IPv6Address.toString little a)
          (IPv6Address.text little a) (IPv6Address.getPort little a) (.ipv6 b) ∧
        IPv6Address.toString little b = IPv6Address.toString little a ∧
        (b = a ↔ a.sin6_flowinfo = 0 ∧ a.sin6_scope_id = 0) :=
  ⟨fun a _ ha hfamily => lookup_ipv4 h little a ha hfamily,
    fun a _ ha hfamily => ⟨shown a, lookup_ipv6 h little a ha hfamily, rfl, shown_eq_iff a⟩⟩

/-! ### A `getaddrinfo` for numeric hosts -/

namespace Numeric

def head (port : BitVec 16) : List (BitVec 8) := [port.extractLsb' 8 8, port.extractLsb' 0 8]

def sockaddrIn (x : Quad) (port : BitVec 16) : Sockaddr :=
  ⟨AF_INET, fun i => (head port ++ [x.b0, x.b1, x.b2, x.b3]).getD i 0⟩

def byteOf (gs : List ℕ) (j : ℕ) : BitVec 8 :=
  BitVec.ofNat 8 (if j % 2 = 0 then gs.getD (j / 2) 0 / 256 else gs.getD (j / 2) 0)

def sockaddrIn6 (gs : List ℕ) (port : BitVec 16) : Sockaddr where
  sa_family := AF_INET6
  sa_data i := if i < 2 then (head port).getD i 0
    else if 6 ≤ i ∧ i < 22 then byteOf gs (i - 6) else 0

def asks (hints : Hints) (family : BitVec 16) : Bool :=
  hints.ai_family = AF_UNSPEC || hints.ai_family = family.toNat

/-- `EAI_NONAME` for all that is not numeric. -/
def getaddrinfo (node : List Char) (service : Option (List Char)) (hints : Hints) :
    ℤ × List (Option Sockaddr) :=
  let port := BitVec.ofNat 16 (((service.bind (read 10)).getD 0))
  if ':' ∈ node then
    match parse node with
    | some gs => if asks hints AF_INET6 then (0, [some (sockaddrIn6 gs port)]) else (-2, [])
    | none => (-2, [])
  else
    match (inetPton node).2 with
    | some x => if asks hints AF_INET then (0, [some (sockaddrIn x port)]) else (-2, [])
    | none => (-2, [])

lemma head_eq (port : BitVec 16) :
    port.extractLsb' 8 8 ++ port.extractLsb' 0 8 = (port : BitVec (8 + 8)) := by
  apply BitVec.eq_of_toNat_eq
  rw [toNat_append_byte]
  simp only [BitVec.extractLsb'_toNat, Nat.shiftRight_eq_div_pow]
  have hport := port.isLt
  omega

lemma isInet_sockaddrIn (x : Quad) (port : BitVec 16) : IsInet x port (sockaddrIn x port) :=
  ⟨rfl, head_eq port, rfl⟩

lemma byteOf_groups (a : SockaddrIn6) (i : Fin 16) :
    byteOf (IPv6Address.groups a) i = a.s6_addr i := by
  have hi : (i : ℕ) / 2 < 8 := by omega
  have hget : (IPv6Address.groups a).getD (i / 2) 0 =
      256 * (IPv6Address.byte a (2 * (i / 2))).toNat +
        (IPv6Address.byte a (2 * (i / 2) + 1)).toNat := by
    rw [IPv6Address.groups, List.getD_eq_getElem?_getD, List.getElem?_map,
      List.getElem?_range' hi]
    simp
  have hlow := (IPv6Address.byte a (2 * (i / 2) + 1)).isLt
  rw [byteOf, hget, ← IPv6Address.byte_coe]
  apply BitVec.eq_of_toNat_eq
  rw [BitVec.toNat_ofNat]
  split
  case isTrue heven =>
    have hdouble : 2 * ((i : ℕ) / 2) = i := by omega
    have hhigh := (IPv6Address.byte a i).isLt
    rw [hdouble] at hlow ⊢
    omega
  case isFalse hodd =>
    have hdouble : 2 * ((i : ℕ) / 2) + 1 = i := by omega
    rw [hdouble] at hlow ⊢
    omega

lemma isInet6_sockaddrIn6 (a : SockaddrIn6) (port : BitVec 16) :
    IsInet6 a port (sockaddrIn6 (IPv6Address.groups a) port) where
  family := rfl
  port := head_eq port
  flowinfo := rfl
  address := by
    funext i
    have hi : ¬6 + (i : ℕ) < 2 := by omega
    have hin : 6 ≤ 6 + (i : ℕ) ∧ 6 + (i : ℕ) < 22 := by omega
    rw [Sockaddr.in6Bytes, sockaddrIn6]
    simp only [hi, if_false, hin, and_self, if_true, Nat.add_sub_cancel_left, byteOf_groups]
  scope_id := rfl

lemma colon_mem_of_parse {t : List Char} {gs : List ℕ} (h : parse t = some gs) : ':' ∈ t := by
  by_contra hcolon
  have hpair : NoPair t := fun u v ht => hcolon (by simp [ht])
  rw [parse, cut_eq_none hpair] at h
  obtain ⟨hgroups, hlen⟩ := Option.filter_eq_some_iff.1 h
  rw [groups] at hgroups
  split at hgroups
  case isTrue =>
    cases hgroups
    simp at hlen
  case isFalse =>
    rw [List.splitOn_eq_singleton hcolon] at hgroups
    cases hgroup : group t with
    | none => simp [hgroup] at hgroups
    | some n =>
      obtain rfl : [n] = gs := by simpa [hgroup] using hgroups
      simp at hlen

lemma colon_not_mem_dotted (x : Quad) : ':' ∉ x.dotted := by
  have hcolon : ∀ n, ':' ∉ decimal n := not_mem_decimal (by decide)
  simp [Quad.dotted, hcolon]

lemma port_service (port : Option (BitVec 16)) :
    BitVec.ofNat 16 (((port.map fun p => decimal p.toNat).bind (read 10)).getD 0) =
      port.getD 0 := by
  cases port with
  | none => rfl
  | some p =>
    rw [Option.map_some, Option.bind_some, read_toDigits (by decide) (by decide)]
    simp

lemma finds_single {P : Sockaddr → Prop} {addr : Sockaddr} (h : P addr) :
    Finds (0, [some addr]) P :=
  ⟨rfl, List.cons_ne_nil _ _, fun _ hp => ⟨addr, List.mem_singleton.1 hp, h⟩⟩

lemma numeric_getaddrinfo : Numeric getaddrinfo where
  inet x port flags family _ hfamily := by
    have hasks : asks ⟨flags, family, 0, 0⟩ AF_INET = true := by
      rcases hfamily with rfl | rfl <;> simp [asks]
    simp only [getaddrinfo, port_service, colon_not_mem_dotted, if_false, inetPton_dotted, hasks,
      if_true]
    exact finds_single (isInet_sockaddrIn x _)
  inet6 t a port flags family hparse _ hfamily := by
    have hasks : asks ⟨flags, family, 0, 0⟩ AF_INET6 = true := by
      rcases hfamily with rfl | rfl <;> simp [asks]
    simp only [getaddrinfo, port_service, colon_mem_of_parse hparse, if_true, hparse, hasks]
    exact finds_single (isInet6_sockaddrIn6 a _)

end Numeric

/-- The addresses `127.0.0.1:80` and `[::]:443`. -/
theorem lookup_toString_numeric :
    Address.LookupAny true Numeric.getaddrinfo "127.0.0.1:80".toList AF_UNSPEC 0 0 =
      some (.ipv4 (IPv4Address.make true 0x7f000001 80)) ∧
    ∃ b, Address.LookupAny true Numeric.getaddrinfo "[::]:443".toList AF_UNSPEC 0 0 =
      some (.ipv6 b) := by
  have h := lookup_toString Numeric.numeric_getaddrinfo true
  have h4 := h.1 (IPv4Address.make true 0x7f000001 80) AF_UNSPEC rfl (Or.inl rfl)
  obtain ⟨b, h6, -⟩ := h.2 ⟨AF_INET6, 0xbb01, 0, fun _ => 0, 0⟩ AF_UNSPEC rfl (Or.inl rfl)
  have htext4 : IPv4Address.toString true (IPv4Address.make true 0x7f000001 80) =
      "127.0.0.1:80".toList := by decide +kernel
  have htext6 : IPv6Address.toString true ⟨AF_INET6, 0xbb01, 0, fun _ => 0, 0⟩ =
      "[::]:443".toList := by decide +kernel
  exact ⟨htext4 ▸ h4.lookupAny, b, htext6 ▸ h6.lookupAny⟩

end Sylar.AddressLookup
