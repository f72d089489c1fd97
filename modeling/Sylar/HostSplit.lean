import Sylar.AddressText
import Sylar.Lib.Memory

/-!
The host and the service that `Address::Lookup` asks for.
-/

namespace Sylar.HostSplit

open Lib.Memory Lib.Numeral Sylar.Subnet Sylar.AddressText

def cStr (host : List Char) : List Char := host ++ ['\x00']

/-- The scan for brackets, which sets `node` and `service`; a pointer is a place in the buffer. -/
def scanBracket (host : List Char) : List Char × Option ℕ :=
  if host.head? = some '[' then
    match memchr (cStr host) 1 (host.length - 1) ']' with
    | some endipv6 =>
      ((host.drop 1).take (endipv6 - 1),
        if (cStr host)[endipv6 + 1]? = some ':' then some (endipv6 + 2) else none)
    | none => ([], none)
  else ([], none)

def scanColon (host : List Char) : List Char × Option ℕ :=
  match memchr (cStr host) 0 host.length ':' with
  | some service =>
    if memchr (cStr host) (service + 1) (host.length - service - 1) ':' = none then
      (host.take service, some (service + 1))
    else ([], some service)
  | none => ([], none)

def lookupArgs (host : List Char) : List Char × Option (List Char) :=
  let p := if (scanBracket host).1 = [] then scanColon host else scanBracket host
  let node := if p.1 = [] then host else p.1
  (cstr '\x00' node, p.2.map fun service => cstr '\x00' ((cStr host).drop service))

/-! ### How a host is to be split -/

/-- A non-empty text in brackets at the start of the host. -/
structure Bracketed (host x tail : List Char) : Prop where
  ne_nil : x ≠ []
  inner : ']' ∉ x
  eq : host = '[' :: x ++ ']' :: tail

inductive Splits (host : List Char) : List Char → Option (List Char) → Prop
  | bracketService {x rest : List Char} (h : Bracketed host x (':' :: rest)) :
      Splits host x (some rest)
  | bracket {x tail : List Char} (h : Bracketed host x tail) (htail : tail.head? ≠ some ':') :
      Splits host x none
  | colon {x rest : List Char} (hb : ∀ x tail, ¬Bracketed host x tail) (ne_nil : x ≠ [])
      (one : host.count ':' = 1) (eq : host = x ++ ':' :: rest) : Splits host x (some rest)
  | whole (hb : ∀ x tail, ¬Bracketed host x tail)
      (hno : ¬∃ x rest, x ≠ [] ∧ host.count ':' = 1 ∧ host = x ++ ':' :: rest) :
      Splits host host none

/-! ### The scans -/

variable {host x rest tail : List Char}

lemma cStr_take (host : List Char) (p : ℕ) :
    ((cStr host).drop p).take (host.length - p) = host.drop p := by
  rw [cStr, List.drop_append, List.take_append, List.length_drop, Nat.sub_self, List.take_zero,
    List.append_nil]
  exact List.take_of_length_le (Nat.le_of_eq List.length_drop)

lemma cStr_take_length (host : List Char) : ((cStr host).drop 0).take host.length = host :=
  cStr_take host 0

lemma cStr_drop (u v : List Char) : (cStr (u ++ v)).drop u.length = cStr v := by
  rw [cStr, cStr, List.append_assoc, List.drop_left]

lemma cStr_getElem_behind (u v : List Char) :
    (cStr (u ++ v))[u.length]? = some ':' ↔ v.head? = some ':' := by
  rw [cStr, List.append_assoc, List.getElem?_append_right (Nat.le_refl _), Nat.sub_self]
  cases v <;> simp

lemma scanBracket_of_eq (hx : ']' ∉ x) (h : host = '[' :: x ++ ']' :: tail) :
    scanBracket host = (x, if tail.head? = some ':' then some (x.length + 3) else none) := by
  have hscan : memchr (cStr host) 1 (host.length - 1) ']' = some (x.length + 1) := by
    rw [Nat.add_comm]
    exact memchr_eq_some ((cStr_take host 1).trans (by rw [h]; rfl)) hx
  have hnext : (cStr host)[x.length + 1 + 1]? = some ':' ↔ tail.head? = some ':' := by
    have hsplit : host = ('[' :: x ++ [']']) ++ tail := by simp [h]
    have hbehind := cStr_getElem_behind ('[' :: x ++ [']']) tail
    rw [hsplit]
    simpa using hbehind
  have hhead : host.head? = some '[' := by
    rw [h]
    rfl
  rw [scanBracket, if_pos hhead, hscan]
  simp only [hnext]
  simp [h]

lemma scanBracket_of_not (h : ∀ x tail, ¬Bracketed host x tail) : (scanBracket host).1 = [] := by
  by_cases hhead : host.head? = some '['
  · obtain ⟨s, rfl⟩ := List.head?_eq_some_iff.1 hhead
    by_cases hmem : ']' ∈ s
    · obtain ⟨x, tail, rfl, hx⟩ := List.eq_append_cons_of_mem hmem
      have hnil : x = [] := by
        by_contra hne
        exact h x tail ⟨hne, hx, rfl⟩
      exact (congrArg Prod.fst (scanBracket_of_eq hx rfl)).trans hnil
    · rw [scanBracket, if_pos hhead, memchr_eq_none (cStr_take ('[' :: s) 1) hmem]
  · rw [scanBracket, if_neg hhead]

lemma scanColon_none (h : ':' ∉ host) : scanColon host = ([], none) := by
  rw [scanColon, memchr_eq_none (cStr_take_length host) h]

lemma scanColon_some (hx : ':' ∉ x) (h : host = x ++ ':' :: rest) :
    scanColon host =
      if ':' ∉ rest then (x, some (x.length + 1)) else ([], some x.length) := by
  have hscan : memchr (cStr host) 0 host.length ':' = some x.length := by
    rw [memchr_eq_some ((cStr_take_length host).trans h) hx, Nat.zero_add]
  have hbehind : ((cStr host).drop (x.length + 1)).take (host.length - x.length - 1) = rest := by
    rw [Nat.sub_sub, cStr_take, h]
    simp
  rw [scanColon, hscan]
  simp only [memchr_eq_none_iff hbehind]
  simp [h]

/-! ### The arguments -/

lemma cstr_drop {u v : List Char} (hnul : '\x00' ∉ u ++ v) :
    cstr '\x00' ((cStr (u ++ v)).drop u.length) = v := by
  rw [cStr_drop, cStr, cstr_append fun hmem => hnul (List.mem_append_right u hmem)]

lemma lookupArgs_of_bracketed (hnul : '\x00' ∉ host) (h : Bracketed host x tail) :
    lookupArgs host = (x, if tail.head? = some ':' then some (tail.drop 1) else none) := by
  have hscan := scanBracket_of_eq h.inner h.eq
  have hx : '\x00' ∉ x := fun hmem => hnul (by simp [h.eq, hmem])
  rw [lookupArgs, hscan, if_neg h.ne_nil]
  simp only [if_neg h.ne_nil, cstr_eq_self hx]
  split
  case isFalse => rfl
  case isTrue hhead =>
    obtain ⟨rest, rfl⟩ := List.head?_eq_some_iff.1 hhead
    have hsplit : host = ('[' :: x ++ "]:".toList) ++ rest := by simp [h.eq]
    have hdrop := cstr_drop (hsplit ▸ hnul)
    rw [← hsplit] at hdrop
    simpa using hdrop

section Unbracketed

variable (hnul : '\x00' ∉ host) (hb : ∀ x tail, ¬Bracketed host x tail)
include hnul hb

lemma lookupArgs_none (h : ':' ∉ host) : lookupArgs host = (host, none) := by
  rw [lookupArgs, if_pos (scanBracket_of_not hb), scanColon_none h]
  simp [cstr_eq_self hnul]

lemma lookupArgs_one (hx : ':' ∉ x) (hrest : ':' ∉ rest) (hne : x ≠ [])
    (h : host = x ++ ':' :: rest) : lookupArgs host = (x, some rest) := by
  have hnul' : '\x00' ∉ x := fun hmem => hnul (by simp [h, hmem])
  have hsplit : host = (x ++ [':']) ++ rest := by simp [h]
  have hdrop := cstr_drop (hsplit ▸ hnul)
  rw [← hsplit, List.length_append, List.length_singleton] at hdrop
  rw [lookupArgs, if_pos (scanBracket_of_not hb), scanColon_some hx h, if_pos hrest]
  simp only [if_neg hne, cstr_eq_self hnul', Option.map_some, hdrop]

/-- The pointer to the first of several colons is passed on. -/
lemma lookupArgs_many (hx : ':' ∉ x) (hrest : ':' ∈ rest) (h : host = x ++ ':' :: rest) :
    lookupArgs host = (host, some (':' :: rest)) := by
  have hdrop := cstr_drop (h ▸ hnul)
  rw [← h] at hdrop
  rw [lookupArgs, if_pos (scanBracket_of_not hb), scanColon_some hx h, if_neg (not_not.2 hrest)]
  simp only [if_true, cstr_eq_self hnul, Option.map_some, hdrop]

end Unbracketed

lemma count_colon (hx : ':' ∉ x) (h : host = x ++ ':' :: rest) :
    host.count ':' = rest.count ':' + 1 := by
  rw [h, List.count_append, List.count_eq_zero.2 hx, List.count_cons_self, Nat.zero_add]

lemma lookupArgs_bracket_service (hnul : '\x00' ∉ host) (h : Bracketed host x (':' :: rest)) :
    lookupArgs host = (x, some rest) := by
  simpa using lookupArgs_of_bracketed hnul h

/-- With several colons outside of brackets there is a service, although there should be none. -/
lemma not_splits_many (hnul : '\x00' ∉ host) (hb : ∀ x tail, ¬Bracketed host x tail)
    (hcount : 2 ≤ host.count ':') : ¬Splits host (lookupArgs host).1 (lookupArgs host).2 := by
  have hmem : ':' ∈ host := List.count_pos_iff.1 (by omega)
  obtain ⟨x, rest, h, hx⟩ := List.eq_append_cons_of_mem hmem
  have hmany := count_colon hx h
  rw [lookupArgs_many hnul hb hx (List.count_pos_iff.1 (by omega)) h]
  generalize hservice : some (':' :: rest) = service
  intro hs
  cases hs with
  | bracketService h => exact hb _ _ h
  | bracket h _ => exact hb _ _ h
  | colon _ _ one _ => omega
  | whole => cases hservice

/-- The host is split as it is to be, unless it has several colons and no brackets. -/
lemma splits_iff (hnul : '\x00' ∉ host) (hcolon : host.head? ≠ some ':') :
    Splits host (lookupArgs host).1 (lookupArgs host).2 ↔
      (∃ x tail, Bracketed host x tail) ∨ host.count ':' ≤ 1 := by
  by_cases hb : ∃ x tail, Bracketed host x tail
  · refine iff_of_true ?_ (Or.inl hb)
    obtain ⟨x, tail, h⟩ := hb
    rw [lookupArgs_of_bracketed hnul h]
    by_cases htail : tail.head? = some ':'
    · obtain ⟨rest, rfl⟩ := List.head?_eq_some_iff.1 htail
      exact Splits.bracketService h
    · rw [if_neg htail]
      exact Splits.bracket h htail
  · have hnot : ∀ x tail, ¬Bracketed host x tail := fun x tail h => hb ⟨x, tail, h⟩
    rw [or_iff_right hb]
    constructor
    · intro h
      by_contra hcount
      exact not_splits_many hnul hnot (by omega) h
    · intro hcount
      by_cases hmem : ':' ∈ host
      · obtain ⟨x, rest, h, hx⟩ := List.eq_append_cons_of_mem hmem
        have hone := count_colon hx h
        have hne : x ≠ [] := by
          rintro rfl
          exact hcolon (by rw [h]; rfl)
        rw [lookupArgs_one hnul hnot hx (List.count_eq_zero.1 (by omega)) hne h]
        exact Splits.colon hnot hne (by omega) h
      · rw [lookupArgs_none hnul hnot hmem]
        refine Splits.whole hnot ?_
        rintro ⟨x, rest, -, hone, -⟩
        exact hmem (List.count_pos_iff.1 (by omega))

/-! ### The texts of addresses -/

lemma not_mem_ipv4Text {c : Char} (hc : digit c = none) (hdot : c ≠ '.') (little : Bool)
    (a : SockaddrIn) : c ∉ IPv4Address.text little a := by
  simp only [IPv4Address.text, List.mem_append, List.mem_cons, not_or]
  simp only [not_mem_decimal hc, hdot, not_false_eq_true, and_self]

lemma lookupArgs_ipv4 (little : Bool) (a : SockaddrIn) :
    lookupArgs (IPv4Address.toString little a) =
      (IPv4Address.text little a, some (decimal (IPv4Address.getPort little a).toNat)) := by
  have hmem : ∀ c, digit c = none → c ≠ '.' → c ≠ ':' → c ∉ IPv4Address.toString little a := by
    intro c hc hdot hcolon
    rw [IPv4Address.toString, List.mem_append, List.mem_cons]
    simp only [not_mem_ipv4Text hc hdot, not_mem_decimal hc, hcolon, or_self, not_false_eq_true]
  have hb : ∀ x tail, ¬Bracketed (IPv4Address.toString little a) x tail := fun x tail h =>
    hmem '[' (by decide) (by decide) (by decide) (by simp [h.eq])
  have hne : IPv4Address.text little a ≠ [] := by simp [IPv4Address.text]
  exact lookupArgs_one (hmem '\x00' (by decide) (by decide) (by decide)) hb
    (not_mem_ipv4Text (by decide) (by decide) little a) (not_mem_decimal (by decide) _) hne rfl

lemma lookupArgs_ipv6 (little : Bool) (a : SockaddrIn6) :
    lookupArgs (IPv6Address.toString little a) =
      (IPv6Address.text little a, some (decimal (IPv6Address.getPort little a).toNat)) := by
  have htext : '\x00' ∉ IPv6Address.text little a :=
    IPv6Address.not_mem_render (by decide) (by decide)
  have hport : '\x00' ∉ decimal (IPv6Address.getPort little a).toNat :=
    not_mem_decimal (by decide) _
  have hnul : '\x00' ∉ IPv6Address.toString little a := by
    simp [IPv6Address.toString, htext, hport]
  have hne : IPv6Address.text little a ≠ [] := by
    intro hnil
    have hparse := IPv6Address.parse_text little a
    rw [hnil] at hparse
    cases hparse
  exact lookupArgs_bracket_service hnul
    ⟨hne, IPv6Address.bracket_not_mem_text little a, rfl⟩

/-- **A host is split as it is to be if and only if it has brackets or at most one colon; the text
of an address is split into address and port.** -/
theorem lookup_split (little : Bool) (hnul : '\x00' ∉ host) (hcolon : host.head? ≠ some ':') :
    (Splits host (lookupArgs host).1 (lookupArgs host).2 ↔
      (∃ x tail, Bracketed host x tail) ∨ host.count ':' ≤ 1) ∧
    (∀ a, lookupArgs (IPv4Address.toString little a) =
      (IPv4Address.text little a, some (decimal (IPv4Address.getPort little a).toNat))) ∧
    ∀ a, lookupArgs (IPv6Address.toString little a) =
      (IPv6Address.text little a, some (decimal (IPv6Address.getPort little a).toNat)) :=
  ⟨splits_iff hnul hcolon, lookupArgs_ipv4 little, lookupArgs_ipv6 little⟩

theorem lookup_split_name :
    Splits "www.baidu.com:80".toList (lookupArgs "www.baidu.com:80".toList).1
      (lookupArgs "www.baidu.com:80".toList).2 :=
  (lookup_split true (by decide) (by decide)).1.2 (Or.inr (by decide))

/-- The address `fe80::1` is looked up with the service `::1`. -/
theorem lookup_bare_literal :
    '\x00' ∉ "fe80::1".toList ∧ "fe80::1".toList.head? ≠ some ':' ∧
    lookupArgs "fe80::1".toList = ("fe80::1".toList, some "::1".toList) ∧
    ¬Splits "fe80::1".toList (lookupArgs "fe80::1".toList).1
      (lookupArgs "fe80::1".toList).2 := by
  have hb : ∀ x tail, ¬Bracketed "fe80::1".toList x tail := fun x tail h => by
    have hhead := congrArg List.head? h.eq
    cases hhead
  exact ⟨by decide, by decide, by decide, not_splits_many (by decide) hb (by decide)⟩

end Sylar.HostSplit
