import Sylar.Lib.Ipv6
import Sylar.Subnet

/-!
The text of IP addresses, as `insert` writes it to an empty stream.
-/

namespace Sylar.AddressText

open Lib.Numeral Lib.Masks Sylar.Subnet

abbrev decimal (n : ℕ) : List Char := Nat.toDigits 10 n

lemma not_mem_decimal {c : Char} (hc : digit c = none) (n : ℕ) : c ∉ decimal n :=
  not_mem_toDigits (by decide) (by decide) hc n

/-! ### IPv4 -/

namespace IPv4Address

variable (little : Bool)

def getPort (a : SockaddrIn) : BitVec 16 := byteswapOnLittleEndian little a.sin_port

def text (a : SockaddrIn) : List Char :=
  let addr := byteswapOnLittleEndian little a.sin_addr
  decimal ((addr >>> 24) &&& 0xff).toNat ++ '.' :: decimal ((addr >>> 16) &&& 0xff).toNat ++
    '.' :: decimal ((addr >>> 8) &&& 0xff).toNat ++ '.' :: decimal (addr &&& 0xff).toNat

def toString (a : SockaddrIn) : List Char :=
  text little a ++ ':' :: decimal (getPort little a).toNat

end IPv4Address

/-! ### IPv6 -/

namespace IPv6Address

variable (little : Bool)

def getPort (a : SockaddrIn6) : BitVec 16 := byteswapOnLittleEndian little a.sin6_port

def byte (a : SockaddrIn6) (i : ℕ) : BitVec 8 := (IPv6Address.get a.s6_addr i).getD 0

def word (x y : BitVec 8) : BitVec 16 := if little then y ++ x else x ++ y

def addr (a : SockaddrIn6) (i : ℕ) : BitVec 16 := word little (byte a (2 * i)) (byte a (2 * i + 1))

def value (w : BitVec 16) : ℕ := (byteswapOnLittleEndian little w).toNat

structure Out where
  os : List Char := []
  used_zeros : Bool := false

def insertStep (addr : ℕ → BitVec 16) (s : Out) (i : ℕ) : Out :=
  if addr i = 0 ∧ s.used_zeros = false then s
  else
    let s := if i ≠ 0 ∧ addr (i - 1) = 0 ∧ s.used_zeros = false then ⟨s.os ++ [':'], true⟩ else s
    let os := if i ≠ 0 then s.os ++ [':'] else s.os
    { s with os := os ++ Nat.toDigits 16 (value little (addr i)) }

/-- What stands between the brackets, for the groups `addr`. -/
def render (addr : ℕ → BitVec 16) : List Char :=
  let s := (List.range' 0 8).foldl (insertStep little addr) {}
  if s.used_zeros = false ∧ addr 7 = 0 then s.os ++ "::".toList else s.os

def text (a : SockaddrIn6) : List Char := render little (addr little a)

def toString (a : SockaddrIn6) : List Char :=
  '[' :: text little a ++ ']' :: ':' :: decimal (getPort little a).toNat

/-! ### The loop -/

section Loop

open Lib.Ipv6

variable {little} {addr : ℕ → BitVec 16} {os : List Char} {i m : ℕ}

def values (little : Bool) (addr : ℕ → BitVec 16) (i m : ℕ) : List ℕ :=
  (List.range' i m).map fun j => value little (addr j)

def behind (x : List ℕ) : List Char := x.flatMap fun n => ':' :: Nat.toDigits 16 n

lemma join_cons (n : ℕ) (x : List ℕ) : join (n :: x) = Nat.toDigits 16 n ++ behind x := by
  induction x generalizing n with
  | nil => simp [join, behind]
  | cons m x ih =>
    have hrest := ih m
    simp only [join, List.map_cons, behind, List.flatMap_cons] at hrest ⊢
    rw [List.intercalate_cons_cons, hrest]
    simp

lemma values_succ (little : Bool) (addr : ℕ → BitVec 16) (i m : ℕ) :
    values little addr i (m + 1) = value little (addr i) :: values little addr (i + 1) m := by
  rw [values, List.range'_succ, List.map_cons, values]

/-- Zeros are passed over as long as no `::` stands for any. -/
lemma foldl_zeros (h : ∀ j, i ≤ j → j < i + m → addr j = 0) :
    (List.range' i m).foldl (insertStep little addr) ⟨os, false⟩ = ⟨os, false⟩ := by
  induction m generalizing i with
  | zero => rfl
  | succ m ih =>
    have hzero : insertStep little addr ⟨os, false⟩ i = ⟨os, false⟩ :=
      if_pos ⟨h i (Nat.le_refl i) (by omega), rfl⟩
    rw [List.range'_succ, List.foldl_cons, hzero]
    exact ih fun j hj hm => h j (by omega) (by omega)

lemma foldl_used (hi : i ≠ 0) :
    (List.range' i m).foldl (insertStep little addr) ⟨os, true⟩ =
      ⟨os ++ behind (values little addr i m), true⟩ := by
  induction m generalizing i os with
  | zero => simp [values, behind]
  | succ m ih =>
    have hstep : insertStep little addr ⟨os, true⟩ i =
        ⟨os ++ ':' :: Nat.toDigits 16 (value little (addr i)), true⟩ := by
      simp [insertStep, hi]
    rw [List.range'_succ, List.foldl_cons, hstep, ih (Nat.succ_ne_zero i), values_succ]
    simp [behind]

lemma foldl_plain (hi : i ≠ 0) (hprev : addr (i - 1) ≠ 0)
    (h : ∀ j, i ≤ j → j < i + m → addr j ≠ 0) :
    (List.range' i m).foldl (insertStep little addr) ⟨os, false⟩ =
      ⟨os ++ behind (values little addr i m), false⟩ := by
  induction m generalizing i os with
  | zero => simp [values, behind]
  | succ m ih =>
    have hne : ¬addr i = 0 := h i (Nat.le_refl i) (by omega)
    have hprev : ¬addr (i - 1) = 0 := hprev
    have hstep : insertStep little addr ⟨os, false⟩ i =
        ⟨os ++ ':' :: Nat.toDigits 16 (value little (addr i)), false⟩ := by
      rw [insertStep, if_neg fun h => hne h.1]
      simp only [hprev, false_and, and_false, if_false]
      simp [hi]
    have hrest : ∀ j, i + 1 ≤ j → j < i + 1 + m → addr j ≠ 0 := fun j hj hm =>
      h j (by omega) (by omega)
    rw [List.range'_succ, List.foldl_cons, hstep,
      ih (Nat.succ_ne_zero i) hne hrest, values_succ]
    simp [behind]

lemma foldl_front (h : ∀ j < m, addr j ≠ 0) :
    (List.range' 0 m).foldl (insertStep little addr) {} =
      ⟨join (values little addr 0 m), false⟩ := by
  cases m with
  | zero => rfl
  | succ m =>
    have hne := h 0 (Nat.succ_pos m)
    have hstep : insertStep little addr {} 0 =
        ⟨Nat.toDigits 16 (value little (addr 0)), false⟩ := by
      rw [insertStep, if_neg fun h => hne h.1]
      simp
    rw [List.range'_succ, List.foldl_cons, hstep,
      foldl_plain Nat.one_ne_zero hne fun j _ hm => h j (by omega), values_succ, join_cons]

/-- The first group behind zeros that are passed over prints the `::`. -/
lemma foldl_behind_zeros (hi : i ≠ 0) (hne : addr i ≠ 0) (hprev : addr (i - 1) = 0) :
    (List.range' i (m + 1)).foldl (insertStep little addr) ⟨os, false⟩ =
      ⟨os ++ ':' :: ':' :: join (values little addr i (m + 1)), true⟩ := by
  have hstep : insertStep little addr ⟨os, false⟩ i =
      ⟨os ++ ':' :: ':' :: Nat.toDigits 16 (value little (addr i)), true⟩ := by
    rw [insertStep, if_neg fun h => hne h.1, if_pos ⟨hi, hprev, rfl⟩]
    simp [hi]
  rw [List.range'_succ, List.foldl_cons, hstep, foldl_used (Nat.succ_ne_zero i), values_succ,
    join_cons]
  simp

/-- The first place from `i` on, of `n`, where `p` holds. -/
lemma exists_first (p : ℕ → Prop) (i n : ℕ) :
    ∃ k ≤ n, (∀ j, i ≤ j → j < i + k → ¬p j) ∧ (k = n ∨ p (i + k)) := by
  induction n with
  | zero => exact ⟨0, Nat.le_refl 0, fun j hj hlt => by omega, Or.inl rfl⟩
  | succ n ih =>
    obtain ⟨k, hk, hbefore, rfl | hp⟩ := ih
    · by_cases hp : p (i + k)
      · exact ⟨k, Nat.le_succ k, hbefore, Or.inr hp⟩
      · refine ⟨k + 1, Nat.le_refl _, fun j hj hlt => ?_, Or.inl rfl⟩
        rcases Nat.lt_succ_iff_lt_or_eq.1 hlt with hlt | rfl
        · exact hbefore j hj hlt
        · exact hp
    · exact ⟨k, Nat.le_succ_of_le hk, hbefore, Or.inr hp⟩

lemma render_plain (h : ∀ j < 8, addr j ≠ 0) :
    render little addr = join (values little addr 0 8) := by
  rw [render, foldl_front h]
  exact if_neg fun hend => h 7 (by decide) hend.2

lemma render_run {k : ℕ} (hm : 0 < m) (hk : k + m ≤ 8) (hfront : ∀ j < k, addr j ≠ 0)
    (hzero : ∀ j, k ≤ j → j < k + m → addr j = 0) (hend : k + m = 8 ∨ addr (k + m) ≠ 0) :
    render little addr = join (values little addr 0 k) ++
      ':' :: ':' :: join (values little addr (k + m) (8 - (k + m))) := by
  obtain ⟨n, hn⟩ := Nat.exists_eq_add_of_le hk
  have hloop : (List.range' 0 8).foldl (insertStep little addr) {} =
      (List.range' (k + m) n).foldl (insertStep little addr)
        ⟨join (values little addr 0 k), false⟩ := by
    have hranges : List.range' 0 8 =
        List.range' 0 k ++ (List.range' k m ++ List.range' (k + m) n) := by
      have hinner := @List.range'_append_1 k m n
      have houter := @List.range'_append_1 0 k (m + n)
      rw [Nat.zero_add] at houter
      rw [hinner, houter, hn, Nat.add_assoc]
    rw [hranges, List.foldl_append, List.foldl_append, foldl_front hfront, foldl_zeros hzero]
  rw [render, hloop, hn, Nat.add_sub_cancel_left]
  cases n with
  | zero =>
    have hlast : addr 7 = 0 := hzero 7 (by omega) (by omega)
    exact if_pos ⟨rfl, hlast⟩
  | succ n =>
    have hne : addr (k + m) ≠ 0 := hend.resolve_left (by omega)
    have hprev : addr (k + m - 1) = 0 := hzero _ (by omega) (by omega)
    rw [foldl_behind_zeros (by omega) hne hprev]
    exact if_neg fun h => Bool.noConfusion h.1

lemma value_lt {n : ℕ} (h : n ∈ values little addr i m) : n < 2 ^ 16 := by
  obtain ⟨j, -, rfl⟩ := List.mem_map.1 h
  exact BitVec.isLt _

lemma length_values : (values little addr i m).length = m := by
  rw [values, List.length_map, List.length_range']

lemma values_append (n : ℕ) :
    values little addr i (m + n) = values little addr i m ++ values little addr (i + m) n := by
  rw [values, ← List.range'_append_1, List.map_append]
  rfl

lemma values_zeros (h : ∀ j, i ≤ j → j < i + m → addr j = 0) :
    values little addr i m = List.replicate m 0 := by
  refine List.eq_replicate_iff.2 ⟨length_values, fun n hn => ?_⟩
  obtain ⟨j, hj, rfl⟩ := List.mem_map.1 hn
  obtain ⟨hi, hlt⟩ := List.mem_range'_1.1 hj
  rw [h j hi hlt]
  cases little <;> rfl

/-- What is printed has the form of groups, around a `::` or without one. -/
lemma render_cases (little : Bool) (addr : ℕ → BitVec 16) :
    render little addr = join (values little addr 0 8) ∨
      ∃ k m, 0 < m ∧ k + m ≤ 8 ∧
        values little addr 0 8 = values little addr 0 k ++ List.replicate m 0 ++
          values little addr (k + m) (8 - (k + m)) ∧
        render little addr = join (values little addr 0 k) ++
          ':' :: ':' :: join (values little addr (k + m) (8 - (k + m))) := by
  obtain ⟨k, hk, hfront, hfirst⟩ := exists_first (fun j => addr j = 0) 0 8
  rw [Nat.zero_add] at hfront hfirst
  have hfront : ∀ j < k, addr j ≠ 0 := fun j => hfront j (Nat.zero_le j)
  rcases hfirst with rfl | hfirst
  · exact Or.inl (render_plain hfront)
  · obtain ⟨m, hm, hrun, hend⟩ := exists_first (fun j => addr j ≠ 0) k (8 - k)
    have hzero : ∀ j, k ≤ j → j < k + m → addr j = 0 := fun j hj hlt =>
      not_not.1 (hrun j hj hlt)
    by_cases hk8 : k = 8
    · subst hk8
      exact Or.inl (render_plain hfront)
    · have hpos : 0 < m := by
        rcases hend with rfl | hend
        · omega
        · rcases Nat.eq_zero_or_pos m with rfl | hpos
          · exact absurd hfirst hend
          · exact hpos
      refine Or.inr ⟨k, m, hpos, by omega, ?_,
        render_run hpos (by omega) hfront hzero (hend.imp_left fun h => by omega)⟩
      have hsplit : 8 = k + m + (8 - (k + m)) := by omega
      conv_lhs => rw [hsplit, values_append, values_append]
      simp only [Nat.zero_add, values_zeros hzero]

/-- **What is printed for eight groups is read as the eight groups.** -/
theorem parse_render (little : Bool) (addr : ℕ → BitVec 16) :
    parse (render little addr) = some (values little addr 0 8) := by
  rcases render_cases little addr with hplain | ⟨k, m, hm, hk, hvalues, hrun⟩
  · rw [hplain, parse_join (fun n => value_lt) length_values]
  · have hlen : (values little addr 0 k).length +
        (values little addr (k + m) (8 - (k + m))).length < 8 := by
      rw [length_values, length_values]
      omega
    rw [hrun, parse_compressed (fun n => value_lt) (fun n => value_lt) hlen, hvalues,
      length_values, length_values]
    have hzeros : 8 - k - (8 - (k + m)) = m := by omega
    rw [hzeros]

lemma not_mem_join {c : Char} (hc : digit c = none) (hcolon : c ≠ ':') (x : List ℕ) :
    c ∉ join x := by
  cases x with
  | nil => exact List.not_mem_nil
  | cons n x =>
    rw [join_cons, behind, List.mem_append, List.mem_flatMap]
    rintro (hmem | ⟨m, -, hmem⟩)
    · exact not_mem_toDigits (by decide) (by decide) hc n hmem
    · rcases List.mem_cons.1 hmem with rfl | hmem
      · exact hcolon rfl
      · exact not_mem_toDigits (by decide) (by decide) hc m hmem

lemma not_mem_render {c : Char} (hc : digit c = none) (hcolon : c ≠ ':') :
    c ∉ render little addr := by
  rcases render_cases little addr with hplain | ⟨k, m, -, -, -, hrun⟩
  · rw [hplain]
    exact not_mem_join hc hcolon _
  · rw [hrun, List.mem_append, List.mem_cons, List.mem_cons]
    rintro (hmem | rfl | rfl | hmem)
    · exact not_mem_join hc hcolon _ hmem
    · exact hcolon rfl
    · exact hcolon rfl
    · exact not_mem_join hc hcolon _ hmem

end Loop

/-! ### The address -/

section Address

open Lib.Ipv6

variable {little : Bool} {a b : SockaddrIn6}

/-- The eight groups of an address, in network order. -/
def groups (a : SockaddrIn6) : List ℕ :=
  (List.range' 0 8).map fun i => 256 * (byte a (2 * i)).toNat + (byte a (2 * i + 1)).toNat

lemma byteswap_append (x y : BitVec 8) : byteswap (y ++ x : BitVec 16) = (x ++ y : BitVec 16) := by
  apply BitVec.eq_of_getLsbD_eq
  intro i hi
  rw [getLsbD_byteswap _ hi, BitVec.getLsbD_append, BitVec.getLsbD_append, source]
  by_cases h : i < 8
  · have hsource : (16 / 8 - 1 - i / 8) * 8 + i % 8 = i + 8 := by omega
    rw [hsource]
    simp [h]
  · have hsource : (16 / 8 - 1 - i / 8) * 8 + i % 8 = i - 8 := by omega
    have hlt : i - 8 < 8 := by omega
    rw [hsource]
    simp [h, hlt]

/-- The two bytes of a group are printed in the order in which they stand in memory. -/
lemma value_word (little : Bool) (x y : BitVec 8) :
    value little (word little x y) = 256 * x.toNat + y.toNat := by
  have hbig : byteswapOnLittleEndian little (word little x y) = (x ++ y : BitVec 16) := by
    cases little with
    | false => rfl
    | true => exact byteswap_append x y
  have hy := y.isLt
  rw [value, hbig, BitVec.toNat_append, ← Nat.shiftLeft_add_eq_or_of_lt hy, Nat.shiftLeft_eq]
  omega

lemma values_addr (little : Bool) (a : SockaddrIn6) :
    values little (addr little a) 0 8 = groups a :=
  List.map_congr_left fun i _ => value_word little (byte a (2 * i)) (byte a (2 * i + 1))

lemma byte_coe (a : SockaddrIn6) (j : Fin 16) : byte a j = a.s6_addr j := by
  rw [byte, IPv6Address.get, dif_pos j.isLt]
  rfl

lemma groups_injective (h : groups a = groups b) : a.s6_addr = b.s6_addr := by
  have hgroup : ∀ i < 8, 256 * (byte a (2 * i)).toNat + (byte a (2 * i + 1)).toNat =
      256 * (byte b (2 * i)).toNat + (byte b (2 * i + 1)).toNat := fun i hi =>
    List.map_inj_left.1 h i (List.mem_range'_1.2 ⟨Nat.zero_le i, by omega⟩)
  have hpair : ∀ i < 8, byte a (2 * i) = byte b (2 * i) ∧
      byte a (2 * i + 1) = byte b (2 * i + 1) := by
    intro i hi
    have hlow := (byte a (2 * i + 1)).isLt
    have hlow' := (byte b (2 * i + 1)).isLt
    have heq := hgroup i hi
    exact ⟨BitVec.eq_of_toNat_eq (by omega), BitVec.eq_of_toNat_eq (by omega)⟩
  funext j
  rw [← byte_coe, ← byte_coe]
  obtain ⟨heven, hodd⟩ := hpair (j / 2) (by omega)
  rcases Nat.mod_two_eq_zero_or_one j with hj | hj
  · have hdouble : 2 * ((j : ℕ) / 2) = j := by omega
    rwa [hdouble] at heven
  · have hdouble : 2 * ((j : ℕ) / 2) + 1 = j := by omega
    rwa [hdouble] at hodd

lemma parse_text (little : Bool) (a : SockaddrIn6) : parse (text little a) = some (groups a) := by
  rw [text, parse_render, values_addr]

lemma bracket_not_mem_text (little : Bool) (a : SockaddrIn6) : ']' ∉ text little a :=
  not_mem_render (by decide) (by decide)

lemma getPort_injective (h : getPort little a = getPort little b) : a.sin6_port = b.sin6_port := by
  have heq := congrArg (byteswapOnLittleEndian little) h
  rwa [getPort, getPort, byteswapOnLittleEndian_self (by rfl),
    byteswapOnLittleEndian_self (by rfl)] at heq

/-- **The text of an IPv6 address denotes the address, and its port stands behind it.** -/
theorem ipv6_text_denotes (little : Bool) :
    (∀ a, ∃ t, toString little a = '[' :: t ++ "]:".toList ++ decimal (getPort little a).toNat ∧
      ']' ∉ t ∧ parse t = some (groups a) ∧
      ∀ u v u' v', t = u ++ "::".toList ++ v → t = u' ++ "::".toList ++ v' → u = u') ∧
    ∀ a b, toString little a = toString little b →
      a.s6_addr = b.s6_addr ∧ a.sin6_port = b.sin6_port := by
  refine ⟨fun a => ⟨text little a, ?_, bracket_not_mem_text little a, parse_text little a, ?_⟩, ?_⟩
  · simp [toString]
  · intro u v u' v' hu hu'
    exact pair_unique (parse_text little a) (by simpa using hu) (by simpa using hu')
  · intro a b h
    have hbehind : ∀ a, ']' ∉ ':' :: decimal (getPort little a).toNat := by
      intro a
      rw [List.mem_cons, not_or]
      exact ⟨by decide, not_mem_decimal (by decide) _⟩
    have hsplit : text little a ++ ']' :: ':' :: decimal (getPort little a).toNat =
        text little b ++ ']' :: ':' :: decimal (getPort little b).toNat := (List.cons.inj h).2
    obtain ⟨htext, -, hport⟩ := (List.append_cons_inj_of_notMem (bracket_not_mem_text little a)
      (hbehind a)).1 hsplit
    have hgroups : some (groups a) = some (groups b) := by
      rw [← parse_text little a, htext, parse_text]
    have hport : getPort little a = getPort little b :=
      BitVec.eq_of_toNat_eq (toDigits_injective (by decide) (by decide) (List.cons.inj hport).2)
    exact ⟨groups_injective (Option.some.inj hgroups), getPort_injective hport⟩

end Address

end IPv6Address

end Sylar.AddressText
