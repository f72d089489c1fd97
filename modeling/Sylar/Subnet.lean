import Sylar.Lib.Masks

/-!
The broadcast address, the network address and the subnet mask of `IPv4Address` and `IPv6Address`.

An operation that C++ leaves undefined, a shift by the width, an `int` that overflows or an index
outside of an array, has no value.
-/

namespace Sylar.Subnet

open Lib.Masks

def createMask (w : ℕ) (bits : UInt32) : Option (BitVec w) :=
  let n := UInt64.ofNat w - bits.toUInt64
  if n < 32 then
    let one := 1#32 <<< n.toNat
    if BitVec.ssubOverflow one 1#32 then none else some ((one - 1#32).setWidth w)
  else none

/-! ### IPv4 -/

def AF_INET : BitVec 16 := 2

structure SockaddrIn where
  sin_family : BitVec 16
  sin_port : BitVec 16
  sin_addr : BitVec 32
  deriving DecidableEq

/-- `byteswapOnLittleEndian`, on a machine of either kind. -/
def byteswapOnLittleEndian {w : ℕ} (little : Bool) (t : BitVec w) : BitVec w :=
  if little then byteswap t else t

namespace IPv4Address

variable (little : Bool)

def make (address : BitVec 32) (port : BitVec 16) : SockaddrIn :=
  ⟨AF_INET, byteswapOnLittleEndian little port, byteswapOnLittleEndian little address⟩

def host (a : SockaddrIn) : BitVec 32 := byteswapOnLittleEndian little a.sin_addr

def broadcastAddress (a : SockaddrIn) (prefix_len : UInt32) : Option (Option SockaddrIn) :=
  if prefix_len > 32 then some none
  else (createMask 32 prefix_len).map fun mask =>
    some { a with sin_addr := a.sin_addr ||| byteswapOnLittleEndian little mask }

def networdAddress (a : SockaddrIn) (prefix_len : UInt32) : Option (Option SockaddrIn) :=
  if prefix_len > 32 then some none
  else (createMask 32 prefix_len).map fun mask =>
    some { a with sin_addr := a.sin_addr &&& byteswapOnLittleEndian little mask }

def subnetMask (prefix_len : UInt32) : Option SockaddrIn :=
  (createMask 32 prefix_len).map fun mask =>
    ⟨AF_INET, 0, ~~~byteswapOnLittleEndian little mask⟩

end IPv4Address

/-! ### IPv6 -/

def AF_INET6 : BitVec 16 := 10

structure SockaddrIn6 where
  sin6_family : BitVec 16
  sin6_port : BitVec 16
  sin6_flowinfo : BitVec 32
  s6_addr : Fin 16 → BitVec 8
  sin6_scope_id : BitVec 32

namespace IPv6Address

def get (addr : Fin 16 → BitVec 8) (i : ℕ) : Option (BitVec 8) :=
  if h : i < 16 then some (addr ⟨i, h⟩) else none

def put (addr : Fin 16 → BitVec 8) (i : ℕ) (x : BitVec 8) : Option (Fin 16 → BitVec 8) :=
  if i < 16 then some fun j : Fin 16 => if (j : ℕ) = i then x else addr j else none

/-- A loop that gives all of the bytes the same value. -/
def fill (x : BitVec 8) (addr : Fin 16 → BitVec 8) : List ℕ → Option (Fin 16 → BitVec 8)
  | [] => some addr
  | i :: is => (put addr i x).bind fun addr => fill x addr is

/-- The byte in which the prefix ends becomes what `f` makes of it and the mask. -/
def atEnd (addr : Fin 16 → BitVec 8) (prefix_len : UInt32)
    (f : BitVec 8 → BitVec 8 → BitVec 8) : Option (Fin 16 → BitVec 8) :=
  (createMask 8 (prefix_len % 8)).bind fun mask =>
    (get addr (prefix_len / 8).toNat).bind fun x => put addr (prefix_len / 8).toNat (f x mask)

def behind (i : ℕ) : List ℕ := List.range' i (16 - i)

def broadcastAddress (a : SockaddrIn6) (prefix_len : UInt32) : Option SockaddrIn6 :=
  (atEnd a.s6_addr prefix_len (· ||| ·)).bind fun addr =>
    (fill 0xff addr (behind ((prefix_len / 8).toNat + 1))).map fun addr =>
      { a with s6_addr := addr }

def networdAddress (a : SockaddrIn6) (prefix_len : UInt32) : Option SockaddrIn6 :=
  (atEnd a.s6_addr prefix_len (· &&& ·)).bind fun addr =>
    (fill 0x00 addr (behind ((prefix_len / 8).toNat + 1))).map fun addr =>
      { a with s6_addr := addr }

def subnetMask (prefix_len : UInt32) : Option SockaddrIn6 :=
  (atEnd (fun _ => 0) prefix_len fun _ mask => ~~~mask).bind fun addr =>
    (fill 0xff addr (List.range (prefix_len / 8).toNat)).map fun addr =>
      { sin6_family := AF_INET6, sin6_port := 0, sin6_flowinfo := 0, s6_addr := addr,
        sin6_scope_id := 0 }

end IPv6Address

/-! ### The mask -/

/-- In `int` the mask has a value as long as it has fewer than 31 bits. -/
lemma one_shiftLeft_sub_one : ∀ n < 32,
    BitVec.ssubOverflow (1#32 <<< n) 1#32 = decide (31 ≤ n) ∧
      (1#32 <<< n) - 1#32 = low 32 n := by
  decide

/-- **`CreateMask` gives the host bits, and nothing where there are more than 30 of them.** -/
theorem createMask_eq {w : ℕ} {bits : UInt32} (hw : w ≤ 32) (hbits : bits.toNat ≤ w) :
    createMask w bits = if w - bits.toNat < 31 then some (low w (w - bits.toNat)) else none := by
  have hn : (UInt64.ofNat w - bits.toUInt64).toNat = w - bits.toNat := by
    have hwn : (UInt64.ofNat w).toNat = w :=
      UInt64.toNat_ofNat_of_lt' (Nat.lt_of_le_of_lt hw (by decide))
    have hle : bits.toUInt64 ≤ UInt64.ofNat w := by
      rw [UInt64.le_iff_toNat_le, hwn, UInt32.toNat_toUInt64]
      exact hbits
    rw [UInt64.toNat_sub_of_le _ _ hle, hwn, UInt32.toNat_toUInt64]
  have hlt : UInt64.ofNat w - bits.toUInt64 < 32 ↔ w - bits.toNat < 32 := by
    rw [UInt64.lt_iff_toNat_lt, hn]
    rfl
  unfold createMask
  simp only [hn]
  by_cases h : w - bits.toNat < 32
  · obtain ⟨hover, hlow⟩ := one_shiftLeft_sub_one _ h
    rw [if_pos (hlt.2 h), hover, hlow, setWidth_low hw]
    by_cases h31 : w - bits.toNat < 31
    · rw [if_pos h31, if_neg (by simpa using h31)]
    · rw [if_neg h31, if_pos (by simpa using h31)]
  · rw [if_neg (fun hc => h (hlt.1 hc)), if_neg (by omega)]

/-! ### The laws for IPv4 -/

lemma byteswapOnLittleEndian_self {w : ℕ} (hw : w % 8 = 0) (little : Bool) (t : BitVec w) :
    byteswapOnLittleEndian little (byteswapOnLittleEndian little t) = t := by
  cases little with
  | false => rfl
  | true => exact byteswap_byteswap hw t

lemma byteswapOnLittleEndian_and {w : ℕ} (little : Bool) (s t : BitVec w) :
    byteswapOnLittleEndian little (s &&& t) =
      byteswapOnLittleEndian little s &&& byteswapOnLittleEndian little t := by
  cases little with
  | false => rfl
  | true => exact byteswap_and s t

lemma byteswapOnLittleEndian_or {w : ℕ} (little : Bool) (s t : BitVec w) :
    byteswapOnLittleEndian little (s ||| t) =
      byteswapOnLittleEndian little s ||| byteswapOnLittleEndian little t := by
  cases little with
  | false => rfl
  | true => exact byteswap_or s t

lemma byteswapOnLittleEndian_not {w : ℕ} (hw : w % 8 = 0) (little : Bool) (t : BitVec w) :
    byteswapOnLittleEndian little (~~~t) = ~~~byteswapOnLittleEndian little t := by
  cases little with
  | false => rfl
  | true => exact byteswap_not hw t

namespace IPv4Address

variable (little : Bool) (address : BitVec 32) (port : BitVec 16) (prefix_len : UInt32)

/-- What is asked of the three operations: they have a value, the mask has exactly the first bits
set, and the other two are the address with it and with its complement, family and port kept. -/
def Lawful : Prop :=
  ∃ m n b, subnetMask little prefix_len = some m ∧
    networdAddress little (make little address port) prefix_len = some (some n) ∧
    broadcastAddress little (make little address port) prefix_len = some (some b) ∧
    (∀ i < 32, (host little m).getMsbD i = decide (i < prefix_len.toNat)) ∧
    n = make little (address &&& host little m) port ∧
    b = make little (address ||| ~~~host little m) port

variable {little address port prefix_len}

lemma make_injective {x y : BitVec 32} (h : make little x port = make little y port) : x = y := by
  have haddr := congrArg (fun a => host little a) h
  simpa [host, make, byteswapOnLittleEndian_self] using haddr

/-- Between 2 and 32 bits the operations have a value, and all but the network address is right. -/
lemma values (h2 : 2 ≤ prefix_len.toNat) (h32 : prefix_len.toNat ≤ 32) :
    ∃ m, subnetMask little prefix_len = some m ∧
      host little m = ~~~low 32 (32 - prefix_len.toNat) ∧
      networdAddress little (make little address port) prefix_len =
        some (some (make little (address &&& ~~~host little m) port)) ∧
      broadcastAddress little (make little address port) prefix_len =
        some (some (make little (address ||| ~~~host little m) port)) := by
  have hmask : createMask 32 prefix_len = some (low 32 (32 - prefix_len.toNat)) := by
    rw [createMask_eq (Nat.le_refl 32) h32, if_pos (by omega)]
  have hle : ¬prefix_len > 32 := by
    rw [gt_iff_lt, UInt32.lt_iff_toNat_lt]
    exact Nat.not_lt.2 h32
  have hhost : host little ⟨AF_INET, 0,
      ~~~byteswapOnLittleEndian little (low 32 (32 - prefix_len.toNat))⟩ =
        ~~~low 32 (32 - prefix_len.toNat) := by
    simp only [host]
    rw [byteswapOnLittleEndian_not (by rfl), byteswapOnLittleEndian_self (by rfl)]
  refine ⟨_, by rw [subnetMask, hmask]; rfl, hhost, ?_, ?_⟩
  · rw [networdAddress, if_neg hle, hmask, hhost, BitVec.not_not]
    simp [make, byteswapOnLittleEndian_and]
  · rw [broadcastAddress, if_neg hle, hmask, hhost, BitVec.not_not]
    simp [make, byteswapOnLittleEndian_or]

/-- **The subnet operations of IPv4 keep their laws only for prefixes of 2 bits and more, and only
for the address zero**: the network address is taken with the host bits of the mask. -/
theorem ipv4_lawful_iff (h32 : prefix_len ≤ 32) :
    Lawful little address port prefix_len ↔ 2 ≤ prefix_len ∧ address = 0 := by
  have h32' : prefix_len.toNat ≤ 32 := UInt32.le_iff_toNat_le.1 h32
  have h2iff : 2 ≤ prefix_len ↔ 2 ≤ prefix_len.toNat := UInt32.le_iff_toNat_le
  by_cases h2 : 2 ≤ prefix_len.toNat
  · obtain ⟨m, hm, hhost, hn, hb⟩ := @values little address port prefix_len h2 h32'
    have hbits : ∀ i < 32, (host little m).getMsbD i = decide (i < prefix_len.toNat) := by
      intro i hi
      rw [hhost, getMsbD_not_low (by omega) hi]
      congr 1
      simp only [eq_iff_iff]
      omega
    constructor
    · rintro ⟨m', n, b, hm', hn', -, -, rfl, -⟩
      obtain rfl : m = m' := by simpa [hm] using hm'
      have heq : address &&& ~~~host little m = address &&& host little m := by
        refine @make_injective little port _ _ ?_
        simpa [hn] using hn'
      exact ⟨h2iff.2 h2, (and_eq_and_not_iff _ _).1 heq.symm⟩
    · rintro ⟨-, rfl⟩
      refine ⟨m, _, _, hm, hn, hb, hbits, ?_, rfl⟩
      simp
  · -- `1 << 32`, or `(1 << 31) - 1`
    have hmask : createMask 32 prefix_len = none := by
      rw [createMask_eq (Nat.le_refl 32) h32', if_neg (by omega)]
    constructor
    · rintro ⟨m, n, b, hm, -⟩
      simp [subnetMask, hmask] at hm
    · exact fun h => absurd (h2iff.1 h.1) h2

/-- A prefix of 24 bits, and the address zero. -/
theorem ipv4_lawful_iff_24 : (24 : UInt32) ≤ 32 ∧
    (Lawful true 0 80 24 ↔ (2 : UInt32) ≤ 24 ∧ (0 : BitVec 32) = 0) :=
  ⟨by decide, ipv4_lawful_iff (by decide)⟩

/-- The network of 10.0.0.1 and 24 bits is 0.0.0.1 in place of 10.0.0.0. -/
theorem network_of_host : ¬Lawful true 0x0a000001 80 24 := by
  obtain ⟨m, hm, hhost, hn, -⟩ := @values true 0x0a000001 80 24 (by decide) (by decide)
  rintro ⟨m', n, b, hm', hn', -, -, rfl, -⟩
  obtain rfl : m = m' := by simpa [hm] using hm'
  have heq : 0x0a000001 &&& ~~~host true m = 0x0a000001 &&& host true m := by
    refine @make_injective true 80 _ _ ?_
    rw [hn] at hn'
    simpa using hn'
  rw [hhost] at heq
  exact absurd heq (by decide)

end IPv4Address

/-! ### The laws for IPv6 -/

namespace IPv6Address

/-- The bits of a mask are its first `n`, over all 16 bytes. -/
def FirstBits (n : ℕ) (m : Fin 16 → BitVec 8) : Prop :=
  ∀ i (h : i < 128), (m ⟨i / 8, by omega⟩).getMsbD (i % 8) = decide (i < n)

/-- What is asked of the three operations: no index is out of range, the mask has exactly the first
bits set, and in the other two only the address changes, by the mask and by its complement. -/
def Lawful (a : SockaddrIn6) (prefix_len : UInt32) : Prop :=
  ∃ m n b, subnetMask prefix_len = some m ∧ networdAddress a prefix_len = some n ∧
    broadcastAddress a prefix_len = some b ∧ FirstBits prefix_len.toNat m.s6_addr ∧
    n = { a with s6_addr := fun i => a.s6_addr i &&& m.s6_addr i } ∧
    b = { a with s6_addr := fun i => a.s6_addr i ||| ~~~m.s6_addr i }

def maskByte (n i : ℕ) : BitVec 8 := ~~~low 8 (8 - min 8 (n - 8 * i))

lemma firstBits_maskByte (n : ℕ) : FirstBits n fun i => maskByte n i := by
  intro i hi
  simp only [maskByte]
  rw [getMsbD_not_low (by omega) (Nat.mod_lt i (by omega))]
  congr 1
  simp only [eq_iff_iff]
  omega

lemma maskByte_before {n i : ℕ} (h : i < n / 8) : maskByte n i = BitVec.allOnes 8 := by
  have hfull : 8 - min 8 (n - 8 * i) = 0 := by omega
  rw [maskByte, hfull, low_zero, BitVec.not_zero]

lemma maskByte_end (n : ℕ) : maskByte n (n / 8) = ~~~low 8 (8 - n % 8) := by
  have hpart : 8 - min 8 (n - 8 * (n / 8)) = 8 - n % 8 := by omega
  rw [maskByte, hpart]

lemma maskByte_behind {n i : ℕ} (h : n / 8 < i) : maskByte n i = 0#8 := by
  have hempty : 8 - min 8 (n - 8 * i) = 8 := by omega
  rw [maskByte, hempty, low_self, BitVec.not_allOnes]

lemma fill_eq (x : BitVec 8) (addr : Fin 16 → BitVec 8) {is : List ℕ}
    (h : ∀ i ∈ is, i < 16) :
    fill x addr is = some fun j : Fin 16 => if (j : ℕ) ∈ is then x else addr j := by
  induction is generalizing addr with
  | nil => simp [fill]
  | cons i is ih =>
    have hi := h i List.mem_cons_self
    rw [fill, put, if_pos hi, Option.bind_some, ih _ fun j hj => h j (List.mem_cons_of_mem _ hj)]
    congr 1
    ext1 j
    by_cases hj : (j : ℕ) = i
    · simp [hj]
    · simp [hj]

variable {a : SockaddrIn6} {prefix_len : UInt32}

/-- The mask of the byte in which the prefix ends always has a value. -/
lemma createMask_end (prefix_len : UInt32) :
    createMask 8 (prefix_len % 8) = some (low 8 (8 - prefix_len.toNat % 8)) := by
  have hmod : (prefix_len % 8).toNat = prefix_len.toNat % 8 := UInt32.toNat_mod _ _
  rw [createMask_eq (by omega) (by omega), hmod, if_pos (by omega)]

lemma toNat_div (prefix_len : UInt32) : (prefix_len / 8).toNat = prefix_len.toNat / 8 :=
  UInt32.toNat_div _ _

lemma atEnd_eq (addr : Fin 16 → BitVec 8) (h : prefix_len.toNat / 8 < 16)
    (f : BitVec 8 → BitVec 8 → BitVec 8) :
    atEnd addr prefix_len f = some fun j : Fin 16 => if (j : ℕ) = prefix_len.toNat / 8 then
      f (addr j) (low 8 (8 - prefix_len.toNat % 8)) else addr j := by
  rw [atEnd, createMask_end, toNat_div, Option.bind_some, get, dif_pos h, Option.bind_some, put,
    if_pos h]
  congr 1
  ext1 j
  split
  · next hj =>
    have hj' : (⟨prefix_len.toNat / 8, h⟩ : Fin 16) = j := Fin.ext hj.symm
    rw [hj']
  · rfl

lemma atEnd_eq_none (addr : Fin 16 → BitVec 8) (h : ¬prefix_len.toNat / 8 < 16)
    (f : BitVec 8 → BitVec 8 → BitVec 8) : atEnd addr prefix_len f = none := by
  rw [atEnd, createMask_end, toNat_div, Option.bind_some, get, dif_neg h, Option.bind_none]

/-- An operation that has a value: the bytes of `is` are filled, and the one in which the prefix
ends is changed. -/
lemma atEnd_fill (addr : Fin 16 → BitVec 8) (h : prefix_len.toNat / 8 < 16)
    (f : BitVec 8 → BitVec 8 → BitVec 8) (x : BitVec 8) {is : List ℕ} (his : ∀ i ∈ is, i < 16)
    {β : Type} (g : (Fin 16 → BitVec 8) → β) :
    ((atEnd addr prefix_len f).bind fun addr => (fill x addr is).map g) =
      some (g fun j => if (j : ℕ) ∈ is then x
        else if (j : ℕ) = prefix_len.toNat / 8 then
          f (addr j) (low 8 (8 - prefix_len.toNat % 8)) else addr j) := by
  rw [atEnd_eq _ h, Option.bind_some, fill_eq _ _ his, Option.map_some]

lemma mem_behind {i j : ℕ} (hi : i ≤ 16) : j ∈ behind i ↔ i ≤ j ∧ j < 16 := by
  rw [behind, List.mem_range'_1]
  omega

lemma mem_behind_end (h : prefix_len.toNat / 8 < 16) {j : ℕ} :
    j ∈ behind ((prefix_len / 8).toNat + 1) ↔ prefix_len.toNat / 8 < j ∧ j < 16 := by
  rw [toNat_div, mem_behind (by omega), Nat.succ_le_iff]

/-- **The subnet mask of IPv6 has exactly the first bits set.** -/
theorem subnetMask_eq (h : prefix_len.toNat / 8 < 16) : ∃ m, subnetMask prefix_len = some m ∧
    ∀ j, m.s6_addr j = maskByte prefix_len.toNat j := by
  have his : ∀ i ∈ List.range (prefix_len / 8).toNat, i < 16 := by
    rw [toNat_div]
    exact fun i hi => Nat.lt_trans (List.mem_range.1 hi) h
  rw [subnetMask, atEnd_fill _ h _ _ his]
  refine ⟨_, rfl, fun j => ?_⟩
  simp only [List.mem_range, toNat_div]
  rcases Nat.lt_trichotomy (j : ℕ) (prefix_len.toNat / 8) with hj | hj | hj
  · rw [if_pos hj, maskByte_before hj]
    rfl
  · rw [if_neg (by omega), if_pos hj, hj, maskByte_end]
  · rw [if_neg (by omega), if_neg (by omega), maskByte_behind hj]
    rfl

/-- **The broadcast address of IPv6 is the address with all the other bits set.** -/
theorem broadcastAddress_eq (h : prefix_len.toNat / 8 < 16) :
    broadcastAddress a prefix_len =
      some { a with s6_addr := fun j => a.s6_addr j ||| ~~~maskByte prefix_len.toNat j } := by
  rw [broadcastAddress, atEnd_fill _ h _ _ fun i hi => ((mem_behind_end h).1 hi).2]
  congr 2
  ext1 j
  simp only [mem_behind_end h]
  rcases Nat.lt_trichotomy (j : ℕ) (prefix_len.toNat / 8) with hj | hj | hj
  · rw [if_neg (by omega), if_neg (by omega), maskByte_before hj]
    simp
  · rw [if_neg (by omega), if_pos hj, hj, maskByte_end, BitVec.not_not]
  · rw [if_pos (by omega), maskByte_behind hj, BitVec.not_zero, BitVec.or_allOnes]
    rfl

def kept (n i : ℕ) : BitVec 8 := if i = n / 8 then ~~~maskByte n i else maskByte n i

lemma networdAddress_eq (h : prefix_len.toNat / 8 < 16) :
    networdAddress a prefix_len =
      some { a with s6_addr := fun j => a.s6_addr j &&& kept prefix_len.toNat j } := by
  rw [networdAddress, atEnd_fill _ h _ _ fun i hi => ((mem_behind_end h).1 hi).2]
  congr 2
  ext1 j
  simp only [mem_behind_end h, kept]
  rcases Nat.lt_trichotomy (j : ℕ) (prefix_len.toNat / 8) with hj | hj | hj
  · rw [if_neg (by omega), if_neg (by omega), if_neg (by omega), maskByte_before hj,
      BitVec.and_allOnes]
  · rw [if_neg (by omega), if_pos hj, if_pos hj, hj, maskByte_end, BitVec.not_not]
  · rw [if_pos (by omega), if_neg (by omega), maskByte_behind hj]
    simp

/-- **The subnet operations of IPv6 keep their laws only for prefixes shorter than the address, and
only where the byte in which the prefix ends is zero**: there the network address is taken with the
host bits of the mask. -/
theorem ipv6_lawful_iff (a : SockaddrIn6) (prefix_len : UInt32) :
    Lawful a prefix_len ↔ ∃ h : prefix_len.toNat / 8 < 16,
      a.s6_addr ⟨prefix_len.toNat / 8, h⟩ = 0 := by
  by_cases h : prefix_len.toNat / 8 < 16
  · obtain ⟨m, hm, hbytes⟩ := subnetMask_eq h
    have hn := networdAddress_eq (a := a) h
    have hb := broadcastAddress_eq (a := a) h
    constructor
    · rintro ⟨m', n, b, hm', hn', -, -, rfl, -⟩
      obtain rfl : m = m' := by simpa [hm] using hm'
      refine ⟨h, ?_⟩
      rw [hn, Option.some.injEq] at hn'
      have hbyte := congrFun (congrArg SockaddrIn6.s6_addr hn') ⟨prefix_len.toNat / 8, h⟩
      simp only [hbytes, kept] at hbyte
      rw [if_pos trivial] at hbyte
      exact (and_eq_and_not_iff _ _).1 hbyte.symm
    · rintro ⟨_, hzero⟩
      refine ⟨m, _, _, hm, hn, hb, ?_, ?_, ?_⟩
      · have hfun : m.s6_addr = fun j : Fin 16 => maskByte prefix_len.toNat j := funext hbytes
        rw [hfun]
        exact firstBits_maskByte _
      · congr 1
        ext1 j
        rw [hbytes, kept]
        split
        · next hj =>
          have hj' : j = ⟨prefix_len.toNat / 8, h⟩ := Fin.ext hj
          rw [hj', hzero]
          simp
        · rfl
      · simp only [hbytes]
  · -- the sixteenth byte is the last
    constructor
    · rintro ⟨m, n, b, hm, -⟩
      simp [subnetMask, atEnd_eq_none _ h] at hm
    · exact fun hc => absurd hc.1 h

/-- The first byte of the network of ff00:: and 4 bits is 0f in place of f0. -/
theorem network_of_multicast :
    ¬Lawful ⟨AF_INET6, 0, 0, fun i => if i = 0 then 0xff else 0, 0⟩ 4 := by
  have h : (4 : UInt32).toNat / 8 < 16 := by decide
  obtain ⟨m, hm, hbytes⟩ := subnetMask_eq h
  rintro ⟨m', n, b, hm', hn', -, -, rfl, -⟩
  obtain rfl : m = m' := by simpa [hm] using hm'
  rw [networdAddress_eq h, Option.some.injEq] at hn'
  have hbyte := congrFun (congrArg SockaddrIn6.s6_addr hn') 0
  simp only [hbytes] at hbyte
  exact absurd hbyte (by decide)

end IPv6Address

end Sylar.Subnet
