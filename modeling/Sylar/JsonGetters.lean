import Mathlib.Algebra.Ring.Int.Defs
import Mathlib.Data.Char
import Mathlib.Data.List.TakeWhile
import Sylar.Lib.Numeral
import Sylar.YamlJson

/-!
The getters of `JsonUtil` on a document that has been through YAML.

YAML has no numbers: `JsonToYaml` writes the text of each leaf, and `YamlToJson` makes texts of all
scalars. The getters read a number from its text, too. Reals are left out.
-/

namespace Sylar.JsonGetters

open Lib.Numeral Sylar.Yaml Sylar.YamlJson

/-! ### Numbers -/

def isspace (c : Char) : Bool := c = ' ' || ('\t' ≤ c && c ≤ '\r')

/-- Whether there is a minus, and what is behind a sign. -/
def sign : List Char → Bool × List Char
  | '-' :: str => (true, str)
  | '+' :: str => (false, str)
  | str => (false, str)

/-- `strtoull(str, nullptr, 10)`: `ULLONG_MAX` for what is too large, else the negation of what has
a minus. -/
def strtoull (str : List Char) : BitVec 64 :=
  let r := sign (str.dropWhile isspace)
  let n := (readFrom 10 0 (r.2.takeWhile Char.isDigit)).getD 0
  if 2 ^ 64 ≤ n then BitVec.allOnes 64
  else if r.1 then -BitVec.ofNat 64 n else BitVec.ofNat 64 n

def Atoi (str : List Char) : ℤ := if str = [] then 0 else (strtoull str).toInt

def decimal (z : ℤ) : List Char :=
  if z < 0 then '-' :: Nat.toDigits 10 z.natAbs else Nat.toDigits 10 z.natAbs

structure IntType where
  bits : ℕ
  signed : Bool
  pos : 0 < bits
  le : bits ≤ 64

namespace IntType

variable (t : IntType)

def Fits (z : ℤ) : Prop :=
  if t.signed then -2 ^ (t.bits - 1) ≤ z ∧ z < 2 ^ (t.bits - 1) else 0 ≤ z ∧ z < 2 ^ t.bits

instance (z : ℤ) : Decidable (t.Fits z) := by
  unfold Fits
  infer_instance

def wrap (z : ℤ) : ℤ := if t.signed then z.bmod (2 ^ t.bits) else z % 2 ^ t.bits

end IntType

def int32_t : IntType := ⟨32, true, by decide, by decide⟩
def uint32_t : IntType := ⟨32, false, by decide, by decide⟩
def int64_t : IntType := ⟨64, true, by decide, by decide⟩
def uint64_t : IntType := ⟨64, false, by decide, by decide⟩

/-! ### Values -/

/-- `Json::Value`. A number is of the type `Json::Int64` or `Json::UInt64`. -/
inductive Value
  | null
  | bool (b : Bool)
  | number (z : ℤ)
  | string (text : List Char)
  | array (items : List Value)
  | object (entries : List (List Char × Value))

namespace Value

mutual

def ofJson : Json → Value
  | .null => .null
  | .string text => .string text
  | .array items => .array (ofItems items)
  | .object entries => .object (ofEntries entries)

def ofItems : List Json → List Value
  | [] => []
  | item :: items => ofJson item :: ofItems items

def ofEntries : List (List Char × Json) → List (List Char × Value)
  | [] => []
  | (key, value) :: entries => (key, ofJson value) :: ofEntries entries

end

/-- `json[name]` where `isMember(name)`. On a value that is no object `isMember` throws. -/
def member (json : Value) (name : List Char) : Option (Option Value) :=
  match json with
  | null => some none
  | object entries => some ((entries.find? fun e => e.1 = name).map Prod.snd)
  | _ => none

end Value

/-! ### The getters -/

/-- What a getter of integers makes of a member. -/
def readInt (t : IntType) (default_value : ℤ) : Option Value → ℤ
  | some (.number z) => if t.Fits z then z else default_value
  | some (.string text) => t.wrap (Atoi text)
  | _ => default_value

def getInt (t : IntType) (json : Value) (name : List Char) (default_value : ℤ) : Option ℤ :=
  (json.member name).map (readInt t default_value)

namespace JsonUtil

def GetInt32 := getInt int32_t
def GetUint32 := getInt uint32_t
def GetInt64 := getInt int64_t
def GetUint64 := getInt uint64_t

end JsonUtil

def readString (default_value : List Char) : Option Value → List Char
  | some (.string text) => text
  | _ => default_value

def JsonUtil.GetString (json : Value) (name default_value : List Char) : Option (List Char) :=
  (json.member name).map (readString default_value)

/-! ### The way through YAML -/

/-- `asString` of a value that is no array and no object. -/
def asString : Value → List Char
  | .bool b => if b then "true".toList else "false".toList
  | .number z => decimal z
  | .string text => text
  | _ => []

mutual

/-- What `ynode` holds afterwards, if `true` is returned. -/
def JsonToYaml : Value → Node → Option Node
  | .array items, ynode => pushItems (passes items.length) items ynode
  | .object entries, ynode => assignEntries entries ynode
  | leaf, _ => some (.scalar (asString leaf))

def pushItems : ℕ → List Value → Node → Option Node
  | n + 1, item :: items, ynode =>
    (JsonToYaml item .null).bind fun v => (pushBack ynode v).bind (pushItems n items)
  | _, _, ynode => some ynode

def assignEntries : List (List Char × Value) → Node → Option Node
  | [], ynode => some ynode
  | (key, value) :: entries, ynode =>
    (JsonToYaml value .null).bind fun v => (assign ynode key v).bind (assignEntries entries)

end

def trip (json : Value) : Option Value :=
  (JsonToYaml json .null).bind fun ynode => (YamlToJson ynode .null).map .ofJson

mutual

/-- What is left of a value: the texts of its leaves, and nothing of an empty array or object. -/
def text : Value → Json
  | .array [] => .null
  | .array (item :: items) => .array (text item :: textItems items)
  | .object [] => .null
  | .object ((key, value) :: entries) => .object ((key, text value) :: textEntries entries)
  | leaf => .string (asString leaf)

def textItems : List Value → List Json
  | [] => []
  | item :: items => text item :: textItems items

def textEntries : List (List Char × Value) → List (List Char × Json)
  | [] => []
  | (key, value) :: entries => (key, text value) :: textEntries entries

end

/-- A value as the library keeps it: the keys of an object are sorted. An array is short enough for
the loop, and numbers have 64 bits. -/
inductive Document : Value → Prop
  | null : Document .null
  | bool (b : Bool) : Document (.bool b)
  | number {z : ℤ} (le : -2 ^ 63 ≤ z) (lt : z < 2 ^ 64) : Document (.number z)
  | string (text : List Char) : Document (.string text)
  | array {items : List Value} (lt : items.length < 2 ^ 31) (h : ∀ item ∈ items, Document item) :
      Document (.array items)
  | object {entries : List (List Char × Value)} (sorted : entries.Pairwise fun e f => e.1 < f.1)
      (h : ∀ e ∈ entries, Document e.2) : Document (.object entries)

/-! ### What comes back -/

lemma textItems_eq (items : List Value) : textItems items = items.map text := by
  induction items with
  | nil => rfl
  | cons item items ih => rw [textItems, ih, List.map_cons]

lemma textEntries_eq (entries : List (List Char × Value)) :
    textEntries entries = entries.map fun e => (e.1, text e.2) := by
  induction entries with
  | nil => rfl
  | cons e entries ih =>
    obtain ⟨key, value⟩ := e
    rw [textEntries, ih, List.map_cons]

structure Conv (v : Value) (n : Node) : Prop where
  toYaml : JsonToYaml v .null = some n
  toJson : YamlToJson n .null = some (text v)

section Items

variable {l : List (Value × Node)}

lemma pushItems_sequence (h : ∀ t ∈ l, Conv t.1 t.2) {n : ℕ} (hn : l.length ≤ n)
    (acc : List Node) : pushItems n (l.map Prod.fst) (.sequence acc) =
      some (.sequence (acc ++ l.map Prod.snd)) := by
  induction l generalizing n acc with
  | nil => cases n <;> simp [pushItems]
  | cons t l ih =>
    obtain ⟨ht, hl⟩ := List.forall_mem_cons.1 h
    cases n with
    | zero => exact absurd hn (Nat.not_succ_le_zero _)
    | succ n =>
      rw [List.map_cons, pushItems, ht.toYaml, Option.bind_some, pushBack, Option.bind_some,
        ih hl (Nat.le_of_succ_le_succ hn)]
      simp

lemma appendItems_array (h : ∀ t ∈ l, Conv t.1 t.2) (acc : List Json) :
    appendItems (l.map Prod.snd) (.array acc) =
      some (.array (acc ++ l.map fun t => text t.1)) := by
  induction l generalizing acc with
  | nil => simp [appendItems]
  | cons t l ih =>
    obtain ⟨ht, hl⟩ := List.forall_mem_cons.1 h
    rw [List.map_cons, appendItems, ht.toJson, Option.bind_some, Json.append, Option.bind_some,
      ih hl]
    simp

lemma conv_array (h : ∀ t ∈ l, Conv t.1 t.2) (hlt : l.length < 2 ^ 31) :
    ∃ n, Conv (.array (l.map Prod.fst)) n := by
  cases l with
  | nil => exact ⟨.null, rfl, rfl⟩
  | cons t l =>
    obtain ⟨ht, hl⟩ := List.forall_mem_cons.1 h
    refine ⟨.sequence (t.2 :: l.map Prod.snd), ?_, ?_⟩
    · rw [JsonToYaml, List.length_map, passes_eq hlt, List.length_cons, List.map_cons, pushItems,
        ht.toYaml, Option.bind_some, pushBack, Option.bind_some,
        pushItems_sequence hl (Nat.le_refl _)]
      rfl
    · rw [YamlToJson, appendItems, ht.toJson, Option.bind_some, Json.append, Option.bind_some,
        appendItems_array hl, List.map_cons, text, textItems_eq, List.map_map]
      rfl

end Items

section Entries

variable {l : List (List Char × Value × Node)}

/-- A key that is greater than the others goes to the end. -/
lemma put_last {α : Type} {key : List Char} {value : α} {entries : List (List Char × α)}
    (h : ∀ e ∈ entries, e.1 < key) :
    YamlJson.put key value entries = entries ++ [(key, value)] := by
  induction entries with
  | nil => rfl
  | cons e entries ih =>
    obtain ⟨he, hentries⟩ := List.forall_mem_cons.1 h
    rw [YamlJson.put, if_neg he.asymm, if_neg he.ne', ih hentries, List.cons_append]

lemma assignEntries_map (h : ∀ t ∈ l, Conv t.2.1 t.2.2) (acc : List (List Char × Value × Node))
    (hsorted : (acc ++ l).Pairwise fun e f => e.1 < f.1) :
    assignEntries (l.map fun t => (t.1, t.2.1)) (.map (acc.map fun t => (.scalar t.1, t.2.2))) =
      some (.map ((acc ++ l).map fun t => (.scalar t.1, t.2.2))) := by
  induction l generalizing acc with
  | nil => simp [assignEntries]
  | cons t l ih =>
    obtain ⟨ht, hl⟩ := List.forall_mem_cons.1 h
    have hfresh : ∀ e ∈ acc.map fun t => ((.scalar t.1, t.2.2) : Node × Node),
        e.1.isText t.1 = false := by
      intro e he
      obtain ⟨u, hu, rfl⟩ := List.mem_map.1 he
      have hlt : u.1 < t.1 := (List.pairwise_append.1 hsorted).2.2 u hu t List.mem_cons_self
      simpa [Node.isText] using hlt.ne
    have hsplit : acc ++ t :: l = acc ++ [t] ++ l := by simp
    rw [hsplit] at hsorted ⊢
    rw [List.map_cons, assignEntries, ht.toYaml, Option.bind_some, assign, Option.bind_some,
      put_of_new hfresh, ← ih hl _ hsorted]
    simp

lemma assignMembers_object (h : ∀ t ∈ l, Conv t.2.1 t.2.2) (acc : List (List Char × Value × Node))
    (hsorted : (acc ++ l).Pairwise fun e f => e.1 < f.1) :
    assignMembers (l.map fun t => (.scalar t.1, t.2.2))
        (.object (acc.map fun t => (t.1, text t.2.1))) =
      some (.object ((acc ++ l).map fun t => (t.1, text t.2.1))) := by
  induction l generalizing acc with
  | nil => simp [assignMembers]
  | cons t l ih =>
    obtain ⟨ht, hl⟩ := List.forall_mem_cons.1 h
    have hlast : ∀ e ∈ acc.map fun t => (t.1, text t.2.1), e.1 < t.1 := by
      intro e he
      obtain ⟨u, hu, rfl⟩ := List.mem_map.1 he
      exact (List.pairwise_append.1 hsorted).2.2 u hu t List.mem_cons_self
    have hsplit : acc ++ t :: l = acc ++ [t] ++ l := by simp
    rw [hsplit] at hsorted ⊢
    rw [List.map_cons, assignMembers, ht.toJson, Option.bind_some, Node.text, Json.assign,
      Option.bind_some, put_last hlast, ← ih hl _ hsorted]
    simp

lemma conv_object (h : ∀ t ∈ l, Conv t.2.1 t.2.2) (hsorted : l.Pairwise fun e f => e.1 < f.1) :
    ∃ n, Conv (.object (l.map fun t => (t.1, t.2.1))) n := by
  cases l with
  | nil => exact ⟨.null, rfl, rfl⟩
  | cons t l =>
    obtain ⟨ht, hl⟩ := List.forall_mem_cons.1 h
    have htoYaml := assignEntries_map hl [t] hsorted
    have htoJson := assignMembers_object hl [t] hsorted
    refine ⟨.map ((t :: l).map fun t => (.scalar t.1, t.2.2)), ?_, ?_⟩
    · rw [JsonToYaml, List.map_cons, assignEntries, ht.toYaml, Option.bind_some, assign,
        Option.bind_some]
      exact htoYaml
    · rw [YamlToJson, List.map_cons, assignMembers, ht.toJson, Option.bind_some, Node.text,
        Json.assign, Option.bind_some, List.map_cons, text, textEntries_eq, List.map_map]
      exact htoJson

end Entries

/-- **A document comes back as its texts.** -/
lemma conv_of_document {v : Value} (h : Document v) : ∃ n, Conv v n := by
  induction h with
  | null => exact ⟨.scalar [], rfl, rfl⟩
  | bool b => exact ⟨.scalar (asString (.bool b)), rfl, rfl⟩
  | number _ _ => exact ⟨.scalar (decimal _), rfl, rfl⟩
  | string text => exact ⟨.scalar text, rfl, rfl⟩
  | array lt _ ih =>
    obtain ⟨l, rfl, hl⟩ := exists_map (f := fun t : Value × Node => t.1)
      (Q := fun t => Conv t.1 t.2) fun item hitem => by
        obtain ⟨n, hn⟩ := ih item hitem
        exact ⟨(item, n), rfl, hn⟩
    exact conv_array hl (by rwa [List.length_map] at lt)
  | object sorted _ ih =>
    obtain ⟨l, rfl, hl⟩ := exists_map (f := fun t : List Char × Value × Node => (t.1, t.2.1))
      (Q := fun t => Conv t.2.1 t.2.2) fun e he => by
        obtain ⟨n, hn⟩ := ih e he
        exact ⟨(e.1, e.2, n), rfl, hn⟩
    rw [List.pairwise_map] at sorted
    exact conv_object hl sorted

lemma trip_eq {v : Value} (h : Document v) : trip v = some (.ofJson (text v)) := by
  obtain ⟨n, hn⟩ := conv_of_document h
  rw [trip, hn.toYaml, Option.bind_some, hn.toJson]
  rfl

/-! ### Numbers and their texts -/

lemma not_space_of_isDigit {c : Char} (h : c.isDigit) : isspace c = false ∧ c ≠ '-' ∧ c ≠ '+' := by
  have hge : 48 ≤ c.toNat := by
    rw [Char.isDigit, Bool.and_eq_true, decide_eq_true_iff, decide_eq_true_iff] at h
    exact h.1
  have hne : ∀ d : Char, d.toNat < 48 → c ≠ d := fun d hd heq => by
    subst heq
    omega
  have hspace : ¬c ≤ '\r' := fun hle => by
    have hle : c.toNat ≤ 13 := hle
    omega
  refine ⟨?_, hne '-' (by decide), hne '+' (by decide)⟩
  rw [isspace, decide_eq_false (hne ' ' (by decide)), decide_eq_false hspace, Bool.and_false]
  rfl

lemma sign_of_isDigit {c : Char} (h : c.isDigit) (s : List Char) :
    sign (c :: s) = (false, c :: s) := by
  obtain ⟨-, hminus, hplus⟩ := not_space_of_isDigit h
  unfold sign
  split
  case h_1 heq => exact absurd (List.cons.inj heq).1 hminus
  case h_2 heq => exact absurd (List.cons.inj heq).1 hplus
  case h_3 => rfl

section Strtoull

variable {s : List Char} {n : ℕ} (hdigits : ∀ c ∈ s, c.isDigit)
  (hread : Lib.Numeral.read 10 s = some n) (hn : n < 2 ^ 64)
include hdigits hread hn

lemma strtoull_of_sign {negative : Bool} {str : List Char}
    (hsign : sign (str.dropWhile isspace) = (negative, s)) :
    strtoull str = if negative then -BitVec.ofNat 64 n else BitVec.ofNat 64 n := by
  have htake : s.takeWhile Char.isDigit = s := List.takeWhile_eq_self_iff.2 hdigits
  have hvalue : (readFrom 10 0 s).getD 0 = n := by
    rw [Lib.Numeral.read] at hread
    split at hread
    · cases hread
    · rw [hread, Option.getD_some]
  rw [strtoull, hsign]
  simp only [htake, hvalue, Nat.not_le.2 hn, if_false]

lemma strtoull_digits : strtoull s = BitVec.ofNat 64 n := by
  have hsign : sign (s.dropWhile isspace) = (false, s) := by
    cases s with
    | nil => rfl
    | cons c s =>
      have hc := hdigits c List.mem_cons_self
      rw [List.dropWhile_cons_of_neg (by simp [(not_space_of_isDigit hc).1]), sign_of_isDigit hc]
  simpa using strtoull_of_sign hdigits hread hn hsign

lemma strtoull_minus : strtoull ('-' :: s) = -BitVec.ofNat 64 n := by
  have hsign : sign (('-' :: s).dropWhile isspace) = (true, s) := rfl
  simpa using strtoull_of_sign hdigits hread hn hsign

end Strtoull

/-- The text of a number with 64 bits is read as these bits. -/
lemma Atoi_decimal {z : ℤ} (hle : -2 ^ 63 ≤ z) (hlt : z < 2 ^ 64) :
    Atoi (decimal z) = z.bmod (2 ^ 64) := by
  have hread := read_toDigits (b := 10) (by decide) (by decide) z.natAbs
  have hdigits : ∀ c ∈ Nat.toDigits 10 z.natAbs, c.isDigit := fun c hc =>
    Nat.isDigit_of_mem_toDigits (by decide) (by decide) hc
  have habs : z.natAbs < 2 ^ 64 := by omega
  have hbits : strtoull (decimal z) = BitVec.ofInt 64 z := by
    rw [decimal]
    split
    case isTrue hz =>
      have hz : z = -(z.natAbs : ℤ) := by omega
      rw [strtoull_minus hdigits hread habs]
      conv_rhs => rw [hz, BitVec.ofInt_neg, BitVec.ofInt_natCast]
    case isFalse hz =>
      have hz : z = (z.natAbs : ℤ) := by omega
      rw [strtoull_digits hdigits hread habs]
      conv_rhs => rw [hz, BitVec.ofInt_natCast]
  have hne : decimal z ≠ [] := by
    rw [decimal]
    split
    · exact List.cons_ne_nil _ _
    · exact Nat.toDigits_ne_nil
  rw [Atoi, if_neg hne, hbits, BitVec.toInt_ofInt]

namespace IntType

variable (t : IntType) {z : ℤ}

lemma dvd : 2 ^ t.bits ∣ 2 ^ 64 := Nat.pow_dvd_pow 2 t.le

lemma wrap_bmod (z : ℤ) : t.wrap (z.bmod (2 ^ 64)) = t.wrap z := by
  have hdvd := t.dvd
  unfold wrap
  split
  · exact Int.bmod_bmod_of_dvd hdvd
  · have hcast : (2 : ℤ) ^ t.bits ∣ ((2 ^ 64 : ℕ) : ℤ) := by exact_mod_cast hdvd
    rw [← Int.emod_emod_of_dvd _ hcast, Int.bmod_emod, Int.emod_emod_of_dvd _ hcast]

lemma pow_bits : (2 : ℤ) ^ t.bits = 2 ^ (t.bits - 1) * 2 := by
  rw [← Int.pow_succ, Nat.succ_eq_add_one, Nat.sub_add_cancel t.pos]

lemma wrap_of_fits (h : t.Fits z) : t.wrap z = z := by
  have hpow := t.pow_bits
  unfold Fits at h
  unfold wrap
  split at h
  case isTrue hsigned =>
    rw [if_pos hsigned]
    refine Int.bmod_eq_of_le_mul_two ?_ ?_
    · push_cast
      omega
    · push_cast
      omega
  case isFalse hsigned =>
    rw [if_neg hsigned]
    exact Int.emod_eq_of_lt h.1 h.2

lemma fits_zero : t.Fits 0 := by
  have hpos : (0 : ℤ) < 2 ^ (t.bits - 1) := Int.pow_pos (by decide)
  have hpow := t.pow_bits
  unfold Fits
  split <;> omega

lemma exists_fits_ne (z : ℤ) : ∃ d, t.Fits d ∧ d ≠ z := by
  have hpos : (0 : ℤ) < 2 ^ (t.bits - 1) := Int.pow_pos (by decide)
  have hpow := t.pow_bits
  by_cases hz : z = 0
  · refine ⟨if t.signed then -1 else 1, ?_, ?_⟩
    · unfold Fits
      cases t.signed <;> simp <;> omega
    · cases t.signed <;> simp [hz]
  · exact ⟨0, t.fits_zero, Ne.symm hz⟩

end IntType

/-! ### What the getters find -/

namespace Value

lemma ofItems_eq (items : List Json) : ofItems items = items.map ofJson := by
  induction items with
  | nil => rfl
  | cons item items ih => rw [ofItems, ih, List.map_cons]

lemma ofEntries_eq (entries : List (List Char × Json)) :
    ofEntries entries = entries.map fun e => (e.1, ofJson e.2) := by
  induction entries with
  | nil => rfl
  | cons e entries ih =>
    obtain ⟨key, value⟩ := e
    rw [ofEntries, ih, List.map_cons]

mutual

/-- On the values that `YamlToJson` builds, `JsonToYaml` is the one of `YamlJson`. -/
lemma JsonToYaml_ofJson :
    ∀ (json : Json) (ynode : Node), JsonToYaml (ofJson json) ynode = YamlJson.JsonToYaml json ynode
  | .null, _ => rfl
  | .string _, _ => rfl
  | .array items, ynode => by
    rw [ofJson, JsonToYaml, YamlJson.JsonToYaml, pushItems_ofItems, ofItems_eq, List.length_map]
  | .object entries, ynode => by
    rw [ofJson, JsonToYaml, YamlJson.JsonToYaml, assignEntries_ofEntries]

lemma pushItems_ofItems : ∀ (n : ℕ) (items : List Json) (ynode : Node),
    pushItems n (ofItems items) ynode = YamlJson.pushItems n items ynode
  | 0, items, ynode => by cases items <;> rfl
  | n + 1, [], ynode => rfl
  | n + 1, item :: items, ynode => by
    rw [ofItems, pushItems, YamlJson.pushItems, JsonToYaml_ofJson item .null]
    refine Option.bind_congr fun v _ => Option.bind_congr fun ynode _ => ?_
    exact pushItems_ofItems n items ynode

lemma assignEntries_ofEntries : ∀ (entries : List (List Char × Json)) (ynode : Node),
    assignEntries (ofEntries entries) ynode = YamlJson.assignEntries entries ynode
  | [], _ => rfl
  | (key, value) :: entries, ynode => by
    rw [ofEntries, assignEntries, YamlJson.assignEntries, JsonToYaml_ofJson value .null]
    refine Option.bind_congr fun v _ => Option.bind_congr fun ynode _ => ?_
    exact assignEntries_ofEntries entries ynode

end

def back (v : Value) : Value := ofJson (text v)

lemma member_back (entries : List (List Char × Value)) (name : List Char) :
    (back (.object entries)).member name =
      ((Value.object entries).member name).map (Option.map back) := by
  have hmember : ∀ es : List (List Char × Value),
      ((es.map fun e => (e.1, back e.2)).find? fun e => e.1 = name).map Prod.snd =
        ((es.find? fun e => e.1 = name).map Prod.snd).map back := by
    intro es
    rw [List.find?_map, Option.map_map, Option.map_map]
    rfl
  cases entries with
  | nil => rfl
  | cons e entries =>
    obtain ⟨key, value⟩ := e
    have hback : back (.object ((key, value) :: entries)) =
        .object (((key, value) :: entries).map fun e => (e.1, back e.2)) := by
      rw [back, text, textEntries_eq, ofJson, ofEntries, ofEntries_eq, List.map_map]
      rfl
    rw [hback, member, member, hmember]
    rfl

end Value

/-- The getter of integers finds in a member what it found before. -/
def KeepsInt (t : IntType) : Option Value → Prop
  | some .null | some (.bool _) => False
  | some (.number z) => t.Fits z
  | _ => True

def KeepsString : Option Value → Prop
  | some .null | some (.bool _) | some (.number _) => False
  | _ => True

lemma readInt_back (t : IntType) {v : Value} (h : Document v) :
    (∀ d, t.Fits d → readInt t d (some v.back) = readInt t d (some v)) ↔ KeepsInt t (some v) := by
  -- where the member was not read before, the value does not depend on the default any more
  have hlost : ∀ (z : ℤ) (w : Option Value), (∀ d, readInt t d w = d) →
      ¬∀ d, t.Fits d → z = readInt t d w := by
    intro z w hw hall
    obtain ⟨d, hd, hne⟩ := t.exists_fits_ne z
    exact hne ((hall d hd).trans (hw d)).symm
  cases h with
  | null => exact iff_of_false (hlost _ _ fun _ => rfl) id
  | bool b => exact iff_of_false (hlost _ _ fun _ => rfl) id
  | @number z hle hlt =>
    have hback : ∀ d, readInt t d (some (Value.number z).back) = t.wrap z := fun d =>
      (congrArg t.wrap (Atoi_decimal hle hlt)).trans (t.wrap_bmod z)
    simp only [hback]
    by_cases hfits : t.Fits z
    · refine iff_of_true (fun d _ => ?_) hfits
      rw [readInt, if_pos hfits, t.wrap_of_fits hfits]
    · refine iff_of_false (hlost _ _ fun d => ?_) hfits
      rw [readInt, if_neg hfits]
  | string text => exact iff_of_true (fun _ _ => rfl) trivial
  | @array items _ _ => cases items <;> exact iff_of_true (fun _ _ => rfl) trivial
  | @object entries _ _ => cases entries <;> exact iff_of_true (fun _ _ => rfl) trivial

lemma readString_back (v : Value) :
    (∀ d, readString d (some v.back) = readString d (some v)) ↔ KeepsString (some v) := by
  have hlost : ∀ (s : List Char) (w : Option Value), (∀ d, readString d w = d) →
      ¬∀ d, s = readString d w := by
    intro s w hw hall
    exact List.cons_ne_self 'x' s ((hall ('x' :: s)).trans (hw _)).symm
  cases v with
  | null => exact iff_of_false (hlost _ _ fun _ => rfl) id
  | bool b => exact iff_of_false (hlost _ _ fun _ => rfl) id
  | number z => exact iff_of_false (hlost _ _ fun _ => rfl) id
  | string text => exact iff_of_true (fun _ => rfl) trivial
  | array items => cases items <;> exact iff_of_true (fun _ => rfl) trivial
  | object entries => cases entries <;> exact iff_of_true (fun _ => rfl) trivial

lemma document_of_member {entries : List (List Char × Value)} (h : Document (.object entries))
    {name : List Char} {v : Value} (hv : (Value.object entries).member name = some (some v)) :
    Document v := by
  obtain ⟨e, he, rfl⟩ := Option.map_eq_some_iff.1 (Option.some.inj hv)
  cases h with
  | object _ hentries => exact hentries e (List.mem_of_find?_eq_some he)

/-- **What the getters find in an object that has been through YAML.** A number of the type asked
for is found, although it has become a text; what was not read before (null, a truth value, a number
that does not fit) hides the default. -/
theorem getters_after_trip {entries : List (List Char × Value)} (h : Document (.object entries)) :
    ∃ json, trip (.object entries) = some json ∧ ∀ name, ∃ m,
      (Value.object entries).member name = some m ∧
      (∀ t, (∀ d, t.Fits d → getInt t json name d = getInt t (.object entries) name d) ↔
        KeepsInt t m) ∧
      ((∀ d, JsonUtil.GetString json name d = JsonUtil.GetString (.object entries) name d) ↔
        KeepsString m) := by
  refine ⟨Value.back (.object entries), trip_eq h, fun name => ?_⟩
  obtain ⟨m, hm⟩ : ∃ m, (Value.object entries).member name = some m := ⟨_, rfl⟩
  have hback : (Value.back (.object entries)).member name = some (m.map Value.back) := by
    rw [Value.member_back, hm, Option.map_some]
  refine ⟨m, hm, fun t => ?_, ?_⟩
  · simp only [getInt, hback, hm, Option.map_some, Option.some.injEq]
    cases m with
    | none => exact iff_of_true (fun _ _ => rfl) trivial
    | some v => exact readInt_back t (document_of_member h hm)
  · simp only [JsonUtil.GetString, hback, hm, Option.map_some, Option.some.injEq]
    cases m with
    | none => exact iff_of_true (fun _ => rfl) trivial
    | some v => exact readString_back v

/-- `{"n": -5}` -/
theorem getters_after_trip_minus : ∃ json,
    trip (.object [(['n'], .number (-5))]) = some json ∧
      JsonUtil.GetInt32 json ['n'] 7 = some (-5) := by
  have hdocument : Document (.object [(['n'], .number (-5))]) :=
    .object (List.pairwise_singleton _ _) fun e he => by
      rw [List.mem_singleton.1 he]
      exact .number (by decide) (by decide)
  obtain ⟨json, htrip, hgetters⟩ := getters_after_trip hdocument
  obtain ⟨m, hm, hint, -⟩ := hgetters ['n']
  obtain rfl : some (.number (-5)) = m := Option.some.inj hm
  have hfits : int32_t.Fits (-5) := by decide
  have hseven : int32_t.Fits 7 := by decide
  exact ⟨json, htrip, (hint int32_t).2 hfits 7 hseven⟩

end Sylar.JsonGetters
