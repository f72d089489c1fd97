import Mathlib.Data.List.Nodup
import Mathlib.Data.Nat.Notation

/-!
Setting a configuration variable from a string.

`fromString` converts, and gives the value to `setValue`, which compares, calls the listeners
and assigns. What the conversion throws as a `std::exception` is logged. The comparison is the
`==` of the type, about which nothing is assumed.
-/

namespace Sylar.FromString

variable {T : Type}

/-- What `FromStr()(val)` does: it yields a value, or throws a `std::exception` with the given
`what()`, or something else. -/
inductive Conversion (T : Type)
  | value (v : T)
  | exception (what : List Char)
  | other

structure Notice (T : Type) where
  key : ℕ
  old_value : T
  new_value : T
  deriving DecidableEq

/-- The fields of a `ConfigVar`, where `cbs` is the keys of `cbs_` in their order, with the
calls its listeners have received and the lines it has logged. -/
structure ConfigVar (T : Type) where
  name : List Char
  val : T
  cbs : List ℕ
  keys : cbs.Nodup
  notices : List (Notice T) := []
  log : List (List Char) := []

namespace ConfigVar

def notify (c : ConfigVar T) (v : T) : ConfigVar T :=
  { c with notices := c.notices ++ c.cbs.map fun key => ⟨key, c.val, v⟩ }

def setValue [BEq T] (c : ConfigVar T) (v : T) : ConfigVar T :=
  if v == c.val then c else { c.notify v with val := v }

def exceptionText (typeName name what val : List Char) : List Char :=
  "ConfigVar::fromString exception ".toList ++ what ++ " convert: string to ".toList ++
    typeName ++ " name=".toList ++ name ++ " - ".toList ++ val

/-- The calls that the listener with the key received after the first `n`. -/
def receivedSince (c : ConfigVar T) (n : ℕ) (key : ℕ) : List (T × T) :=
  ((c.notices.drop n).filter fun x => x.key == key).map fun x => (x.old_value, x.new_value)

lemma filter_notices {l : List ℕ} (h : l.Nodup) {key : ℕ} (hkey : key ∈ l) (old v : T) :
    ((l.map fun k => (⟨k, old, v⟩ : Notice T)).filter fun x => x.key == key) =
      [⟨key, old, v⟩] := by
  induction l with
  | nil => cases hkey
  | cons k l ih =>
    obtain ⟨hk, hnd⟩ := List.nodup_cons.mp h
    rw [List.map_cons, List.filter_cons]
    rcases List.mem_cons.mp hkey with rfl | hmem
    · have hnone : ((l.map fun k => (⟨k, old, v⟩ : Notice T)).filter fun x => x.key == key) =
          [] := by
        rw [List.filter_eq_nil_iff]
        intro x hx
        obtain ⟨k, hkl, rfl⟩ := List.mem_map.mp hx
        have hne : k ≠ key := fun he => hk (he ▸ hkl)
        simpa using hne
      simp [hnone]
    · have hne : k ≠ key := fun he => hk (he ▸ hmem)
      simpa [hne] using ih hnd hmem

section

variable [BEq T]

/-- `fromString`: the variable, and what is returned unless an exception goes through. -/
def fromString (typeName : List Char) (fromStr : List Char → Conversion T) (c : ConfigVar T)
    (val : List Char) : ConfigVar T × Option Bool :=
  match fromStr val with
  | .value v => (c.setValue v, some false)
  | .exception what =>
    ({ c with log := c.log ++ [exceptionText typeName c.name what val] }, some false)
  | .other => (c, none)

/-- The variable has the value, and each listener of `c` has heard of it once if it is new and
not at all otherwise. -/
def HasSet (c : ConfigVar T) (v : T) (c' : ConfigVar T) : Prop :=
  (c'.val = v ∨ (v == c'.val) = true) ∧
  ∀ key ∈ c.cbs, c'.receivedSince c.notices.length key = if v == c.val then [] else [(c.val, v)]

/-- What `fromString` is for. -/
def Contract (typeName : List Char) (fromStr : List Char → Conversion T) (c : ConfigVar T)
    (val : List Char) : Prop :=
  let r := c.fromString typeName fromStr val
  (∀ what, fromStr val = .exception what →
    r.2 = some false ∧ r.1.val = c.val ∧ r.1.notices = c.notices) ∧
  ∀ v, fromStr val = .value v → c.HasSet v r.1 ∧ r.2 = some true

/-! ### The value and the listeners -/

lemma setValue_same {c : ConfigVar T} {v : T} (h : (v == c.val) = true) : c.setValue v = c := by
  unfold setValue
  rw [if_pos h]

lemma setValue_val (c : ConfigVar T) (v : T) :
    (c.setValue v).val = v ∨ (v == (c.setValue v).val) = true := by
  by_cases h : (v == c.val) = true
  · rw [setValue_same h]
    exact Or.inr h
  · unfold setValue
    rw [if_neg h]
    exact Or.inl rfl

/-- Every listener hears once of a new value, and of nothing else. -/
lemma setValue_notices (c : ConfigVar T) (v : T) :
    ∀ key ∈ c.cbs, (c.setValue v).receivedSince c.notices.length key =
      if v == c.val then [] else [(c.val, v)] := by
  intro key hkey
  unfold receivedSince setValue
  by_cases h : (v == c.val) = true
  · simp [h]
  · simp only [if_neg h, notify, List.drop_left, filter_notices c.keys hkey, List.map_cons,
      List.map_nil]

/-! ### The answer -/

/-- **When `fromString` keeps its contract.** Whenever the conversion yields a value, that is the
value afterwards and the listeners have heard of it as they should; but the answer is that of a
failure, so the contract is kept exactly when no value is yielded. -/
theorem fromString_contract_iff (typeName : List Char) (fromStr : List Char → Conversion T)
    (c : ConfigVar T) (val : List Char) :
    (∀ v, fromStr val = .value v → c.HasSet v (c.fromString typeName fromStr val).1) ∧
    (c.Contract typeName fromStr val ↔ ∀ v, fromStr val ≠ .value v) := by
  unfold Contract fromString
  cases hconv : fromStr val with
  | value v =>
    have hset : c.HasSet v (c.setValue v) := ⟨setValue_val c v, setValue_notices c v⟩
    refine ⟨fun w hw => ?_, iff_of_false (fun h => ?_) fun h => h v rfl⟩
    · obtain rfl : v = w := Conversion.value.inj hw
      exact hset
    · have hret : some false = some true := (h.2 v rfl).2
      cases hret
  | exception what => exact ⟨nofun, iff_of_true ⟨fun _ _ => ⟨rfl, rfl, rfl⟩, nofun⟩ nofun⟩
  | other => exact ⟨nofun, iff_of_true ⟨nofun, nofun⟩ nofun⟩

end

def digit : List Char → Conversion ℕ
  | [ch] => if ch.isDigit then .value (ch.toNat - 48) else .exception "bad lexical cast".toList
  | _ => .exception "bad lexical cast".toList

def port : ConfigVar ℕ := ⟨"port".toList, 5, [1], by simp, [], []⟩

theorem fromString_contract_iff_port :
    port.HasSet 7 (port.fromString "int".toList digit ['7']).1 ∧
      port.Contract "int".toList digit ['x'] :=
  ⟨(fromString_contract_iff "int".toList digit port ['7']).1 7 rfl,
    (fromString_contract_iff "int".toList digit port ['x']).2.mpr nofun⟩

theorem fromString_answers_failure :
    port.fromString "int".toList digit ['7'] = (port.setValue 7, some false) ∧
      ¬ port.Contract "int".toList digit ['7'] := by
  refine ⟨rfl, fun h => ?_⟩
  have hret : some false = some true := (h.2 7 rfl).2
  cases hret

end ConfigVar

end Sylar.FromString
