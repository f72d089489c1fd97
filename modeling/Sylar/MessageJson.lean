import Sylar.Lib.Numeral
import Sylar.Lib.SortedMap
import Mathlib.Data.Char
import Mathlib.Data.List.Lex

/-!
Protocol buffer messages as JSON.

A message is given by what its reflection answers: for each field of the descriptor, in order, the
values it has, and the unknown fields. Reals are not looked into, and a `float` is given as the
`double` it converts to. Whether the bytes of an unknown field can be parsed is answered by
`ParseFromString`, whose answer is kept with them.
-/

namespace Sylar.MessageJson

open Lib.SortedMap

variable {R T : Type}

/-! ### JSON -/

inductive Value (R : Type)
  | null
  | int (z : ℤ)
  | uint (n : ℕ)
  | real (x : R)
  | bool (b : Bool)
  | string (s : List UInt8)
  | array (items : List (Value R))
  | object (members : List (List Char × Value R))

namespace Value

/-- `append`, which throws on what is not an array. -/
def append (item : Value R) : Value R → Option (Value R)
  | null => some (array [item])
  | array items => some (array (items ++ [item]))
  | _ => none

/-- What is done to `jnode[key]`. It is null before, if there is no such member. -/
def index (jnode : Value R) (key : List Char) (f : Value R → Option (Value R)) :
    Option (Value R) :=
  match jnode with
  | null => (f null).map fun v => object [(key, v)]
  | object members =>
    (f ((members.lookup key).getD null)).map fun v => object (put key v members)
  | _ => none

def member (jnode : Value R) (key : List Char) : Option (Value R) :=
  match jnode with
  | object members => members.lookup key
  | _ => none

end Value

open Value

/-! ### Messages -/

inductive UnknownField
  | varint (number : ℕ) (x : BitVec 64)
  | fixed32 (number : ℕ) (x : BitVec 32)
  | fixed64 (number : ℕ) (x : BitVec 64)
  | length_delimited (number : ℕ) (v : List UInt8) (tmp : Option (List UnknownField))
  | group (number : ℕ) (fields : List UnknownField)

/-- A value of a field. The fields of a message are given with their names, whether they are
repeated, and their values; a field that is not repeated has one value if `HasField` is true. -/
inductive Datum (R : Type)
  | int32 (x : BitVec 32)
  | int64 (x : BitVec 64)
  | uint32 (x : BitVec 32)
  | uint64 (x : BitVec 64)
  | float (x : R)
  | double (x : R)
  | bool (b : Bool)
  | enum (number : BitVec 32)
  | string (s : List UInt8)
  | message (fields : List ((List Char × Bool) × List (Datum R))) (unknown : List UnknownField)

/-! ### `serialize_unknowfieldset` -/

def to_string (n : ℕ) : List Char := Nat.toDigits 10 n

def push (n : ℕ) (v : Value R) (kvs : List (ℕ × List (Value R))) : List (ℕ × List (Value R)) :=
  put n ((kvs.lookup n).getD [] ++ [v]) kvs

/-- `append` to `jnode[key]`, one after another. -/
def appendEach (key : List Char) : List (Value R) → Value R → Option (Value R)
  | [], jnode => some jnode
  | v :: vs, jnode => (jnode.index key (append v)).bind (appendEach key vs)

def writeKvs : List (ℕ × List (Value R)) → Value R → Option (Value R)
  | [], jnode => some jnode
  | (n, vs) :: kvs, jnode =>
    (if vs.length > 1 then appendEach (to_string n) vs jnode
      else vs.head?.bind fun v => jnode.index (to_string n) fun _ => some v).bind (writeKvs kvs)

mutual

def collect : UnknownField → List (ℕ × List (Value R)) → Option (List (ℕ × List (Value R)))
  | .varint n x, kvs => some (push n (.int x.toInt) kvs)
  | .fixed32 n x, kvs => some (push n (.uint x.toNat) kvs)
  | .fixed64 n x, kvs => some (push n (.uint x.toNat) kvs)
  | .length_delimited n v none, kvs => some (push n (.string v) kvs)
  | .length_delimited n v (some tmp), kvs =>
    if v.isEmpty then some (push n (.string v) kvs)
    else ((collectAll tmp []).bind fun tmp => writeKvs tmp .null).map fun vv => push n vv kvs
  | .group _ _, kvs => some kvs

def collectAll : List UnknownField → List (ℕ × List (Value R)) →
    Option (List (ℕ × List (Value R)))
  | [], kvs => some kvs
  | uf :: ufs, kvs => (collect uf kvs).bind (collectAll ufs)

end

def serialize_unknowfieldset (ufs : List UnknownField) (jnode : Value R) : Option (Value R) :=
  (collectAll ufs []).bind fun kvs => writeKvs kvs jnode

/-! ### `serialize_message` -/

mutual

/-- What `jnode` becomes with the value in it, or with the fields of the message. -/
def store : Datum R → Value R → Option (Value R)
  | .int32 x, _ | .int64 x, _ => some (.int x.toInt)
  | .uint32 x, _ | .uint64 x, _ => some (.uint x.toNat)
  | .float x, _ | .double x, _ => some (.real x)
  | .bool b, _ => some (.bool b)
  | .enum number, _ => some (.int number.toInt)
  | .string s, _ => some (.string s)
  | .message fields unknown, jnode =>
    (storeFields fields jnode).bind (serialize_unknowfieldset unknown)

def storeFields : List ((List Char × Bool) × List (Datum R)) → Value R → Option (Value R)
  | [], jnode => some jnode
  | ((name, true), values) :: fields, jnode =>
    (appendAll name values jnode).bind (storeFields fields)
  | ((_, false), []) :: fields, jnode => storeFields fields jnode
  | ((name, false), v :: _) :: fields, jnode =>
    (jnode.index name fun old => store v old).bind (storeFields fields)

/-- The values of a repeated field, each in a `vv` of its own. -/
def appendAll (name : List Char) : List (Datum R) → Value R → Option (Value R)
  | [], jnode => some jnode
  | v :: vs, jnode =>
    (store v .null).bind fun vv => (jnode.index name (append vv)).bind (appendAll name vs)

end

def serialize_message (message : Datum R) : Option (Value R) := store message .null

/-! ### Types -/

inductive CppType (T : Type)
  | int32 | int64 | uint32 | uint64 | float | double | bool | enum | string
  | message (t : T)

structure FieldDescriptor (T : Type) where
  name : List Char
  repeated : Bool
  type : CppType T

/-- The fields of each type of message. Names are distinct, and do not begin with a digit. -/
structure Schema (T : Type) where
  fields : T → List (FieldDescriptor T)
  nodup : ∀ t, ((fields t).map FieldDescriptor.name).Nodup
  identifier : ∀ t, ∀ d ∈ fields t, ∀ c, d.name.head? = some c → c.isDigit = false
  nonempty : ∀ t, ∀ d ∈ fields t, d.name ≠ []

mutual

def Typed (S : Schema T) : CppType T → Datum R → Prop
  | .int32, .int32 _ | .int64, .int64 _ | .uint32, .uint32 _ | .uint64, .uint64 _
  | .float, .float _ | .double, .double _ | .bool, .bool _ | .enum, .enum _
  | .string, .string _ => True
  | .message t, .message fields _ => TypedFields S (S.fields t) fields
  | _, _ => False

def TypedFields (S : Schema T) :
    List (FieldDescriptor T) → List ((List Char × Bool) × List (Datum R)) → Prop
  | [], [] => True
  | d :: ds, (label, values) :: fields =>
    label = (d.name, d.repeated) ∧ (d.repeated = true ∨ values.length ≤ 1) ∧
      TypedAll S d.type values ∧ TypedFields S ds fields
  | _, _ => False

def TypedAll (S : Schema T) (type : CppType T) : List (Datum R) → Prop
  | [] => True
  | v :: vs => Typed S type v ∧ TypedAll S type vs

end

/-! ### Members -/

section Members

variable {jnode : Value R} {key k : List Char} {v : Value R}

def Open : Value R → Prop
  | .null | .object _ => True
  | _ => False

def set (key : List Char) (v : Value R) : Value R → Value R
  | .object members => .object (put key v members)
  | _ => .object [(key, v)]

lemma open_set : Open (set key v jnode) := by
  cases jnode <;> trivial

lemma member_set_self : (set key v jnode).member key = some v := by
  cases jnode with
  | object members => exact lookup_put_self
  | _ => exact List.lookup_cons_self

lemma member_set_of_ne (hopen : Open jnode) (h : k ≠ key) :
    (set key v jnode).member k = jnode.member k := by
  cases jnode with
  | null =>
    have hlookup : [(key, v)].lookup k = none := by
      rw [List.lookup_cons, beq_false_of_ne h]
      rfl
    exact hlookup
  | object members => exact lookup_put_of_ne (v := v) h
  | _ => exact hopen.elim

lemma index_eq (hopen : Open jnode) (f : Value R → Option (Value R)) :
    jnode.index key f = (f ((jnode.member key).getD .null)).map fun v => set key v jnode := by
  cases jnode with
  | null => rfl
  | object members => rfl
  | _ => exact hopen.elim

/-- What a part of the program does to `jnode`: it sets the members that `g` gives, and leaves the
others as they are. -/
def Sets (jnode : Value R) (g : List Char → Option (Value R)) (r : Option (Value R)) : Prop :=
  ∃ jnode', r = some jnode' ∧ Open jnode' ∧ ∀ key, jnode'.member key = (g key).or (jnode.member key)

lemma sets_same (hopen : Open jnode) : Sets jnode (fun _ => none) (some jnode) :=
  ⟨jnode, rfl, hopen, fun _ => (Option.none_or).symm⟩

/-- One part after another. What the second does may rely on the members that the first sets. -/
lemma Sets.bind {g u : List Char → Option (Value R)} {r : Option (Value R)}
    {f : Value R → Option (Value R)} (h : Sets jnode g r)
    (hf : ∀ j, Open j → (∀ key, j.member key = (g key).or (jnode.member key)) → Sets j u (f j)) :
    Sets jnode (fun key => (u key).or (g key)) (r.bind f) := by
  obtain ⟨j, rfl, hopen, hmember⟩ := h
  obtain ⟨j', hj', hopen', hmember'⟩ := hf j hopen hmember
  refine ⟨j', hj', hopen', fun key => ?_⟩
  rw [hmember' key, hmember key, Option.or_assoc]

lemma Sets.congr {g g' : List Char → Option (Value R)} {r : Option (Value R)} (h : Sets jnode g r)
    (hg : ∀ key, g key = g' key) : Sets jnode g' r := by
  obtain ⟨j, hj, hopen, hmember⟩ := h
  exact ⟨j, hj, hopen, fun key => hg key ▸ hmember key⟩

def only (key : List Char) (v : Value R) (k : List Char) : Option (Value R) :=
  if k = key then some v else none

lemma sets_index (hopen : Open jnode) {f : Value R → Option (Value R)}
    (hf : f ((jnode.member key).getD .null) = some v) :
    Sets jnode (only key v) (jnode.index key f) := by
  refine ⟨set key v jnode, ?_, open_set, fun k => ?_⟩
  · rw [index_eq hopen, hf]
    rfl
  · unfold only
    split
    · rename_i heq
      rw [heq, member_set_self]
      rfl
    · rename_i hne
      rw [member_set_of_ne hopen hne, Option.none_or]

lemma sets_appendEach {vs acc : List (Value R)} (hopen : Open jnode)
    (hacc : jnode.member key = if acc = [] then none else some (.array acc)) (hvs : vs ≠ []) :
    Sets jnode (only key (.array (acc ++ vs))) (appendEach key vs jnode) := by
  induction vs generalizing jnode acc with
  | nil => exact absurd rfl hvs
  | cons v vs ih =>
    have happend : append v ((jnode.member key).getD .null) = some (.array (acc ++ [v])) := by
      rw [hacc]
      split
      · rename_i hnil
        rw [hnil]
        rfl
      · rfl
    have hone := sets_index hopen happend
    rw [appendEach]
    by_cases hlast : vs = []
    · subst hlast
      have h := hone.bind (f := appendEach key []) (u := fun _ => none) fun j hj _ => sets_same hj
      exact h.congr fun _ => Option.none_or
    · have h := hone.bind (f := appendEach key vs) (u := only key (.array (acc ++ v :: vs)))
        fun j hj hmember => by
          have hkey : j.member key =
              if acc ++ [v] = [] then none else some (.array (acc ++ [v])) := by
            rw [hmember key, only, if_pos rfl, if_neg (by simp)]
            rfl
          have := ih hj hkey hlast
          rwa [List.append_assoc, List.singleton_append] at this
      refine h.congr fun k => ?_
      unfold only
      split
      · rfl
      · rfl

lemma sets_appendEach_nil {vs : List (Value R)} (hopen : Open jnode)
    (hnone : jnode.member key = none) (hvs : vs ≠ []) :
    Sets jnode (only key (.array vs)) (appendEach key vs jnode) :=
  sets_appendEach hopen (hnone.trans (if_pos rfl).symm) hvs

end Members

/-! ### Unknown fields -/

/-- The value of the member for the values of one number. -/
def grouped : List (Value R) → Option (Value R)
  | [] => none
  | [v] => some v
  | vs => some (.array vs)

section Shown

-- `inner` tells what a message is shown as
variable (inner : List UnknownField → Value R)

/-- What an unknown field is shown as, and under which number. Groups are not shown. -/
def shownAs : UnknownField → Option (ℕ × Value R)
  | .varint n x => some (n, .int x.toInt)
  | .fixed32 n x => some (n, .uint x.toNat)
  | .fixed64 n x => some (n, .uint x.toNat)
  | .length_delimited n v none => some (n, .string v)
  | .length_delimited n v (some tmp) => some (n, if v.isEmpty then .string v else inner tmp)
  | .group _ _ => none

/-- What is shown of the unknown fields with the number. -/
def shown (n : ℕ) (ufs : List UnknownField) : List (Value R) :=
  ((ufs.filterMap (shownAs inner)).filter fun p => p.1 = n).map Prod.snd

/-- A message is shown as an object with what is shown of its fields, under their numbers, or as
null if there are only groups in it. -/
structure ShowsMessages : Prop where
  shape : ∀ tmp, inner tmp = .null ∨ ∃ members, inner tmp = .object members
  null : ∀ tmp, inner tmp = .null ↔ ∀ uf ∈ tmp, ∃ n fields, uf = .group n fields
  member : ∀ tmp n, (inner tmp).member (to_string n) = grouped (shown inner n tmp)
  other : ∀ tmp key, (∀ n, key ≠ to_string n) → (inner tmp).member key = none

end Shown

section Shown

variable {inner : List UnknownField → Value R}

lemma shown_append (n : ℕ) (ufs ufs' : List UnknownField) :
    shown inner n (ufs ++ ufs') = shown inner n ufs ++ shown inner n ufs' := by
  simp only [shown, List.filterMap_append, List.filter_append, List.map_append]

lemma shown_of_none {uf : UnknownField} (h : shownAs inner uf = none) (n : ℕ) :
    shown inner n [uf] = [] := by
  simp only [shown, List.filterMap_cons, h, List.filterMap_nil]
  rfl

lemma shown_of_some {uf : UnknownField} {k : ℕ} {v : Value R}
    (h : shownAs inner uf = some (k, v)) (n : ℕ) :
    shown inner n [uf] = if k = n then [v] else [] := by
  simp only [shown, List.filterMap_cons, h, List.filterMap_nil, List.filter_cons, List.filter_nil,
    decide_eq_true_eq]
  split
  · rfl
  · rfl

end Shown

lemma to_string_inj {m n : ℕ} (h : to_string m = to_string n) : m = n :=
  Lib.Numeral.toDigits_injective (by decide) (by decide) h

/-- `kvs` after the first loop: no number twice, and none without values. -/
structure KvsOk (kvs : List (ℕ × List (Value R))) : Prop where
  sorted : Sorted kvs
  nonempty : ∀ p ∈ kvs, p.2 ≠ []

def valuesOf (kvs : List (ℕ × List (Value R))) (n : ℕ) : List (Value R) := (kvs.lookup n).getD []

lemma valuesOf_push (kvs : List (ℕ × List (Value R))) (k : ℕ) (v : Value R) (n : ℕ) :
    valuesOf (push k v kvs) n = valuesOf kvs n ++ if k = n then [v] else [] := by
  unfold valuesOf push
  by_cases hkn : k = n
  · subst hkn
    rw [lookup_put_self, if_pos rfl]
    rfl
  · rw [lookup_put_of_ne (Ne.symm hkn), if_neg hkn, List.append_nil]

lemma kvsOk_push {kvs : List (ℕ × List (Value R))} (h : KvsOk kvs) (k : ℕ) (v : Value R) :
    KvsOk (push k v kvs) := by
  refine ⟨sorted_put h.sorted, fun p hp => ?_⟩
  rcases mem_put hp with rfl | hp
  · exact List.append_ne_nil_of_right_ne_nil _ (List.cons_ne_nil v [])
  · exact h.nonempty p hp

/-- The members that the second loop sets. -/
def written : List (ℕ × List (Value R)) → List Char → Option (Value R)
  | [], _ => none
  | (n, vs) :: kvs, key =>
    (written kvs key).or (if key = to_string n then grouped vs else none)

lemma written_of_ne {key : List Char} (h : ∀ n, key ≠ to_string n)
    (kvs : List (ℕ × List (Value R))) : written kvs key = none := by
  induction kvs with
  | nil => rfl
  | cons p kvs ih => rw [written, ih, if_neg (h p.1), Option.none_or]

lemma written_eq_none {kvs : List (ℕ × List (Value R))} {n : ℕ} (h : ∀ p ∈ kvs, p.1 ≠ n) :
    written kvs (to_string n) = none := by
  induction kvs with
  | nil => rfl
  | cons p kvs ih =>
    have hne : to_string n ≠ to_string p.1 := fun heq =>
      h p List.mem_cons_self (to_string_inj heq).symm
    rw [written, ih fun q hq => h q (List.mem_cons_of_mem p hq), if_neg hne, Option.none_or]

lemma written_to_string {kvs : List (ℕ × List (Value R))} (h : Sorted kvs) (n : ℕ) :
    written kvs (to_string n) = grouped (valuesOf kvs n) := by
  induction kvs with
  | nil => rfl
  | cons p kvs ih =>
    obtain ⟨hlt, hkvs⟩ := List.pairwise_cons.mp h
    by_cases hn : n = p.1
    · subst hn
      rw [written, written_eq_none fun q hq => (hlt q hq).ne', if_pos rfl, Option.none_or, valuesOf,
        List.lookup_cons_self]
      rfl
    · have hlookup : valuesOf (p :: kvs) n = valuesOf kvs n := by
        rw [valuesOf, List.lookup_cons, beq_false_of_ne hn]
        rfl
      have hne : to_string n ≠ to_string p.1 := fun heq => hn (to_string_inj heq)
      rw [written, ih hkvs, if_neg hne, Option.or_none, hlookup]

lemma grouped_eq {vs : List (Value R)} (hlong : vs.length > 1) : grouped vs = some (.array vs) := by
  match vs, hlong with
  | _ :: _ :: _, _ => rfl

lemma grouped_head {vs : List (Value R)} (hne : vs ≠ []) (hshort : ¬vs.length > 1) :
    ∃ v, vs = [v] := by
  match vs, hne, hshort with
  | [v], _, _ => exact ⟨v, rfl⟩
  | _ :: _ :: _, _, hshort => exact absurd (by simp) hshort

lemma sets_writeKvs {kvs : List (ℕ × List (Value R))} (hok : KvsOk kvs) (jnode : Value R)
    (hopen : Open jnode) (hnew : ∀ p ∈ kvs, jnode.member (to_string p.1) = none) :
    Sets jnode (written kvs) (writeKvs kvs jnode) := by
  induction kvs generalizing jnode with
  | nil => exact sets_same hopen
  | cons p kvs ih =>
    obtain ⟨n, vs⟩ := p
    obtain ⟨hlt, hkvs⟩ := List.pairwise_cons.mp hok.sorted
    have hvs : vs ≠ [] := hok.nonempty _ List.mem_cons_self
    have hnone : jnode.member (to_string n) = none := hnew _ List.mem_cons_self
    have hfirst : Sets jnode (fun key => if key = to_string n then grouped vs else none)
        (if vs.length > 1 then appendEach (to_string n) vs jnode
          else vs.head?.bind fun v => jnode.index (to_string n) fun _ => some v) := by
      by_cases hlong : vs.length > 1
      · rw [if_pos hlong, grouped_eq hlong]
        exact sets_appendEach_nil hopen hnone hvs
      · obtain ⟨v, rfl⟩ := grouped_head hvs hlong
        rw [if_neg hlong]
        exact sets_index hopen (f := fun _ => some v) rfl
    refine hfirst.bind fun j hj hmember => ih ⟨hkvs, fun q hq => ?_⟩ j hj fun q hq => ?_
    · exact hok.nonempty q (List.mem_cons_of_mem _ hq)
    · have hne : to_string q.1 ≠ to_string n := fun heq => (hlt q hq).ne' (to_string_inj heq)
      rw [hmember, if_neg hne, Option.none_or]
      exact hnew q (List.mem_cons_of_mem _ hq)

lemma kvsOk_nil : KvsOk ([] : List (ℕ × List (Value R))) := ⟨List.Pairwise.nil, by simp⟩

/-- The value that the code makes of a message in an unknown field. -/
def asJson (tmp : List UnknownField) : Value R := (serialize_unknowfieldset tmp .null).getD .null

/-- The loop adds what is shown. -/
def Collects (kvs : List (ℕ × List (Value R))) (ufs : List UnknownField)
    (r : Option (List (ℕ × List (Value R)))) : Prop :=
  ∃ kvs', r = some kvs' ∧ KvsOk kvs' ∧ ∀ n, valuesOf kvs' n = valuesOf kvs n ++ shown asJson n ufs

lemma collects_push {kvs : List (ℕ × List (Value R))} (hok : KvsOk kvs) {uf : UnknownField} {n : ℕ}
    {v : Value R} (hshown : shownAs asJson uf = some (n, v)) :
    Collects kvs [uf] (some (push n v kvs)) :=
  ⟨_, rfl, kvsOk_push hok n v, fun k => by rw [valuesOf_push, shown_of_some hshown]⟩

mutual

lemma collect_spec : ∀ (uf : UnknownField) (kvs : List (ℕ × List (Value R))), KvsOk kvs →
    Collects kvs [uf] (collect uf kvs)
  | .varint n x, _, hok => collects_push hok rfl
  | .fixed32 n x, _, hok => collects_push hok rfl
  | .fixed64 n x, _, hok => collects_push hok rfl
  | .length_delimited n v none, _, hok => collects_push hok rfl
  | .length_delimited n v (some tmp), kvs, hok => by
    rw [collect]
    split
    · rename_i hempty
      exact collects_push hok (by rw [shownAs, if_pos hempty])
    · rename_i hempty
      obtain ⟨kvs', hcollect, hok', -⟩ := collectAll_spec tmp [] kvsOk_nil
      obtain ⟨j, hj, -, -⟩ := sets_writeKvs hok' .null trivial fun _ _ => rfl
      rw [hcollect, Option.bind_some, hj]
      refine collects_push hok ?_
      rw [shownAs, if_neg hempty, asJson, serialize_unknowfieldset, hcollect, Option.bind_some, hj]
      rfl
  | .group n fields, kvs, hok =>
    ⟨kvs, rfl, hok, fun k => by rw [shown_of_none rfl, List.append_nil]⟩

lemma collectAll_spec : ∀ (ufs : List UnknownField) (kvs : List (ℕ × List (Value R))), KvsOk kvs →
    Collects kvs ufs (collectAll ufs kvs)
  | [], kvs, hok => ⟨kvs, rfl, hok, fun _ => (List.append_nil _).symm⟩
  | uf :: ufs, kvs, hok => by
    obtain ⟨m, hm, hokm, hvm⟩ := collect_spec uf kvs hok
    obtain ⟨kvs', hkvs', hok', hv'⟩ := collectAll_spec ufs m hokm
    refine ⟨kvs', ?_, hok', fun n => ?_⟩
    · rw [collectAll, hm]
      exact hkvs'
    · rw [hv' n, hvm n, List.append_assoc, ← shown_append, List.singleton_append]

end

def kvsOf (ufs : List UnknownField) : List (ℕ × List (Value R)) := (collectAll ufs []).getD []

lemma kvsOf_spec (ufs : List UnknownField) : collectAll ufs [] = some (kvsOf (R := R) ufs) ∧
    KvsOk (kvsOf (R := R) ufs) ∧ ∀ n, valuesOf (kvsOf (R := R) ufs) n = shown asJson n ufs := by
  obtain ⟨kvs, hkvs, hok, hv⟩ := collectAll_spec (R := R) ufs [] kvsOk_nil
  have hkvsOf : kvsOf ufs = kvs := by
    rw [kvsOf, hkvs]
    rfl
  rw [hkvsOf]
  exact ⟨hkvs, hok, hv⟩

lemma sets_unknown (ufs : List UnknownField) (jnode : Value R) (hopen : Open jnode)
    (hnew : ∀ n, jnode.member (to_string n) = none) :
    Sets jnode (written (kvsOf ufs)) (serialize_unknowfieldset ufs jnode) := by
  obtain ⟨hcollect, hok, -⟩ := kvsOf_spec (R := R) ufs
  rw [serialize_unknowfieldset, hcollect]
  exact sets_writeKvs hok jnode hopen fun p _ => hnew p.1

/-- Groups are all that is not shown. -/
lemma shownAs_eq_none {inner : List UnknownField → Value R} {uf : UnknownField} :
    shownAs inner uf = none ↔ ∃ n fields, uf = .group n fields := by
  match uf with
  | .group n fields => exact iff_of_true rfl ⟨n, fields, rfl⟩
  | .varint .. | .fixed32 .. | .fixed64 .. | .length_delimited _ _ none
  | .length_delimited _ _ (some _) => exact iff_of_false nofun nofun

lemma shown_ne_nil {inner : List UnknownField → Value R} {ufs : List UnknownField}
    {uf : UnknownField} {n : ℕ} {v : Value R} (huf : uf ∈ ufs)
    (h : shownAs inner uf = some (n, v)) : shown inner n ufs ≠ [] :=
  List.ne_nil_of_mem <| List.mem_map.mpr
    ⟨(n, v), List.mem_filter.mpr ⟨List.mem_filterMap.mpr ⟨uf, huf, h⟩, by simp⟩, rfl⟩

/-- **The code shows messages in unknown fields so.** -/
lemma showsMessages : ShowsMessages (R := R) asJson := by
  have hspec : ∀ tmp, Sets .null (written (kvsOf tmp)) (some (asJson (R := R) tmp)) := by
    intro tmp
    obtain ⟨j, hj, hopen, hmember⟩ := sets_unknown (R := R) tmp .null trivial fun _ => rfl
    exact ⟨j, by rw [asJson, hj]; rfl, hopen, hmember⟩
  have hmember : ∀ tmp key, (asJson (R := R) tmp).member key = written (kvsOf tmp) key := by
    intro tmp key
    obtain ⟨j, hj, -, hmember⟩ := hspec tmp
    rw [Option.some.inj hj, hmember]
    exact Option.or_none
  have hnumber : ∀ tmp n, (asJson (R := R) tmp).member (to_string n) =
      grouped (shown asJson n tmp) := by
    intro tmp n
    obtain ⟨-, hok, hvalues⟩ := kvsOf_spec (R := R) tmp
    rw [hmember, written_to_string hok.sorted, hvalues]
  refine ⟨fun tmp => ?_, fun tmp => ⟨fun hnull uf huf => ?_, fun hgroups => ?_⟩, hnumber,
    fun tmp key hkey => ?_⟩
  · obtain ⟨j, hj, hopen, -⟩ := hspec tmp
    rw [Option.some.inj hj]
    cases j with
    | null => exact Or.inl rfl
    | object members => exact Or.inr ⟨members, rfl⟩
    | _ => exact hopen.elim
  · have hshown : shownAs (asJson (R := R)) uf = none ↔ _ := shownAs_eq_none
    rw [← hshown, Option.eq_none_iff_forall_ne_some]
    rintro ⟨n, v⟩ h
    have hnone := hnumber tmp n
    rw [hnull] at hnone
    have hsome : grouped (shown (asJson (R := R)) n tmp) ≠ none := by
      obtain ⟨w, ws, hws⟩ := List.exists_cons_of_ne_nil (shown_ne_nil huf h)
      rw [hws]
      cases ws <;> exact Option.some_ne_none _
    exact hsome hnone.symm
  · obtain ⟨hcollect, hok, hvalues⟩ := kvsOf_spec (R := R) tmp
    have hempty : ∀ n, shown (asJson (R := R)) n tmp = [] := by
      intro n
      rw [shown, List.filterMap_eq_nil_iff.mpr fun uf huf => shownAs_eq_none.mpr (hgroups uf huf)]
      rfl
    have hnil : kvsOf (R := R) tmp = [] := by
      cases hkvs : kvsOf (R := R) tmp with
      | nil => rfl
      | cons p kvs =>
        have hlookup : valuesOf (kvsOf (R := R) tmp) p.1 = p.2 := by
          rw [hkvs, valuesOf, List.lookup_cons_self]
          rfl
        exact absurd (hlookup.symm.trans ((hvalues p.1).trans (hempty p.1)))
          (hok.nonempty p (hkvs ▸ List.mem_cons_self))
    rw [asJson, serialize_unknowfieldset, hcollect, hnil]
    rfl
  · rw [hmember, written_of_ne hkey]

/-! ### Fields -/

/-- The value that a message's field gets, which `store` does not refuse. -/
def json (v : Datum R) : Value R := (store v .null).getD .null

def fieldJson : Bool → List (Datum R) → Option (Value R)
  | _, [] => none
  | true, v :: vs => some (.array (json v :: vs.map json))
  | false, v :: _ => some (json v)

def fieldsJson : List ((List Char × Bool) × List (Datum R)) → List Char → Option (Value R)
  | [], _ => none
  | ((name, repeated), values) :: fields, key =>
    (fieldsJson fields key).or (if key = name then fieldJson repeated values else none)

variable {S : Schema T}

lemma not_isDigit_of_name {t : T} {d : FieldDescriptor T} (hd : d ∈ S.fields t) (n : ℕ) :
    d.name ≠ to_string n := by
  intro heq
  cases hname : d.name with
  | nil => exact S.nonempty t d hd hname
  | cons c s =>
    have hc := S.identifier t d hd c (by rw [hname]; rfl)
    have hmem : c ∈ to_string n := by
      rw [← heq, hname]
      exact List.mem_cons_self
    have hdigit := Nat.isDigit_of_mem_toDigits (by decide) (by decide) hmem
    rw [hc] at hdigit
    cases hdigit

/-- The members of a message, and that it has been written. -/
lemma sets_message {fields : List ((List Char × Bool) × List (Datum R))}
    (unknown : List UnknownField) {jnode : Value R}
    (h : Sets jnode (fieldsJson fields) (storeFields fields jnode))
    (hnew : ∀ n, jnode.member (to_string n) = none)
    (hnone : ∀ n, fieldsJson fields (to_string n) = none) :
    Sets jnode (fun key => (written (kvsOf unknown) key).or (fieldsJson fields key))
      (store (.message fields unknown) jnode) := by
  rw [store]
  refine h.bind fun j hj hmember => sets_unknown unknown j hj fun n => ?_
  rw [hmember, hnone n, hnew n]
  rfl

lemma fieldsJson_of_not_mem {key : List Char} : ∀ (ds : List (FieldDescriptor T))
    (fields : List ((List Char × Bool) × List (Datum R))), TypedFields S ds fields →
    (∀ d ∈ ds, key ≠ d.name) → fieldsJson fields key = none
  | [], [], _, _ => rfl
  | d :: ds, ((name, repeated), values) :: fields, h, hkey => by
    rw [TypedFields] at h
    obtain ⟨hlabel, -, -, hrest⟩ := h
    obtain ⟨rfl, -⟩ := Prod.mk.inj hlabel
    rw [fieldsJson, if_neg (hkey d List.mem_cons_self), Option.or_none]
    exact fieldsJson_of_not_mem ds fields hrest fun d' hd => hkey d' (List.mem_cons_of_mem d hd)

mutual

lemma store_spec : ∀ (v : Datum R) (type : CppType T), Typed S type v →
    store v .null = some (json v)
  | .int32 _, _, _ | .int64 _, _, _ | .uint32 _, _, _ | .uint64 _, _, _ | .float _, _, _
  | .double _, _, _ | .bool _, _, _ | .enum _, _, _ | .string _, _, _ => rfl
  | .message fields unknown, .message t, h => by
    rw [Typed] at h
    have hfields := storeFields_spec fields (S.fields t) .null h (S.nodup t) trivial fun _ _ => rfl
    obtain ⟨j, hj, -⟩ := sets_message unknown hfields (fun _ => rfl) fun n =>
      fieldsJson_of_not_mem _ _ h fun d hd heq => not_isDigit_of_name hd n heq.symm
    rw [json, hj]
    rfl

lemma storeFields_spec : ∀ (fields : List ((List Char × Bool) × List (Datum R)))
    (ds : List (FieldDescriptor T)) (jnode : Value R), TypedFields S ds fields →
    (ds.map FieldDescriptor.name).Nodup → Open jnode → (∀ d ∈ ds, jnode.member d.name = none) →
    Sets jnode (fieldsJson fields) (storeFields fields jnode)
  | [], [], _, _, _, hopen, _ => sets_same hopen
  | ((name, repeated), values) :: fields, d :: ds, jnode, h, hnodup, hopen, hnew => by
    rw [TypedFields] at h
    obtain ⟨hlabel, hone, hvalues, hrest⟩ := h
    obtain ⟨rfl, rfl⟩ := Prod.mk.inj hlabel
    obtain ⟨hd, hnodup⟩ := List.nodup_cons.mp hnodup
    have hnone := hnew d List.mem_cons_self
    have hne : ∀ d' ∈ ds, d'.name ≠ d.name := fun d' hd' heq => hd (heq ▸ List.mem_map_of_mem hd')
    -- the rest of the fields does not care for what is set under this name
    have hlater (j : Value R) (hj : Open j)
        (hmember : ∀ key, j.member key =
          (if key = d.name then fieldJson d.repeated values else none).or (jnode.member key)) :
        Sets j (fieldsJson fields) (storeFields fields j) := by
      refine storeFields_spec fields ds j hrest hnodup hj fun d' hd' => ?_
      rw [hmember, if_neg (hne d' hd'), Option.none_or]
      exact hnew d' (List.mem_cons_of_mem d hd')
    cases hrepeated : d.repeated with
    | true =>
      rw [hrepeated] at hlater
      cases values with
      | nil => exact ((sets_same hopen).congr fun _ => by rw [fieldJson, ite_self]).bind hlater
      | cons v vs =>
        rw [storeFields, appendAll_spec (v :: vs) d.type d.name jnode hvalues]
        exact (sets_appendEach_nil hopen hnone (List.cons_ne_nil _ _)).bind hlater
    | false =>
      rw [hrepeated] at hlater
      cases values with
      | nil => exact ((sets_same hopen).congr fun _ => by rw [fieldJson, ite_self]).bind hlater
      | cons v vs =>
        rw [TypedAll] at hvalues
        rw [storeFields]
        refine (sets_index (v := json v) hopen ?_).bind hlater
        rw [hnone]
        exact store_spec v d.type hvalues.1

lemma appendAll_spec : ∀ (values : List (Datum R)) (type : CppType T) (name : List Char)
    (jnode : Value R), TypedAll S type values →
    appendAll name values jnode = appendEach name (values.map json) jnode
  | [], _, _, _, _ => rfl
  | v :: vs, type, name, jnode, h => by
    rw [TypedAll] at h
    rw [appendAll, store_spec v type h.1, Option.bind_some, List.map_cons, appendEach]
    congr 1
    funext j
    exact appendAll_spec vs type name j h.2

end

/-! ### What the JSON tells of the message -/

mutual

/-- The value without the unknown fields of messages. -/
def known : Datum R → Datum R
  | .message fields _ => .message (knownFields fields) []
  | .int32 x => .int32 x
  | .int64 x => .int64 x
  | .uint32 x => .uint32 x
  | .uint64 x => .uint64 x
  | .float x => .float x
  | .double x => .double x
  | .bool b => .bool b
  | .enum number => .enum number
  | .string s => .string s

def knownFields : List ((List Char × Bool) × List (Datum R)) →
    List ((List Char × Bool) × List (Datum R))
  | [] => []
  | (label, values) :: fields => (label, knownAll values) :: knownFields fields

def knownAll : List (Datum R) → List (Datum R)
  | [] => []
  | v :: vs => known v :: knownAll vs

end

lemma member_json {t : T} {fields : List ((List Char × Bool) × List (Datum R))}
    {unknown : List UnknownField} (h : TypedFields S (S.fields t) fields) (key : List Char) :
    (json (.message fields unknown)).member key =
      (written (kvsOf unknown) key).or (fieldsJson fields key) := by
  have hfields := storeFields_spec fields (S.fields t) .null h (S.nodup t) trivial fun _ _ => rfl
  obtain ⟨j, hj, -, hmember⟩ := sets_message unknown hfields (fun _ => rfl) fun n =>
    fieldsJson_of_not_mem _ _ h fun d hd heq => not_isDigit_of_name hd n heq.symm
  have hjson : json (.message fields unknown) = j := by
    rw [json, hj]
    rfl
  rw [hjson, hmember key]
  exact Option.or_none

lemma fieldsJson_head {d : FieldDescriptor T} {ds : List (FieldDescriptor T)}
    {values : List (Datum R)} {fields : List ((List Char × Bool) × List (Datum R))}
    (hd : d.name ∉ ds.map FieldDescriptor.name) (h : TypedFields S ds fields) :
    fieldsJson (((d.name, d.repeated), values) :: fields) d.name = fieldJson d.repeated values := by
  have hrest : fieldsJson fields d.name = none :=
    fieldsJson_of_not_mem ds fields h fun d' hd' heq => hd (heq ▸ List.mem_map_of_mem hd')
  rw [fieldsJson, hrest, if_pos rfl, Option.none_or]

lemma fieldsJson_tail {d d' : FieldDescriptor T} {values : List (Datum R)}
    {fields : List ((List Char × Bool) × List (Datum R))} (hne : d'.name ≠ d.name) :
    fieldsJson (((d.name, d.repeated), values) :: fields) d'.name = fieldsJson fields d'.name := by
  rw [fieldsJson, if_neg hne, Option.or_none]

lemma map_json_of_fieldJson {repeated : Bool} {vs vs' : List (Datum R)}
    (hone : repeated = true ∨ vs.length ≤ 1) (hone' : repeated = true ∨ vs'.length ≤ 1)
    (h : fieldJson repeated vs = fieldJson repeated vs') : vs.map json = vs'.map json := by
  cases repeated with
  | true =>
    match vs, vs', h with
    | [], [], _ => rfl
    | v :: vs, v' :: vs', h => exact Value.array.inj (Option.some.inj h)
  | false =>
    match vs, vs', hone, hone', h with
    | [], [], _, _, _ => rfl
    | [v], [v'], _, _, h => exact congrArg (fun j => [j]) (Option.some.inj h)
    | _ :: _ :: _, _, hone, _, _ => simp at hone
    | _, _ :: _ :: _, _, hone', _ => simp at hone'

mutual

lemma known_of_json : ∀ (v v' : Datum R) (type : CppType T), Typed S type v → Typed S type v' →
    json v = json v' → known v = known v'
  | .int32 x, .int32 y, .int32, _, _, h => by
    rw [BitVec.eq_of_toInt_eq (Value.int.inj h)]
  | .int64 x, .int64 y, .int64, _, _, h => by
    rw [BitVec.eq_of_toInt_eq (Value.int.inj h)]
  | .uint32 x, .uint32 y, .uint32, _, _, h => by
    rw [BitVec.eq_of_toNat_eq (Value.uint.inj h)]
  | .uint64 x, .uint64 y, .uint64, _, _, h => by
    rw [BitVec.eq_of_toNat_eq (Value.uint.inj h)]
  | .float x, .float y, .float, _, _, h => by rw [Value.real.inj h]
  | .double x, .double y, .double, _, _, h => by rw [Value.real.inj h]
  | .bool b, .bool b', .bool, _, _, h => by rw [Value.bool.inj h]
  | .enum x, .enum y, .enum, _, _, h => by
    rw [BitVec.eq_of_toInt_eq (Value.int.inj h)]
  | .string s, .string s', .string, _, _, h => by rw [Value.string.inj h]
  | .message fields unknown, .message fields' unknown', .message t, hv, hv', h => by
    rw [Typed] at hv hv'
    have hsame : ∀ d ∈ S.fields t, fieldsJson fields d.name = fieldsJson fields' d.name := by
      intro d hd
      have hdigits := written_of_ne (R := R) (not_isDigit_of_name hd)
      have hmember := congrArg (fun j : Value R => j.member d.name) h
      simp only [member_json hv, member_json hv', hdigits, Option.none_or] at hmember
      exact hmember
    rw [known, known, knownFields_of_json fields fields' _ hv hv' (S.nodup t) hsame]

lemma knownFields_of_json : ∀ (fields fields' : List ((List Char × Bool) × List (Datum R)))
    (ds : List (FieldDescriptor T)), TypedFields S ds fields → TypedFields S ds fields' →
    (ds.map FieldDescriptor.name).Nodup →
    (∀ d ∈ ds, fieldsJson fields d.name = fieldsJson fields' d.name) →
    knownFields fields = knownFields fields'
  | [], [], _, _, _, _, _ => rfl
  | [], _ :: _, [], _, h', _, _ => by simp [TypedFields] at h'
  | [], _ :: _, _ :: _, h, _, _, _ => by simp [TypedFields] at h
  | _ :: _, [], [], h, _, _, _ => by simp [TypedFields] at h
  | _ :: _, [], _ :: _, _, h', _, _ => by simp [TypedFields] at h'
  | ((name, repeated), values) :: fields, ((name', repeated'), values') :: fields', d :: ds, h, h',
      hnodup, hsame => by
    rw [TypedFields] at h h'
    obtain ⟨hlabel, hone, hvalues, hrest⟩ := h
    obtain ⟨hlabel', hone', hvalues', hrest'⟩ := h'
    obtain ⟨rfl, rfl⟩ := Prod.mk.inj hlabel
    obtain ⟨rfl, rfl⟩ := Prod.mk.inj hlabel'
    obtain ⟨hd, hnodup⟩ := List.nodup_cons.mp hnodup
    have hhead := hsame d List.mem_cons_self
    rw [fieldsJson_head hd hrest, fieldsJson_head hd hrest'] at hhead
    have htail := knownFields_of_json fields fields' ds hrest hrest' hnodup fun d' hd' => by
      have hne : d'.name ≠ d.name := fun heq => hd (heq ▸ List.mem_map_of_mem hd')
      have := hsame d' (List.mem_cons_of_mem d hd')
      rwa [fieldsJson_tail hne, fieldsJson_tail hne] at this
    have hmap := map_json_of_fieldJson hone hone' hhead
    rw [knownFields, knownFields, htail,
      knownAll_of_json values values' d.type hvalues hvalues' hmap]

lemma knownAll_of_json : ∀ (values values' : List (Datum R)) (type : CppType T),
    TypedAll S type values → TypedAll S type values' → values.map json = values'.map json →
    knownAll values = knownAll values'
  | [], [], _, _, _, _ => rfl
  | v :: vs, v' :: vs', type, h, h', hmap => by
    rw [TypedAll] at h h'
    obtain ⟨hv, hvs⟩ := List.cons.inj hmap
    rw [knownAll, knownAll, known_of_json v v' type h.1 h'.1 hv,
      knownAll_of_json vs vs' type h.2 h'.2 hvs]

end

lemma ne_array_of_shownAs {uf : UnknownField} {n : ℕ} {v : Value R}
    (h : shownAs asJson uf = some (n, v)) (vs : List (Value R)) : v ≠ .array vs := by
  match uf, h with
  | .varint .., h | .fixed32 .., h | .fixed64 .., h | .length_delimited _ _ none, h =>
    obtain ⟨-, rfl⟩ := Prod.mk.inj (Option.some.inj h)
    exact nofun
  | .length_delimited _ _ (some tmp), h =>
    obtain ⟨-, rfl⟩ := Prod.mk.inj (Option.some.inj h)
    split
    · exact nofun
    · rcases showsMessages.shape (R := R) tmp with hshape | ⟨members, hshape⟩
      · rw [hshape]
        exact nofun
      · rw [hshape]
        exact nofun
  | .group .., h => cases h

lemma ne_array_of_mem_shown {ufs : List UnknownField} {n : ℕ} {v : Value R}
    (h : v ∈ shown asJson n ufs) (vs : List (Value R)) : v ≠ .array vs := by
  obtain ⟨⟨k, v⟩, hp, rfl⟩ := List.mem_map.mp h
  obtain ⟨uf, -, huf⟩ := List.mem_filterMap.mp (List.mem_filter.mp hp).1
  exact ne_array_of_shownAs huf vs

lemma grouped_inj {vs vs' : List (Value R)} (h : ∀ v ∈ vs, ∀ ws, v ≠ .array ws)
    (h' : ∀ v ∈ vs', ∀ ws, v ≠ .array ws) (heq : grouped vs = grouped vs') : vs = vs' := by
  match vs, vs', heq with
  | [], [], _ => rfl
  | [], [_], heq => cases heq
  | [], _ :: _ :: _, heq => cases heq
  | [v], [v'], heq => rw [Option.some.inj heq]
  | [v], _ :: _ :: _, heq => exact absurd (Option.some.inj heq) (h v List.mem_cons_self _)
  | _ :: _ :: _, [v'], heq => exact absurd (Option.some.inj heq).symm (h' v' List.mem_cons_self _)
  | _ :: _ :: _, _ :: _ :: _, heq => exact Value.array.inj (Option.some.inj heq)

/-- **A message is written, and can be told from its `Json::Value`.** The unknown fields are under
their numbers, several with one number as an array, messages in them as objects or as null, and
groups are left out. A message of the same type with the same value has the same fields with the
same values, in the messages in it too, and shows the same unknown fields. -/
theorem message_of_json (S : Schema T) {t : T}
    {fields fields' : List ((List Char × Bool) × List (Datum R))}
    {unknown unknown' : List UnknownField} (h : Typed S (.message t) (.message fields unknown))
    (h' : Typed S (.message t) (.message fields' unknown')) :
    ∃ (inner : List UnknownField → Value R) (j : Value R), ShowsMessages inner ∧
      serialize_message (.message fields unknown) = some j ∧
      (∀ n, j.member (to_string n) = grouped (shown inner n unknown)) ∧
      (serialize_message (.message fields' unknown') = some j →
        known (.message fields' unknown') = known (.message fields unknown) ∧
          ∀ n, shown inner n unknown' = shown inner n unknown) := by
  have hmember {fields : List ((List Char × Bool) × List (Datum R))} {unknown : List UnknownField}
      (h : Typed S (.message t) (.message fields unknown)) (n : ℕ) :
      (json (.message fields unknown)).member (to_string n) =
        grouped (shown asJson n unknown) := by
    rw [Typed] at h
    obtain ⟨-, hok, hvalues⟩ := kvsOf_spec (R := R) unknown
    rw [member_json h, written_to_string hok.sorted, hvalues,
      fieldsJson_of_not_mem _ _ h fun d hd heq => not_isDigit_of_name hd n heq.symm, Option.or_none]
  refine ⟨asJson, json (.message fields unknown), showsMessages, store_spec _ _ h, hmember h,
    fun heq => ?_⟩
  have hjson : json (.message fields' unknown') = json (.message fields unknown) :=
    Option.some.inj ((store_spec _ _ h').symm.trans heq)
  refine ⟨known_of_json _ _ _ h' h hjson, fun n => ?_⟩
  refine grouped_inj (fun v hv => ne_array_of_mem_shown hv)
    (fun v hv => ne_array_of_mem_shown hv) ?_
  rw [← hmember h n, ← hmember h' n, hjson]

def ids : Schema Unit where
  fields _ := [⟨['i', 'd'], true, .uint32⟩]
  nodup _ := List.nodup_cons.mpr ⟨List.not_mem_nil, List.nodup_nil⟩
  identifier _ := by
    intro d hd c hc
    obtain rfl := List.mem_singleton.mp hd
    obtain rfl := Option.some.inj hc
    rfl
  nonempty _ := by
    intro d hd
    obtain rfl := List.mem_singleton.mp hd
    exact List.cons_ne_nil _ _

theorem message_of_json_ids : ∃ j : Value ℕ,
    serialize_message (.message [((['i', 'd'], true), [.uint32 1, .uint32 2])]
      [.varint 7 5, .group 8 [], .varint 7 6]) = some j ∧
    j.member ['7'] = some (.array [.int 5, .int 6]) ∧ j.member ['8'] = none := by
  have htyped : Typed (R := ℕ) ids (.message ()) (.message
      [((['i', 'd'], true), [.uint32 1, .uint32 2])] [.varint 7 5, .group 8 [], .varint 7 6]) := by
    simp [Typed, TypedFields, TypedAll, ids]
  obtain ⟨inner, j, -, hj, hmember, -⟩ := message_of_json ids htyped htyped
  exact ⟨j, hj, hmember 7, hmember 8⟩

end Sylar.MessageJson
