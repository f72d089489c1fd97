import Mathlib.Algebra.Ring.Nat
import Mathlib.Data.List.Lex
import Sylar.Yaml

/-!
`YamlToJson` and `JsonToYaml`. Arrays, objects and texts of jsoncpp are lists, maps that are sorted
by their keys, and lists of characters.
-/

namespace Sylar.YamlJson

open Sylar.Yaml

inductive Json
  | null
  | string (text : List Char)
  | array (items : List Json)
  | object (entries : List (List Char × Json))

def put {α : Type} (key : List Char) (value : α) : List (List Char × α) → List (List Char × α)
  | [] => [(key, value)]
  | e :: entries =>
    if key < e.1 then (key, value) :: e :: entries
    else if key = e.1 then (key, value) :: entries
    else e :: put key value entries

namespace Json

/-- `append`, which throws on a text and on an object. -/
def append : Json → Json → Option Json
  | null, v => some (array [v])
  | array items, v => some (array (items ++ [v]))
  | _, _ => none

/-- `jnode[key] = v`, which throws on a text and on an array. -/
def assign (jnode : Json) (key : List Char) (v : Json) : Option Json :=
  match jnode with
  | null => some (object [(key, v)])
  | object entries => some (object (put key v entries))
  | _ => none

end Json

/-- `push_back`, which throws on a scalar and on a map. -/
def pushBack : Node → Node → Option Node
  | .null, n => some (.sequence [n])
  | .sequence items, n => some (.sequence (items ++ [n]))
  | _, _ => none

/-- `ynode[key] = n`. A sequence becomes a map from its indices; a scalar throws. -/
def assign (ynode : Node) (key : List Char) (n : Node) : Option Node :=
  match ynode with
  | .null => some (.map [(.scalar key, n)])
  | .map entries => some (.map (Yaml.put key n entries))
  | .sequence items =>
    some (.map (Yaml.put key n
      (items.zipIdx.map fun p => (.scalar (Nat.toDigits 10 p.2), p.1))))
  | .scalar _ => none

mutual

/-- What `jnode` holds afterwards, if `true` is returned. -/
def YamlToJson : Node → Json → Option Json
  | .scalar text, _ => some (.string text)
  | .sequence items, jnode => appendItems items jnode
  | .map entries, jnode => assignMembers entries jnode
  | .null, jnode => some jnode

def appendItems : List Node → Json → Option Json
  | [], jnode => some jnode
  | item :: items, jnode =>
    (YamlToJson item .null).bind fun v => (jnode.append v).bind (appendItems items)

def assignMembers : List (Node × Node) → Json → Option Json
  | [], jnode => some jnode
  | (key, value) :: entries, jnode =>
    (YamlToJson value .null).bind fun v =>
      (jnode.assign key.text v).bind (assignMembers entries)

end

/-- `(int)jnode.size()`, as the number of passes of a loop. -/
def passes (size : ℕ) : ℕ := (BitVec.ofNat 32 size).toInt.toNat

mutual

/-- What `ynode` holds afterwards, if `true` is returned. -/
def JsonToYaml : Json → Node → Option Node
  | .array items, ynode => pushItems (passes items.length) items ynode
  | .object entries, ynode => assignEntries entries ynode
  | .string text, _ => some (.scalar text)
  | .null, _ => some (.scalar [])

def pushItems : ℕ → List Json → Node → Option Node
  | n + 1, item :: items, ynode =>
    (JsonToYaml item .null).bind fun v => (pushBack ynode v).bind (pushItems n items)
  | _, _, ynode => some ynode

def assignEntries : List (List Char × Json) → Node → Option Node
  | [], ynode => some ynode
  | (key, value) :: entries, ynode =>
    (JsonToYaml value .null).bind fun v => (assign ynode key v).bind (assignEntries entries)

end

/-! ### Trees -/

/-- Trees of scalars, sequences and maps, where the keys of a map are distinct scalars. -/
inductive Tree : Node → Prop
  | scalar (text : List Char) : Tree (.scalar text)
  | sequence {items : List Node} (h : ∀ item ∈ items, Tree item) : Tree (.sequence items)
  | map {entries : List (List Char × Node)} (distinct : (entries.map Prod.fst).Nodup)
      (h : ∀ e ∈ entries, Tree e.2) : Tree (.map (entries.map fun e => (.scalar e.1, e.2)))

/-- The same tree up to the order of the entries of maps. -/
inductive Same : Node → Node → Prop
  | null : Same .null .null
  | scalar (text : List Char) : Same (.scalar text) (.scalar text)
  | sequence (l : List (Node × Node)) (h : ∀ p ∈ l, Same p.1 p.2) :
      Same (.sequence (l.map fun p => p.1)) (.sequence (l.map fun p => p.2))
  | map (l : List (Node × Node × Node)) (h : ∀ t ∈ l, Same t.2.1 t.2.2)
      {xs ys : List (Node × Node)} (hx : xs.Perm (l.map fun t => (t.1, t.2.1)))
      (hy : ys.Perm (l.map fun t => (t.1, t.2.2))) : Same (.map xs) (.map ys)

/-- No sequence or map is empty, and no sequence has `2 ^ 31` items or more. -/
inductive Kept : Node → Prop
  | null : Kept .null
  | scalar (text : List Char) : Kept (.scalar text)
  | sequence {items : List Node} (ne : items ≠ []) (lt : items.length < 2 ^ 31)
      (h : ∀ item ∈ items, Kept item) : Kept (.sequence items)
  | map {entries : List (Node × Node)} (ne : entries ≠ []) (h : ∀ e ∈ entries, Kept e.2) :
      Kept (.map entries)

/-- Both conversions succeed on fresh values, and give the same tree. -/
def RoundTrip (tree : Node) : Prop :=
  ∃ jnode ynode, YamlToJson tree .null = some jnode ∧ JsonToYaml jnode .null = some ynode ∧
    Same tree ynode

lemma kept_of_same {x y : Node} (h : Same x y) (hy : Kept y) : Kept x := by
  induction h with
  | null => exact .null
  | scalar text => exact .scalar text
  | sequence l _ ih =>
    cases hy with
    | sequence ne lt hitems =>
      refine .sequence (by simpa using ne) (by simpa using lt) ?_
      intro item hitem
      obtain ⟨p, hp, rfl⟩ := List.mem_map.1 hitem
      exact ih p hp (hitems _ (List.mem_map_of_mem hp))
  | map l _ hx hperm ih =>
    cases hy with
    | map ne hentries =>
      refine .map ?_ ?_
      · rintro rfl
        have hl := List.map_eq_nil_iff.1 (List.nil_perm.1 hx)
        subst hl
        exact ne (List.perm_nil.1 hperm)
      · intro e he
        obtain ⟨t, ht, rfl⟩ := List.mem_map.1 (hx.subset he)
        exact ih t ht (hentries (t.1, t.2.2) (hperm.symm.subset (List.mem_map.2 ⟨t, ht, rfl⟩)))

/-! ### Maps with sorted keys -/

section Put

variable {α β : Type} {key : List Char}

lemma put_map (f : α → β) (value : α) (entries : List (List Char × α)) :
    put key (f value) (entries.map fun e => (e.1, f e.2)) =
      (put key value entries).map fun e => (e.1, f e.2) := by
  induction entries with
  | nil => rfl
  | cons e entries ih =>
    rw [List.map_cons, put, put]
    split
    · rfl
    · split
      · rfl
      · rw [List.map_cons, ih]

lemma put_perm {value : α} {entries : List (List Char × α)} (h : key ∉ entries.map Prod.fst) :
    (put key value entries).Perm ((key, value) :: entries) := by
  induction entries with
  | nil => exact .refl _
  | cons e entries ih =>
    rw [List.map_cons, List.mem_cons, not_or] at h
    rw [put]
    split
    · exact .refl _
    · rw [if_neg h.1]
      exact ((ih h.2).cons e).trans (.swap _ _ _)

/-- The entries in the order in which a `std::map` keeps them. -/
def sorted (acc l : List (List Char × α)) : List (List Char × α) :=
  l.foldl (fun acc e => put e.1 e.2 acc) acc

lemma sorted_perm {acc l : List (List Char × α)} (h : ((l ++ acc).map Prod.fst).Nodup) :
    (sorted acc l).Perm (l ++ acc) := by
  induction l generalizing acc with
  | nil => exact .refl _
  | cons e l ih =>
    rw [List.cons_append, List.map_cons, List.nodup_cons] at h
    have hput : (put e.1 e.2 acc).Perm (e :: acc) :=
      put_perm fun hmem => h.1 (by simp [List.map_append, hmem])
    have hperm : (l ++ put e.1 e.2 acc).Perm (e :: (l ++ acc)) :=
      (hput.append_left l).trans List.perm_middle
    have hnodup : ((l ++ put e.1 e.2 acc).map Prod.fst).Nodup :=
      (hperm.map Prod.fst).nodup_iff.2 (List.nodup_cons.2 h)
    exact (ih hnodup).trans hperm

end Put

/-! ### The loops -/

/-- A node, what it becomes in JSON, and what that becomes in YAML. -/
structure Conv (x : Node) (j : Json) (y : Node) : Prop where
  toJson : YamlToJson x .null = some j
  toYaml : JsonToYaml j .null = some y
  kept : Kept y
  same : Kept x → Same x y

lemma exists_map {α β : Type} {f : β → α} {Q : β → Prop} {l : List α}
    (h : ∀ a ∈ l, ∃ t, f t = a ∧ Q t) : ∃ l' : List β, l'.map f = l ∧ ∀ t ∈ l', Q t := by
  induction l with
  | nil => exact ⟨[], rfl, by simp⟩
  | cons a l ih =>
    obtain ⟨⟨t, rfl, ht⟩, hl⟩ := List.forall_mem_cons.1 h
    obtain ⟨l', rfl, hl'⟩ := ih hl
    exact ⟨t :: l', rfl, List.forall_mem_cons.2 ⟨ht, hl'⟩⟩

section Items

variable {l : List (Node × Json × Node)}

lemma appendItems_array (h : ∀ t ∈ l, Conv t.1 t.2.1 t.2.2) (acc : List Json) :
    appendItems (l.map fun t => t.1) (.array acc) =
      some (.array (acc ++ l.map fun t => t.2.1)) := by
  induction l generalizing acc with
  | nil => simp [appendItems]
  | cons t l ih =>
    obtain ⟨ht, hl⟩ := List.forall_mem_cons.1 h
    rw [List.map_cons, appendItems, ht.toJson, Option.bind_some, Json.append, Option.bind_some,
      ih hl]
    simp

lemma pushItems_sequence (h : ∀ t ∈ l, Conv t.1 t.2.1 t.2.2) (n : ℕ) (acc : List Node) :
    pushItems n (l.map fun t => t.2.1) (.sequence acc) =
      some (.sequence (acc ++ (l.take n).map fun t => t.2.2)) := by
  induction l generalizing n acc with
  | nil => cases n <;> simp [pushItems]
  | cons t l ih =>
    obtain ⟨ht, hl⟩ := List.forall_mem_cons.1 h
    cases n with
    | zero => simp [pushItems]
    | succ n =>
      rw [List.map_cons, pushItems, ht.toYaml, Option.bind_some, pushBack, Option.bind_some,
        ih hl]
      simp

lemma passes_lt (size : ℕ) : passes size < 2 ^ 31 := by
  have hlt := @BitVec.two_mul_toInt_lt 32 (BitVec.ofNat 32 size)
  unfold passes
  omega

lemma passes_eq {size : ℕ} (h : size < 2 ^ 31) : passes size = size := by
  have hnat : (BitVec.ofNat 32 size).toNat = size := Nat.mod_eq_of_lt (by omega)
  rw [passes, BitVec.toInt_eq_toNat_of_lt (by omega), hnat, Int.toNat_natCast]

lemma toJson_sequence (h : ∀ t ∈ l, Conv t.1 t.2.1 t.2.2) (hne : l ≠ []) :
    YamlToJson (.sequence (l.map fun t => t.1)) .null = some (.array (l.map fun t => t.2.1)) := by
  cases l with
  | nil => exact absurd rfl hne
  | cons t l =>
    obtain ⟨ht, hl⟩ := List.forall_mem_cons.1 h
    rw [YamlToJson, List.map_cons, appendItems, ht.toJson, Option.bind_some, Json.append,
      Option.bind_some, appendItems_array hl]
    rfl

lemma toYaml_array (h : ∀ t ∈ l, Conv t.1 t.2.1 t.2.2) (hne : l ≠ []) {n : ℕ}
    (hn : passes l.length = n + 1) : JsonToYaml (.array (l.map fun t => t.2.1)) .null =
      some (.sequence ((l.take (n + 1)).map fun t => t.2.2)) := by
  rw [JsonToYaml, List.length_map, hn]
  cases l with
  | nil => exact absurd rfl hne
  | cons t l =>
    obtain ⟨ht, hl⟩ := List.forall_mem_cons.1 h
    rw [List.map_cons, pushItems, ht.toYaml, Option.bind_some, pushBack, Option.bind_some,
      pushItems_sequence hl]
    rfl

lemma same_sequence (h : ∀ t ∈ l, Conv t.1 t.2.1 t.2.2)
    (hkept : ∀ item ∈ l.map fun t => t.1, Kept item) :
    Same (.sequence (l.map fun t => t.1)) (.sequence (l.map fun t => t.2.2)) := by
  have hsame := Same.sequence (l.map fun t => (t.1, t.2.2)) fun p hp => by
    obtain ⟨u, hu, rfl⟩ := List.mem_map.1 hp
    exact (h u hu).same (hkept _ (List.mem_map.2 ⟨u, hu, rfl⟩))
  rwa [List.map_map, List.map_map] at hsame

/-- A sequence comes back with as many items as the loop makes passes. -/
lemma conv_sequence (h : ∀ t ∈ l, Conv t.1 t.2.1 t.2.2) :
    ∃ j y, Conv (.sequence (l.map fun t => t.1)) j y := by
  by_cases hne : l = []
  · subst hne
    refine ⟨.null, .scalar [], rfl, rfl, .scalar [], fun hkept => ?_⟩
    cases hkept with
    | sequence ne _ _ => exact absurd rfl ne
  · cases hn : passes l.length with
    | zero =>
      refine ⟨_, .null, toJson_sequence h hne, ?_, .null, fun hkept => ?_⟩
      · rw [JsonToYaml, List.length_map, hn]
        cases l <;> rfl
      · cases hkept with
        | sequence _ lt _ =>
          rw [List.length_map] at lt
          rw [passes_eq lt, List.length_eq_zero_iff] at hn
          exact absurd hn hne
    | succ n =>
      refine ⟨_, _, toJson_sequence h hne, toYaml_array h hne hn,
        .sequence (by simpa using hne) ?_ ?_, fun hkept => ?_⟩
      · rw [List.length_map, ← hn]
        exact Nat.lt_of_le_of_lt (List.length_take_le _ _) (passes_lt _)
      · intro y hy
        obtain ⟨u, hu, rfl⟩ := List.mem_map.1 hy
        exact (h u (List.mem_of_mem_take hu)).kept
      · cases hkept with
        | sequence _ lt hitems =>
          rw [List.length_map] at lt
          rw [← hn, passes_eq lt, List.take_length]
          exact same_sequence h hitems

end Items

section Entries

variable {l : List (List Char × Node × Json × Node)}

lemma assignMembers_object (h : ∀ t ∈ l, Conv t.2.1 t.2.2.1 t.2.2.2)
    (acc : List (List Char × Node × Json × Node)) :
    assignMembers (l.map fun t => (.scalar t.1, t.2.1))
        (.object (acc.map fun t => (t.1, t.2.2.1))) =
      some (.object ((sorted acc l).map fun t => (t.1, t.2.2.1))) := by
  induction l generalizing acc with
  | nil => rfl
  | cons t l ih =>
    obtain ⟨ht, hl⟩ := List.forall_mem_cons.1 h
    rw [List.map_cons, assignMembers, ht.toJson, Option.bind_some, Json.assign, Option.bind_some,
      Node.text, put_map (fun t : Node × Json × Node => t.2.1), ih hl]
    rfl

lemma assignEntries_map (h : ∀ t ∈ l, Conv t.2.1 t.2.2.1 t.2.2.2)
    {acc : List (List Char × Node × Json × Node)} (hnodup : ((acc ++ l).map Prod.fst).Nodup) :
    assignEntries (l.map fun t => (t.1, t.2.2.1)) (.map (acc.map fun t => (.scalar t.1, t.2.2.2))) =
      some (.map ((acc ++ l).map fun t => (.scalar t.1, t.2.2.2))) := by
  induction l generalizing acc with
  | nil => simp [assignEntries]
  | cons t l ih =>
    obtain ⟨ht, hl⟩ := List.forall_mem_cons.1 h
    have hfresh : ∀ e ∈ acc.map fun t => ((.scalar t.1, t.2.2.2) : Node × Node),
        e.1.isText t.1 = false := by
      intro e he
      obtain ⟨u, hu, rfl⟩ := List.mem_map.1 he
      have hne : u.1 ≠ t.1 := by
        rw [List.map_append, List.nodup_append] at hnodup
        exact hnodup.2.2 _ (List.mem_map_of_mem hu) _ (by simp)
      simpa [Node.isText] using hne
    have hsplit : acc ++ t :: l = acc ++ [t] ++ l := by simp
    rw [hsplit] at hnodup ⊢
    rw [List.map_cons, assignEntries, ht.toYaml, Option.bind_some, assign, Option.bind_some,
      put_of_new hfresh, ← ih hl hnodup]
    simp

lemma toYaml_object (h : ∀ t ∈ l, Conv t.2.1 t.2.2.1 t.2.2.2) (hne : l ≠ [])
    (hnodup : (l.map Prod.fst).Nodup) :
    JsonToYaml (.object (l.map fun t => (t.1, t.2.2.1))) .null =
      some (.map (l.map fun t => (.scalar t.1, t.2.2.2))) := by
  cases l with
  | nil => exact absurd rfl hne
  | cons t l =>
    obtain ⟨ht, hl⟩ := List.forall_mem_cons.1 h
    have hloop := @assignEntries_map l hl [t] hnodup
    rw [JsonToYaml, List.map_cons, assignEntries, ht.toYaml, Option.bind_some, assign,
      Option.bind_some]
    exact hloop

lemma toJson_map (h : ∀ t ∈ l, Conv t.2.1 t.2.2.1 t.2.2.2) (hne : l ≠ [])
    (hnodup : (l.map Prod.fst).Nodup) :
    ∃ s : List (List Char × Node × Json × Node), s.Perm l ∧
      YamlToJson (.map (l.map fun t => (.scalar t.1, t.2.1))) .null =
        some (.object (s.map fun t => (t.1, t.2.2.1))) := by
  cases l with
  | nil => exact absurd rfl hne
  | cons t l =>
    obtain ⟨ht, hl⟩ := List.forall_mem_cons.1 h
    have hfirst : (l ++ [t]).Perm (t :: l) := List.perm_append_comm
    refine ⟨sorted [t] l,
      (sorted_perm ((hfirst.map Prod.fst).nodup_iff.2 hnodup)).trans hfirst, ?_⟩
    rw [YamlToJson, List.map_cons, assignMembers, ht.toJson, Option.bind_some, Json.assign,
      Option.bind_some, ← assignMembers_object hl [t]]
    rfl

lemma same_map {s : List (List Char × Node × Json × Node)}
    (h : ∀ t ∈ s, Conv t.2.1 t.2.2.1 t.2.2.2) (hperm : s.Perm l)
    (hkept : ∀ e ∈ l.map fun t => ((.scalar t.1, t.2.1) : Node × Node), Kept e.2) :
    Same (.map (l.map fun t => (.scalar t.1, t.2.1)))
      (.map (s.map fun t => (.scalar t.1, t.2.2.2))) := by
  have hsame : ∀ v ∈ s.map fun u => ((.scalar u.1, u.2.1, u.2.2.2) : Node × Node × Node),
      Same v.2.1 v.2.2 := by
    intro v hv
    obtain ⟨u, hu, rfl⟩ := List.mem_map.1 hv
    exact (h u hu).same (hkept _ (List.mem_map.2 ⟨u, hperm.subset hu, rfl⟩))
  refine .map _ hsame ?_ ?_
  · rw [List.map_map]
    exact hperm.symm.map _
  · rw [List.map_map]
    exact .refl _

lemma conv_map (h : ∀ t ∈ l, Conv t.2.1 t.2.2.1 t.2.2.2) (hnodup : (l.map Prod.fst).Nodup) :
    ∃ j y, Conv (.map (l.map fun t => (.scalar t.1, t.2.1))) j y := by
  by_cases hne : l = []
  · subst hne
    refine ⟨.null, .scalar [], rfl, rfl, .scalar [], fun hkept => ?_⟩
    cases hkept with
    | map ne _ => exact absurd rfl ne
  · obtain ⟨s, hperm, hjson⟩ := toJson_map h hne hnodup
    have hs : ∀ t ∈ s, Conv t.2.1 t.2.2.1 t.2.2.2 := fun t ht => h t (hperm.subset ht)
    have hsne : s ≠ [] := by
      rintro rfl
      exact hne (List.nil_perm.1 hperm)
    refine ⟨_, _, hjson, toYaml_object hs hsne ((hperm.map Prod.fst).nodup_iff.2 hnodup),
      .map (by simpa using hsne) ?_, fun hkept => ?_⟩
    · intro e he
      obtain ⟨u, hu, rfl⟩ := List.mem_map.1 he
      exact (hs u hu).kept
    · cases hkept with
      | map _ hentries => exact same_map hs hperm hentries

end Entries

/-- Every tree is converted, and what comes back has nothing empty in it. -/
lemma conv_of_tree {tree : Node} (h : Tree tree) : ∃ j y, Conv tree j y := by
  induction h with
  | scalar text => exact ⟨.string text, .scalar text, rfl, rfl, .scalar text, fun _ => .scalar text⟩
  | sequence _ ih =>
    obtain ⟨l, rfl, hl⟩ := exists_map (f := fun t : Node × Json × Node => t.1)
      (Q := fun t => Conv t.1 t.2.1 t.2.2) fun item hitem => by
        obtain ⟨j, y, hconv⟩ := ih item hitem
        exact ⟨(item, j, y), rfl, hconv⟩
    exact conv_sequence hl
  | map distinct _ ih =>
    obtain ⟨l, rfl, hl⟩ := exists_map (f := fun t : List Char × Node × Json × Node => (t.1, t.2.1))
      (Q := fun t => Conv t.2.1 t.2.2.1 t.2.2.2) fun e he => by
        obtain ⟨j, y, hconv⟩ := ih e he
        exact ⟨(e.1, e.2, j, y), rfl, hconv⟩
    rw [List.map_map] at distinct ⊢
    exact conv_map hl distinct

lemma kept_of_roundTrip {tree : Node} (h : Tree tree) (hround : RoundTrip tree) : Kept tree := by
  obtain ⟨j, y, hconv⟩ := conv_of_tree h
  obtain ⟨jnode, ynode, hjson, hyaml, hsame⟩ := hround
  rw [hconv.toJson, Option.some.injEq] at hjson
  subst hjson
  rw [hconv.toYaml, Option.some.injEq] at hyaml
  subst hyaml
  exact kept_of_same hsame hconv.kept

/-- **A tree makes the round trip if and only if nothing in it is empty or too long.** -/
theorem tree_roundTrip_iff {tree : Node} (h : Tree tree) : RoundTrip tree ↔ Kept tree := by
  refine ⟨kept_of_roundTrip h, fun hkept => ?_⟩
  obtain ⟨j, y, hconv⟩ := conv_of_tree h
  exact ⟨j, y, hconv.toJson, hconv.toYaml, hconv.same hkept⟩

theorem tree_roundTrip_pair :
    RoundTrip (.map [(.scalar "a".toList, .sequence [.scalar "1".toList])]) := by
  have hitem : ∀ item ∈ [Node.scalar "1".toList], item = .scalar "1".toList := by simp
  have htree : Tree (.sequence [.scalar "1".toList]) :=
    .sequence fun item h => hitem item h ▸ .scalar _
  have hkept : Kept (.sequence [.scalar "1".toList]) :=
    .sequence (by simp) (by simp) fun item h => hitem item h ▸ .scalar _
  exact (tree_roundTrip_iff (@Tree.map [("a".toList, _)] (by simp) (by simpa using htree))).2
    (.map (by simp) (by simpa using hkept))

/-- The empty sequence comes back as an empty text. -/
theorem empty_sequence_lost : Tree (.sequence []) ∧
    (YamlToJson (.sequence []) .null).bind (JsonToYaml · .null) = some (.scalar []) ∧
    ¬RoundTrip (.sequence []) := by
  have htree : Tree (.sequence []) := .sequence (by simp)
  refine ⟨htree, rfl, fun h => ?_⟩
  cases kept_of_roundTrip htree h with
  | sequence ne _ _ => exact ne rfl

end Sylar.YamlJson
