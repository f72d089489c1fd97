import Mathlib.Data.List.Infix
import Sylar.Yaml

/-!
The registry of configuration variables, and loading a YAML tree into it.

A tree is flattened into pairs of a name and a node, parents before children; each pair whose name
is registered is given to `fromString` of its variable. The types of variables are a parameter, with
the conversion from a string for each.
-/

namespace Sylar.ConfigModel

open Sylar.Yaml

/-- The characters that `Lookup` and `ListAllMember` accept, in the order of the source. -/
def nameChars : List Char :=
  ['a', 'b', 'c', 'd', 'e', 'f', 'g', 'h', 'i', 'k', 'j', 'l', 'm', 'n', 'o', 'p', 'q', 'r', 's',
    't', 'u', 'v', 'w', 'x', 'y', 'z', '.', '_', '0', '1', '2', '3', '4', '5', '6', '7', '8']

def validName (name : List Char) : Bool := name.all fun c => c ∈ nameChars

variable {τ : Type} {El : τ → Type}

abbrev Var (El : τ → Type) := Σ t, El t

/-- The variables by their names. A name that does not pass the check is never registered. -/
structure Registry (El : τ → Type) where
  datas : List Char → Option (Var El)
  valid : ∀ name, datas name ≠ none → validName name = true

/-- The variable with the name, if there is one, is changed. -/
def Registry.modify (r : Registry El) (name : List Char) (f : Var El → Var El) : Registry El where
  datas n := if n = name then (r.datas n).map f else r.datas n
  valid n h := by
    apply r.valid n
    split at h
    · simpa using h
    · exact h

section Values

variable [∀ t, DecidableEq (El t)]

/-- `setValue`, without the listeners. -/
def setValue {t : τ} (val v : El t) : El t := if v = val then val else v

/-- `fromString`. An exception of the conversion leaves the value. -/
def fromString (fromStr : ∀ t, List Char → Option (El t)) (var : Var El) (val : List Char) :
    Var El :=
  match fromStr var.1 val with
  | none => var
  | some v => ⟨var.1, setValue var.2 v⟩

end Values

mutual

def listAllMember (pre : List Char) (node : Node) : List (List Char × Node) :=
  match node with
  | .map entries => if validName pre then (pre, node) :: listEntries pre entries else []
  | _ => if validName pre then [(pre, node)] else []

def listEntries (pre : List Char) : List (Node × Node) → List (List Char × Node)
  | [] => []
  | (key, value) :: entries =>
    listAllMember (if pre = [] then key.text else pre ++ '.' :: key.text) value ++
      listEntries pre entries

end

/-- What is given to `fromString`: the text of a scalar, and any other node as it is emitted. -/
def nodeText (lib : Library) (node : Node) : List Char :=
  match node with
  | .scalar text => text
  | node => lib.emit (some node)

def loadFromYaml [∀ t, DecidableEq (El t)] (lib : Library)
    (fromStr : ∀ t, List Char → Option (El t)) (r : Registry El) (root : Node) : Registry El :=
  (listAllMember [] root).foldl (fun r node =>
    if node.1 = [] then r
    else r.modify (node.1.map Char.toLower) fun var =>
      fromString fromStr var (nodeText lib node.2)) r

/-! ### Paths -/

mutual

/-- The nodes of a tree with the keys on their paths, parents before children. -/
def nodesAt (path : List (List Char)) : Node → List (List (List Char) × Node)
  | .map entries => (path, .map entries) :: nodesIn path entries
  | node => [(path, node)]

def nodesIn (path : List (List Char)) : List (Node × Node) → List (List (List Char) × Node)
  | [] => []
  | (key, value) :: entries => nodesAt (path ++ [key.text]) value ++ nodesIn path entries

end

def flatten (path : List (List Char)) : List Char := List.intercalate ['.'] path

/-- The name of the node and those of all its ancestors pass the check. -/
def reachable (path : List (List Char)) : Bool := path.inits.all fun p => validName (flatten p)

def updates (lib : Library) (root : Node) (name : List Char) : List (List Char) :=
  ((nodesAt [] root).filter fun e => reachable e.1 && flatten e.1 = name).map
    fun e => nodeText lib e.2

mutual

/-- The keys of maps are scalars that are not empty. -/
def Keyed : Node → Prop
  | .map entries => KeyedEntries entries
  | _ => True

def KeyedEntries : List (Node × Node) → Prop
  | [] => True
  | (key, value) :: entries =>
    (∃ text, text ≠ [] ∧ key = .scalar text) ∧ Keyed value ∧ KeyedEntries entries

end

/-! ### Names -/

lemma flatten_nil : flatten [] = [] := rfl

lemma flatten_singleton (key : List Char) : flatten [key] = key := by
  simp [flatten, List.intercalate]

lemma flatten_cons_cons (key key' : List Char) (path : List (List Char)) :
    flatten (key :: key' :: path) = key ++ '.' :: flatten (key' :: path) := by
  simp [flatten, List.intercalate]

lemma flatten_concat {path : List (List Char)} (h : path ≠ []) (key : List Char) :
    flatten (path ++ [key]) = flatten path ++ '.' :: key := by
  induction path with
  | nil => exact absurd rfl h
  | cons k path ih =>
    cases path with
    | nil => rw [List.cons_append, List.nil_append, flatten_cons_cons, flatten_singleton,
        flatten_singleton]
    | cons k' path =>
      have hrest := ih (List.cons_ne_nil k' path)
      rw [List.cons_append, List.cons_append, flatten_cons_cons, flatten_cons_cons,
        ← List.cons_append, hrest, List.append_assoc, List.cons_append]

lemma flatten_eq_nil_iff {path : List (List Char)} (h : ∀ key ∈ path, key ≠ []) :
    flatten path = [] ↔ path = [] := by
  cases path with
  | nil => simp [flatten_nil]
  | cons k path =>
    have hk : k ≠ [] := h k List.mem_cons_self
    cases path with
    | nil => simpa [flatten_singleton] using hk
    | cons k' path => simp [flatten_cons_cons]

lemma childName_eq {path : List (List Char)} (h : ∀ key ∈ path, key ≠ []) (key : List Char) :
    (if flatten path = [] then key else flatten path ++ '.' :: key) = flatten (path ++ [key]) := by
  by_cases hpath : path = []
  · rw [hpath, if_pos flatten_nil, List.nil_append, flatten_singleton]
  · rw [if_neg (mt (flatten_eq_nil_iff h).mp hpath), flatten_concat hpath]

lemma reachable_iff {path : List (List Char)} :
    reachable path = true ↔ ∀ p, p <+: path → validName (flatten p) = true := by
  simp [reachable, List.mem_inits]

lemma reachable_concat {path : List (List Char)} {key : List Char} :
    reachable (path ++ [key]) = true ↔
      reachable path = true ∧ validName (flatten (path ++ [key])) = true := by
  simp only [reachable_iff, List.prefix_concat_iff]
  constructor
  · exact fun h => ⟨fun p hp => h p (.inr hp), h _ (.inl rfl)⟩
  · rintro ⟨h, hlast⟩ p (rfl | hp)
    · exact hlast
    · exact h p hp

mutual

lemma prefix_of_mem_nodesAt {path : List (List Char)} {e : List (List Char) × Node} :
    ∀ {node : Node}, e ∈ nodesAt path node → path <+: e.1
  | .map entries, h => by
    rcases List.mem_cons.mp h with rfl | h
    · exact List.prefix_rfl
    · exact prefix_of_mem_nodesIn h
  | .null, h | .scalar _, h | .sequence _, h => by
    rw [List.mem_singleton.mp h]

lemma prefix_of_mem_nodesIn {path : List (List Char)} {e : List (List Char) × Node} :
    ∀ {entries : List (Node × Node)}, e ∈ nodesIn path entries → path <+: e.1
  | [], h => by cases h
  | (key, value) :: entries, h => by
    rcases List.mem_append.mp h with h | h
    · exact (List.prefix_append path [key.text]).trans (prefix_of_mem_nodesAt h)
    · exact prefix_of_mem_nodesIn h

end

/-- The reachable ones among nodes with paths, under their names. -/
def named (nodes : List (List (List Char) × Node)) : List (List Char × Node) :=
  (nodes.filter fun e => reachable e.1).map fun e => (flatten e.1, e.2)

lemma named_append (l l' : List (List (List Char) × Node)) :
    named (l ++ l') = named l ++ named l' := by
  simp [named]

/-- A name that does not pass the check removes the whole subtree. -/
lemma named_nodesAt_of_invalid {path : List (List Char)} (node : Node)
    (h : validName (flatten path) = false) : named (nodesAt path node) = [] := by
  have hnone : (nodesAt path node).filter (fun e => reachable e.1) = [] := by
    rw [List.filter_eq_nil_iff]
    intro e he hreach
    rw [reachable_iff.mp hreach path (prefix_of_mem_nodesAt he)] at h
    cases h
  rw [named, hnone, List.map_nil]

mutual

/-- **`ListAllMember` lists the reachable nodes, in the order of the document.** -/
lemma listAllMember_eq : ∀ (node : Node) (path : List (List Char)), (∀ key ∈ path, key ≠ []) →
    (validName (flatten path) = true → reachable path = true) → Keyed node →
    listAllMember (flatten path) node = named (nodesAt path node)
  | .map entries, path, hpath, hreach, hkeyed => by
    cases hvalid : validName (flatten path) with
    | false => rw [named_nodesAt_of_invalid _ hvalid, listAllMember, hvalid, if_neg (by simp)]
    | true =>
      rw [listAllMember, hvalid, if_pos rfl,
        listEntries_eq entries path hpath (hreach hvalid) hkeyed, nodesAt]
      simp [named, hreach hvalid]
  | .null, path, _, hreach, _ | .scalar _, path, _, hreach, _
  | .sequence _, path, _, hreach, _ => by
    cases hvalid : validName (flatten path) with
    | false => rw [named_nodesAt_of_invalid _ hvalid]; simp [listAllMember, hvalid]
    | true => simp [listAllMember, hvalid, nodesAt, named, hreach hvalid]

lemma listEntries_eq : ∀ (entries : List (Node × Node)) (path : List (List Char)),
    (∀ key ∈ path, key ≠ []) → reachable path = true → KeyedEntries entries →
    listEntries (flatten path) entries = named (nodesIn path entries)
  | [], _, _, _, _ => rfl
  | (key, value) :: entries, path, hpath, hreach, hkeyed => by
    obtain ⟨⟨text, htext, rfl⟩, hvalue, hentries⟩ := hkeyed
    have hchild : ∀ k ∈ path ++ [text], k ≠ [] := by
      intro k hk
      rcases List.mem_append.mp hk with hk | hk
      · exact hpath k hk
      · rwa [List.mem_singleton.mp hk]
    have hfst := listAllMember_eq value (path ++ [text]) hchild
      (fun h => reachable_concat.mpr ⟨hreach, h⟩) hvalue
    rw [listEntries, nodesIn, named_append, Node.text, childName_eq hpath text, hfst,
      listEntries_eq entries path hpath hreach hentries]

end

/-! ### Loading -/

lemma map_toLower_of_valid {name : List Char} (h : validName name = true) :
    name.map Char.toLower = name := by
  have hlower : nameChars.all (fun c => c.toLower = c) = true := by decide
  have hchars : ∀ c ∈ name, c.toLower = id c := by
    intro c hc
    simp only [validName, List.all_eq_true, decide_eq_true_eq] at h
    simpa using List.all_eq_true.mp hlower c (h c hc)
  rw [List.map_congr_left hchars, List.map_id]

lemma valid_of_mem_named {nodes : List (List (List Char) × Node)} {n : List Char × Node}
    (h : n ∈ named nodes) : validName n.1 = true := by
  obtain ⟨e, he, rfl⟩ := List.mem_map.mp h
  exact reachable_iff.mp (List.mem_filter.mp he).2 e.1 List.prefix_rfl

lemma filter_named (lib : Library) (root : Node) (name : List Char) :
    ((named (nodesAt [] root)).filter fun n => n.1 = name).map (fun n => nodeText lib n.2) =
      updates lib root name := by
  rw [named, List.filter_map, List.map_map, List.filter_filter, updates]
  congr 1
  apply List.filter_congr
  intro e _
  exact Bool.and_comm _ _

variable [∀ t, DecidableEq (El t)] (lib : Library) (fromStr : ∀ t, List Char → Option (El t))

/-- **The loop of `LoadFromYaml`.** -/
lemma foldl_modify {nodes : List (List Char × Node)} (h : ∀ n ∈ nodes, validName n.1 = true)
    (r : Registry El) (name : List Char) :
    (nodes.foldl (fun r node =>
      if node.1 = [] then r
      else r.modify (node.1.map Char.toLower) fun var =>
        fromString fromStr var (nodeText lib node.2)) r).datas name =
      (r.datas name).map fun var =>
        (((nodes.filter fun n => n.1 ≠ [] && n.1 = name).map fun n => nodeText lib n.2).foldl
          (fromString fromStr) var) := by
  induction nodes generalizing r with
  | nil => simp
  | cons n nodes ih =>
    have hrest : ∀ n ∈ nodes, validName n.1 = true := fun n hn => h n (List.mem_cons_of_mem _ hn)
    rw [List.foldl_cons, ih hrest, map_toLower_of_valid (h n List.mem_cons_self)]
    by_cases hempty : n.1 = []
    · simp [hempty]
    · by_cases hname : n.1 = name
      · subst hname
        simp [hempty, Registry.modify, Function.comp_def]
      · simp [hempty, hname, Ne.symm hname, Registry.modify]

/-- **What loading does to each variable.** -/
lemma loadFromYaml_datas (r : Registry El) {root : Node} (hroot : Keyed root)
    {name : List Char} (hname : name ≠ []) :
    (loadFromYaml lib fromStr r root).datas name =
      (r.datas name).map fun var => (updates lib root name).foldl (fromString fromStr) var := by
  have hlist : listAllMember [] root = named (nodesAt [] root) :=
    listAllMember_eq root [] (by simp) (fun h => by simpa [reachable] using h) hroot
  have hfilter : (named (nodesAt [] root)).filter (fun n => n.1 ≠ [] && n.1 = name) =
      (named (nodesAt [] root)).filter fun n => n.1 = name := by
    apply List.filter_congr
    intro n _
    by_cases hn : n.1 = name <;> simp [hn, hname]
  rw [loadFromYaml, hlist, foldl_modify lib fromStr (fun n hn => valid_of_mem_named hn), hfilter,
    filter_named]

lemma loadFromYaml_datas_nil (r : Registry El) {root : Node} (hroot : Keyed root) :
    (loadFromYaml lib fromStr r root).datas [] = r.datas [] := by
  have hlist : listAllMember [] root = named (nodesAt [] root) :=
    listAllMember_eq root [] (by simp) (fun h => by simpa [reachable] using h) hroot
  rw [loadFromYaml, hlist, foldl_modify lib fromStr (fun n hn => valid_of_mem_named hn)]
  simp

/-- **Loading a tree gives each variable with a name the texts of the reachable nodes of that name,
in the order of the document, and leaves a variable without a name alone.** -/
theorem loadFromYaml_eq (r : Registry El) (root : Node) (hroot : Keyed root) (name : List Char) :
    (loadFromYaml lib fromStr r root).datas name =
      if name = [] then r.datas name
      else (r.datas name).map fun var =>
        (updates lib root name).foldl (fromString fromStr) var := by
  split
  · rename_i hname
    rw [hname, loadFromYaml_datas_nil lib fromStr r hroot]
  · rename_i hname
    exact loadFromYaml_datas lib fromStr r hroot hname

def Registry.single (name : List Char) (var : Var El) (h : validName name = true) :
    Registry El where
  datas n := if n = name then some var else none
  valid n hn := by
    split at hn
    · rename_i heq
      rwa [heq]
    · exact absurd rfl hn

/-- The conversion to `int` for the texts of one digit. -/
def digit (_ : Unit) (s : List Char) : Option ℕ :=
  match s with
  | [c] => if c.isDigit then some (c.toNat - '0'.toNat) else none
  | _ => none

/-- The variable `a.b` and a document with the value 5 for it. -/
theorem loadFromYaml_digit :
    Keyed (.map [(.scalar ['a'], .map [(.scalar ['b'], .scalar ['5'])])]) ∧
    (loadFromYaml ⟨fun _ => none, fun _ => [], fun _ => none⟩ digit
      (.single ['a', '.', 'b'] ⟨(), 0⟩ rfl : Registry fun _ => ℕ)
      (.map [(.scalar ['a'], .map [(.scalar ['b'], .scalar ['5'])])])).datas ['a', '.', 'b'] =
      some ⟨(), 5⟩ := by
  have hkeyed : Keyed (.map [(.scalar ['a'], .map [(.scalar ['b'], .scalar ['5'])])]) :=
    ⟨⟨['a'], by simp, rfl⟩, ⟨⟨['b'], by simp, rfl⟩, trivial, trivial⟩, trivial⟩
  refine ⟨hkeyed, ?_⟩
  rw [loadFromYaml_eq _ _ _ _ hkeyed]
  rfl

/-- **A variable without a name is not loaded from the root.** -/
theorem loadFromYaml_unnamed :
    Keyed (.scalar ['5']) ∧
    (loadFromYaml ⟨fun _ => none, fun _ => [], fun _ => none⟩ digit
      (.single [] ⟨(), 0⟩ rfl : Registry fun _ => ℕ) (.scalar ['5'])).datas [] ≠
      ((.single [] ⟨(), 0⟩ rfl : Registry fun _ : Unit => ℕ).datas []).map fun var =>
        (updates ⟨fun _ => none, fun _ => [], fun _ => none⟩ (.scalar ['5']) []).foldl
          (fromString digit) var := by
  have hkeyed : Keyed (.scalar ['5']) := trivial
  refine ⟨hkeyed, ?_⟩
  rw [loadFromYaml_datas_nil _ _ _ hkeyed]
  decide

end Sylar.ConfigModel
