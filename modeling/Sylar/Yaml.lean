import Mathlib.Data.List.Basic

/-!
The node trees of yaml-cpp, as far as the configuration reads and builds them.

The parser and the emitter of yaml-cpp are not part of the sources, only its headers are: they are
a parameter. What the headers define (access by a key or an index, conversion to a string) is here.
-/

namespace Sylar.Yaml

inductive Node
  | null
  | scalar (text : List Char)
  | sequence (items : List Node)
  | map (entries : List (Node × Node))

/-- The compiled part of yaml-cpp. A node that is not defined is `none`. -/
structure Library where
  /-- `YAML::Load`, which may throw. -/
  load : List Char → Option Node
  /-- `operator<<`. -/
  emit : Option Node → List Char
  /-- The conversion of the text of a scalar to `size_t`. -/
  index : List Char → Option ℕ

namespace Node

def text : Node → List Char
  | scalar text => text
  | _ => []

def asString : Node → Option (List Char)
  | null => some "null".toList
  | scalar text => some text
  | _ => none

def isText (key : List Char) : Node → Bool
  | scalar text => text = key
  | _ => false

def lookup (key : List Char) (entries : List (Node × Node)) : Option Node :=
  (entries.find? fun e => e.1.isText key).map (·.2)

/-- `operator[]` with a string. It throws on a scalar. -/
def get (node : Node) (key : List Char) : Option (Option Node) :=
  match node with
  | scalar _ => none
  | map entries => some (lookup key entries)
  | _ => some none

def size : Node → ℕ
  | sequence items => items.length
  | map entries => entries.length
  | _ => 0

/-- `operator[]` with an index below the size. In a map it is looked up as a key. -/
def at_ (lib : Library) (node : Node) (i : ℕ) : Option Node :=
  match node with
  | sequence items => items[i]?
  | map entries =>
    (entries.find? fun e =>
      match e.1 with
      | scalar text => lib.index text = some i
      | _ => false).map (·.2)
  | _ => none

/-- The nodes that a loop over the indices below the size reads. -/
def children (lib : Library) (node : Node) : List (Option Node) :=
  (List.range node.size).map (node.at_ lib)

lemma children_sequence (lib : Library) (items : List Node) :
    (sequence items).children lib = items.map some := by
  apply List.ext_getElem
  · simp [children, size]
  · intro i h _
    have hi : i < items.length := by simpa [children, size] using h
    simp [children, at_, hi]

end Node

mutual

def Node.subtrees : Node → List Node
  | .sequence items => .sequence items :: subtreesOfItems items
  | .map entries => .map entries :: subtreesOfEntries entries
  | node => [node]

def subtreesOfItems : List Node → List Node
  | [] => []
  | item :: items => item.subtrees ++ subtreesOfItems items

def subtreesOfEntries : List (Node × Node) → List Node
  | [] => []
  | (_, value) :: entries => value.subtrees ++ subtreesOfEntries entries

end

lemma Node.self_mem_subtrees (node : Node) : node ∈ node.subtrees := by
  cases node <;> simp [Node.subtrees]

lemma mem_subtrees_sequence {items : List Node} {item n : Node} (hitem : item ∈ items)
    (h : n ∈ item.subtrees) : n ∈ (Node.sequence items).subtrees := by
  refine List.mem_cons_of_mem _ ?_
  induction items with
  | nil => cases hitem
  | cons i items ih =>
    rcases List.mem_cons.mp hitem with rfl | hitem
    · exact List.mem_append_left _ h
    · exact List.mem_append_right _ (ih hitem)

lemma mem_subtrees_map {entries : List (Node × Node)} {e : Node × Node} {n : Node}
    (he : e ∈ entries) (h : n ∈ e.2.subtrees) : n ∈ (Node.map entries).subtrees := by
  refine List.mem_cons_of_mem _ ?_
  induction entries with
  | nil => cases he
  | cons i entries ih =>
    rcases List.mem_cons.mp he with rfl | he
    · exact List.mem_append_left _ h
    · exact List.mem_append_right _ (ih he)

/-- `node[key] = value` for the entries of a map. -/
def put (key : List Char) (value : Node) : List (Node × Node) → List (Node × Node)
  | [] => [(.scalar key, value)]
  | e :: entries =>
    if e.1.isText key then (e.1, value) :: entries else e :: put key value entries

variable {key : List Char} {value : Node} {entries : List (Node × Node)}

lemma put_of_new (h : ∀ e ∈ entries, e.1.isText key = false) :
    put key value entries = entries ++ [(.scalar key, value)] := by
  induction entries with
  | nil => rfl
  | cons e entries ih =>
    have hrest : ∀ e ∈ entries, e.1.isText key = false :=
      fun e he => h e (List.mem_cons_of_mem _ he)
    rw [put, if_neg (by simp [h e List.mem_cons_self]), ih hrest, List.cons_append]

lemma isText_iff {node : Node} : node.isText key = true ↔ node = .scalar key := by
  cases node <;> simp [Node.isText]

@[simp] lemma lookup_nil (key : List Char) : Node.lookup key [] = none := rfl

lemma lookup_cons (key key' : List Char) (value : Node) (entries : List (Node × Node)) :
    Node.lookup key' ((.scalar key, value) :: entries) =
      if key' = key then some value else Node.lookup key' entries := by
  by_cases hkey : key' = key
  · simp [Node.lookup, hkey, Node.isText]
  · simp [Node.lookup, hkey, Ne.symm hkey, Node.isText]

lemma lookup_put (key' : List Char) : Node.lookup key' (put key value entries) =
    if key' = key then some value else Node.lookup key' entries := by
  induction entries with
  | nil => exact lookup_cons key key' value []
  | cons e entries ih =>
    by_cases he : e.1.isText key = true
    · obtain ⟨fst, snd⟩ := e
      obtain rfl : fst = .scalar key := isText_iff.mp he
      rw [put, if_pos he, lookup_cons, lookup_cons]
      split <;> rfl
    · rw [put, if_neg he]
      by_cases he' : e.1.isText key' = true
      · have hkey : key' ≠ key := by
          rintro rfl
          exact he he'
        simp [Node.lookup, he', hkey]
      · simpa [Node.lookup, he'] using ih

lemma put_ne_nil : put key value entries ≠ [] := by
  cases entries with
  | nil => simp [put]
  | cons e entries =>
    unfold put
    split <;> simp

end Sylar.Yaml
