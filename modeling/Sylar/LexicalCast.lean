import Mathlib.Algebra.Order.Group.Unbundled.Int
import Mathlib.Data.Char
import Mathlib.Data.List.Forall2
import Mathlib.Data.List.Lex
import Mathlib.Data.Prod.Lex
import Sylar.Lib.OrdSet
import Sylar.Yaml

/-!
The text form of containers, and its way back.

Each specialisation of `LexicalCast` converts the elements one by one: to text, which is loaded as a
node of the container's node, and back from the text that the node is emitted as. The types built of
them are a universe, and what holds of a value is proved by induction over its type.
-/

namespace Sylar.LexicalCast

open Lib Sylar.Yaml

variable {α : Type}

/-! ### The containers -/

abbrev CInt := { i : ℤ // -2147483648 ≤ i ∧ i ≤ 2147483647 }

structure StdSet (α : Type) [LinearOrder α] where
  elems : List α
  sorted : OrdSet.Sorted (fun a b => decide (a < b)) elems

def StdSet.insert [LinearOrder α] (s : StdSet α) (x : α) : StdSet α where
  elems := (OrdSet.insert (fun a b => decide (a < b)) x s.elems).1
  sorted := OrdSet.insert_sorted (fun _ _ _ hab hbc => by
    simp only [decide_eq_true_eq] at hab hbc ⊢
    exact hab.trans hbc) s.sorted

/-- `std::map<std::string, T>`, with its entries in the order of their keys. -/
structure StdMap (α : Type) where
  entries : List (List Char × α)
  sorted : OrdSet.Sorted (fun a b => decide (a.1 < b.1)) entries

def StdMap.insert (m : StdMap α) (p : List Char × α) : StdMap α where
  entries := (OrdSet.insert (fun a b => decide (a.1 < b.1)) p m.entries).1
  sorted := OrdSet.insert_sorted (fun _ _ _ hab hbc => by
    simp only [decide_eq_true_eq] at hab hbc ⊢
    exact hab.trans hbc) m.sorted

/-- Where unordered containers put a new element: the order of iteration is any. -/
structure Hashing where
  place : {α : Type} → α → List α → List α
  perm : ∀ {α : Type} (x : α) (l : List α), (place x l).Perm (x :: l)

/-- `std::unordered_set<int>`, with its elements in the order of iteration. No other type built here
has a hash function. -/
structure UnorderedSet where
  elems : List CInt
  nodup : elems.Nodup

def UnorderedSet.insert (hash : Hashing) (s : UnorderedSet) (x : CInt) : UnorderedSet :=
  if h : x ∈ s.elems then s
  else ⟨hash.place x s.elems,
    (hash.perm x s.elems).nodup_iff.mpr (List.nodup_cons.mpr ⟨h, s.nodup⟩)⟩

structure UnorderedMap (α : Type) where
  entries : List (List Char × α)
  nodup : (entries.map Prod.fst).Nodup

def UnorderedMap.insert (hash : Hashing) (m : UnorderedMap α) (p : List Char × α) :
    UnorderedMap α :=
  if h : p.1 ∈ m.entries.map Prod.fst then m
  else ⟨hash.place p m.entries,
    ((hash.perm p m.entries).map Prod.fst).nodup_iff.mpr (List.nodup_cons.mpr ⟨h, m.nodup⟩)⟩

/-! ### The specialisations -/

/-- `LexicalCast<T, std::string>` and `LexicalCast<std::string, T>`; both may throw. -/
structure Cast (α : Type) where
  toStr : α → Option (List Char)
  fromStr : List Char → Option α

/-- The sequence of the nodes that the elements' texts are loaded as. -/
def sequenceToString (lib : Library) (c : Cast α) (v : List α) : Option (List Char) := do
  let items ← v.mapM fun i => (c.toStr i).bind lib.load
  some (lib.emit (some (.sequence items)))

/-- The elements in the order of the loop that reads them. -/
def elements (lib : Library) (c : Cast α) (v : List Char) : Option (List α) := do
  let node ← lib.load v
  (node.children lib).mapM fun n => c.fromStr (lib.emit n)

def castVector (lib : Library) (c : Cast α) : Cast (List α) where
  toStr := sequenceToString lib c
  fromStr := elements lib c

def castList (lib : Library) (c : Cast α) : Cast (List α) where
  toStr := sequenceToString lib c
  fromStr := elements lib c

def castSet [LinearOrder α] (lib : Library) (c : Cast α) : Cast (StdSet α) where
  toStr v := sequenceToString lib c v.elems
  fromStr v := (elements lib c v).map (·.foldl StdSet.insert ⟨[], .nil⟩)

def castUnorderedSet (hash : Hashing) (lib : Library) (c : Cast CInt) : Cast UnorderedSet where
  toStr v := sequenceToString lib c v.elems
  fromStr v := (elements lib c v).map (·.foldl (UnorderedSet.insert hash) ⟨[], .nil⟩)

/-- The map of the nodes that the values' texts are loaded as. -/
def mapToString (lib : Library) (c : Cast α) (v : List (List Char × α)) : Option (List Char) := do
  let entries ← v.foldlM (fun entries i => do
    let value ← (c.toStr i.2).bind lib.load
    some (put i.1 value entries)) []
  some (lib.emit (some (.map entries)))

/-- The entries in the order of the iteration over the node. In a sequence `it->first` is not a
valid node, and `Scalar` throws. -/
def pairs (lib : Library) (c : Cast α) (v : List Char) : Option (List (List Char × α)) := do
  match ← lib.load v with
  | .map entries =>
    entries.mapM fun e => (c.fromStr (lib.emit (some e.2))).map fun x => (e.1.text, x)
  | .sequence (_ :: _) => none
  | _ => some []

def castMap (lib : Library) (c : Cast α) : Cast (StdMap α) where
  toStr v := mapToString lib c v.entries
  fromStr v := (pairs lib c v).map (·.foldl StdMap.insert ⟨[], .nil⟩)

def castUnorderedMap (hash : Hashing) (lib : Library) (c : Cast α) : Cast (UnorderedMap α) where
  toStr v := mapToString lib c v.entries
  fromStr v := (pairs lib c v).map (·.foldl (UnorderedMap.insert hash) ⟨[], .nil⟩)

/-! ### The types -/

/-- The types that have an order, as the elements of a set need it. -/
inductive OTy
  | int
  | vector (t : OTy)
  | list (t : OTy)
  | set (t : OTy)
  | map (t : OTy)

inductive Ty
  | ordered (t : OTy)
  | vector (t : Ty)
  | list (t : Ty)
  | unorderedSet
  | map (t : Ty)
  | unorderedMap (t : Ty)

lemma StdSet.elems_injective [LinearOrder α] : Function.Injective (StdSet.elems (α := α)) := by
  rintro ⟨a, ha⟩ ⟨b, hb⟩ h
  cases h
  rfl

lemma StdMap.entries_injective : Function.Injective
    fun m : StdMap α => m.entries.map (toLex : List Char × α → List Char ×ₗ α) := by
  rintro ⟨a, ha⟩ ⟨b, hb⟩ h
  have : a = b := List.map_injective_iff.mpr toLex.injective h
  cases this
  rfl

/-- The values of an ordered type with their order, which is lexicographic for containers. -/
def OTy.sem : OTy → Σ α : Type, LinearOrder α
  | .int => ⟨CInt, inferInstance⟩
  | .vector t =>
    let _ := t.sem.2
    ⟨List t.sem.1, inferInstance⟩
  | .list t =>
    let _ := t.sem.2
    ⟨List t.sem.1, inferInstance⟩
  | .set t =>
    let _ := t.sem.2
    ⟨StdSet t.sem.1, LinearOrder.lift' _ StdSet.elems_injective⟩
  | .map t =>
    let _ := t.sem.2
    ⟨StdMap t.sem.1, LinearOrder.lift' _ StdMap.entries_injective⟩

abbrev OTy.Val (t : OTy) : Type := t.sem.1

instance (t : OTy) : LinearOrder t.Val := t.sem.2

def Ty.Val : Ty → Type
  | .ordered t => t.Val
  | .vector t => List t.Val
  | .list t => List t.Val
  | .unorderedSet => UnorderedSet
  | .map t => StdMap t.Val
  | .unorderedMap t => UnorderedMap t.Val

section Casts

variable (hash : Hashing) (lib : Library) (toText : CInt → List Char)
  (fromText : List Char → Option CInt)

/-- `boost::lexical_cast`, which the template falls back to. -/
def castInt : Cast CInt := ⟨fun i => some (toText i), fromText⟩

def OTy.cast : (t : OTy) → Cast t.Val
  | .int => castInt toText fromText
  | .vector t => castVector lib t.cast
  | .list t => castList lib t.cast
  | .set t => castSet lib t.cast
  | .map t => castMap lib t.cast

def Ty.cast : (t : Ty) → Cast t.Val
  | .ordered t => t.cast lib toText fromText
  | .vector t => castVector lib t.cast
  | .list t => castList lib t.cast
  | .unorderedSet => castUnorderedSet hash lib (castInt toText fromText)
  | .map t => castMap lib t.cast
  | .unorderedMap t => castUnorderedMap hash lib t.cast

def OTy.tree : (t : OTy) → t.Val → Node
  | .int, i => .scalar (toText i)
  | .vector t, v => .sequence (v.map t.tree)
  | .list t, v => .sequence (v.map t.tree)
  | .set t, v => .sequence (v.elems.map t.tree)
  | .map t, v => .map (v.entries.map fun p => (.scalar p.1, t.tree p.2))

def Ty.tree : (t : Ty) → t.Val → Node
  | .ordered t, v => t.tree toText v
  | .vector t, v => .sequence (v.map t.tree)
  | .list t, v => .sequence (v.map t.tree)
  | .unorderedSet, v => .sequence (v.elems.map fun i => .scalar (toText i))
  | .map t, v => .map (v.entries.map fun p => (.scalar p.1, t.tree p.2))
  | .unorderedMap t, v => .map (v.entries.map fun p => (.scalar p.1, t.tree p.2))

end Casts

/-- Two entries have the same key and values that are related. -/
def SameEntry (R : α → α → Prop) (p q : List Char × α) : Prop := p.1 = q.1 ∧ R p.2 q.2

/-- `operator==`. Unordered containers are equal if they have the same size and each element of one
is in the other. -/
def Ty.Eqv : (t : Ty) → t.Val → t.Val → Prop
  | .ordered _, a, b => a = b
  | .vector t, a, b => List.Forall₂ t.Eqv a b
  | .list t, a, b => List.Forall₂ t.Eqv a b
  | .unorderedSet, a, b => a.elems.length = b.elems.length ∧ ∀ x ∈ a.elems, x ∈ b.elems
  | .map t, a, b => List.Forall₂ (SameEntry t.Eqv) a.entries b.entries
  | .unorderedMap t, a, b => a.entries.length = b.entries.length ∧
      ∀ p ∈ a.entries, ∃ q ∈ b.entries, SameEntry t.Eqv p q

/-! ### Values that survive -/

/-- The value is written as the tree, the tree survives, and what comes back is related to it. -/
structure Survives (lib : Library) (c : Cast α) (R : α → α → Prop) (n : Node) (v : α) : Prop where
  toStr : c.toStr v = some (lib.emit (some n))
  load : lib.load (lib.emit (some n)) = some n
  fromStr : ∃ w, c.fromStr (lib.emit (some n)) = some w ∧ R w v

variable {lib : Library} {c : Cast α} {R : α → α → Prop} {tree : α → Node}

lemma sequenceToString_eq {l : List α} (h : ∀ x ∈ l, Survives lib c R (tree x) x) :
    sequenceToString lib c l = some (lib.emit (some (.sequence (l.map tree)))) := by
  have hitems : l.mapM (fun i => (c.toStr i).bind lib.load) = some (l.map tree) := by
    induction l with
    | nil => rfl
    | cons x l ih =>
      have hx := h x List.mem_cons_self
      have hl := ih fun y hy => h y (List.mem_cons_of_mem _ hy)
      simp [hx.toStr, hx.load, hl]
  simp [sequenceToString, hitems]

lemma elements_eq {l : List α} (h : ∀ x ∈ l, Survives lib c R (tree x) x)
    (hload : lib.load (lib.emit (some (.sequence (l.map tree)))) =
      some (.sequence (l.map tree))) :
    ∃ ws, elements lib c (lib.emit (some (.sequence (l.map tree)))) = some ws ∧
      List.Forall₂ R ws l := by
  have hread : ∃ ws, ((l.map tree).map some).mapM (fun n => c.fromStr (lib.emit n)) = some ws ∧
      List.Forall₂ R ws l := by
    clear hload
    induction l with
    | nil => exact ⟨[], rfl, .nil⟩
    | cons x l ih =>
      obtain ⟨w, hw, hR⟩ := (h x List.mem_cons_self).fromStr
      obtain ⟨ws, hws, hRs⟩ := ih fun y hy => h y (List.mem_cons_of_mem _ hy)
      rw [List.map_map] at hws
      exact ⟨w :: ws, by simp [hw, hws], .cons hR hRs⟩
  obtain ⟨ws, hws, hRs⟩ := hread
  exact ⟨ws, by simpa [elements, hload, Node.children_sequence] using hws, hRs⟩

def mapTree (tree : α → Node) (l : List (List Char × α)) : Node :=
  .map (l.map fun p => (.scalar p.1, tree p.2))

lemma mapToString_eq {l : List (List Char × α)} (hkeys : (l.map Prod.fst).Nodup)
    (h : ∀ p ∈ l, Survives lib c R (tree p.2) p.2) :
    mapToString lib c l = some (lib.emit (some (mapTree tree l))) := by
  have hentries : ∀ pre post : List (List Char × α), ((pre ++ post).map Prod.fst).Nodup →
      (∀ p ∈ post, Survives lib c R (tree p.2) p.2) →
      post.foldlM (fun entries i => do
        let value ← (c.toStr i.2).bind lib.load
        some (put i.1 value entries)) (pre.map fun p => (.scalar p.1, tree p.2)) =
        some ((pre ++ post).map fun p => (.scalar p.1, tree p.2)) := by
    intro pre post
    induction post generalizing pre with
    | nil => simp
    | cons p post ih =>
      intro hkeys h
      have hp := h p List.mem_cons_self
      have hnew : ∀ e ∈ pre.map (fun p => (Node.scalar p.1, tree p.2)),
          e.1.isText p.1 = false := by
        intro e he
        obtain ⟨q, hq, rfl⟩ := List.mem_map.mp he
        have hne : q.1 ≠ p.1 := by
          rw [List.map_append, List.nodup_append] at hkeys
          exact hkeys.2.2 q.1 (List.mem_map_of_mem hq) p.1 (by simp)
        simpa [Node.isText] using hne
      have hrest := ih (pre ++ [p]) (by simpa using hkeys)
        fun q hq => h q (List.mem_cons_of_mem _ hq)
      simpa [hp.toStr, hp.load, put_of_new hnew] using hrest
  have := hentries [] l hkeys h
  simp only [List.map_nil, List.nil_append] at this
  rw [mapToString, this]
  rfl

lemma pairs_eq {l : List (List Char × α)} (h : ∀ p ∈ l, Survives lib c R (tree p.2) p.2)
    (hload : lib.load (lib.emit (some (mapTree tree l))) = some (mapTree tree l)) :
    ∃ ws, pairs lib c (lib.emit (some (mapTree tree l))) = some ws ∧
      List.Forall₂ (SameEntry R) ws l := by
  have hread : ∃ ws, (l.map fun p => (Node.scalar p.1, tree p.2)).mapM
      (fun e => (c.fromStr (lib.emit (some e.2))).map fun x => (e.1.text, x)) = some ws ∧
      List.Forall₂ (SameEntry R) ws l := by
    clear hload
    induction l with
    | nil => exact ⟨[], rfl, .nil⟩
    | cons p l ih =>
      obtain ⟨w, hw, hR⟩ := (h p List.mem_cons_self).fromStr
      obtain ⟨ws, hws, hRs⟩ := ih fun q hq => h q (List.mem_cons_of_mem _ hq)
      refine ⟨(p.1, w) :: ws, ?_, .cons ⟨rfl, hR⟩ hRs⟩
      rw [List.map_cons, List.mapM_cons, hws]
      simp [hw, Node.text]
  obtain ⟨ws, hws, hRs⟩ := hread
  refine ⟨ws, ?_, hRs⟩
  rw [pairs, hload]
  exact hws

/-! ### Filling a container -/

lemma StdSet.foldl_insert [LinearOrder α] {pre post : List α}
    (h : OrdSet.Sorted (fun a b => decide (a < b)) (pre ++ post)) {s : StdSet α}
    (hs : s.elems = pre) : (post.foldl StdSet.insert s).elems = pre ++ post := by
  induction post generalizing pre s with
  | nil => simpa using hs
  | cons x post ih =>
    subst hs
    have hlast : (s.insert x).elems = s.elems ++ [x] :=
      OrdSet.insert_last fun y hy => (List.pairwise_append.mp h).2.2 y hy x List.mem_cons_self
    rw [List.foldl_cons, ih (by simpa using h) hlast, List.append_assoc, List.singleton_append]

lemma StdMap.foldl_insert {pre post : List (List Char × α)}
    (h : OrdSet.Sorted (fun a b => decide (a.1 < b.1)) (pre ++ post)) {m : StdMap α}
    (hm : m.entries = pre) : (post.foldl StdMap.insert m).entries = pre ++ post := by
  induction post generalizing pre m with
  | nil => simpa using hm
  | cons x post ih =>
    subst hm
    have hlast : (m.insert x).entries = m.entries ++ [x] :=
      OrdSet.insert_last fun y hy => (List.pairwise_append.mp h).2.2 y hy x List.mem_cons_self
    rw [List.foldl_cons, ih (by simpa using h) hlast, List.append_assoc, List.singleton_append]

/-- The elements of an unordered set come back in some order. -/
lemma UnorderedSet.foldl_insert (hash : Hashing) {l : List CInt} {s : UnorderedSet}
    (h : (s.elems ++ l).Nodup) :
    (l.foldl (UnorderedSet.insert hash) s).elems.Perm (s.elems ++ l) := by
  induction l generalizing s with
  | nil => simp
  | cons x l ih =>
    have hx : x ∉ s.elems := fun hx =>
      (List.nodup_append.mp h).2.2 x hx x List.mem_cons_self rfl
    have hinsert : (s.insert hash x).elems.Perm (x :: s.elems) := by
      rw [UnorderedSet.insert, dif_neg hx]
      exact hash.perm x s.elems
    have hperm : ((s.insert hash x).elems ++ l).Perm (s.elems ++ x :: l) :=
      (hinsert.append_right l).trans List.perm_middle.symm
    exact (ih (hperm.nodup_iff.mpr h)).trans hperm

/-- The entries of an unordered map come back in some order. -/
lemma UnorderedMap.foldl_insert (hash : Hashing) {l : List (List Char × α)} {m : UnorderedMap α}
    (h : ((m.entries ++ l).map Prod.fst).Nodup) :
    (l.foldl (UnorderedMap.insert hash) m).entries.Perm (m.entries ++ l) := by
  induction l generalizing m with
  | nil => simp
  | cons p l ih =>
    have hp : p.1 ∉ m.entries.map Prod.fst := by
      rw [List.map_append] at h
      exact fun hp => (List.nodup_append.mp h).2.2 p.1 hp p.1 (by simp) rfl
    have hinsert : (m.insert hash p).entries.Perm (p :: m.entries) := by
      rw [UnorderedMap.insert, dif_neg hp]
      exact hash.perm p m.entries
    have hperm : ((m.insert hash p).entries ++ l).Perm (m.entries ++ p :: l) :=
      (hinsert.append_right l).trans List.perm_middle.symm
    exact (ih ((hperm.map Prod.fst).nodup_iff.mpr h)).trans hperm

/-! ### Each specialisation -/

lemma Survives.mono {R' : α → α → Prop} {n : Node} {v : α} (h : Survives lib c R n v)
    (hR : ∀ w, R w v → R' w v) : Survives lib c R' n v := by
  obtain ⟨w, hw, hwv⟩ := h.fromStr
  exact ⟨h.toStr, h.load, w, hw, hR w hwv⟩

lemma castVector_survives {l : List α} (h : ∀ x ∈ l, Survives lib c R (tree x) x)
    (hload : lib.load (lib.emit (some (.sequence (l.map tree)))) =
      some (.sequence (l.map tree))) :
    Survives lib (castVector lib c) (List.Forall₂ R) (.sequence (l.map tree)) l :=
  ⟨sequenceToString_eq h, hload, elements_eq h hload⟩

lemma castList_survives {l : List α} (h : ∀ x ∈ l, Survives lib c R (tree x) x)
    (hload : lib.load (lib.emit (some (.sequence (l.map tree)))) =
      some (.sequence (l.map tree))) :
    Survives lib (castList lib c) (List.Forall₂ R) (.sequence (l.map tree)) l :=
  ⟨sequenceToString_eq h, hload, elements_eq h hload⟩

lemma castSet_survives [LinearOrder α] {s : StdSet α}
    (h : ∀ x ∈ s.elems, Survives lib c Eq (tree x) x)
    (hload : lib.load (lib.emit (some (.sequence (s.elems.map tree)))) =
      some (.sequence (s.elems.map tree))) :
    Survives lib (castSet lib c) Eq (.sequence (s.elems.map tree)) s := by
  obtain ⟨ws, hws, heq⟩ := elements_eq h hload
  obtain rfl : ws = s.elems := by rwa [List.forall₂_eq_eq_eq] at heq
  refine ⟨sequenceToString_eq h, hload, _, by simp only [castSet, hws]; rfl, ?_⟩
  have hsorted : OrdSet.Sorted (fun a b => decide (a < b)) ([] ++ s.elems) := s.sorted
  exact StdSet.elems_injective (StdSet.foldl_insert hsorted rfl)

lemma castUnorderedSet_survives (hash : Hashing) {c : Cast CInt} {tree : CInt → Node}
    {s : UnorderedSet} (h : ∀ x ∈ s.elems, Survives lib c Eq (tree x) x)
    (hload : lib.load (lib.emit (some (.sequence (s.elems.map tree)))) =
      some (.sequence (s.elems.map tree))) :
    Survives lib (castUnorderedSet hash lib c) Ty.unorderedSet.Eqv
      (.sequence (s.elems.map tree)) s := by
  obtain ⟨ws, hws, heq⟩ := elements_eq h hload
  obtain rfl : ws = s.elems := by rwa [List.forall₂_eq_eq_eq] at heq
  refine ⟨sequenceToString_eq h, hload, _, by simp only [castUnorderedSet, hws]; rfl, ?_⟩
  have hperm := UnorderedSet.foldl_insert hash (l := s.elems) (s := ⟨[], .nil⟩)
    (by simpa using s.nodup)
  rw [List.nil_append] at hperm
  exact ⟨hperm.length_eq, fun x hx => hperm.mem_iff.mp hx⟩

lemma map_fst_of_sameEntry {ws l : List (List Char × α)} (h : List.Forall₂ (SameEntry R) ws l) :
    ws.map Prod.fst = l.map Prod.fst := by
  induction h with
  | nil => rfl
  | cons hp _ ih => rw [List.map_cons, List.map_cons, hp.1, ih]

lemma sorted_iff_pairwise {l : List (List Char × α)} :
    OrdSet.Sorted (fun a b => decide (a.1 < b.1)) l ↔ (l.map Prod.fst).Pairwise (· < ·) := by
  simp [OrdSet.Sorted, List.pairwise_map]

lemma StdMap.nodup (m : StdMap α) : (m.entries.map Prod.fst).Nodup :=
  (sorted_iff_pairwise.mp m.sorted).imp fun h => h.ne

lemma castMap_survives {m : StdMap α} (h : ∀ p ∈ m.entries, Survives lib c R (tree p.2) p.2)
    (hload : lib.load (lib.emit (some (mapTree tree m.entries))) =
      some (mapTree tree m.entries)) :
    Survives lib (castMap lib c) (fun w v => List.Forall₂ (SameEntry R) w.entries v.entries)
      (mapTree tree m.entries) m := by
  obtain ⟨ws, hws, hsame⟩ := pairs_eq h hload
  have hsorted : OrdSet.Sorted (fun a b => decide (a.1 < b.1)) ([] ++ ws) := by
    rw [List.nil_append, sorted_iff_pairwise, map_fst_of_sameEntry hsame]
    exact sorted_iff_pairwise.mp m.sorted
  refine ⟨mapToString_eq m.nodup h, hload, _, by simp only [castMap, hws]; rfl, ?_⟩
  rw [StdMap.foldl_insert hsorted rfl]
  exact hsame

lemma castUnorderedMap_survives (hash : Hashing) {m : UnorderedMap α}
    (h : ∀ p ∈ m.entries, Survives lib c R (tree p.2) p.2)
    (hload : lib.load (lib.emit (some (mapTree tree m.entries))) =
      some (mapTree tree m.entries)) :
    Survives lib (castUnorderedMap hash lib c)
      (fun w v => w.entries.length = v.entries.length ∧
        ∀ p ∈ w.entries, ∃ q ∈ v.entries, SameEntry R p q)
      (mapTree tree m.entries) m := by
  obtain ⟨ws, hws, hsame⟩ := pairs_eq h hload
  have hnodup : (ws.map Prod.fst).Nodup := by
    rw [map_fst_of_sameEntry hsame]
    exact m.nodup
  refine ⟨mapToString_eq m.nodup h, hload, _, by simp only [castUnorderedMap, hws]; rfl, ?_⟩
  have hperm := UnorderedMap.foldl_insert hash (l := ws) (m := ⟨[], .nil⟩) (by simpa using hnodup)
  rw [List.nil_append] at hperm
  refine ⟨hperm.length_eq.trans hsame.length_eq, fun p hp => ?_⟩
  obtain ⟨i, hi, rfl⟩ := List.getElem_of_mem (hperm.mem_iff.mp hp)
  have hi' : i < m.entries.length := hsame.length_eq ▸ hi
  exact ⟨m.entries[i], List.getElem_mem hi', List.forall₂_iff_get.mp hsame |>.2 i hi hi'⟩

/-! ### All types -/

/-- What is relied on for a tree: its parts can be emitted and loaded, and the texts of numbers
among them are emitted as they are and converted back. -/
structure Faithful (lib : Library) (toText : CInt → List Char)
    (fromText : List Char → Option CInt) (n : Node) : Prop where
  load : ∀ m ∈ n.subtrees, lib.load (lib.emit (some m)) = some m
  emit : ∀ i, .scalar (toText i) ∈ n.subtrees → lib.emit (some (.scalar (toText i))) = toText i
  convert : ∀ i, .scalar (toText i) ∈ n.subtrees → fromText (toText i) = some i

variable {toText : CInt → List Char} {fromText : List Char → Option CInt}

lemma Faithful.item {items : List Node} (h : Faithful lib toText fromText (.sequence items))
    {n : Node} (hn : n ∈ items) : Faithful lib toText fromText n :=
  ⟨fun m hm => h.load m (mem_subtrees_sequence hn hm),
    fun i hi => h.emit i (mem_subtrees_sequence hn hi),
    fun i hi => h.convert i (mem_subtrees_sequence hn hi)⟩

lemma Faithful.value {l : List (List Char × α)} (h : Faithful lib toText fromText (mapTree tree l))
    {p : List Char × α} (hp : p ∈ l) : Faithful lib toText fromText (tree p.2) := by
  have hmem := List.mem_map_of_mem (f := fun p : List Char × α => (Node.scalar p.1, tree p.2)) hp
  exact ⟨fun m hm => h.load m (mem_subtrees_map hmem hm),
    fun i hi => h.emit i (mem_subtrees_map hmem hi),
    fun i hi => h.convert i (mem_subtrees_map hmem hi)⟩

lemma Faithful.self {n : Node} (h : Faithful lib toText fromText n) :
    lib.load (lib.emit (some n)) = some n :=
  h.load n n.self_mem_subtrees

lemma castInt_survives (i : CInt) (h : Faithful lib toText fromText (.scalar (toText i))) :
    Survives lib (castInt toText fromText) Eq (.scalar (toText i)) i := by
  have hemit := h.emit i (Node.self_mem_subtrees _)
  have hconvert := h.convert i (Node.self_mem_subtrees _)
  exact ⟨by rw [hemit]; rfl, h.self, i, by rw [hemit]; exact hconvert, rfl⟩

/-- **A value of an ordered type comes back.** -/
lemma OTy.survives (t : OTy) (v : t.Val) (h : Faithful lib toText fromText (t.tree toText v)) :
    Survives lib (t.cast lib toText fromText) Eq (t.tree toText v) v := by
  induction t with
  | int => exact castInt_survives v h
  | vector t ih =>
    have hitems := castVector_survives (fun x hx => ih x (h.item (List.mem_map_of_mem hx))) h.self
    refine hitems.mono fun w hw => ?_
    rwa [List.forall₂_eq_eq_eq] at hw
  | list t ih =>
    have hitems := castList_survives (fun x hx => ih x (h.item (List.mem_map_of_mem hx))) h.self
    refine hitems.mono fun w hw => ?_
    rwa [List.forall₂_eq_eq_eq] at hw
  | set t ih =>
    exact castSet_survives (fun x hx => ih x (h.item (List.mem_map_of_mem hx))) h.self
  | map t ih =>
    have hentries := castMap_survives (fun p hp => ih p.2 (h.value hp)) h.self
    refine hentries.mono fun w hw => ?_
    have hsame : SameEntry (Eq (α := t.Val)) = Eq := by
      funext p q
      exact propext ⟨fun h => Prod.ext h.1 h.2, fun h => h ▸ ⟨rfl, rfl⟩⟩
    rw [hsame, List.forall₂_eq_eq_eq] at hw
    exact StdMap.entries_injective (congrArg _ hw)

/-- **A value of any type comes back as an equal one.** -/
lemma Ty.survives (hash : Hashing) (t : Ty) (v : t.Val)
    (h : Faithful lib toText fromText (t.tree toText v)) :
    Survives lib (t.cast hash lib toText fromText) t.Eqv (t.tree toText v) v := by
  induction t with
  | ordered t => exact t.survives v h
  | vector t ih =>
    exact castVector_survives (fun x hx => ih x (h.item (List.mem_map_of_mem hx))) h.self
  | list t ih =>
    exact castList_survives (fun x hx => ih x (h.item (List.mem_map_of_mem hx))) h.self
  | unorderedSet =>
    exact castUnorderedSet_survives hash
      (fun x hx => castInt_survives x (h.item (List.mem_map_of_mem hx))) h.self
  | map t ih => exact castMap_survives (fun p hp => ih p.2 (h.value hp)) h.self
  | unorderedMap t ih =>
    exact castUnorderedMap_survives hash (fun p hp => ih p.2 (h.value hp)) h.self

/-- **A container survives its text form.** -/
theorem fromStr_toStr (hash : Hashing) (lib : Library) (toText : CInt → List Char)
    (fromText : List Char → Option CInt) (t : Ty) (v : t.Val)
    (h : Faithful lib toText fromText (t.tree toText v)) :
    ∃ text w, (t.cast hash lib toText fromText).toStr v = some text ∧
      (t.cast hash lib toText fromText).fromStr text = some w ∧ t.Eqv w v := by
  obtain ⟨htext, -, w, hw, heqv⟩ := t.survives hash v h
  exact ⟨_, w, htext, hw, heqv⟩

/-- The texts of the map from `a` to the vector of the number 5, and of its parts. -/
def fiveLibrary : Library where
  load v :=
    if v = ['5'] then some (.scalar ['5'])
    else if v = ['-', ' ', '5'] then some (.sequence [.scalar ['5']])
    else if v = ['a', ':', '\n', ' ', ' ', '-', ' ', '5'] then
      some (.map [(.scalar ['a'], .sequence [.scalar ['5']])])
    else none
  emit
    | some (.scalar text) => text
    | some (.sequence _) => ['-', ' ', '5']
    | some (.map _) => ['a', ':', '\n', ' ', ' ', '-', ' ', '5']
    | _ => []
  index _ := none

def five : CInt := ⟨5, by decide⟩

/-- The map from `a` to the vector of the number 5 survives. -/
theorem fromStr_toStr_five :
    let toText : CInt → List Char := fun i => if i = five then ['5'] else []
    let fromText : List Char → Option CInt := fun v => if v = ['5'] then some five else none
    let t : Ty := .unorderedMap (.vector (.ordered .int))
    let v : t.Val := ⟨[(['a'], [five])], by simp⟩
    ∃ text w, (t.cast ⟨List.cons, fun _ _ => .rfl⟩ fiveLibrary toText fromText).toStr v =
        some text ∧
      (t.cast ⟨List.cons, fun _ _ => .rfl⟩ fiveLibrary toText fromText).fromStr text = some w ∧
      t.Eqv w v := by
  intro toText fromText t v
  have hfive : ∀ i, toText i ≠ [] → i = five := by
    intro i hi
    by_contra hne
    exact hi (if_neg hne)
  have htree : (t.tree toText v).subtrees =
      [.map [(.scalar ['a'], .sequence [.scalar ['5']])], .sequence [.scalar ['5']],
        .scalar ['5']] := by
    rfl
  apply fromStr_toStr
  constructor
  · intro m hm
    rw [htree] at hm
    simp only [List.mem_cons, List.not_mem_nil, or_false] at hm
    rcases hm with rfl | rfl | rfl <;> rfl
  · intro i _
    rfl
  · intro i hi
    rw [htree] at hi
    obtain rfl := hfive i (by rintro heq; simp [heq] at hi)
    rfl

end Sylar.LexicalCast
