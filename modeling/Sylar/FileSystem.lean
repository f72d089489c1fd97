import Mathlib.Data.List.Dedup
import Mathlib.Data.List.Infix
import Mathlib.Tactic.Common

/-!
A file system, and the calls that `FSUtil` makes of it.

A place is what a name of the file system stands for when the links before its last part have been
resolved. What the process is permitted to do is a parameter.
-/

namespace Sylar.FileSystem

abbrev Name := List Char

abbrev Place := List Name

inductive Kind
  | reg
  | dir
  | lnk (target : Place)
  | fifo
  | sock
  | chr
  | blk
  deriving DecidableEq

def Kind.bits : Kind → BitVec 16
  | reg => 0o100000
  | dir => 0o040000
  | lnk _ => 0o120000
  | fifo => 0o010000
  | sock => 0o140000
  | chr => 0o020000
  | blk => 0o060000

def S_IFDIR : BitVec 16 := 0o040000

/-- An inode. -/
structure Obj where
  kind : Kind
  perm : BitVec 12
  ino : ℕ
  deriving DecidableEq

def Obj.st_mode (o : Obj) : BitVec 16 := o.kind.bits ||| o.perm.setWidth 16

def dot (n : Name) : Prop := n = ".".toList ∨ n = "..".toList

instance (n : Name) : Decidable (dot n) := inferInstanceAs (Decidable (_ ∨ _))

/-- What stands at each place. Finitely many places are taken, all of them in directories. -/
structure Fs where
  obj : Place → Option Obj
  keys : List Place
  mem_keys : ∀ p, obj p ≠ none → p ∈ keys
  parent : ∀ p n, obj (p ++ [n]) ≠ none → ∃ o, obj p = some o ∧ o.kind = .dir
  dots : ∀ p n, dot n → obj (p ++ [n]) = none

/-- What is permitted. A name can be removed or replaced only where it can be looked up. -/
structure Kernel where
  sees : Place → Bool
  opens : Place → Bool
  removes : Place → Bool
  renames : Place → Place → Bool
  sees_of_removes : ∀ p, removes p = true → sees p = true
  sees_of_renames : ∀ p q, renames p q = true → sees q = true

namespace Fs

variable (fs : Fs)

def IsDir (p : Place) : Prop := ∃ o, fs.obj p = some o ∧ o.kind = .dir

/-- Something that is not a directory. -/
def IsFile (p : Place) : Prop := ∃ o, fs.obj p = some o ∧ o.kind ≠ .dir

instance (p : Place) : Decidable (fs.IsDir p) :=
  match h : fs.obj p with
  | some o => decidable_of_iff (o.kind = .dir) (by simp [IsDir, h])
  | none => isFalse (by simp [IsDir, h])

instance (p : Place) : Decidable (fs.IsFile p) :=
  match h : fs.obj p with
  | some o => decidable_of_iff (o.kind ≠ .dir) (by simp [IsFile, h])
  | none => isFalse (by simp [IsFile, h])

def nameIn (p q : Place) : Option Name := q.getLast?.filter fun n => q = p ++ [n]

def children (p : Place) : List Name :=
  ((fs.keys.filter fun q => (fs.obj q).isSome).filterMap (nameIn p)).dedup

def readdir (p : Place) : List Name := ".".toList :: "..".toList :: fs.children p

/-- Without the places of `P`, and so without all that is below them. -/
def without (P : Place → Prop) [DecidablePred P] (h : ∀ q n, P q → P (q ++ [n])) : Fs where
  obj q := if P q then none else fs.obj q
  keys := fs.keys
  mem_keys q hq := fs.mem_keys q fun hnone => hq (by simp [hnone])
  parent q n hq := by
    have hP : ¬P (q ++ [n]) := fun hP => hq (if_pos hP)
    rw [if_neg hP] at hq
    rw [if_neg fun hP' => hP (h q n hP')]
    exact fs.parent q n hq
  dots q n hn := by simp [fs.dots q n hn]

/-- A place with nothing below it becomes free. -/
def erase (p : Place) (h : ∀ n, fs.obj (p ++ [n]) = none) : Fs where
  obj q := if q = p then none else fs.obj q
  keys := fs.keys
  mem_keys q hq := fs.mem_keys q fun hnone => hq (by simp [hnone])
  parent q n hq := by
    have hobj : fs.obj (q ++ [n]) ≠ none := fun hnone => hq (by simp [hnone])
    have hne : q ≠ p := by
      rintro rfl
      exact hobj (h n)
    rw [if_neg hne]
    exact fs.parent q n hobj
  dots q n hn := by simp [fs.dots q n hn]

/-- `dst` is a name in a directory, and neither place is on the way to the other. -/
structure Movable (src dst : Place) : Prop where
  src_dst : ¬src <+: dst
  dst_src : ¬dst <+: src
  ne_nil : dst ≠ []
  name : ∀ n ∈ dst.getLast?, ¬dot n
  parent : fs.IsDir dst.dropLast

instance (src dst : Place) : Decidable (fs.Movable src dst) :=
  decidable_of_iff (¬src <+: dst ∧ ¬dst <+: src ∧ dst ≠ [] ∧ (∀ n ∈ dst.getLast?, ¬dot n) ∧
      fs.IsDir dst.dropLast)
    ⟨fun ⟨h1, h2, h3, h4, h5⟩ => ⟨h1, h2, h3, h4, h5⟩, fun h => ⟨h.1, h.2, h.3, h.4, h.5⟩⟩

/-- Everything below `src` comes to stand below `dst`, in place of what stood there. -/
def move (src dst : Place) (h : fs.Movable src dst) : Fs where
  obj q :=
    if dst <+: q then fs.obj (src ++ q.drop dst.length)
    else if src <+: q then none else fs.obj q
  keys := fs.keys ++ fs.keys.map fun q => dst ++ q.drop src.length
  mem_keys q hq := by
    split at hq
    case isTrue hdst =>
      obtain ⟨s, rfl⟩ := hdst
      rw [List.drop_left] at hq
      refine List.mem_append_right _ (List.mem_map.2 ⟨src ++ s, fs.mem_keys _ hq, ?_⟩)
      rw [List.drop_left]
    case isFalse =>
      refine List.mem_append_left _ (fs.mem_keys q fun hnone => hq ?_)
      rw [hnone, ite_self]
  parent q n hq := by
    by_cases hdst : dst <+: q
    · obtain ⟨s, rfl⟩ := hdst
      rw [List.append_assoc, if_pos (List.prefix_append _ _), List.drop_left,
        ← List.append_assoc] at hq
      rw [if_pos (List.prefix_append _ _), List.drop_left]
      exact fs.parent _ n hq
    · rw [if_neg hdst]
      have hdir : fs.IsDir q ∧ ¬src <+: q := by
        by_cases hchild : dst <+: q ++ [n]
        · have hself := (List.prefix_concat_iff.1 hchild).resolve_right hdst
          have hparent := h.parent
          rw [hself, List.dropLast_concat] at hparent
          exact ⟨hparent, fun hsrc => h.src_dst (hsrc.trans (hself ▸ List.prefix_append q [n]))⟩
        · rw [if_neg hchild] at hq
          split at hq
          case isTrue => exact absurd rfl hq
          case isFalse hsrc =>
            exact ⟨fs.parent q n hq, fun h => hsrc (h.trans (List.prefix_append q [n]))⟩
      rw [if_neg hdir.2]
      exact hdir.1
  dots q n hn := by
    by_cases hdst : dst <+: q
    · obtain ⟨s, rfl⟩ := hdst
      rw [List.append_assoc, if_pos (List.prefix_append _ _), List.drop_left, ← List.append_assoc]
      exact fs.dots _ n hn
    · rw [if_neg, fs.dots q n hn, ite_self]
      intro hchild
      have hself := (List.prefix_concat_iff.1 hchild).resolve_right hdst
      exact h.name n (by simp [hself]) hn

def single (n : Name) (hn : ¬dot n) (o : Obj) : Fs where
  obj p := if p = [] then some ⟨.dir, 0o755, 2⟩ else if p = [n] then some o else none
  keys := [[], [n]]
  mem_keys p hp := by
    by_contra hmem
    rw [List.mem_cons, List.mem_singleton, not_or] at hmem
    exact hp (by rw [if_neg hmem.1, if_neg hmem.2])
  parent p m hp := by
    cases p with
    | nil => exact ⟨_, rfl, rfl⟩
    | cons c p => simp at hp
  dots p m hm := by
    cases p with
    | nil =>
      have hne : m ≠ n := by
        rintro rfl
        exact hn hm
      simp [hne]
    | cons c p => simp

variable {fs}

lemma children_none_of_not_dir {p : Place} (h : ¬fs.IsDir p) (n : Name) :
    fs.obj (p ++ [n]) = none := by
  by_contra hne
  exact h (fs.parent p n hne)

lemma not_isDir_of_isFile {p : Place} (h : fs.IsFile p) : ¬fs.IsDir p := by
  obtain ⟨o, ho, hkind⟩ := h
  rintro ⟨o', ho', hkind'⟩
  rw [ho, Option.some.injEq] at ho'
  exact hkind (ho' ▸ hkind')

lemma mem_children {p : Place} {n : Name} : n ∈ fs.children p ↔ fs.obj (p ++ [n]) ≠ none := by
  rw [children, List.mem_dedup, List.mem_filterMap]
  constructor
  · rintro ⟨q, hq, hn⟩
    obtain ⟨-, heq⟩ := Option.filter_eq_some_iff.1 hn
    rw [← of_decide_eq_true heq]
    exact Option.isSome_iff_ne_none.1 (List.mem_filter.1 hq).2
  · intro h
    have hmem : p ++ [n] ∈ fs.keys.filter fun q => (fs.obj q).isSome :=
      List.mem_filter.2 ⟨fs.mem_keys _ h, Option.isSome_iff_ne_none.2 h⟩
    exact ⟨p ++ [n], hmem, by simp [nameIn]⟩

lemma mem_readdir {p : Place} {n : Name} :
    n ∈ fs.readdir p ↔ dot n ∨ fs.obj (p ++ [n]) ≠ none := by
  rw [readdir, List.mem_cons, List.mem_cons, mem_children, dot, or_assoc]

lemma nodup_readdir (p : Place) : (fs.readdir p).Nodup := by
  have hchild : ∀ n, dot n → n ∉ fs.children p := fun n hn hmem =>
    mem_children.1 hmem (fs.dots p n hn)
  refine List.nodup_cons.2 ⟨?_, List.nodup_cons.2 ⟨hchild _ (Or.inr rfl), List.nodup_dedup _⟩⟩
  rw [List.mem_cons, not_or]
  exact ⟨by decide, hchild _ (Or.inl rfl)⟩

/-- Below a free place, or below a file, there is nothing. -/
lemma obj_below {p q : Place} (hp : ¬fs.IsDir p) (hpq : p <+: q) (hne : p ≠ q) :
    fs.obj q = none := by
  obtain ⟨s, rfl⟩ := hpq
  induction s using List.reverseRecOn with
  | nil => exact absurd (List.append_nil p).symm hne
  | append_singleton s n ih =>
    rw [← List.append_assoc]
    refine children_none_of_not_dir ?_ n
    by_cases hs : s = []
    · rwa [hs, List.append_nil]
    · have hnone := ih (by simpa using hs)
      rintro ⟨o, ho, -⟩
      rw [hnone] at ho
      cases ho

lemma none_below {p q : Place} (h : fs.obj p = none) (hpq : p <+: q) : fs.obj q = none := by
  by_cases hne : p = q
  · rwa [← hne]
  · refine obj_below ?_ hpq hne
    rintro ⟨o, ho, -⟩
    rw [h] at ho
    cases ho

end Fs

/-! ### The calls -/

namespace Kernel

variable (k : Kernel) (fs : Fs)

def lstat (p : Place) : Option (BitVec 16) :=
  if k.sees p then (fs.obj p).map Obj.st_mode else none

def unlink (p : Place) : Bool × Fs :=
  if h : k.removes p ∧ fs.IsFile p then
    (true, fs.erase p (Fs.children_none_of_not_dir (Fs.not_isDir_of_isFile h.2)))
  else (false, fs)

def rmdir (p : Place) : Bool × Fs :=
  if h : k.removes p ∧ fs.IsDir p ∧ fs.children p = [] then
    (true, fs.erase p fun n => by
      by_contra hne
      exact List.not_mem_nil (h.2.2 ▸ Fs.mem_children.2 hne))
  else (false, fs)

/-- What stands at `dst` can be replaced by what stands at `src`. -/
def Replaceable (src dst : Place) : Prop :=
  fs.obj dst = none ∨ fs.IsFile src ∧ fs.IsFile dst ∨
    fs.IsDir src ∧ fs.IsDir dst ∧ fs.children dst = []

instance (src dst : Place) : Decidable (Replaceable fs src dst) :=
  inferInstanceAs (Decidable (_ ∨ _ ∨ _))

/-- `rename` does nothing where both names stand for one inode. -/
def rename (src dst : Place) : Bool × Fs :=
  if k.renames src dst ∧ fs.obj src ≠ none then
    if (fs.obj src).map Obj.ino = (fs.obj dst).map Obj.ino then (true, fs)
    else if h : fs.Movable src dst ∧ Replaceable fs src dst then (true, fs.move src dst h.1)
    else (false, fs)
  else (false, fs)

variable {k fs} {p : Place}

lemma lstat_eq_none_iff : k.lstat fs p = none ↔ fs.obj p = none ∨ k.sees p = false := by
  unfold lstat
  cases k.sees p <;> simp

lemma lstat_eq_some {st_mode : BitVec 16} (h : k.lstat fs p = some st_mode) :
    k.sees p = true ∧ ∃ o, fs.obj p = some o ∧ o.st_mode = st_mode := by
  unfold lstat at h
  split at h
  case isTrue hsees => exact ⟨hsees, Option.map_eq_some_iff.1 h⟩
  case isFalse => cases h

lemma unlink_fst : (k.unlink fs p).1 = true ↔ k.removes p ∧ fs.IsFile p := by
  unfold unlink
  split
  case isTrue h => exact iff_of_true rfl h
  case isFalse h => exact iff_of_false Bool.false_ne_true h

lemma unlink_obj (q : Place) : (k.unlink fs p).2.obj q =
    if q = p ∧ (k.unlink fs p).1 = true then none else fs.obj q := by
  unfold unlink
  split <;> simp [Fs.erase]

lemma rmdir_fst :
    (k.rmdir fs p).1 = true ↔ k.removes p ∧ fs.IsDir p ∧ ∀ n, fs.obj (p ++ [n]) = none := by
  have hempty : fs.children p = [] ↔ ∀ n, fs.obj (p ++ [n]) = none := by
    rw [List.eq_nil_iff_forall_not_mem]
    exact forall_congr' fun n => by rw [Fs.mem_children, not_not]
  rw [← hempty]
  unfold rmdir
  split
  case isTrue h => exact iff_of_true rfl h
  case isFalse h => exact iff_of_false Bool.false_ne_true h

lemma rmdir_obj (q : Place) : (k.rmdir fs p).2.obj q =
    if q = p ∧ (k.rmdir fs p).1 = true then none else fs.obj q := by
  unfold rmdir
  split <;> simp [Fs.erase]

variable {src dst : Place}

lemma rename_free (hdst : fs.obj dst = none) :
    ((k.rename fs src dst).1 = true ↔
      k.renames src dst = true ∧ fs.obj src ≠ none ∧ fs.Movable src dst) ∧
    ((k.rename fs src dst).1 = true → ∀ q, (k.rename fs src dst).2.obj q =
      if dst <+: q then fs.obj (src ++ q.drop dst.length)
      else if src <+: q then none else fs.obj q) := by
  unfold rename
  by_cases hperm : k.renames src dst = true ∧ fs.obj src ≠ none
  · have hino : ¬(fs.obj src).map Obj.ino = (fs.obj dst).map Obj.ino := by
      rw [hdst, Option.map_none, Option.map_eq_none_iff]
      exact hperm.2
    rw [if_pos hperm, if_neg hino]
    by_cases hmove : fs.Movable src dst
    · rw [dif_pos ⟨hmove, Or.inl hdst⟩]
      exact ⟨iff_of_true rfl ⟨hperm.1, hperm.2, hmove⟩, fun _ _ => rfl⟩
    · rw [dif_neg fun h => hmove h.1]
      exact ⟨iff_of_false Bool.false_ne_true fun h => hmove h.2.2, fun h => by cases h⟩
  · rw [if_neg hperm]
    exact ⟨iff_of_false Bool.false_ne_true fun h => hperm ⟨h.1, h.2.1⟩, fun h => by cases h⟩

end Kernel

/-- The bit of a directory is set for sockets and block devices, too. -/
lemma mode_dir_iff (o : Obj) :
    o.st_mode &&& S_IFDIR ≠ 0 ↔ o.kind = .dir ∨ o.kind = .sock ∨ o.kind = .blk := by
  have hbit : S_IFDIR = BitVec.twoPow 16 14 := rfl
  have hmode : o.st_mode.getLsbD 14 = o.kind.bits.getLsbD 14 := by simp [Obj.st_mode]
  rw [hbit, BitVec.and_twoPow, hmode]
  cases o.kind <;> simp [Kind.bits] <;> decide

end Sylar.FileSystem
