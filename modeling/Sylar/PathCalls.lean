import Sylar.PathWalk

/-!
The calls that get the text of a path and do not follow its last name.

Each call resolves the text anew. What is permitted is told by places; a place whose path is too
long or leads through a directory that cannot be searched is one that cannot be looked up.
-/

namespace Sylar.PathCalls

open Sylar.FileSystem Sylar.PathWalk

def Below (p q : Place) : Prop := p <+: q ∧ q ≠ p

instance (p q : Place) : Decidable (Below p q) := inferInstanceAs (Decidable (_ ∧ _))

/-- `p` with nothing below it. -/
def prune (fs : Fs) (p : Place) : Fs := fs.without (Below p) fun q n hq => by
  refine ⟨hq.1.trans (List.prefix_append q [n]), fun heq => ?_⟩
  have hlen := hq.1.length_le
  rw [← heq, List.length_append, List.length_singleton] at hlen
  omega

/-- Without `p` and what is below it. -/
def cut (fs : Fs) (p : Place) : Fs :=
  fs.without (p <+: ·) fun q n hq => hq.trans (List.prefix_append q [n])

lemma without_extends (fs : Fs) (P : Place → Prop) [DecidablePred P]
    (h : ∀ q n, P q → P (q ++ [n])) : Extends (fs.without P h) fs := by
  intro q o ho
  by_cases hq : P q
  · exact absurd (ho.symm.trans (if_pos hq)) (Option.some_ne_none o)
  · exact (if_neg hq).symm.trans ho

lemma cut_extends (fs : Fs) (p : Place) : Extends (cut fs p) fs := without_extends fs _ _

lemma cut_extends_prune (fs : Fs) (p : Place) : Extends (cut fs p) (prune fs p) := by
  intro q o ho
  by_cases hq : p <+: q
  · exact absurd (ho.symm.trans (if_pos hq)) (Option.some_ne_none o)
  · exact (if_neg fun hb => hq hb.1).trans (cut_extends fs p q o ho)

section Texts

variable (k : Kernel) (pr : Process) (fs : Fs) (path : Path)

/-- The place of the last name in its directory. There is none for a dot. -/
def entry : Option Place :=
  match (names path).getLast?, pr.dirOf fs path with
  | some n, some d => if fs.IsDir d ∧ ¬dot n then some (d ++ [n]) else none
  | _, _ => none

/-- The last name is followed: there is a slash or a dot behind it. -/
def Follows : Prop := Slashed path ∨ ∃ n ∈ (names path).getLast?, dot n

instance : Decidable (Follows path) := inferInstanceAs (Decidable (_ ∨ _))

/-- The place that `lstat` looks at. -/
def target : Option Place := if Follows path then pr.place fs path else entry pr fs path

def lstat : Option (BitVec 16) := (target pr fs path).bind (k.lstat fs)

def opendir : Option Place :=
  (pr.place fs path).filter fun d => fs.IsDir d ∧ k.opens d = true

/-- A name with a slash behind it is not unlinked. -/
def unlink : Bool × Fs :=
  match entry pr fs path with
  | some p => if Slashed path then (false, fs) else k.unlink fs p
  | none => (false, fs)

def rmdir : Bool × Fs :=
  match entry pr fs path with
  | some p => k.rmdir fs p
  | none => (false, fs)

/-- `rename(from, to)`. A slash at the end of a path asks for directories. -/
def rename (path' : Path) : Bool × Fs :=
  match entry pr fs path, entry pr fs path' with
  | some src, some dst =>
    if (Slashed path ∨ Slashed path' → fs.IsDir src) ∧ (Slashed path' → ¬fs.IsFile dst) then
      k.rename fs src dst
    else (false, fs)
  | _, _ => (false, fs)

end Texts

/-! ### The way to a place -/

variable {pr : Process} {fs fs' : Fs} {path : Path} {p q d : Place} {n : Name} {o : Obj}

lemma entry_eq_some : entry pr fs path = some p ↔ ∃ n d r, (names path).getLast? = some n ∧
    walk fs pr.links (pr.start path) (names path).dropLast = some (r, d) ∧ fs.IsDir d ∧ ¬dot n ∧
      p = d ++ [n] := by
  unfold entry
  constructor
  · intro h
    split at h
    case h_1 n d hn hd =>
      obtain ⟨⟨r, d⟩, hwalk, rfl⟩ := Option.map_eq_some_iff.1 hd
      split at h
      case isTrue hdir => exact ⟨n, d, r, hn, hwalk, hdir.1, hdir.2, (Option.some.inj h).symm⟩
      case isFalse => cases h
    case h_2 => cases h
  · rintro ⟨n, d, r, hn, hwalk, hdir, hdot, rfl⟩
    rw [hn, Process.dirOf, hwalk, Option.map_some]
    exact if_pos ⟨hdir, hdot⟩

lemma entry_extends (h : Extends fs fs') (he : entry pr fs path = some p) :
    entry pr fs' path = some p := by
  obtain ⟨n, d, r, hn, hwalk, hdir, hdot, hp⟩ := entry_eq_some.1 he
  exact entry_eq_some.2 ⟨n, d, r, hn, walk_extends h hwalk, h.isDir hdir, hdot, hp⟩

/-- The last name of a path that has an entry is not followed, but for a slash behind it. -/
lemma target_of_entry (he : entry pr fs path = some p) (hslash : ¬Slashed path) :
    target pr fs path = some p := by
  obtain ⟨n, d, r, hn, -, -, hdot, -⟩ := entry_eq_some.1 he
  refine (if_neg ?_).trans he
  rintro (hs | ⟨m, hm, hmdot⟩)
  · exact hslash hs
  · obtain rfl : n = m := Option.some.inj (hn.symm.trans hm)
    exact hdot hmdot

lemma walk_of_entry (he : entry pr fs path = some p) (hdir : fs.IsDir p) :
    ∃ r, walk fs pr.links (pr.start path) (names path) = some (r, p) := by
  obtain ⟨n, d, r, hn, hwalk, hd, hdot, rfl⟩ := entry_eq_some.1 he
  obtain ⟨o, ho, hkind⟩ := hdir
  have hname : (fs.obj (d ++ [n])).map Obj.kind = some .dir := by rw [ho, Option.map_some, hkind]
  refine ⟨r, ?_⟩
  rw [← List.dropLast_append_getLast? n hn, walk_append, hwalk]
  exact walk_name hd hdot hname nofun

/-- What stands behind a slash, or behind a dot, is a directory. -/
lemma walk_of_place (hslash : Slashed path) (h : pr.place fs path = some p) :
    fs.IsDir p ∧ ∃ r, walk fs pr.links (pr.start path) (names path) = some (r, p) := by
  obtain ⟨⟨r, p⟩, hwalk, rfl⟩ := Option.map_eq_some_iff.1 h
  rw [steps, if_pos hslash, walk_append] at hwalk
  obtain ⟨⟨m, d⟩, hd, hlast⟩ := Option.bind_eq_some_iff.1 hwalk
  have hdir : fs.IsDir d := isDir_of_walk (List.cons_ne_nil _ _) (by rw [hlast]; simp)
  rw [walk_dot hdir] at hlast
  cases hlast
  exact ⟨hdir, m, hd⟩

/-- A path with an entry that is a directory stands for it. -/
lemma target_of_dir (he : entry pr fs path = some p) (hdir : fs.IsDir p) :
    target pr fs path = some p ∧ pr.place fs path = some p := by
  obtain ⟨r, hwalk⟩ := walk_of_entry he hdir
  have hplace : pr.place fs path = some p := by
    rw [Process.place, steps, walk_append, hwalk, Option.bind_some]
    split
    case isTrue => rw [walk_dot hdir, Option.map_some]
    case isFalse => cases r <;> rfl
  refine ⟨?_, hplace⟩
  unfold target
  split
  case isTrue => exact hplace
  case isFalse => exact he

lemma place_of_target (h : target pr fs path = some p) (ho : fs.obj p = some o)
    (hlnk : ∀ link, o.kind ≠ .lnk link) : pr.place fs path = some p := by
  unfold target at h
  split at h
  case isTrue => exact h
  case isFalse hnot =>
    obtain ⟨n, d, r, hn, hwalk, hdir, hdot, rfl⟩ := entry_eq_some.1 h
    have hslash : ¬Slashed path := fun hs => hnot (Or.inl hs)
    have hname := walk_name (n := r) hdir hdot (by rw [ho, Option.map_some]) hlnk
    rw [Process.place, steps, if_neg hslash, List.append_nil, ← List.dropLast_append_getLast? n hn,
      walk_append, hwalk, Option.bind_some, hname, Option.map_some]

lemma not_slashed_of_target (h : target pr fs path = some p) (hdir : ¬fs.IsDir p) :
    ¬Slashed path := fun hslash =>
  hdir (walk_of_place hslash ((if_pos (Or.inl hslash)).symm.trans h)).1

/-! ### The calls at a place -/

section Calls

variable {k : Kernel}

lemma lstat_eq (h : target pr fs path = some p) : lstat k pr fs path = k.lstat fs p := by
  rw [lstat, h, Option.bind_some]

lemma opendir_eq (h : target pr fs path = some p) (ho : fs.obj p = some o)
    (hlnk : ∀ link, o.kind ≠ .lnk link) :
    opendir k pr fs path = if o.kind = .dir ∧ k.opens p = true then some p else none := by
  have hdir : fs.IsDir p ↔ o.kind = .dir := by simp [Fs.IsDir, ho]
  rw [opendir, place_of_target h ho hlnk]
  by_cases hopens : o.kind = .dir ∧ k.opens p = true
  · rw [if_pos hopens]
    exact Option.filter_some_pos (by simp [hdir, hopens])
  · rw [if_neg hopens]
    exact Option.filter_some_neg (by simpa [hdir] using hopens)

lemma unlink_eq (he : entry pr fs path = some p) (hslash : ¬Slashed path) :
    unlink k pr fs path = k.unlink fs p := by
  rw [unlink, he]
  exact if_neg hslash

lemma rmdir_eq (he : entry pr fs path = some p) : rmdir k pr fs path = k.rmdir fs p := by
  rw [rmdir, he]

end Calls

/-- A path with an entry where something stands has it as its target, unless it is a link that the
slash behind it makes the kernel follow. -/
lemma target_of_there (he : entry pr fs path = some p) (hp : fs.obj p ≠ none)
    (hfile : Slashed path → ¬fs.IsFile p) : target pr fs path = some p := by
  by_cases hslash : Slashed path
  · obtain ⟨o, ho⟩ := Option.ne_none_iff_exists'.1 hp
    have hdir : fs.IsDir p := by
      by_contra hno
      exact hfile hslash ⟨o, ho, fun hkind => hno ⟨o, ho, hkind⟩⟩
    exact (target_of_dir he hdir).1
  · exact target_of_entry he hslash

/-- A path with an entry where nothing stands leads nowhere else. -/
lemma target_of_free (he : entry pr fs path = some p) (hp : fs.obj p = none)
    (ht : target pr fs path = some q) : q = p := by
  by_cases hslash : Slashed path
  · have hplace : pr.place fs path = some q := (if_pos (Or.inl hslash)).symm.trans ht
    obtain ⟨-, r, hwalk⟩ := walk_of_place hslash hplace
    obtain ⟨n, d, r', hn, hd, -, hdot, rfl⟩ := entry_eq_some.1 he
    rw [← List.dropLast_append_getLast? n hn, walk_append, hd, Option.bind_some] at hwalk
    have hhas : Has fs d n := has_of_walk (by rw [hwalk]; exact Option.some_ne_none _)
    exact absurd hp (hhas.2.resolve_left hdot)
  · exact Option.some.inj (ht.symm.trans (target_of_entry he hslash))

lemma ne_nil_of_target (h : target pr fs path = some p) : path ≠ [] := by
  rintro rfl
  have hnot : ¬Follows [] := by decide
  rw [target, if_neg hnot] at h
  cases h

/-! ### The names in a directory -/

def Proper (n : Name) : Prop := ¬dot n ∧ n ≠ [] ∧ '/' ∉ n

instance (n : Name) : Decidable (Proper n) := inferInstanceAs (Decidable (_ ∧ _))

lemma names_child (hn : Proper n) (path : Path) : names (path ++ '/' :: n) = names path ++ [n] := by
  rw [names_append, names_of_not_mem hn.2.1 hn.2.2]

lemma not_follows_child (hn : Proper n) (path : Path) : ¬Follows (path ++ '/' :: n) := by
  rintro (hs | ⟨m, hm, hdot⟩)
  · rcases slashed_append.1 hs with h | h
    · exact hn.2.1 h
    · exact hn.2.2 (List.mem_of_getLast? h)
  · rw [names_child hn, List.getLast?_concat, Option.mem_some_iff] at hm
    exact hn.1 (hm ▸ hdot)

/-- The place of a name in the directory that a path leads to. -/
lemma entry_child (hpath : path ≠ []) (hn : Proper n) :
    entry pr fs (path ++ '/' :: n) = some q ↔
      ∃ r d, walk fs pr.links (pr.start path) (names path) = some (r, d) ∧ fs.IsDir d ∧
        q = d ++ [n] := by
  rw [entry_eq_some, names_child hn, List.getLast?_concat, List.dropLast_concat,
    Process.start_append hpath]
  constructor
  · rintro ⟨m, d, r, hm, hwalk, hdir, -, rfl⟩
    obtain rfl := Option.some.inj hm
    exact ⟨r, d, hwalk, hdir, rfl⟩
  · rintro ⟨r, d, hwalk, hdir, rfl⟩
    exact ⟨n, d, r, rfl, hwalk, hdir, hn.1, rfl⟩

lemma target_child (hn : Proper n) (path : Path) :
    target pr fs (path ++ '/' :: n) = entry pr fs (path ++ '/' :: n) :=
  if_neg (not_follows_child hn path)

def Named (fs : Fs) : Prop := ∀ p n, fs.obj (p ++ [n]) ≠ none → Proper n

lemma Named.smaller (h : Named fs) (hsmaller : Extends fs' fs) : Named fs' := by
  intro p n hp
  obtain ⟨o, ho⟩ := Option.ne_none_iff_exists'.1 hp
  exact h p n (by simp [hsmaller _ o ho])

/-- A file system whose names can stand in paths. -/
structure Disk extends Fs where
  named : Named toFs

def Disk.single (n : Name) (hn : Proper n) (o : Obj) : Disk where
  toFs := .single n hn.1 o
  named p m hp := by
    have hpm : p ++ [m] = [n] := by
      by_contra hne
      exact hp ((if_neg (by simp)).trans (if_neg hne))
    obtain ⟨-, hmn⟩ := List.append_inj' (hpm.trans (List.nil_append [n]).symm) rfl
    exact List.head_eq_of_cons_eq hmn ▸ hn

/-! ### Paths that keep their place -/

def Aside (p : Place) (fs fs' : Fs) : Prop := ∀ q, ¬Below p q → fs'.obj q = fs.obj q

lemma below_child (h : Below (p ++ [n]) q) : Below p q := by
  refine ⟨(List.prefix_append p [n]).trans h.1, ?_⟩
  rintro rfl
  have hlen := h.1.length_le
  rw [List.length_append, List.length_singleton] at hlen
  omega

lemma not_below_self (p : Place) : ¬Below p p := fun h => h.2 rfl

lemma not_below_parent (p : Place) (n : Name) : ¬Below (p ++ [n]) p := fun h =>
  not_below_self p (below_child h)

lemma Aside.isDir (h : Aside p fs fs') (hdir : fs.IsDir p) : fs'.IsDir p := by
  obtain ⟨o, ho, hkind⟩ := hdir
  exact ⟨o, (h p (not_below_self p)).trans ho, hkind⟩

lemma Aside.extends (h : Aside p fs fs') : Extends (prune fs p) fs' := by
  intro q o ho
  have hq : ¬Below p q := fun hb => by simp [prune, Fs.without, hb] at ho
  rw [h q hq, ← ho]
  exact (if_neg hq).symm

/-- The path leads to `p` whatever becomes of what is below. -/
def Steady (pr : Process) (fs : Fs) (path : Path) (p : Place) : Prop :=
  ∀ fs', Aside p fs fs' → entry pr fs' path = some p ∧ target pr fs' path = some p

/-- What is below a place is not needed on the way to it. -/
lemma steady_of_entry (he : entry pr (prune fs p) path = some p)
    (ht : target pr fs path = some p) : Steady pr fs path p := by
  intro fs' h
  have he' := entry_extends h.extends he
  refine ⟨he', ?_⟩
  by_cases hslash : Slashed path
  · have hplace : pr.place fs path = some p := (if_pos (Or.inl hslash)).symm.trans ht
    exact (target_of_dir he' (h.isDir (walk_of_place hslash hplace).1)).1
  · exact target_of_entry he' hslash

lemma Steady.child (h : Steady pr fs path p) (haside : Aside p fs fs') (hdir : fs'.IsDir p)
    (hn : Proper n) : Steady pr fs' (path ++ '/' :: n) (p ++ [n]) := by
  intro fs'' h''
  have haside'' : Aside p fs fs'' := fun q hq =>
    (h'' q fun hb => hq (below_child hb)).trans (haside q hq)
  obtain ⟨he, ht⟩ := h fs'' haside''
  obtain ⟨o, ho, hkind⟩ := hdir
  have hdir'' : fs''.IsDir p := ⟨o, (h'' p (not_below_parent p n)).trans ho, hkind⟩
  obtain ⟨r, hwalk⟩ := walk_of_entry he hdir''
  have hchild := (entry_child (ne_nil_of_target ht) hn).2 ⟨r, p, hwalk, hdir'', rfl⟩
  exact ⟨hchild, (target_child hn path).trans hchild⟩

end Sylar.PathCalls
