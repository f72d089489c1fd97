import Sylar.RemoveTree

/-!
`FSUtil::Mv`, which removes the destination first.
-/

namespace Sylar.MoveTree

open Sylar.FileSystem Sylar.PathWalk Sylar.PathCalls Sylar.RemoveTree

def FSUtil.Mv (k : Kernel) (pr : Process) (fs : Fs) (src dst : Path) : Option (Bool × Fs) :=
  (RemoveTree.FSUtil.Rm k pr fs dst).map fun r =>
    if r.1 then rename k pr r.2 src dst else (false, r.2)

/-- What a path denotes: what stands where it leads to, and below that. -/
def denotes (pr : Process) (fs : Fs) (path : Path) (s : Place) : Option Obj :=
  (target pr fs path).bind fun p => fs.obj (p ++ s)

/-- What `Mv` is to do. -/
structure Correct (pr : Process) (fs : Fs) (src dst : Path) (r : Bool × Fs) : Prop where
  failed : r.1 = false →
    denotes pr r.2 src = denotes pr fs src ∧ denotes pr r.2 dst = denotes pr fs dst
  moved : r.1 = true → denotes pr r.2 dst = denotes pr fs src

/-- Nothing at the destination or below it can be removed, but for an empty directory that its path
does not name. -/
def Untouched (k : Kernel) (pr : Process) (fs : Fs) (dst : Path) : Prop :=
  ∀ q s, target pr fs dst = some q → fs.obj s ≠ none → Gone k fs q s →
    s = q ∧ entry pr fs dst ≠ some q

/-- The destination `q` can be removed as a whole, and then `p` will be renamed to it. -/
structure Moves (k : Kernel) (pr : Process) (fs : Fs) (src dst : Path) (p q : Place) : Prop where
  /-- The ways to the two names do not lead through the destination. -/
  entry_src : entry pr (cut fs q) src = some p
  entry_dst : entry pr (cut fs q) dst = some q
  removable : Removable k fs q
  renames : k.renames p q = true
  there : fs.obj p ≠ none
  src_dst : ¬p <+: q
  dst_src : ¬q <+: p
  slash : Slashed src ∨ Slashed dst → fs.IsDir p
  file : Slashed dst → ¬fs.IsFile q

/-- Where something is moved, the way to the destination does not lead through it, either. Where
nothing is, nothing can be removed. -/
structure Cond (k : Kernel) (pr : Process) (fs : Fs) (src dst : Path) : Prop where
  moves : ∀ p q, Moves k pr fs src dst p q → entry pr (cut (cut fs q) p) dst = some q
  untouched : (∀ p q, ¬Moves k pr fs src dst p q) → Untouched k pr fs dst

variable {k : Kernel} {pr : Process} {fs fs' : Fs} {path src dst : Path} {p q : Place} {c : Name}

/-! ### Where nothing is removed -/

def Touched (fs fs' : Fs) : Prop := ∃ q, fs.obj q ≠ none ∧ fs'.obj q = none

lemma Touched.mono {fs'' : Fs} (h : Touched fs fs') (hsmaller : Extends fs'' fs') :
    Touched fs fs'' := by
  obtain ⟨q, hq, hnone⟩ := h
  refine ⟨q, hq, ?_⟩
  by_contra hne
  obtain ⟨o, ho⟩ := Option.ne_none_iff_exists'.1 hne
  rw [hsmaller q o ho] at hnone
  cases hnone

/-- What is left when the tree at `q` has gone. -/
structure Cleared (fs m : Fs) (q : Place) : Prop where
  free : m.obj q = none
  kept : ∀ s, ¬q <+: s → m.obj s = fs.obj s

lemma Cleared.cut_extends {m : Fs} (h : Cleared fs m q) : Extends (cut fs q) m := by
  intro s o ho
  have hs : ¬q <+: s := fun hqs => Option.some_ne_none o (ho.symm.trans (if_pos hqs))
  rw [h.kept s hs]
  exact PathCalls.cut_extends fs q s o ho

namespace Moves

lemma entries (h : Moves k pr fs src dst p q) :
    entry pr fs src = some p ∧ entry pr fs dst = some q :=
  ⟨entry_extends (cut_extends fs q) h.entry_src, entry_extends (cut_extends fs q) h.entry_dst⟩

lemma sees (h : Moves k pr fs src dst p q) : k.sees q = true := k.sees_of_renames p q h.renames

lemma removes {fs : Disk} (h : Moves k pr fs.toFs src dst p q) :
    ∃ r, RemoveTree.FSUtil.Rm k pr fs.toFs dst = some r ∧ r.1 = true ∧ Cleared fs.toFs r.2 q := by
  obtain ⟨-, he⟩ := h.entries
  by_cases hq : fs.obj q = none
  · have hst : lstat k pr fs.toFs dst = none := by
      rw [lstat, Option.bind_eq_none_iff]
      intro t ht
      rw [target_of_free he hq ht]
      exact Kernel.lstat_eq_none_iff.2 (Or.inl hq)
    exact ⟨_, Rm_absent hst, rfl, hq, fun _ _ => rfl⟩
  · have hsteady := steady_of_entry (entry_extends (cut_extends_prune _ _) h.entry_dst)
      (target_of_there he hq h.file)
    obtain ⟨r, hr, hspec⟩ := Rm_spec (k := k) fs hsteady
    exact ⟨r, hr, hspec.ret.2 (Or.inr (Or.inr h.removable)),
      hspec.gone q (gone_self_iff.2 ⟨h.sees, h.removable⟩),
      fun s hs => hspec.kept s fun hg => hs hg.1.below⟩

lemma renamed {m : Fs} (h : Moves k pr fs src dst p q) (hm : Cleared fs m q) :
    rename k pr m src dst = k.rename m p q ∧ (k.rename m p q).1 = true := by
  have hp : m.obj p = fs.obj p := hm.kept p h.dst_src
  have hdir : fs.IsDir p → m.IsDir p := fun ⟨o, ho, hkind⟩ => ⟨o, hp.trans ho, hkind⟩
  have hfile : ¬m.IsFile q := by
    rintro ⟨o, ho, -⟩
    rw [hm.free] at ho
    cases ho
  refine ⟨?_, ?_⟩
  · rw [rename, entry_extends hm.cut_extends h.entry_src, entry_extends hm.cut_extends h.entry_dst]
    exact if_pos ⟨fun hslash => hdir (h.slash hslash), fun _ => hfile⟩
  · obtain ⟨n, d, r, hn, -, hd, hdot, rfl⟩ := entry_eq_some.1 h.entry_dst
    refine (Kernel.rename_free hm.free).1.2 ⟨h.renames, hp ▸ h.there, h.src_dst, h.dst_src,
      by simp, by simpa using hdot, ?_⟩
    rw [List.dropLast_concat]
    exact hm.cut_extends.isDir hd

lemma obj {m : Fs} (h : Moves k pr fs src dst p q) (hm : Cleared fs m q) (s : Place) :
    (k.rename m p q).2.obj s = if q <+: s then fs.obj (p ++ s.drop q.length)
      else if p <+: s then none else fs.obj s := by
  rw [(Kernel.rename_free hm.free).2 (h.renamed hm).2]
  split
  case isTrue =>
    refine hm.kept _ fun hs => ?_
    rcases List.prefix_or_prefix_of_prefix hs (List.prefix_append p _) with hqp | hpq
    · exact h.dst_src hqp
    · exact h.src_dst hpq
  case isFalse hs => rw [hm.kept s hs]

end Moves

/-- A file in the place to which a missing file is moved. -/
def taken : Disk := .single "to".toList (by decide) ⟨.reg, 0o644, 3⟩

end Sylar.MoveTree
