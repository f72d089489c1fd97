import Sylar.PathCalls

/-!
`FSUtil::Rm`.

It hands texts to the kernel, its own path with names of the tree behind it, and each call resolves
them anew. Where the way to the path does not lead through the tree, the texts keep their places and
`Rm` does what it would do with places; anywhere it removes nothing but what may be removed.
-/

namespace Sylar.RemoveTree

open Sylar.FileSystem Sylar.PathWalk Sylar.PathCalls

namespace FSUtil

variable (k : Kernel) (pr : Process)

def Unlink (fs : Fs) (filename : Path) (exist : Bool) : Bool × Fs :=
  if exist = false ∧ lstat k pr fs filename = none then (true, fs) else unlink k pr fs filename

/-- The loop over what `readdir` gives, where `call` stands for `Rm`. -/
def rmAll (call : Fs → Path → Option (Bool × Fs)) (path : Path) :
    List Name → Bool × Fs → Option (Bool × Fs)
  | [], s => some s
  | d_name :: names, s =>
    if dot d_name then rmAll call path names s
    else (call s.2 (path ++ '/' :: d_name)).bind (rmAll call path names)

/-- `FSUtil::Rm`, with a bound on the depth of the calls. -/
def rm : ℕ → Fs → Path → Option (Bool × Fs)
  | 0, _, _ => none
  | depth + 1, fs, path =>
    match lstat k pr fs path with
    | none => some (true, fs)
    | some st_mode =>
      if st_mode &&& S_IFDIR = 0 then some (Unlink k pr fs path false)
      else
        match opendir k pr fs path with
        | none => some (false, fs)
        | some dir =>
          (rmAll (rm depth) path (fs.readdir dir) (true, fs)).map fun s =>
            ((rmdir k pr s.2 path).1 && s.1, (rmdir k pr s.2 path).2)

def depth (fs : Fs) : ℕ := (fs.keys.map List.length).foldr max 0 + 1

def Rm (fs : Fs) (path : Path) : Option (Bool × Fs) := rm k pr (depth fs) fs path

end FSUtil

/-! ### What is removed -/

section Removed

variable (k : Kernel) (fs : Fs)

/-- What stands there can be removed once nothing is below it. -/
def Clears (q : Place) : Prop :=
  ∀ o, fs.obj q = some o →
    k.removes q = true ∧ o.kind ≠ .sock ∧ o.kind ≠ .blk ∧ (o.kind = .dir → k.opens q = true)

def Removable (p : Place) : Prop := ∀ q, p <+: q → Clears k fs q

def Enters (q : Place) : Prop := k.sees q = true ∧ fs.IsDir q ∧ k.opens q = true

structure Reached (p q : Place) : Prop where
  below : p <+: q
  sees : k.sees q = true
  enters : ∀ r, p <+: r → r <+: q → r ≠ q → Enters k fs r

def Gone (p q : Place) : Prop := Reached k fs p q ∧ Removable k fs q

structure Spec (p : Place) (r : Bool × Fs) : Prop where
  gone : ∀ q, Gone k fs p q → r.2.obj q = none
  kept : ∀ q, ¬Gone k fs p q → r.2.obj q = fs.obj q
  ret : r.1 = true ↔ fs.obj p = none ∨ k.sees p = false ∨ Removable k fs p

end Removed

variable {k : Kernel} {pr : Process} {path : Path} {fs fs' : Fs} {p q : Place} {o : Obj}

lemma removable_mono (h : Removable k fs p) (hpq : p <+: q) : Removable k fs q :=
  fun r hr => h r (hpq.trans hr)

lemma sees_of_removable (h : Removable k fs p) (hp : fs.obj p = some o) : k.sees p = true :=
  k.sees_of_removes p (h p (List.prefix_rfl) o hp).1

lemma reached_self (hsees : k.sees p = true) : Reached k fs p p := by
  refine ⟨List.prefix_rfl, hsees, fun r hpr hrp hne => ?_⟩
  exact absurd (hrp.eq_of_length (Nat.le_antisymm hrp.length_le hpr.length_le)) hne

lemma gone_self_iff : Gone k fs p p ↔ k.sees p = true ∧ Removable k fs p :=
  ⟨fun h => ⟨h.1.sees, h.2⟩, fun h => ⟨reached_self h.1, h.2⟩⟩

/-- Where nothing is entered, only the place itself can go. -/
lemma eq_of_gone (h : Gone k fs p q) (hp : ¬Enters k fs p) : q = p := by
  by_contra hne
  exact hp (h.1.enters p List.prefix_rfl h.1.below (Ne.symm hne))

lemma exists_child (h : p <+: q) (hne : p ≠ q) : ∃ n, p ++ [n] <+: q := by
  obtain ⟨s, rfl⟩ := h
  cases s with
  | nil => exact absurd (List.append_nil p).symm hne
  | cons n s => exact ⟨n, s, by simp⟩

lemma ne_of_child {n : Name} (h : p ++ [n] <+: q) : p ≠ q := by
  rintro rfl
  have hlen := h.length_le
  rw [List.length_append, List.length_singleton] at hlen
  omega

/-- The calls for the names in `p` come to `q`. -/
def Inside (k : Kernel) (fs : Fs) (p q : Place) : Prop := q ≠ p ∧ Reached k fs p q

lemma inside_of_child {n : Name} (hp : Enters k fs p) (h : Extends fs' fs)
    (hq : Reached k fs' (p ++ [n]) q) : Inside k fs p q := by
  have hne := ne_of_child hq.below
  refine ⟨hne.symm, (List.prefix_append p [n]).trans hq.below, hq.sees, fun r hpr hrq hr => ?_⟩
  by_cases hrp : r = p
  · rwa [hrp]
  · obtain ⟨m, hm⟩ := exists_child hpr (Ne.symm hrp)
    have heq : p ++ [m] = p ++ [n] :=
      (List.prefix_of_prefix_length_le (hm.trans hrq) hq.below (by simp)).eq_of_length (by simp)
    obtain ⟨hsees, hdir, hopens⟩ := hq.enters r (heq ▸ hm) hrq hr
    exact ⟨hsees, h.isDir hdir, hopens⟩

lemma gone_iff_child (hp : Enters k fs p) (hne : p ≠ q) :
    Gone k fs p q ↔ ∃ n, Gone k fs (p ++ [n]) q := by
  constructor
  · rintro ⟨⟨hpq, hsees, henters⟩, hrem⟩
    obtain ⟨n, hn⟩ := exists_child hpq hne
    exact ⟨n, ⟨hn, hsees, fun r hr => henters r ((List.prefix_append p [n]).trans hr)⟩, hrem⟩
  · rintro ⟨n, hn⟩
    exact ⟨(inside_of_child hp (fun _ _ h => h) hn.1).2, hn.2⟩

lemma removable_dir_iff (ho : fs.obj p = some o) (hdir : o.kind = .dir) :
    Removable k fs p ↔
      k.removes p = true ∧ k.opens p = true ∧ ∀ n, Removable k fs (p ++ [n]) := by
  constructor
  · intro h
    obtain ⟨hremoves, -, -, hopens⟩ := h p List.prefix_rfl o ho
    exact ⟨hremoves, hopens hdir, fun n => removable_mono h (List.prefix_append p [n])⟩
  · rintro ⟨hremoves, hopens, hchildren⟩ q hpq
    by_cases hne : p = q
    · subst hne
      intro o' ho'
      rw [ho, Option.some.injEq] at ho'
      subst ho'
      simp [hdir, hremoves, hopens]
    · obtain ⟨n, hn⟩ := exists_child hpq hne
      exact hchildren n q hn

lemma removable_of_none (h : fs.obj p = none) : Removable k fs p := by
  intro q hpq o ho
  rw [Fs.none_below h hpq] at ho
  cases ho

lemma removable_congr (h : ∀ q, p <+: q → fs'.obj q = fs.obj q) :
    Removable k fs' p ↔ Removable k fs p := by
  refine forall_congr' fun q => forall_congr' fun hpq => ?_
  rw [Clears, Clears, h q hpq]

lemma gone_congr (h : ∀ q, p <+: q → fs'.obj q = fs.obj q) : Gone k fs' p q ↔ Gone k fs p q := by
  have henters : ∀ r, p <+: r → (Enters k fs' r ↔ Enters k fs r) := by
    intro r hpr
    rw [Enters, Enters, Fs.IsDir, Fs.IsDir, h r hpr]
  constructor
  · rintro ⟨⟨hpq, hsees, hon⟩, hrem⟩
    exact ⟨⟨hpq, hsees, fun r hpr hrq hr => (henters r hpr).1 (hon r hpr hrq hr)⟩,
      (removable_congr fun r hr => h r (hpq.trans hr)).1 hrem⟩
  · rintro ⟨⟨hpq, hsees, hon⟩, hrem⟩
    exact ⟨⟨hpq, hsees, fun r hpr hrq hr => (henters r hpr).2 (hon r hpr hrq hr)⟩,
      (removable_congr fun r hr => h r (hpq.trans hr)).2 hrem⟩

/-! ### The loop -/

/-- What the calls for the names leave. -/
structure Swept (k : Kernel) (fs : Fs) (p : Place) (names : List Name) (ret : Bool)
    (s : Bool × Fs) : Prop where
  gone : ∀ n ∈ names, ∀ q, Gone k fs (p ++ [n]) q → s.2.obj q = none
  kept : ∀ q, (∀ n ∈ names, ¬Gone k fs (p ++ [n]) q) → s.2.obj q = fs.obj q
  ret : ret = true → (∀ n ∈ names, Removable k fs (p ++ [n])) → s.1 = true

lemma not_below_of_ne {m n : Name} (hne : m ≠ n) (hm : p ++ [m] <+: q) : ¬p ++ [n] <+: q := by
  intro hn
  have heq := (List.prefix_of_prefix_length_le hm hn (by simp)).eq_of_length (by simp)
  exact hne (by simpa using heq)

lemma Spec.none {r : Bool × Fs} (h : Spec k fs p r) (hq : fs.obj q = none) : r.2.obj q = none := by
  by_cases hg : Gone k fs p q
  · exact h.gone q hg
  · rw [h.kept q hg, hq]

/-- What is left for one name, and then for the others, is left for all of them. -/
lemma Swept.cons {names : List Name} {n : Name} {ret ret' : Bool} {s : Bool × Fs}
    (hn : n ∉ names) (hgone : ∀ q, Gone k fs (p ++ [n]) q → fs'.obj q = none)
    (hkept : ∀ q, ¬Gone k fs (p ++ [n]) q → fs'.obj q = fs.obj q)
    (hret : ret = true → Removable k fs (p ++ [n]) → ret' = true)
    (h : Swept k fs' p names ret' s) : Swept k fs p (n :: names) ret s := by
  have hsame : ∀ m ∈ names, ∀ q, p ++ [m] <+: q → fs'.obj q = fs.obj q := by
    intro m hm q hq
    have hne : m ≠ n := fun heq => hn (heq ▸ hm)
    exact hkept q fun hg => not_below_of_ne hne hq hg.1.below
  have hothers : ∀ m ∈ names, ∀ q, Gone k fs' (p ++ [m]) q ↔ Gone k fs (p ++ [m]) q :=
    fun m hm q => gone_congr (hsame m hm)
  refine ⟨fun m hm q hg => ?_, fun q hq => ?_, fun htrue hrem => ?_⟩
  · by_cases hother : ∃ i ∈ names, Gone k fs' (p ++ [i]) q
    · obtain ⟨i, hi, hgi⟩ := hother
      exact h.gone i hi q hgi
    · rcases List.mem_cons.1 hm with rfl | hm
      · rw [h.kept q fun i hi hgi => hother ⟨i, hi, hgi⟩]
        exact hgone q hg
      · exact absurd ⟨m, hm, (hothers m hm q).2 hg⟩ hother
  · rw [h.kept q fun m hm hg => hq m (List.mem_cons_of_mem n hm) ((hothers m hm q).1 hg)]
    exact hkept q (hq n List.mem_cons_self)
  · refine h.ret (hret htrue (hrem n List.mem_cons_self)) fun m hm => ?_
    exact (removable_congr (hsame m hm)).2 (hrem m (List.mem_cons_of_mem n hm))

lemma Spec.aside {n : Name} {r : Bool × Fs} (h : Spec k fs' (p ++ [n]) r) (hfs' : Aside p fs fs') :
    Aside p fs r.2 := by
  intro q hq
  refine (h.kept q fun hg => hq ⟨?_, (ne_of_child hg.1.below).symm⟩).trans (hfs' q hq)
  exact (List.prefix_append p [n]).trans hg.1.below

lemma rmAll_spec {call : Fs → Path → Option (Bool × Fs)} {names : List Name}
    (hnodup : names.Nodup)
    (hcall : ∀ fs' : Fs, (∀ q, fs.obj q = none → fs'.obj q = none) → Aside p fs fs' →
      ∀ n ∈ names, ¬dot n →
        ∃ r, call fs' (path ++ '/' :: n) = some r ∧ Spec k fs' (p ++ [n]) r) (ret : Bool) :
    ∃ s, FSUtil.rmAll call path names (ret, fs) = some s ∧ Swept k fs p names ret s := by
  induction names generalizing fs ret with
  | nil => exact ⟨(ret, fs), rfl, by simp, fun _ _ => rfl, fun h _ => h⟩
  | cons n names ih =>
    obtain ⟨hn, hnodup⟩ := List.nodup_cons.1 hnodup
    by_cases hdot : dot n
    · obtain ⟨s, hs, hswept⟩ := ih hnodup
        (fun fs' hfs' haside m hm => hcall fs' hfs' haside m (List.mem_cons_of_mem n hm)) ret
      exact ⟨s, by rw [FSUtil.rmAll, if_pos hdot, hs],
        hswept.cons hn (fun q hg => Fs.none_below (fs.dots p n hdot) hg.1.below) (fun _ _ => rfl)
          fun h _ => h⟩
    · obtain ⟨⟨ret', fs'⟩, hr, hspec⟩ :=
        hcall fs (fun _ h => h) (fun _ _ => rfl) n List.mem_cons_self hdot
      have haside : Aside p fs fs' := hspec.aside fun _ _ => rfl
      obtain ⟨s, hs, hswept⟩ := @ih fs' hnodup
        (fun fs'' hfs'' haside'' m hm => hcall fs'' (fun q hq => hfs'' q (hspec.none hq))
          (fun q hq => (haside'' q hq).trans (haside q hq)) m (List.mem_cons_of_mem n hm)) ret'
      exact ⟨s, by rw [FSUtil.rmAll, if_neg hdot, hr, Option.bind_some, hs],
        hswept.cons hn hspec.gone hspec.kept
          fun _ hrem => hspec.ret.2 (Or.inr (Or.inr hrem))⟩

lemma Swept.none {names : List Name} {ret : Bool} {s : Bool × Fs}
    (h : Swept k fs p names ret s) (hq : fs.obj q = none) : s.2.obj q = none := by
  by_cases hg : ∃ n ∈ names, Gone k fs (p ++ [n]) q
  · obtain ⟨n, hn, hg⟩ := hg
    exact h.gone n hn q hg
  · rw [h.kept q fun n hn hgn => hg ⟨n, hn, hgn⟩, hq]

/-! ### One call -/

/-- Where nothing is entered, a call can remove the place itself at most. -/
lemma spec_of_not_enters {r : Bool × Fs} (henters : ¬Enters k fs p)
    (hself : Gone k fs p p → r.2.obj p = none)
    (hkept : ∀ q, (q = p → ¬Gone k fs p p) → r.2.obj q = fs.obj q)
    (hret : r.1 = true ↔ fs.obj p = none ∨ k.sees p = false ∨ Removable k fs p) :
    Spec k fs p r where
  gone q hg := by
    obtain rfl := eq_of_gone hg henters
    exact hself hg
  kept q hg := hkept q fun heq => heq ▸ hg
  ret := hret

/-- A call that sees something returns whether it can be removed. -/
lemma ret_iff (hsees : k.sees p = true) (ho : fs.obj p = some o) :
    fs.obj p = none ∨ k.sees p = false ∨ Removable k fs p ↔ Removable k fs p := by
  simp [ho, hsees]

lemma spec_lstat_none (h : k.lstat fs p = none) : Spec k fs p (true, fs) := by
  have hnone := Kernel.lstat_eq_none_iff.1 h
  have henters : ¬Enters k fs p := by
    rintro ⟨hsees, ⟨o, ho, -⟩, -⟩
    rcases hnone with hnone | hnone
    · rw [ho] at hnone
      cases hnone
    · rw [hsees] at hnone
      cases hnone
  refine spec_of_not_enters henters (fun hg => ?_) (fun _ _ => rfl) (iff_of_true rfl ?_)
  · rcases hnone with hnone | hnone
    · exact hnone
    · rw [hg.1.sees] at hnone
      cases hnone
  · exact hnone.imp_right Or.inl

/-- Something that is no directory is removed if that is permitted. -/
lemma spec_unlink (hsees : k.sees p = true) (ho : fs.obj p = some o) (hdir : o.kind ≠ .dir)
    (hsock : o.kind ≠ .sock) (hblk : o.kind ≠ .blk) : Spec k fs p (k.unlink fs p) := by
  have hnot : ¬fs.IsDir p := Fs.not_isDir_of_isFile ⟨o, ho, hdir⟩
  have hrem : Removable k fs p ↔ k.removes p = true := by
    constructor
    · exact fun h => (h p List.prefix_rfl o ho).1
    · intro hremoves q hpq o' ho'
      by_cases hne : p = q
      · subst hne
        rw [ho, Option.some.injEq] at ho'
        subst ho'
        exact ⟨hremoves, hsock, hblk, fun h => absurd h hdir⟩
      · rw [Fs.obj_below hnot hpq hne] at ho'
        cases ho'
  have hok : (k.unlink fs p).1 = true ↔ Removable k fs p := by
    rw [Kernel.unlink_fst, hrem]
    exact and_iff_left ⟨o, ho, hdir⟩
  refine spec_of_not_enters (fun h => hnot h.2.1) (fun hg => ?_) (fun q hq => ?_)
    (hok.trans (ret_iff hsees ho).symm)
  · rw [Kernel.unlink_obj, if_pos ⟨rfl, hok.2 hg.2⟩]
  · rw [Kernel.unlink_obj, if_neg]
    exact fun h => hq h.1 (gone_self_iff.2 ⟨hsees, hok.1 h.2⟩)

lemma not_enters (ho : fs.obj p = some o) (h : ¬(o.kind = .dir ∧ k.opens p = true)) :
    ¬Enters k fs p := by
  rintro ⟨-, ⟨o', ho', hdir⟩, hopens⟩
  rw [ho, Option.some.injEq] at ho'
  exact h ⟨ho' ▸ hdir, hopens⟩

/-- A socket, a block device or a directory that cannot be read is left. -/
lemma not_removable (ho : fs.obj p = some o)
    (hkind : o.kind = .dir ∨ o.kind = .sock ∨ o.kind = .blk)
    (hopens : ¬(o.kind = .dir ∧ k.opens p = true)) : ¬Removable k fs p := by
  intro h
  obtain ⟨-, hsock, hblk, hdir⟩ := h p List.prefix_rfl o ho
  rcases hkind with hkind | hkind | hkind
  · exact hopens ⟨hkind, hdir hkind⟩
  · exact hsock hkind
  · exact hblk hkind

lemma spec_opendir_none (hsees : k.sees p = true) (ho : fs.obj p = some o)
    (hkind : o.kind = .dir ∨ o.kind = .sock ∨ o.kind = .blk)
    (hopens : ¬(o.kind = .dir ∧ k.opens p = true)) : Spec k fs p (false, fs) := by
  have hrem := not_removable ho hkind hopens
  exact spec_of_not_enters (not_enters ho hopens) (fun hg => absurd hg.2 hrem) (fun _ _ => rfl)
    (iff_of_false Bool.false_ne_true (fun h => hrem ((ret_iff hsees ho).1 h)))

/-- A directory whose contents have been gone through is removed if it is empty then. -/
lemma spec_rmdir {s : Bool × Fs} (hsees : k.sees p = true) (ho : fs.obj p = some o)
    (hdir : o.kind = .dir) (hopens : k.opens p = true)
    (hswept : Swept k fs p (fs.readdir p) true s) :
    Spec k fs p ((k.rmdir s.2 p).1 && s.1, (k.rmdir s.2 p).2) := by
  have henters : Enters k fs p := ⟨hsees, ⟨o, ho, hdir⟩, hopens⟩
  have hself : s.2.obj p = some o := by
    rw [hswept.kept p fun n _ hg => ne_of_child hg.1.below rfl, ho]
  have hbelow : ∀ n q, Gone k fs (p ++ [n]) q → s.2.obj q = none := by
    intro n q hg
    by_cases hn : n ∈ fs.readdir p
    · exact hswept.gone n hn q hg
    · rw [Fs.mem_readdir, not_or, not_not] at hn
      exact hswept.none (Fs.none_below hn.2 hg.1.below)
  have hchild : ∀ n, s.2.obj (p ++ [n]) = none ↔ Removable k fs (p ++ [n]) := by
    intro n
    constructor
    · intro hnone
      by_contra hrem
      have hkept := hswept.kept (p ++ [n]) fun m _ hg => by
        by_cases hmn : n = m
        · subst hmn
          exact hrem hg.2
        · exact not_below_of_ne hmn List.prefix_rfl hg.1.below
      exact hrem (removable_of_none (hkept.symm.trans hnone))
    · intro hrem
      cases hobj : fs.obj (p ++ [n]) with
      | none => exact hswept.none hobj
      | some o' => exact hbelow n _ (gone_self_iff.2 ⟨sees_of_removable hrem hobj, hrem⟩)
  have hok : (k.rmdir s.2 p).1 = true ↔ Removable k fs p := by
    rw [Kernel.rmdir_fst, removable_dir_iff ho hdir]
    exact and_congr_right fun _ => and_congr (iff_of_true ⟨o, hself, hdir⟩ hopens)
      (forall_congr' hchild)
  refine ⟨fun q hg => ?_, fun q hg => ?_, ?_⟩
  · rw [Kernel.rmdir_obj]
    by_cases hq : q = p
    · subst hq
      rw [if_pos ⟨rfl, hok.2 hg.2⟩]
    · obtain ⟨n, hn⟩ := (gone_iff_child henters (Ne.symm hq)).1 hg
      rw [if_neg fun h => hq h.1, hbelow n q hn]
  · rw [Kernel.rmdir_obj, if_neg]
    · refine hswept.kept q fun n _ hgn => hg ?_
      exact (gone_iff_child henters (ne_of_child hgn.1.below)).2 ⟨n, hgn⟩
    · rintro ⟨rfl, h⟩
      exact hg (gone_self_iff.2 ⟨hsees, hok.1 h⟩)
  · rw [ret_iff hsees ho, Bool.and_eq_true, hok]
    refine and_iff_left_of_imp fun hrem => hswept.ret rfl fun n _ => ?_
    exact removable_mono hrem (List.prefix_append p [n])

/-! ### All calls -/

/-- Nothing below `p` is deeper than `n` names. -/
def Fits (fs : Fs) (p : Place) (n : ℕ) : Prop :=
  ∀ q, p <+: q → fs.obj q ≠ none → q.length < p.length + n

lemma Fits.child {n : ℕ} {m : Name} (h : Fits fs p (n + 1)) (hm : fs.obj (p ++ [m]) ≠ none)
    (hthere : ∀ q, fs'.obj q ≠ none → fs.obj q ≠ none) : 0 < n ∧ Fits fs' (p ++ [m]) n := by
  have hlen := h _ (List.prefix_append p [m]) hm
  rw [List.length_append, List.length_singleton] at hlen
  refine ⟨by omega, fun q hq hne => ?_⟩
  have hdeep := h q ((List.prefix_append p [m]).trans hq) (hthere q hne)
  rw [List.length_append, List.length_singleton]
  omega

lemma rm_absent (n : ℕ) (h : lstat k pr fs path = none) :
    FSUtil.rm k pr (n + 1) fs path = some (true, fs) := by
  rw [FSUtil.rm, h]

/-- **What one call does with what it finds.** It is unlinked; or taken for a directory that cannot
be opened; or gone through. -/
lemma rm_cases (n : ℕ) (ht : target pr fs path = some p) (hst : k.lstat fs p ≠ none) :
    ∃ o, k.sees p = true ∧ fs.obj p = some o ∧
      (o.kind ≠ .dir ∧ o.kind ≠ .sock ∧ o.kind ≠ .blk ∧
          FSUtil.rm k pr (n + 1) fs path = some (unlink k pr fs path) ∨
        (o.kind = .dir ∨ o.kind = .sock ∨ o.kind = .blk) ∧ ¬(o.kind = .dir ∧ k.opens p = true) ∧
          FSUtil.rm k pr (n + 1) fs path = some (false, fs) ∨
        o.kind = .dir ∧ k.opens p = true ∧
          FSUtil.rm k pr (n + 1) fs path =
            (FSUtil.rmAll (FSUtil.rm k pr n) path (fs.readdir p) (true, fs)).map fun s =>
              ((rmdir k pr s.2 path).1 && s.1, (rmdir k pr s.2 path).2)) := by
  obtain ⟨st_mode, hst⟩ := Option.ne_none_iff_exists'.1 hst
  obtain ⟨hsees, o, ho, rfl⟩ := Kernel.lstat_eq_some hst
  refine ⟨o, hsees, ho, ?_⟩
  have hkind := mode_dir_iff o
  rw [FSUtil.rm, lstat_eq ht, hst]
  by_cases hmode : o.st_mode &&& S_IFDIR = 0
  · rw [← not_iff_not, not_not] at hkind
    have hfile := hkind.1 hmode
    rw [not_or, not_or] at hfile
    refine Or.inl ⟨hfile.1, hfile.2.1, hfile.2.2, (if_pos hmode).trans ?_⟩
    rw [FSUtil.Unlink, lstat_eq ht, if_neg (by simp [hst])]
  · have hkind := hkind.1 hmode
    have hlnk : ∀ link, o.kind ≠ .lnk link := by
      rintro link heq
      simp [heq] at hkind
    simp only [if_neg hmode, opendir_eq ht ho hlnk]
    by_cases hopens : o.kind = .dir ∧ k.opens p = true
    · exact Or.inr (Or.inr ⟨hopens.1, hopens.2, by simp only [if_pos hopens]⟩)
    · exact Or.inr (Or.inl ⟨hkind, hopens, by simp only [if_neg hopens]⟩)

/-- The calls for a path that keeps its place. -/
lemma rm_spec (n : ℕ) (fs : Fs) (path : Path) (p : Place) (hn : 0 < n) (hfits : Fits fs p n)
    (hnamed : Named fs) (hsteady : Steady pr fs path p) :
    ∃ r, FSUtil.rm k pr n fs path = some r ∧ Spec k fs p r := by
  induction n generalizing fs path p with
  | zero => exact absurd hn (Nat.lt_irrefl 0)
  | succ n ih =>
    obtain ⟨hentry, htarget⟩ := hsteady fs fun _ _ => rfl
    by_cases hst : k.lstat fs p = none
    · exact ⟨_, rm_absent n ((lstat_eq htarget).trans hst), spec_lstat_none hst⟩
    obtain ⟨o, hsees, ho, hcases⟩ := rm_cases n htarget hst
    rcases hcases with ⟨hdir, hsock, hblk, heq⟩ | ⟨hkind, hopens, heq⟩ | ⟨hdir, hopens, heq⟩
    · have hslash := not_slashed_of_target htarget (Fs.not_isDir_of_isFile ⟨o, ho, hdir⟩)
      rw [unlink_eq hentry hslash] at heq
      exact ⟨_, heq, spec_unlink hsees ho hdir hsock hblk⟩
    · exact ⟨_, heq, spec_opendir_none hsees ho hkind hopens⟩
    · have hcall : ∀ fs' : Fs, (∀ q, fs.obj q = none → fs'.obj q = none) → Aside p fs fs' →
          ∀ m ∈ fs.readdir p, ¬dot m →
            ∃ r, FSUtil.rm k pr n fs' (path ++ '/' :: m) = some r ∧ Spec k fs' (p ++ [m]) r := by
        intro fs' hfs' haside m hm hdot
        have hobj : fs.obj (p ++ [m]) ≠ none := (Fs.mem_readdir.1 hm).resolve_left hdot
        obtain ⟨hn, hfits'⟩ := hfits.child hobj fun q hq h => hq (hfs' q h)
        exact ih fs' (path ++ '/' :: m) (p ++ [m]) hn hfits'
          (fun q l hql => hnamed q l fun h => hql (hfs' _ h))
          (hsteady.child haside (haside.isDir ⟨o, ho, hdir⟩) (hnamed p m hobj))
      obtain ⟨s, hs, hswept⟩ := rmAll_spec (Fs.nodup_readdir p) hcall true
      have haside : Aside p fs s.2 := fun q hq => hswept.kept q fun m _ hg =>
        hq ⟨(List.prefix_append p [m]).trans hg.1.below, (ne_of_child hg.1.below).symm⟩
      simp only [hs, Option.map_some, rmdir_eq (hsteady s.2 haside).1] at heq
      exact ⟨_, heq, spec_rmdir hsees ho hdir hopens hswept⟩

lemma fits_depth (fs : Fs) (p : Place) : Fits fs p (FSUtil.depth fs) := by
  intro q _ hq
  have hmax : ∀ l : List ℕ, ∀ n ∈ l, n ≤ l.foldr max 0 := by
    intro l
    induction l with
    | nil => simp
    | cons a l ih =>
      intro n hn
      rcases List.mem_cons.1 hn with rfl | hn
      · exact Nat.le_max_left _ _
      · exact Nat.le_trans (ih n hn) (Nat.le_max_right _ _)
  have hle := hmax _ q.length (List.mem_map_of_mem (fs.mem_keys q hq))
  unfold FSUtil.depth
  omega

/-- **What `Rm` does where the path keeps its place.** -/
lemma Rm_spec (fs : Disk) (h : Steady pr fs.toFs path p) :
    ∃ r, FSUtil.Rm k pr fs.toFs path = some r ∧ Spec k fs.toFs p r :=
  rm_spec _ fs.toFs path p (Nat.succ_pos _) (fits_depth fs.toFs p) fs.named h

/-! ### Any path -/

/-- Where the two differ, something has gone from a place of `P`, and could be removed. -/
def Shrinks (k : Kernel) (P : Place → Prop) (fs fs' : Fs) : Prop :=
  ∀ q, fs'.obj q = fs.obj q ∨ fs'.obj q = none ∧ P q ∧ Clears k fs q

namespace Shrinks

variable {P Q : Place → Prop}

lemma refl (k : Kernel) (P : Place → Prop) (fs : Fs) : Shrinks k P fs fs := fun _ => Or.inl rfl

lemma trans {fs'' : Fs} (h : Shrinks k P fs fs') (h' : Shrinks k P fs' fs'') :
    Shrinks k P fs fs'' := by
  intro q
  rcases h' q with heq | ⟨hnone, hP, hclears⟩
  · rw [heq]
    exact h q
  · rcases h q with heq | ⟨-, -, hclears'⟩
    · rw [Clears, heq] at hclears
      exact Or.inr ⟨hnone, hP, hclears⟩
    · exact Or.inr ⟨hnone, hP, hclears'⟩

lemma mono (h : Shrinks k P fs fs') (hPQ : ∀ q, P q → Q q) : Shrinks k Q fs fs' := fun q =>
  (h q).imp_right fun ⟨hnone, hP, hclears⟩ => ⟨hnone, hPQ q hP, hclears⟩

lemma smaller (h : Shrinks k P fs fs') : Extends fs' fs := by
  intro q o ho
  rcases h q with heq | ⟨hnone, -, -⟩
  · exact heq.symm.trans ho
  · rw [hnone] at ho
    cases ho

lemma there (h : Shrinks k P fs fs') (hq : fs'.obj q ≠ none) : fs.obj q ≠ none := by
  obtain ⟨o, ho⟩ := Option.ne_none_iff_exists'.1 hq
  simp [h.smaller q o ho]

lemma kept (h : Shrinks k P fs fs') (hq : ¬P q) : fs'.obj q = fs.obj q :=
  (h q).resolve_right fun hgone => hq hgone.2.1

lemma clears (h : Shrinks k P fs fs') (hq : fs'.obj q = none) : Clears k fs q := by
  rcases h q with heq | ⟨-, -, hclears⟩
  · intro o ho
    rw [← heq, hq] at ho
    cases ho
  · exact hclears

end Shrinks

/-- What `Rm` does for a path where something is found at `p`. -/
structure Loose (k : Kernel) (pr : Process) (fs : Fs) (path : Path) (p : Place)
    (r : Bool × Fs) : Prop where
  shrinks : Shrinks k (Reached k fs p) fs r.2
  ret : r.1 = true ↔ r.2.obj p = none
  /-- The way to the path does not lead through the tree. -/
  entry : r.1 = true → entry pr (prune fs p) path = some p

lemma Rm_absent (h : lstat k pr fs path = none) : FSUtil.Rm k pr fs path = some (true, fs) :=
  rm_absent _ h

/-- Everything in the tree may be unlinked or removed. -/
def Permitted (k : Kernel) (fs : Fs) (p : Place) : Prop :=
  ∀ q, p <+: q → fs.obj q ≠ none → k.removes q = true

structure Correct (k : Kernel) (pr : Process) (fs : Fs) (path : Path) (r : Bool × Fs) : Prop where
  absent : target pr fs path = none → r.1 = true
  removed : ∀ p, target pr fs path = some p → Permitted k fs p → r.1 = true ∧ r.2.obj p = none
  failed : ∀ p, target pr fs path = some p → ¬Permitted k fs p → r.1 = false
  outside : ∀ q, (∀ p, target pr fs path = some p → ¬p <+: q) → r.2.obj q = fs.obj q

/-- There is no socket and no block device in the tree, and its directories can be opened. -/
def Plain (k : Kernel) (fs : Fs) (p : Place) : Prop :=
  ∀ q, p <+: q → ∀ o, fs.obj q = some o →
    o.kind ≠ .sock ∧ o.kind ≠ .blk ∧ (o.kind = .dir → k.opens q = true)

/-- What is there can be looked up. A tree that may be removed is plain, and the path names it
without a way through the tree, a dot at the end or a link to follow. -/
def Cond (k : Kernel) (pr : Process) (fs : Fs) (path : Path) : Prop :=
  ∀ p, target pr fs path = some p → fs.obj p ≠ none →
    k.sees p = true ∧
      (Permitted k fs p → Plain k fs p ∧ entry pr (prune fs p) path = some p)

lemma Loose.removable {r : Bool × Fs} (h : Loose k pr fs path p r) (hret : r.1 = true) :
    Removable k fs p := fun _ hpq =>
  h.shrinks.clears (Fs.none_below (h.ret.1 hret) hpq)

def allowed : Kernel where
  sees _ := true
  opens _ := true
  removes _ := true
  renames _ _ := true
  sees_of_removes _ _ := rfl
  sees_of_renames _ _ _ := rfl

def user : Process := ⟨[], 40, 0o022, fun _ => 9⟩

def socket : Disk := .single "s".toList (by decide) ⟨.sock, 0o755, 3⟩

end Sylar.RemoveTree
