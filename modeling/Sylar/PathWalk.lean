import Sylar.FileSystem

/-!
The way from a path to a place in the file system, and the calls `lstat`, `access` and `mkdir` of a
process that may do everything.

The target of a link is walked from the root. A path that ends with a slash is walked as if a dot
followed, except by `mkdir`.
-/

namespace Sylar.PathWalk

open Sylar.FileSystem

abbrev Path := List Char

/-! ### The walk -/

section Walk

variable (fs : Fs)

/-- The names are taken one after another. `n` links may still be followed; `jump` goes on with the
names behind a link. What is left of `n` is given, too. -/
def walkWith (n : ℕ) (jump : Place → Option (ℕ × Place)) : Place → List Name → Option (ℕ × Place)
  | cur, [] => some (n, cur)
  | cur, c :: cs =>
    if fs.IsDir cur then
      if c = ".".toList then walkWith n jump cur cs
      else if c = "..".toList then walkWith n jump cur.dropLast cs
      else
        match (fs.obj (cur ++ [c])).map Obj.kind with
        | none => none
        | some (.lnk target) => jump (target ++ cs)
        | some _ => walkWith n jump (cur ++ [c]) cs
    else none

def walk : ℕ → Place → List Name → Option (ℕ × Place)
  | 0 => walkWith fs 0 fun _ => none
  | n + 1 => walkWith fs (n + 1) fun cs => walk n [] cs

end Walk

/-! ### Paths -/

def names (path : Path) : List Name := (path.splitOn '/').filter fun n => n ≠ []

def Slashed (path : Path) : Prop := path.getLast? = some '/'

instance (path : Path) : Decidable (Slashed path) := inferInstanceAs (Decidable (_ = _))

/-- The names that are walked where the last one is followed. -/
def steps (path : Path) : List Name :=
  names path ++ if Slashed path then [".".toList] else []

def Has (fs : Fs) (d : Place) (n : Name) : Prop :=
  fs.IsDir d ∧ (dot n ∨ fs.obj (d ++ [n]) ≠ none)

instance (fs : Fs) (d : Place) (n : Name) : Decidable (Has fs d n) :=
  inferInstanceAs (Decidable (_ ∧ (_ ∨ _)))

def create (fs : Fs) (d : Place) (n : Name) (perm : BitVec 12) (ino : ℕ) (hd : fs.IsDir d)
    (hn : ¬dot n) (hfree : fs.obj (d ++ [n]) = none) : Fs where
  obj q := if q = d ++ [n] then some ⟨.dir, perm, ino⟩ else fs.obj q
  keys := (d ++ [n]) :: fs.keys
  mem_keys q hq := by
    by_cases h : q = d ++ [n]
    · exact h ▸ List.mem_cons_self
    · rw [if_neg h] at hq
      exact List.mem_cons_of_mem _ (fs.mem_keys q hq)
  parent q m hq := by
    by_cases h : q ++ [m] = d ++ [n]
    · obtain ⟨rfl, -⟩ := List.append_inj' h rfl
      have hne : q ≠ q ++ [n] := by simp
      rw [if_neg hne]
      exact hd
    · rw [if_neg h] at hq
      obtain ⟨o, ho, hkind⟩ := fs.parent q m hq
      by_cases hq' : q = d ++ [n]
      · exact ⟨_, if_pos hq', rfl⟩
      · exact ⟨o, (if_neg hq').trans ho, hkind⟩
  dots q m hm := by
    have hne : q ++ [m] ≠ d ++ [n] := by
      intro h
      obtain ⟨-, hmn⟩ := List.append_inj' h rfl
      exact hn (List.head_eq_of_cons_eq hmn ▸ hm)
    rw [if_neg hne]
    exact fs.dots q m hm

structure Process where
  cwd : Place
  /-- How many links are followed on the way. -/
  links : ℕ
  umask : BitVec 12
  /-- The number of the next inode. -/
  ino : Fs → ℕ

namespace Process

variable (pr : Process) (fs : Fs) (path : Path)

def start : Place := if path.head? = some '/' then [] else pr.cwd

/-- The place that the path stands for when all links are followed. -/
def place : Option Place := (walk fs pr.links (pr.start path) (steps path)).map Prod.snd

def access : Bool := path ≠ [] ∧ pr.place fs path ≠ none

/-- The directory that the last name of the path is looked for in. -/
def dirOf : Option Place :=
  (walk fs pr.links (pr.start path) (names path).dropLast).map Prod.snd

/-- `lstat(path, &st) == 0`. The last name is not followed. -/
def lstat : Bool :=
  if Slashed path then pr.access fs path
  else
    match (names path).getLast?, pr.dirOf fs path with
    | some n, some d => Has fs d n
    | _, _ => false

/-- `mkdir(path, S_IRWXU | S_IRWXG | S_IROTH | S_IXOTH)`: it succeeds if the parent is a directory
and the name is free. -/
def mkdir : Option Fs :=
  match (names path).getLast?, pr.dirOf fs path with
  | some n, some d =>
    if h : fs.IsDir d ∧ ¬Has fs d n then
      some (create fs d n (0o775 &&& ~~~pr.umask) (pr.ino fs) h.1
        (fun hdot => h.2 ⟨h.1, Or.inl hdot⟩)
        (by
          by_contra hne
          exact h.2 ⟨h.1, Or.inr hne⟩))
    else none
  | _, _ => none

end Process

/-! ### Walks in a row, and in a larger file system -/

section Walk

variable {fs fs' : Fs} {n : ℕ} {cur : Place} {cs ds : List Name} {r : ℕ × Place}

/-- What one name does, behind which the walk goes on the same way. -/
lemma walkWith_append {jump : Place → Option (ℕ × Place)} {go : ℕ × Place → Option (ℕ × Place)}
    (hjump : ∀ cs, jump (cs ++ ds) = (jump cs).bind go)
    (hgo : ∀ cur, walkWith fs n jump cur ds = go (n, cur)) (cur : Place) (cs : List Name) :
    walkWith fs n jump cur (cs ++ ds) = (walkWith fs n jump cur cs).bind go := by
  induction cs generalizing cur with
  | nil => exact hgo cur
  | cons c cs ih =>
    rw [List.cons_append, walkWith, walkWith]
    split
    case isFalse => rfl
    case isTrue =>
      split
      case isTrue => exact ih cur
      case isFalse =>
        split
        case isTrue => exact ih cur.dropLast
        case isFalse =>
          cases (fs.obj (cur ++ [c])).map Obj.kind with
          | none => rfl
          | some kind =>
            cases kind with
            | lnk target => exact (congrArg jump (List.append_assoc ..).symm).trans (hjump _)
            | _ => exact ih (cur ++ [c])

/-- **A walk is two walks, the second with the links that the first has left.** -/
theorem walk_append (fs : Fs) (n : ℕ) (cur : Place) (cs ds : List Name) :
    walk fs n cur (cs ++ ds) = (walk fs n cur cs).bind fun r => walk fs r.1 r.2 ds := by
  induction n generalizing cur cs with
  | zero => exact walkWith_append (fun _ => rfl) (fun _ => rfl) cur cs
  | succ n ih => exact walkWith_append (fun cs => ih [] cs) (fun _ => rfl) cur cs

/-- Whatever stands in the one file system stands in the other as well. -/
def Extends (fs fs' : Fs) : Prop := ∀ p o, fs.obj p = some o → fs'.obj p = some o

lemma Extends.isDir (h : Extends fs fs') {p : Place} (hp : fs.IsDir p) : fs'.IsDir p := by
  obtain ⟨o, ho, hkind⟩ := hp
  exact ⟨o, h p o ho, hkind⟩

lemma walkWith_extends (h : Extends fs fs') {jump jump' : Place → Option (ℕ × Place)}
    (hjump : ∀ cs r, jump cs = some r → jump' cs = some r)
    (hr : walkWith fs n jump cur cs = some r) : walkWith fs' n jump' cur cs = some r := by
  induction cs generalizing cur with
  | nil => exact hr
  | cons c cs ih =>
    rw [walkWith] at hr ⊢
    split at hr
    case isFalse => cases hr
    case isTrue hdir =>
      rw [if_pos (h.isDir hdir)]
      split at hr
      case isTrue hdot =>
        rw [if_pos hdot]
        exact ih hr
      case isFalse hdot =>
        rw [if_neg hdot]
        split at hr
        case isTrue hdots =>
          rw [if_pos hdots]
          exact ih hr
        case isFalse hdots =>
          rw [if_neg hdots]
          cases ho : fs.obj (cur ++ [c]) with
          | none =>
            rw [ho] at hr
            cases hr
          | some o =>
            rw [ho, Option.map_some] at hr
            rw [h _ o ho, Option.map_some]
            cases hkind : o.kind with
            | lnk target =>
              rw [hkind] at hr
              exact hjump _ _ hr
            | _ =>
              rw [hkind] at hr
              exact ih hr

lemma walk_extends (h : Extends fs fs') (hr : walk fs n cur cs = some r) :
    walk fs' n cur cs = some r := by
  induction n generalizing cur cs r with
  | zero =>
    refine walkWith_extends h (fun cs r hnone => ?_) hr
    cases hnone
  | succ n ih => exact walkWith_extends h (fun cs r => ih) hr

variable {both : Fs} {r' : ℕ × Place}

lemma isDir_of_walk (hds : ds ≠ []) (h : walk fs n cur ds ≠ none) : fs.IsDir cur := by
  obtain ⟨c, ds, rfl⟩ := List.exists_cons_of_ne_nil hds
  by_contra hdir
  refine h ?_
  cases n with
  | zero => exact if_neg hdir
  | succ n => exact if_neg hdir

/-- Where a walk takes one name, the directory has that name. -/
lemma has_of_walk {c : Name} (h : walk fs n cur [c] ≠ none) : Has fs cur c := by
  have hdir := isDir_of_walk (List.cons_ne_nil c []) h
  refine ⟨hdir, ?_⟩
  by_contra hnot
  rw [not_or, not_not] at hnot
  obtain ⟨hdot, hnone⟩ := hnot
  have hone : ¬c = ".".toList := fun hc => hdot (Or.inl hc)
  have htwo : ¬c = "..".toList := fun hc => hdot (Or.inr hc)
  have hwalk : ∀ jump, walkWith fs n jump cur [c] = none := fun jump => by
    rw [walkWith, if_pos hdir, if_neg hone, if_neg htwo, hnone]
    rfl
  cases n with
  | zero => exact h (hwalk _)
  | succ n => exact h (hwalk _)

lemma walk_name {c : Name} {kind : Kind} (hdir : fs.IsDir cur) (hdot : ¬dot c)
    (hkind : (fs.obj (cur ++ [c])).map Obj.kind = some kind) (hlnk : ∀ target, kind ≠ .lnk target) :
    walk fs n cur [c] = some (n, cur ++ [c]) := by
  have hone : ¬c = ".".toList := fun h => hdot (Or.inl h)
  have htwo : ¬c = "..".toList := fun h => hdot (Or.inr h)
  have hwalk : ∀ jump, walkWith fs n jump cur [c] = some (n, cur ++ [c]) := fun jump => by
    rw [walkWith, if_pos hdir, if_neg hone, if_neg htwo, hkind]
    cases kind with
    | lnk target => exact absurd rfl (hlnk target)
    | _ => rfl
  cases n with
  | zero => exact hwalk _
  | succ n => exact hwalk _

lemma walk_dot (h : fs.IsDir cur) : walk fs n cur [".".toList] = some (n, cur) := by
  cases n with
  | zero => exact if_pos h
  | succ n => exact if_pos h

lemma walk_dots (h : fs.IsDir cur) : walk fs n cur ["..".toList] = some (n, cur.dropLast) := by
  cases n with
  | zero => exact if_pos h
  | succ n => exact if_pos h

end Walk

/-! ### Parts of paths -/

section Names

variable {u v path : Path}

lemma names_append (u v : Path) : names (u ++ '/' :: v) = names u ++ names v := by
  rw [names, List.splitOn_append_cons_self, List.filter_append]
  rfl

lemma slashed_append : Slashed (u ++ '/' :: v) ↔ v = [] ∨ Slashed v := by
  rw [Slashed, Slashed, List.getLast?_append_cons]
  cases v with
  | nil => simp
  | cons c v => simp

lemma names_of_not_mem (hne : path ≠ []) (h : '/' ∉ path) : names path = [path] := by
  rw [names, List.splitOn_eq_singleton h]
  simp [hne]

lemma names_ne_nil (hne : path ≠ []) (h : ¬Slashed path) : names path ≠ [] := by
  induction hlen : path.length using Nat.strong_induction_on generalizing path with
  | h len ih =>
    by_cases hmem : '/' ∈ path
    · obtain ⟨x, v, rfl, -⟩ := List.eq_append_cons_of_mem hmem
      rw [slashed_append, not_or] at h
      have hless : v.length < len := by
        rw [← hlen, List.length_append, List.length_cons]
        omega
      rw [names_append]
      exact List.append_ne_nil_of_right_ne_nil _ (ih v.length hless h.1 h.2 rfl)
    · rw [names_of_not_mem hne hmem]
      exact List.cons_ne_nil _ _

lemma steps_append (u v : Path) : ∃ rest, rest ≠ [] ∧ steps (u ++ '/' :: v) = names u ++ rest := by
  refine ⟨names v ++ if Slashed (u ++ '/' :: v) then [".".toList] else [], ?_, ?_⟩
  · by_cases h : v = [] ∨ Slashed v
    · rw [if_pos (slashed_append.2 h)]
      exact List.append_ne_nil_of_right_ne_nil _ (List.cons_ne_nil _ _)
    · have hparts := not_or.1 h
      exact List.append_ne_nil_of_left_ne_nil (names_ne_nil hparts.1 hparts.2) _
  · rw [steps, names_append, List.append_assoc]

end Names

/-! ### The calls -/

namespace Process

variable {pr : Process} {fs fs' : Fs} {path u v : Path} {q : Place}

lemma access_iff : pr.access fs path = true ↔
    path ≠ [] ∧ walk fs pr.links (pr.start path) (steps path) ≠ none := by
  simp [access, place]

lemma start_append (hu : u ≠ []) : pr.start (u ++ v) = pr.start u := by
  rw [start, start, List.head?_append_of_ne_nil u hu]

lemma access_of_append (hu : u ≠ []) (h : pr.access fs (u ++ '/' :: v) = true) :
    pr.access fs u = true := by
  obtain ⟨rest, hrest, hsteps⟩ := steps_append u v
  obtain ⟨-, hwalk⟩ := access_iff.1 h
  rw [hsteps, start_append hu, walk_append] at hwalk
  cases hd : walk fs pr.links (pr.start u) (names u) with
  | none => simp [hd] at hwalk
  | some r =>
    rw [hd, Option.bind_some] at hwalk
    refine access_iff.2 ⟨hu, ?_⟩
    rw [steps, walk_append, hd, Option.bind_some]
    split
    case isTrue =>
      rw [walk_dot (isDir_of_walk hrest hwalk)]
      exact Option.some_ne_none _
    case isFalse =>
      cases r.1 <;> exact Option.some_ne_none _

lemma lstat_of_access (h : pr.access fs path = true) : pr.lstat fs path = true := by
  rw [lstat]
  split
  case isTrue => exact h
  case isFalse hslash =>
    obtain ⟨hne, hwalk⟩ := access_iff.1 h
    have hnames := names_ne_nil hne hslash
    have hsplit : names path = (names path).dropLast ++ [(names path).getLast hnames] :=
      (List.dropLast_append_getLast hnames).symm
    rw [steps, if_neg hslash, List.append_nil, hsplit, walk_append] at hwalk
    cases hd : walk fs pr.links (pr.start path) (names path).dropLast with
    | none => simp [hd] at hwalk
    | some r =>
      rw [hd, Option.bind_some] at hwalk
      have hdir : pr.dirOf fs path = some r.2 := by rw [dirOf, hd, Option.map_some]
      rw [List.getLast?_eq_some_getLast hnames, hdir]
      exact decide_eq_true (has_of_walk hwalk)

/-- The path names a link that does not lead to anything. -/
structure Dangling (pr : Process) (fs : Fs) (path : Path) : Prop where
  slash : ¬Slashed path
  link : ∃ n d target, (names path).getLast? = some n ∧ pr.dirOf fs path = some d ∧
    (fs.obj (d ++ [n])).map Obj.kind = some (.lnk target)
  nowhere : pr.access fs path = false

lemma access_of_lstat (h : pr.lstat fs path = true) (hdang : ¬Dangling pr fs path) :
    pr.access fs path = true := by
  by_contra hacc
  rw [lstat] at h
  split at h
  case isTrue => exact hacc h
  case isFalse hslash =>
    split at h
    case h_2 => cases h
    case h_1 n d hn hd =>
      obtain ⟨hdir, hname⟩ := of_decide_eq_true h
      have hnone : walk fs pr.links (pr.start path) (names path) = none := by
        by_contra hsome
        refine hacc (access_iff.2 ⟨?_, ?_⟩)
        · rintro rfl
          cases hn
        · rwa [steps, if_neg hslash, List.append_nil]
      obtain ⟨⟨k, d⟩, hr, rfl⟩ := Option.map_eq_some_iff.1 hd
      rw [← List.dropLast_append_getLast? n hn, walk_append, hr, Option.bind_some] at hnone
      by_cases hdot : dot n
      · rcases hdot with rfl | rfl
        · exact Option.some_ne_none _ ((walk_dot hdir).symm.trans hnone)
        · exact Option.some_ne_none _ ((walk_dots hdir).symm.trans hnone)
      · obtain ⟨o, ho⟩ := Option.ne_none_iff_exists'.1 (hname.resolve_left hdot)
        have hkind : (fs.obj (d ++ [n])).map Obj.kind = some o.kind := by rw [ho, Option.map_some]
        by_cases hlnk : ∃ target, o.kind = .lnk target
        · obtain ⟨target, htarget⟩ := hlnk
          refine hdang ⟨hslash, ⟨n, d, target, hn, hd, ?_⟩, Bool.eq_false_iff.2 hacc⟩
          rw [hkind, htarget]
        · have hwalk := walk_name (n := k) hdir hdot hkind (not_exists.1 hlnk)
          exact Option.some_ne_none _ (hwalk.symm.trans hnone)

lemma Dangling.lstat (h : Dangling pr fs path) : pr.lstat fs path = true := by
  obtain ⟨hslash, ⟨n, d, target, hn, hd, hlnk⟩, -⟩ := h
  obtain ⟨o, ho, -⟩ := Option.map_eq_some_iff.1 hlnk
  have hne : fs.obj (d ++ [n]) ≠ none := by
    rw [ho]
    exact Option.some_ne_none o
  rw [Process.lstat, if_neg hslash, hn, hd]
  exact decide_eq_true ⟨fs.parent d n hne, Or.inr hne⟩

/-- What `lstat` finds and `access` does not are the links that lead nowhere. -/
lemma lstat_iff : pr.lstat fs path = true ↔ pr.access fs path = true ∨ Dangling pr fs path := by
  constructor
  · intro h
    by_cases hdang : Dangling pr fs path
    · exact Or.inr hdang
    · exact Or.inl (access_of_lstat h hdang)
  · rintro (h | h)
    · exact lstat_of_access h
    · exact h.lstat

lemma place_extends (h : Extends fs fs') (hq : pr.place fs path = some q) :
    pr.place fs' path = some q := by
  obtain ⟨r, hr, rfl⟩ := Option.map_eq_some_iff.1 hq
  rw [place, walk_extends h hr, Option.map_some]

structure Made (fs fs' : Fs) (q : Place) : Prop where
  free : fs.obj q = none
  made : (fs'.obj q).map Obj.kind = some .dir
  other : ∀ p, p ≠ q → fs'.obj p = fs.obj p

lemma Made.extends (h : Made fs fs' q) : Extends fs fs' := by
  intro p o ho
  rw [h.other p, ho]
  rintro rfl
  rw [h.free] at ho
  cases ho

lemma Made.isDir (h : Made fs fs' q) : fs'.IsDir q := Option.map_eq_some_iff.1 h.made

lemma made_create {d : Place} {n : Name} (perm : BitVec 12) (ino : ℕ) (hd : fs.IsDir d)
    (hn : ¬dot n) (hfree : fs.obj (d ++ [n]) = none) :
    Made fs (create fs d n perm ino hd hn hfree) (d ++ [n]) where
  free := hfree
  made := congrArg (Option.map Obj.kind) (if_pos rfl)
  other _ hp := if_neg hp

lemma place_of_made {d : Place} {n : Name} (h : Made fs fs' (d ++ [n]))
    (hn : (names path).getLast? = some n) (hd : pr.dirOf fs path = some d) (hdot : ¬dot n)
    (hdir : fs.IsDir d) : pr.place fs' path = some (d ++ [n]) := by
  obtain ⟨⟨k, d⟩, hr, rfl⟩ := Option.map_eq_some_iff.1 hd
  have hsplit : names path = (names path).dropLast ++ [n] :=
    (List.dropLast_append_getLast? n hn).symm
  have hwalk : walk fs' pr.links (pr.start path) (names path) = some (k, d ++ [n]) := by
    rw [hsplit, walk_append, walk_extends h.extends hr]
    exact walk_name (h.extends.isDir hdir) hdot h.made fun _ h => Kind.noConfusion h
  rw [place, steps, walk_append, hwalk, Option.bind_some]
  split
  case isTrue => rw [walk_dot h.isDir, Option.map_some]
  case isFalse => cases k <;> rfl

/-- **`mkdir` makes a directory where the path leads to, and nothing else.** -/
theorem exists_made (h : pr.mkdir fs path = some fs') :
    ∃ q, Made fs fs' q ∧ pr.place fs' path = some q := by
  rw [mkdir] at h
  split at h
  case h_2 => cases h
  case h_1 n d hn hd =>
    split at h
    case isFalse => cases h
    case isTrue hfree =>
      obtain ⟨hdir, hnot⟩ := hfree
      obtain rfl := Option.some.inj h
      have hdot : ¬dot n := fun hdot => hnot ⟨hdir, Or.inl hdot⟩
      have hnone : fs.obj (d ++ [n]) = none := by
        by_contra hne
        exact hnot ⟨hdir, Or.inr hne⟩
      have hmade := made_create (0o775 &&& ~~~pr.umask) (pr.ino fs) hdir hdot hnone
      exact ⟨d ++ [n], hmade, place_of_made hmade hn hd hdot hdir⟩

lemma access_of_mkdir (h : pr.mkdir fs path = some fs') : pr.access fs' path = true := by
  obtain ⟨q, -, hq⟩ := exists_made h
  refine decide_eq_true ⟨?_, ?_⟩
  · rintro rfl
    cases h
  · rw [hq]
    exact Option.some_ne_none q

end Process

end Sylar.PathWalk
