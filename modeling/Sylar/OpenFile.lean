import Sylar.FileAppender
import Sylar.MakeDir

/-!
`FSUtil::OpenForWrite` on a file system, by a process that may do everything.

Where a file cannot be opened, the directories on the way to it are made, and it is tried again.
`Mkdir` looks at every prefix of the path from its start; what comes out is what one pass through
the names of the path would make. What is in a file is left out: a mode that truncates empties the
file that it opens, and the result is about appending.
-/

namespace Sylar.OpenFile

open Lib.Memory Sylar.FileSystem Sylar.PathWalk Sylar.MakeDir
open Sylar.FileAppender (Ofstream)

/-! ### Opening a file -/

section Walk

variable (fs : Fs)

/-- The directory and the name that the names lead to when the last one is followed, too. It may be
a name of nothing, but no dot. `n` and `jump` are as in a walk. -/
def leadWith (n : ℕ) (jump : List Name → Option (Place × Name)) :
    Place → List Name → Option (Place × Name)
  | _, [] => none
  | cur, c :: cs =>
    if fs.IsDir cur then
      if c = ".".toList then leadWith n jump cur cs
      else if c = "..".toList then leadWith n jump cur.dropLast cs
      else
        match (fs.obj (cur ++ [c])).map Obj.kind with
        | none => if cs = [] then some (cur, c) else none
        | some (.lnk target) => jump (target ++ cs)
        | some _ => if cs = [] then some (cur, c) else leadWith n jump (cur ++ [c]) cs
    else none

def lead : ℕ → Place → List Name → Option (Place × Name)
  | 0 => leadWith fs 0 fun _ => none
  | n + 1 => leadWith fs (n + 1) fun cs => lead n [] cs

end Walk

def touch (fs : Fs) (d : Place) (n : Name) (o : Obj) (hd : fs.IsDir d) (hn : ¬dot n)
    (hfree : fs.obj (d ++ [n]) = none) : Fs where
  obj q := if q = d ++ [n] then some o else fs.obj q
  keys := (d ++ [n]) :: fs.keys
  mem_keys q hq := by
    by_cases h : q = d ++ [n]
    · exact h ▸ List.mem_cons_self
    · rw [if_neg h] at hq
      exact List.mem_cons_of_mem _ (fs.mem_keys q hq)
  parent q m hq := by
    have hne : q ≠ d ++ [n] := by
      rintro rfl
      have hlong : d ++ [n] ++ [m] ≠ d ++ [n] := by simp
      rw [if_neg hlong] at hq
      obtain ⟨o, ho, -⟩ := fs.parent _ m hq
      rw [hfree] at ho
      cases ho
    rw [if_neg hne]
    by_cases h : q ++ [m] = d ++ [n]
    · obtain ⟨rfl, -⟩ := List.append_inj' h rfl
      exact hd
    · rw [if_neg h] at hq
      exact fs.parent q m hq
  dots q m hm := by
    have hne : q ++ [m] ≠ d ++ [n] := by
      intro h
      obtain ⟨-, hmn⟩ := List.append_inj' h rfl
      exact hn (List.head_eq_of_cons_eq hmn ▸ hm)
    rw [if_neg hne]
    exact fs.dots q m hm

/-- `std::ios_base::openmode`, where `input` is its `in`. -/
structure OpenMode where
  input : Bool := false
  trunc : Bool := false
  app : Bool := false

/-- `fopen` knows the mode, which has `out` with it. -/
def OpenMode.known (mode : OpenMode) : Bool := !(mode.trunc && mode.app)

def OpenMode.creates (mode : OpenMode) : Bool := !mode.input || mode.trunc || mode.app

section Model

-- `ready` tells which of the pipes and devices can be opened
variable (pr : Process) (ready : Place → Bool) (mode : OpenMode)

/-- What stands at the place can be opened to write. -/
def writable (q : Place) : Kind → Bool
  | .reg => true
  | .fifo | .chr | .blk => ready q
  | .dir | .lnk _ | .sock => false

def openFile (path : Path) (fs : Fs) : Option Fs :=
  if mode.known = false ∨ Slashed path then none
  else
    match lead fs pr.links (pr.start path) (names path) with
    | none => none
    | some (d, n) =>
      match ho : fs.obj (d ++ [n]) with
      | none =>
        if h : mode.creates = true ∧ fs.IsDir d ∧ ¬dot n then
          some (touch fs d n ⟨.reg, 0o666 &&& ~~~pr.umask, pr.ino fs⟩ h.2.1 h.2.2 ho)
        else none
      | some o => if writable ready (d ++ [n]) o.kind then some fs else none

def ofstreamOpen (ofs : Ofstream) (path : Path) (fs : Fs) : Ofstream × Fs :=
  if ofs.isOpen then (ofs.tryOpen false, fs)
  else
    match openFile pr ready mode path fs with
    | some fs => (ofs.tryOpen true, fs)
    | none => (ofs.tryOpen false, fs)

def Dirname (filename : Path) : Path :=
  if filename = [] then ".".toList
  else
    match (filename.reverse.idxOf? '/').map (filename.length - 1 - ·) with
    | some 0 => "/".toList
    | none => ".".toList
    | some pos => filename.take pos

def OpenForWrite (ofs : Ofstream) (filename : Path) (fs : Fs) : Option (Ofstream × Bool × Fs) :=
  let r := ofstreamOpen pr ready mode ofs (cstr '\x00' filename) fs
  if r.1.isOpen then some (r.1, true, r.2)
  else
    (Mkdir pr (Dirname filename) r.2).map fun m =>
      let r := ofstreamOpen pr ready mode r.1 (cstr '\x00' filename) m.2.fs
      (r.1, r.1.isOpen, r.2)

/-! ### One pass -/

/-- A name on the way is followed, or a directory of that name is made. -/
def makeDir (fs : Fs) (n : ℕ) (cur : Place) (c : Name) : Option (Fs × ℕ × Place) :=
  match walk fs n cur [c] with
  | some r => some (fs, r)
  | none =>
    if h : fs.IsDir cur ∧ ¬Has fs cur c then
      some (create fs cur c (0o775 &&& ~~~pr.umask) (pr.ino fs) h.1
        (fun hdot => h.2 ⟨h.1, Or.inl hdot⟩)
        (by
          by_contra hne
          exact h.2 ⟨h.1, Or.inr hne⟩), n, cur ++ [c])
    else none

def makeDirs : Fs → ℕ → Place → List Name → Fs
  | fs, _, _, [] => fs
  | fs, n, cur, c :: cs =>
    match makeDir pr fs n cur c with
    | some (fs, n, cur) => makeDirs fs n cur cs
    | none => fs

end Model

/-- The names of the directories on the way to a file. -/
def dirNames (path : Path) : List Name :=
  if Slashed path then names path else (names path).dropLast

/-! ### Names -/

section Names

variable {a b u v filename : Path}

lemma names_nil : names [] = [] := by decide

def Whole (a : Path) : Prop := a = [] ∨ Slashed a

lemma names_whole (ha : Whole a) (b : Path) : names (a ++ b) = names a ++ names b := by
  obtain rfl | hslash := ha
  · rw [names_nil, List.nil_append, List.nil_append]
  · obtain ⟨u, rfl⟩ : ∃ u, a = u ++ ['/'] :=
      ⟨a.dropLast, (List.dropLast_append_getLast? '/' hslash).symm⟩
    rw [List.append_assoc, List.singleton_append, names_append, names_append, names_nil,
      List.append_nil]

lemma names_snoc (u : Path) : names (u ++ ['/']) = names u := by
  rw [names_append, names_nil, List.append_nil]

lemma slashed_snoc (u : Path) : Slashed (u ++ ['/']) := List.getLast?_concat

lemma not_slashed_of_part (hb : '/' ∉ b) (hne : b ≠ []) : ¬Slashed (a ++ b) := by
  intro h
  rw [Slashed, List.getLast?_append_of_ne_nil a hne] at h
  exact hb (List.mem_of_getLast? h)

lemma exists_last_slash (h : '/' ∈ filename) : ∃ u v, filename = u ++ '/' :: v ∧ '/' ∉ v := by
  obtain ⟨v, u, heq, hv⟩ := List.eq_append_cons_of_mem (List.mem_reverse.2 h)
  refine ⟨u.reverse, v.reverse, ?_, by simpa using hv⟩
  rw [← List.reverse_reverse filename, heq, List.reverse_append, List.reverse_cons,
    List.append_assoc, List.singleton_append]

lemma Dirname_slash (u : Path) (hv : '/' ∉ v) :
    Dirname (u ++ '/' :: v) = if u = [] then "/".toList else u := by
  have hne : u ++ '/' :: v ≠ [] := List.append_ne_nil_of_right_ne_nil _ (List.cons_ne_nil _ _)
  have hrev : (u ++ '/' :: v).reverse = v.reverse ++ '/' :: u.reverse := by simp
  have hpos : (u ++ '/' :: v).length - 1 - v.reverse.length = u.length := by simp
  rw [Dirname, if_neg hne, hrev, idxOf?_append_cons (by simpa using hv), Option.map_some, hpos]
  cases u with
  | nil => rfl
  | cons c u => exact List.take_left

lemma Dirname_plain (h : '/' ∉ filename) : Dirname filename = ".".toList := by
  rw [Dirname]
  split
  case isTrue => rfl
  case isFalse =>
    rw [List.idxOf?_eq_none_iff.2 (by simpa using h), Option.map_none]

lemma dirNames_slash (u : Path) (hv : '/' ∉ v) : dirNames (u ++ '/' :: v) = names u := by
  rw [dirNames, names_append]
  split
  case isTrue hslash =>
    rcases slashed_append.1 hslash with rfl | hslash
    · rw [names_nil, List.append_nil]
    · exact absurd (List.mem_of_getLast? hslash) hv
  case isFalse hslash =>
    have hne : v ≠ [] := fun hnil => hslash (slashed_append.2 (Or.inl hnil))
    rw [names_of_not_mem hne hv, List.dropLast_concat]

lemma dirNames_plain (h : '/' ∉ filename) : dirNames filename = [] := by
  have hslash : ¬Slashed filename := fun hslash => h (List.mem_of_getLast? hslash)
  rw [dirNames, if_neg hslash]
  by_cases hne : filename = []
  · rw [hne, names_nil]
    rfl
  · rw [names_of_not_mem hne h]
    rfl

end Names

/-! ### One pass and many -/

section Mkdir

variable {pr : Process} {fs fs' : Fs} {n k : ℕ} {cur q : Place} {c : Name} {cs ds : List Name}

lemma walk_nil (fs : Fs) (n : ℕ) (cur : Place) : walk fs n cur [] = some (n, cur) := by
  cases n <;> rfl

lemma makeDirs_append (h : walk fs n cur cs = some (k, q)) :
    makeDirs pr fs n cur (cs ++ ds) = makeDirs pr fs k q ds := by
  induction cs generalizing n cur with
  | nil =>
    rw [walk_nil] at h
    cases h
    rfl
  | cons c cs ih =>
    rw [← List.singleton_append, walk_append] at h
    obtain ⟨⟨m, r⟩, hr, hrest⟩ := Option.bind_eq_some_iff.1 h
    rw [List.cons_append, makeDirs, makeDir, hr]
    exact ih hrest

lemma makeDirs_of_walk (h : walk fs n cur cs ≠ none) : makeDirs pr fs n cur cs = fs := by
  obtain ⟨⟨k, q⟩, hr⟩ := Option.ne_none_iff_exists'.1 h
  rw [← List.append_nil cs, makeDirs_append hr, makeDirs]

lemma makeDirs_of_not_dir (h : ¬fs.IsDir cur) (cs : List Name) : makeDirs pr fs n cur cs = fs := by
  cases cs with
  | nil => rfl
  | cons c cs =>
    have hnone : walk fs n cur [c] = none := by
      by_contra hsome
      exact h (isDir_of_walk (List.cons_ne_nil c []) hsome)
    rw [makeDirs, makeDir, hnone]
    dsimp only
    rw [dif_neg fun hdir => h hdir.1]

lemma makeDirs_dot : makeDirs pr fs n cur [".".toList] = fs := by
  by_cases hdir : fs.IsDir cur
  · refine makeDirs_of_walk ?_
    rw [walk_dot hdir]
    exact Option.some_ne_none _
  · exact makeDirs_of_not_dir hdir _

variable {p u v a b : Path} {s : St}

lemma mkdir_of_walk (h : walk s.fs pr.links (pr.start p) (names p) ≠ none) :
    (MakeDir.mkdir pr p s).2.fs = s.fs := by
  have hnot : pr.mkdir s.fs p = none := by
    rw [Process.mkdir]
    split
    case h_2 => rfl
    case h_1 c d hc hd =>
      obtain ⟨⟨k, d⟩, hr, rfl⟩ := Option.map_eq_some_iff.1 hd
      rw [← List.dropLast_append_getLast? c hc, walk_append, hr, Option.bind_some] at h
      exact dif_neg fun hfree => hfree.2 (has_of_walk h)
  rw [MakeDir.mkdir]
  dsimp only
  rw [hnot]
  split <;> rfl

/-- It fails there only where what the path leads to is no directory. -/
lemma not_dir_of_mkdir (hw : walk s.fs pr.links (pr.start p) (names p) = some (k, cur))
    (hslash : Slashed p) (h : (MakeDir.mkdir pr p s).1 = false) : ¬s.fs.IsDir cur := by
  intro hdir
  have hne : p ≠ [] := by
    rintro rfl
    cases hslash
  have hacc : pr.access s.fs p = true := by
    refine Process.access_iff.2 ⟨hne, ?_⟩
    rw [steps, if_pos hslash, walk_append, hw, Option.bind_some, walk_dot hdir]
    exact Option.some_ne_none _
  rw [MakeDir.mkdir] at h
  dsimp only at h
  rw [hacc, if_pos rfl] at h
  cases h

lemma mkdir_name (ha : Whole a) (hb : '/' ∉ b) (hne : b ≠ [])
    (hw : walk s.fs pr.links (pr.start (a ++ b)) (names a) = some (k, cur)) :
    match makeDir pr s.fs k cur b with
    | some (fs', k', q) => (MakeDir.mkdir pr (a ++ b) s).1 = true ∧
        (MakeDir.mkdir pr (a ++ b) s).2.fs = fs' ∧
        walk fs' pr.links (pr.start (a ++ b)) (names (a ++ b)) = some (k', q)
    | none => (MakeDir.mkdir pr (a ++ b) s).1 = false ∧
        (MakeDir.mkdir pr (a ++ b) s).2.fs = s.fs := by
  have hnames : names (a ++ b) = names a ++ [b] := by
    rw [names_whole ha, names_of_not_mem hne hb]
  have hslash : ¬Slashed (a ++ b) := not_slashed_of_part hb hne
  have hpath : a ++ b ≠ [] := List.append_ne_nil_of_right_ne_nil _ hne
  have hstep {fs : Fs} (hw : walk fs pr.links (pr.start (a ++ b)) (names a) = some (k, cur)) :
      walk fs pr.links (pr.start (a ++ b)) (names (a ++ b)) = walk fs k cur [b] := by
    rw [hnames, walk_append, hw, Option.bind_some]
  have hacc : pr.access s.fs (a ++ b) = true ↔ walk s.fs k cur [b] ≠ none := by
    rw [Process.access_iff, and_iff_right hpath, steps, if_neg hslash, List.append_nil, hstep hw]
  rw [makeDir, MakeDir.mkdir]
  dsimp only
  cases hr : walk s.fs k cur [b] with
  | some r =>
    rw [if_pos (hacc.2 (hr ▸ Option.some_ne_none r))]
    exact ⟨rfl, rfl, (hstep hw).trans hr⟩
  | none =>
    rw [if_neg fun h => hacc.1 h hr]
    have hlast : (names (a ++ b)).getLast? = some b := by rw [hnames, List.getLast?_concat]
    have hdir : pr.dirOf s.fs (a ++ b) = some cur := by
      rw [Process.dirOf, hnames, List.dropLast_concat, hw, Option.map_some]
    simp only [Process.mkdir, hlast, hdir]
    by_cases hfree : s.fs.IsDir cur ∧ ¬Has s.fs cur b
    · rw [dif_pos hfree, dif_pos hfree]
      have hdot : ¬dot b := fun hdot => hfree.2 ⟨hfree.1, Or.inl hdot⟩
      have hnone : s.fs.obj (cur ++ [b]) = none := by
        by_contra hne
        exact hfree.2 ⟨hfree.1, Or.inr hne⟩
      have hmade := Process.made_create (0o775 &&& ~~~pr.umask) (pr.ino s.fs) hfree.1 hdot hnone
      refine ⟨rfl, rfl, (hstep (walk_extends hmade.extends hw)).trans ?_⟩
      exact walk_name (hmade.extends.isDir hfree.1) hdot hmade.made fun _ h => Kind.noConfusion h
    · rw [dif_neg hfree, dif_neg hfree]
      exact ⟨rfl, rfl⟩

/-- **The prefixes of a path, each walked from the start, are made by one pass.** What stands before
the last slash of `u` has been made. -/
lemma tryAll_cuts (pr : Process) (ha : Whole a) (hb : '/' ∉ b) (hne : a ++ b ≠ [])
    (hw : walk s.fs pr.links (pr.start (a ++ b)) (names a) = some (k, cur)) :
    (tryAll pr (cuts (a ++ b) v ++ [a ++ b ++ v]) s).2.fs =
      makeDirs pr s.fs k cur (names (b ++ v)) := by
  induction v generalizing a b s k cur with
  | nil =>
    rw [cuts, List.nil_append, List.append_nil, List.append_nil, tryAll_singleton]
    by_cases hbne : b = []
    · subst hbne
      rw [List.append_nil] at hw ⊢
      rw [names_nil, makeDirs, mkdir_of_walk (hw ▸ Option.some_ne_none _)]
    · have hname := mkdir_name ha hb hbne hw
      rw [names_of_not_mem hbne hb, makeDirs]
      cases hmake : makeDir pr s.fs k cur b with
      | none =>
        rw [hmake] at hname
        exact hname.2
      | some r =>
        rw [hmake] at hname
        exact hname.2.1
  | cons c v ih =>
    by_cases hc : c = '/'
    · subst hc
      rw [cuts, if_pos rfl, List.append_assoc [a ++ b], List.singleton_append, tryAll]
      -- the next part starts behind the slash
      have hwhole : Whole (a ++ b ++ ['/']) := Or.inr (slashed_snoc _)
      have hstart : pr.start (a ++ b ++ ['/']) = pr.start (a ++ b) := Process.start_append hne
      have hnext {s : St} {k : ℕ} {cur : Place}
          (hw : walk s.fs pr.links (pr.start (a ++ b)) (names (a ++ b)) = some (k, cur)) :
          (tryAll pr (cuts (a ++ b ++ ['/']) v ++ [a ++ b ++ '/' :: v]) s).2.fs =
            makeDirs pr s.fs k cur (names v) := by
        have hih := ih hwhole (b := []) (s := s) List.not_mem_nil (by simp)
          (by rw [List.append_nil, hstart, names_snoc, hw])
        rwa [List.append_nil, List.nil_append, ← List.append_cons] at hih
      by_cases hbne : b = []
      · subst hbne
        simp only [List.append_nil] at hne hw hnext ⊢
        rw [names_append, names_nil, List.nil_append]
        have hsame := mkdir_of_walk (hw ▸ Option.some_ne_none (k, cur))
        have hslash := ha.resolve_left hne
        cases hres : MakeDir.mkdir pr a s with
        | mk ok s₁ =>
          rw [hres] at hsame
          have hsame : s₁.fs = s.fs := hsame
          cases ok with
          | false =>
            have hdir := not_dir_of_mkdir hw hslash (congrArg Prod.fst hres)
            exact hsame.trans (makeDirs_of_not_dir hdir _).symm
          | true =>
            rw [← hsame]
            exact hnext (hsame ▸ hw)
      · have hname := mkdir_name ha hb hbne hw
        rw [names_append, names_of_not_mem hbne hb, List.singleton_append, makeDirs]
        cases hres : MakeDir.mkdir pr (a ++ b) s with
        | mk ok s₁ =>
          rw [hres] at hname
          cases hmake : makeDir pr s.fs k cur b with
          | none =>
            rw [hmake] at hname
            obtain ⟨rfl, hsame⟩ : ok = false ∧ s₁.fs = s.fs := hname
            exact hsame
          | some r =>
            rw [hmake] at hname
            obtain ⟨rfl, hsame, hnew⟩ : ok = true ∧ s₁.fs = r.1 ∧
              walk r.1 pr.links (pr.start (a ++ b)) (names (a ++ b)) = some (r.2.1, r.2.2) := hname
            dsimp only
            rw [← hsame]
            exact hnext (hsame ▸ hnew)
    · rw [cuts, if_neg hc, List.nil_append, List.append_cons (a ++ b) c v,
        List.append_assoc a b [c], List.append_cons b c v]
      have hstart : pr.start (a ++ b ++ [c]) = pr.start (a ++ b) := Process.start_append hne
      rw [List.append_assoc] at hstart
      refine ih ha ?_ ?_ (by rw [hstart, hw])
      · rw [List.mem_append, not_or, List.mem_singleton]
        exact ⟨hb, fun h => hc h.symm⟩
      · rw [← List.append_assoc]
        exact List.append_ne_nil_of_left_ne_nil hne _

lemma makeDirs_of_lstat {path : Path} (h : pr.lstat fs path = true) :
    makeDirs pr fs pr.links (pr.start path) (names path) = fs := by
  rcases Process.lstat_iff.1 h with hacc | ⟨hslash, ⟨c, d, target, hc, hd, hlnk⟩, hacc⟩
  · obtain ⟨-, hwalk⟩ := Process.access_iff.1 hacc
    refine makeDirs_of_walk fun hnone => hwalk ?_
    rw [steps, walk_append, hnone, Option.bind_none]
  · -- a link that leads nowhere is in the way
    obtain ⟨⟨k, d⟩, hr, rfl⟩ := Option.map_eq_some_iff.1 hd
    have hne : path ≠ [] := by
      rintro rfl
      cases hc
    have hnone : walk fs pr.links (pr.start path) (names path) = none := by
      by_contra hsome
      refine Bool.eq_false_iff.1 hacc (Process.access_iff.2 ⟨hne, ?_⟩)
      rwa [steps, if_neg hslash, List.append_nil]
    have hobj : fs.obj (d ++ [c]) ≠ none := by
      intro hobj
      rw [hobj] at hlnk
      cases hlnk
    rw [← List.dropLast_append_getLast? c hc] at hnone ⊢
    rw [walk_append, hr, Option.bind_some] at hnone
    rw [makeDirs_append hr, makeDirs, makeDir, hnone]
    dsimp only
    rw [dif_neg fun hfree => hfree.2 ⟨hfree.1, Or.inr hobj⟩]

/-- **`Mkdir` makes what one pass makes.** -/
theorem Mkdir_eq (pr : Process) (fs : Fs) {dirname path : Path}
    (hpath : cstr '\x00' dirname = path) (hne : path ≠ []) :
    ∃ ret s, Mkdir pr dirname fs = some (ret, s) ∧
      s.fs = makeDirs pr fs pr.links (pr.start path) (names path) := by
  cases h : pr.lstat fs path with
  | true => exact ⟨_, _, Mkdir_of_lstat hpath h, (makeDirs_of_lstat h).symm⟩
  | false =>
    refine ⟨_, _, Mkdir_of_not_lstat hpath hne h, ?_⟩
    obtain ⟨c, v, rfl⟩ := List.exists_cons_of_ne_nil hne
    rw [prefixes_cons]
    by_cases hc : c = '/'
    · subst hc
      have hwhole : Whole ['/'] := Or.inr rfl
      have hcuts := tryAll_cuts pr (b := []) (v := v) (s := ⟨fs, []⟩) hwhole List.not_mem_nil
        (by simp) (walk_nil fs pr.links _)
      have hnames : names ('/' :: v) = names v := by
        rw [← List.nil_append ('/' :: v), names_append, names_nil, List.nil_append]
      rw [hnames]
      exact hcuts
    · have hone : '/' ∉ [c] := by
        rw [List.mem_singleton]
        exact fun h => hc h.symm
      exact tryAll_cuts pr (a := []) (v := v) (s := ⟨fs, []⟩) (Or.inl rfl) hone (by simp)
        (walk_nil fs pr.links _)

lemma makeDirs_Dirname (filename : Path) :
    makeDirs pr fs pr.links (pr.start (Dirname filename)) (names (Dirname filename)) =
      makeDirs pr fs pr.links (pr.start filename) (dirNames filename) := by
  by_cases h : '/' ∈ filename
  · obtain ⟨u, v, rfl, hv⟩ := exists_last_slash h
    rw [Dirname_slash u hv, dirNames_slash u hv]
    by_cases hu : u = []
    · subst hu
      rfl
    · rw [if_neg hu, Process.start_append hu]
  · rw [Dirname_plain h, dirNames_plain h]
    exact makeDirs_dot

end Mkdir

/-! ### What a name leads to -/

section Lead

variable {fs : Fs} {n k : ℕ} {cur d : Place} {c : Name} {cs : List Name}

lemma lead_nil (fs : Fs) (n : ℕ) (cur : Place) : lead fs n cur [] = none := by
  cases n <;> rfl

lemma leadWith_append {jump : List Name → Option (ℕ × Place)}
    {jump' : List Name → Option (Place × Name)} {go : ℕ × Place → Option (Place × Name)}
    (hjump : ∀ cs, jump' (cs ++ [c]) = (jump cs).bind go)
    (hgo : ∀ cur, leadWith fs n jump' cur [c] = go (n, cur)) (cur : Place) (cs : List Name) :
    leadWith fs n jump' cur (cs ++ [c]) = (walkWith fs n jump cur cs).bind go := by
  induction cs generalizing cur with
  | nil => exact hgo cur
  | cons b cs ih =>
    have hne : cs ++ [c] ≠ [] := List.append_ne_nil_of_right_ne_nil _ (List.cons_ne_nil _ _)
    rw [List.cons_append, leadWith, walkWith]
    split
    case isFalse => rfl
    case isTrue =>
      split
      case isTrue => exact ih cur
      case isFalse =>
        split
        case isTrue => exact ih cur.dropLast
        case isFalse =>
          cases (fs.obj (cur ++ [b])).map Obj.kind with
          | none => rfl
          | some kind =>
            cases kind with
            | lnk target => exact (congrArg jump' (List.append_assoc ..).symm).trans (hjump _)
            | _ => exact ih (cur ++ [b])

lemma lead_append (fs : Fs) (n : ℕ) (cur : Place) (cs : List Name) (c : Name) :
    lead fs n cur (cs ++ [c]) = (walk fs n cur cs).bind fun r => lead fs r.1 r.2 [c] := by
  induction n generalizing cur cs with
  | zero => exact leadWith_append (fun _ => rfl) (fun _ => rfl) cur cs
  | succ n ih => exact leadWith_append (fun cs => ih [] cs) (fun _ => rfl) cur cs

lemma lead_free (hdir : fs.IsDir cur) (hdot : ¬dot c) (hfree : fs.obj (cur ++ [c]) = none) :
    lead fs n cur [c] = some (cur, c) := by
  have hone : ¬c = ".".toList := fun h => hdot (Or.inl h)
  have htwo : ¬c = "..".toList := fun h => hdot (Or.inr h)
  have hlead : ∀ jump, leadWith fs n jump cur [c] = some (cur, c) := fun jump => by
    rw [leadWith, if_pos hdir, if_neg hone, if_neg htwo, hfree]
    rfl
  cases n with
  | zero => exact hlead _
  | succ n => exact hlead _

lemma lead_dot (hdot : dot c) : lead fs n cur [c] = none := by
  have hlead : ∀ jump, leadWith fs n jump cur [c] = none := fun jump => by
    rw [leadWith]
    rcases hdot with rfl | rfl
    · split <;> rfl
    · split <;> rfl
  cases n with
  | zero => exact hlead _
  | succ n => exact hlead _

end Lead

/-! ### What is new -/

/-- Everything stays, and what is new is of a kind. -/
structure Adds (P : Place → Kind → Prop) (fs fs' : Fs) : Prop where
  keeps : Extends fs fs'
  new : ∀ p o, fs'.obj p = some o → fs.obj p = some o ∨ P p o.kind

section Adds

variable {P Q : Place → Kind → Prop} {fs fs₁ fs₂ : Fs}

lemma Adds.refl (P : Place → Kind → Prop) (fs : Fs) : Adds P fs fs :=
  ⟨fun _ _ h => h, fun _ _ h => Or.inl h⟩

lemma Adds.trans (h : Adds P fs fs₁) (h' : Adds P fs₁ fs₂) : Adds P fs fs₂ :=
  ⟨fun p o ho => h'.keeps p o (h.keeps p o ho),
    fun p o ho => (h'.new p o ho).elim (h.new p o) Or.inr⟩

lemma Adds.mono (h : Adds P fs fs₁) (hpq : ∀ p kind, P p kind → Q p kind) : Adds Q fs fs₁ :=
  ⟨h.keeps, fun p o ho => (h.new p o ho).imp_right (hpq p o.kind)⟩

lemma adds_of_put {q : Place} {o : Obj} (hfree : fs.obj q = none)
    (hobj : ∀ p, fs₁.obj p = if p = q then some o else fs.obj p) (hP : P q o.kind) :
    Adds P fs fs₁ := by
  refine ⟨fun p o' ho => ?_, fun p o' ho => ?_⟩
  · have hne : p ≠ q := by
      rintro rfl
      rw [hfree] at ho
      cases ho
    rw [hobj p, if_neg hne, ho]
  · rw [hobj p] at ho
    split at ho
    case isTrue hp =>
      cases ho
      exact Or.inr (hp ▸ hP)
    case isFalse => exact Or.inl ho

variable {pr : Process} {n k : ℕ} {cur d : Place} {c : Name}

lemma free_below (h : fs.obj d = none) (c : Name) : fs.obj (d ++ [c]) = none := by
  by_contra hne
  obtain ⟨o, ho, -⟩ := fs.parent d c hne
  rw [h] at ho
  cases ho

lemma adds_makeDirs (pr : Process) (fs : Fs) (n : ℕ) (cur : Place) (cs : List Name) :
    Adds (fun _ kind => kind = .dir) fs (makeDirs pr fs n cur cs) := by
  induction cs generalizing fs n cur with
  | nil => exact Adds.refl _ _
  | cons c cs ih =>
    rw [makeDirs, makeDir]
    cases hw : walk fs n cur [c] with
    | some r => exact ih fs r.1 r.2
    | none =>
      by_cases hfree : fs.IsDir cur ∧ ¬Has fs cur c
      · have hnone : fs.obj (cur ++ [c]) = none := by
          by_contra hne
          exact hfree.2 ⟨hfree.1, Or.inr hne⟩
        simp only [dif_pos hfree]
        exact (adds_of_put hnone (fun _ => rfl) rfl).trans (ih _ _ _)
      · simp only [dif_neg hfree]
        exact Adds.refl _ _

/-- The pass makes nothing, or it comes to a name that is free. -/
lemma makeDirs_eq_or (pr : Process) (fs : Fs) (n : ℕ) (cur : Place) (cs : List Name) :
    makeDirs pr fs n cur cs = fs ∨ ∃ as c bs k d, cs = as ++ c :: bs ∧
      walk fs n cur as = some (k, d) ∧ fs.IsDir d ∧ ¬Has fs d c := by
  induction cs generalizing n cur with
  | nil => exact Or.inl rfl
  | cons c cs ih =>
    rw [makeDirs, makeDir]
    cases hw : walk fs n cur [c] with
    | some r =>
      refine (ih r.1 r.2).imp_right ?_
      rintro ⟨as, b, bs, k, d, rfl, has, hfree⟩
      refine ⟨c :: as, b, bs, k, d, rfl, ?_, hfree⟩
      rw [← List.singleton_append, walk_append, hw, Option.bind_some, has]
    | none =>
      by_cases hfree : fs.IsDir cur ∧ ¬Has fs cur c
      · exact Or.inr ⟨[], c, cs, n, cur, rfl, walk_nil fs n cur, hfree⟩
      · rw [dif_neg hfree]
        exact Or.inl rfl

lemma makeDir_free (pr : Process) (n : ℕ) (hdir : fs.IsDir cur) (hdot : ¬dot c)
    (hfree : fs.obj (cur ++ [c]) = none) :
    ∃ fs₁, makeDir pr fs n cur c = some (fs₁, n, cur ++ [c]) ∧
      Process.Made fs fs₁ (cur ++ [c]) := by
  have hnot : ¬Has fs cur c := fun h => h.2.elim hdot fun hne => hne hfree
  have hw : walk fs n cur [c] = none := by
    by_contra hne
    exact hnot (has_of_walk hne)
  rw [makeDir, hw]
  dsimp only
  rw [dif_pos ⟨hdir, hnot⟩]
  exact ⟨_, rfl, Process.made_create _ _ hdir hdot hfree⟩

/-- Behind a name that is free there is a chain of new directories, and the last one is empty. -/
lemma makeDirs_free (pr : Process) (n : ℕ) {cs : List Name} (hdir : fs.IsDir cur)
    (hdots : ∀ b ∈ c :: cs, ¬dot b) (hfree : fs.obj (cur ++ [c]) = none) :
    walk (makeDirs pr fs n cur (c :: cs)) n cur (c :: cs) = some (n, cur ++ c :: cs) ∧
      (makeDirs pr fs n cur (c :: cs)).IsDir (cur ++ c :: cs) ∧
      ∀ b, (makeDirs pr fs n cur (c :: cs)).obj (cur ++ c :: cs ++ [b]) = none := by
  induction cs generalizing fs cur c with
  | nil =>
    have hdot := hdots c List.mem_cons_self
    obtain ⟨fs₁, hmake, hmade⟩ := makeDir_free pr n hdir hdot hfree
    have hone : makeDirs pr fs n cur [c] = fs₁ := by
      rw [makeDirs, hmake]
      rfl
    have hwalk := walk_name (n := n) (hmade.extends.isDir hdir) hdot hmade.made
      fun _ h => Kind.noConfusion h
    rw [hone]
    refine ⟨hwalk, hmade.isDir, fun b => ?_⟩
    rw [hmade.other _ (by simp)]
    exact free_below hfree b
  | cons b cs ih =>
    have hdot := hdots c List.mem_cons_self
    obtain ⟨fs₁, hmake, hmade⟩ := makeDir_free pr n hdir hdot hfree
    have hstep : makeDirs pr fs n cur (c :: b :: cs) =
        makeDirs pr fs₁ n (cur ++ [c]) (b :: cs) := by
      rw [makeDirs, hmake]
    have hbelow : fs₁.obj (cur ++ [c] ++ [b]) = none := by
      rw [hmade.other _ (by simp)]
      exact free_below hfree b
    obtain ⟨hwalk, hlast, hempty⟩ :=
      ih hmade.isDir (fun b hb => hdots b (List.mem_cons_of_mem c hb)) hbelow
    have hkeeps := (adds_makeDirs pr fs₁ n (cur ++ [c]) (b :: cs)).keeps
    have hname := walk_name (n := n) (hmade.extends.isDir hdir) hdot hmade.made
      fun _ h => Kind.noConfusion h
    have hpath : cur ++ c :: b :: cs = cur ++ [c] ++ b :: cs := List.append_cons cur c (b :: cs)
    rw [hstep, hpath]
    refine ⟨?_, hlast, hempty⟩
    have happend := walk_append (makeDirs pr fs₁ n (cur ++ [c]) (b :: cs)) n cur [c] (b :: cs)
    rw [walk_extends hkeeps hname, Option.bind_some, hwalk] at happend
    exact happend

end Adds

/-! ### What `OpenForWrite` does -/

section Result

variable {pr : Process} {ready : Place → Bool} {mode : OpenMode} {fs fs' : Fs}
  {path filename : Path} {ofs : Ofstream}

lemma adds_openFile (h : openFile pr ready mode path fs = some fs') :
    Adds (fun p kind => kind = .reg ∧ ∃ d n,
      lead fs pr.links (pr.start path) (names path) = some (d, n) ∧ p = d ++ [n]) fs fs' := by
  rw [openFile] at h
  split at h
  case isTrue => cases h
  case isFalse =>
    split at h
    case h_1 => cases h
    case h_2 d n hlead =>
      split at h
      case h_1 ho =>
        split at h
        case isFalse => cases h
        case isTrue hnew =>
          cases h
          exact adds_of_put ho (fun _ => rfl) ⟨rfl, d, n, hlead, rfl⟩
      case h_2 o ho =>
        split at h
        case isFalse => cases h
        case isTrue =>
          cases h
          exact Adds.refl _ _

lemma openFile_dirs (h : openFile pr ready mode path fs ≠ none) :
    mode.known = true ∧ ¬Slashed path ∧ ∃ n k q d c, (names path).getLast? = some n ∧
      walk fs pr.links (pr.start path) (dirNames path) = some (k, q) ∧
      lead fs k q [n] = some (d, c) := by
  rw [openFile] at h
  split at h
  case isTrue => exact absurd rfl h
  case isFalse hmode =>
    obtain ⟨hknown, hslash⟩ := not_or.1 hmode
    refine ⟨Bool.not_eq_false _ ▸ hknown, hslash, ?_⟩
    cases hlead : lead fs pr.links (pr.start path) (names path) with
    | none =>
      rw [hlead] at h
      exact absurd rfl h
    | some r =>
      have hne : names path ≠ [] := by
        intro hnil
        rw [hnil, lead_nil] at hlead
        cases hlead
      rw [← List.dropLast_append_getLast hne, lead_append] at hlead
      obtain ⟨⟨k, q⟩, hwalk, hlast⟩ := Option.bind_eq_some_iff.1 hlead
      refine ⟨_, k, q, r.1, r.2, List.getLast?_eq_some_getLast hne, ?_, hlast⟩
      rw [dirNames, if_neg hslash, hwalk]

lemma made_of_opens (h : openFile pr ready mode path fs ≠ none) :
    makeDirs pr fs pr.links (pr.start path) (dirNames path) = fs := by
  obtain ⟨-, -, n, k, q, d, c, -, hwalk, -⟩ := openFile_dirs h
  exact makeDirs_of_walk (hwalk ▸ Option.some_ne_none _)

lemma Dirname_ne_nil (filename : Path) : Dirname filename ≠ [] := by
  by_cases h : '/' ∈ filename
  · obtain ⟨u, v, rfl, hv⟩ := exists_last_slash h
    rw [Dirname_slash u hv]
    split
    case isTrue => decide
    case isFalse hu => exact hu
  · rw [Dirname_plain h]
    decide

lemma not_mem_Dirname (hnul : '\x00' ∉ filename) : '\x00' ∉ Dirname filename := by
  by_cases h : '/' ∈ filename
  · obtain ⟨u, v, rfl, hv⟩ := exists_last_slash h
    rw [Dirname_slash u hv]
    split
    case isTrue => decide
    case isFalse => exact fun hu => hnul (List.mem_append_left _ hu)
  · rw [Dirname_plain h]
    decide

lemma ofstreamOpen_eq (hclosed : ofs.isOpen = false) (path : Path) (fs : Fs) :
    ofstreamOpen pr ready mode ofs path fs =
      (ofs.tryOpen (openFile pr ready mode path fs).isSome,
        (openFile pr ready mode path fs).getD fs) := by
  rw [ofstreamOpen, if_neg (by rw [hclosed]; exact Bool.false_ne_true)]
  cases openFile pr ready mode path fs <;> rfl

lemma tryOpen_isOpen (hclosed : ofs.isOpen = false) (ok : Bool) :
    (ofs.tryOpen ok).isOpen = ok := by
  obtain ⟨isOpen, failed⟩ := ofs
  obtain rfl : isOpen = false := hclosed
  cases ok <;> rfl

/-- A stream that has failed to open a file can still open one. -/
lemma tryOpen_again (hclosed : ofs.isOpen = false) (ok : Bool) :
    (ofs.tryOpen false).tryOpen ok = ofs.tryOpen ok := by
  obtain ⟨isOpen, failed⟩ := ofs
  obtain rfl : isOpen = false := hclosed
  cases ok <;> rfl

/-- Two attempts are one, behind the pass that makes the directories. -/
lemma OpenForWrite_eq (hnul : '\x00' ∉ filename) (hclosed : ofs.isOpen = false) :
    OpenForWrite pr ready mode ofs filename fs =
      let r := ofstreamOpen pr ready mode ofs filename
        (makeDirs pr fs pr.links (pr.start filename) (dirNames filename))
      some (r.1, r.1.isOpen, r.2) := by
  have hagain : (ofs.tryOpen false).isOpen = false := tryOpen_isOpen hclosed false
  rw [OpenForWrite, cstr_eq_self hnul, ofstreamOpen_eq hclosed]
  cases hopen : openFile pr ready mode filename fs with
  | some fs' =>
    rw [made_of_opens (hopen ▸ Option.some_ne_none fs'), ofstreamOpen_eq hclosed, hopen]
    dsimp only [Option.isSome_some, Option.getD_some]
    have hopened := tryOpen_isOpen hclosed true
    rw [if_pos hopened, hopened]
  | none =>
    obtain ⟨ret, s, hmkdir, hfs⟩ := Mkdir_eq pr fs (cstr_eq_self (not_mem_Dirname hnul))
      (Dirname_ne_nil filename)
    rw [makeDirs_Dirname] at hfs
    dsimp only [Option.isSome_none, Option.getD_none]
    rw [if_neg (by rw [hagain]; exact Bool.false_ne_true), hmkdir, Option.map_some,
      ofstreamOpen_eq hagain, hfs, ofstreamOpen_eq hclosed, tryOpen_again hclosed]

/-- A directory on the way is not there, and nothing stands in its place. -/
def Missing (pr : Process) (fs : Fs) (filename : Path) : Prop :=
  ∃ as c bs k d, dirNames filename = as ++ c :: bs ∧
    walk fs pr.links (pr.start filename) as = some (k, d) ∧ fs.IsDir d ∧ fs.obj (d ++ [c]) = none

/-- The path ends with a name that a file can have. -/
def FileName (path : Path) : Prop := ¬Slashed path ∧ ∃ n, (names path).getLast? = some n ∧ ¬dot n

/-- A name that is free is opened where the mode creates files. -/
lemma opens_free {d : Place} {n : Name} (hknown : mode.known = true) (hslash : ¬Slashed path)
    (hlead : lead fs pr.links (pr.start path) (names path) = some (d, n)) (hdir : fs.IsDir d)
    (hdot : ¬dot n) (hfree : fs.obj (d ++ [n]) = none) :
    openFile pr ready mode path fs ≠ none ↔ mode.creates = true := by
  have hmode : ¬(mode.known = false ∨ Slashed path) := by
    rw [hknown]
    exact not_or.2 ⟨nofun, hslash⟩
  rw [openFile, if_neg hmode, hlead]
  dsimp only
  split
  case h_1 =>
    split
    case isTrue h => exact iff_of_true (Option.some_ne_none _) h.1
    case isFalse h =>
      exact iff_of_false (fun hne => hne rfl) fun hcreates => h ⟨hcreates, hdir, hdot⟩
  case h_2 o ho =>
    rw [hfree] at ho
    cases ho

/-- In a directory that is made on the way there is no file yet. -/
lemma opens_of_missing (hdots : ∀ c ∈ dirNames filename, ¬dot c) (h : Missing pr fs filename) :
    openFile pr ready mode filename
        (makeDirs pr fs pr.links (pr.start filename) (dirNames filename)) ≠ none ↔
      mode.known = true ∧ mode.creates = true ∧ FileName filename := by
  obtain ⟨as, c, bs, k, d, hnames, has, hdir, hfree⟩ := h
  obtain ⟨hwalk, hlast, hempty⟩ := makeDirs_free pr k hdir
    (fun b hb => hdots b (hnames ▸ List.mem_append_right as hb)) hfree
  have hmade : makeDirs pr fs pr.links (pr.start filename) (dirNames filename) =
      makeDirs pr fs k d (c :: bs) := by
    rw [hnames, makeDirs_append has]
  have hkeeps := (adds_makeDirs pr fs k d (c :: bs)).keeps
  have hthere : walk (makeDirs pr fs k d (c :: bs)) pr.links (pr.start filename)
      (dirNames filename) = some (k, d ++ c :: bs) := by
    rw [hnames, walk_append, walk_extends hkeeps has, Option.bind_some, hwalk]
  have hopens {n : Name} (hknown : mode.known = true) (hslash : ¬Slashed filename)
      (hn : (names filename).getLast? = some n) (hdot : ¬dot n) :
      openFile pr ready mode filename (makeDirs pr fs k d (c :: bs)) ≠ none ↔
        mode.creates = true := by
    rw [dirNames, if_neg hslash] at hthere
    refine opens_free hknown hslash ?_ hlast hdot (hempty n)
    rw [← List.dropLast_append_getLast? n hn, lead_append, hthere, Option.bind_some]
    exact lead_free hlast hdot (hempty n)
  rw [hmade]
  constructor
  · intro h
    obtain ⟨hknown, hslash, n, k', q, d', c', hn, hw, hlead⟩ := openFile_dirs h
    have hdot : ¬dot n := by
      intro hdot
      rw [lead_dot hdot] at hlead
      cases hlead
    exact ⟨hknown, (hopens hknown hslash hn hdot).1 h, hslash, n, hn, hdot⟩
  · rintro ⟨hknown, hcreates, hslash, n, hn, hdot⟩
    exact (hopens hknown hslash hn hdot).2 hcreates

lemma opens_made {pr : Process} {ready : Place → Bool} {mode : OpenMode} {filename : Path} {fs : Fs}
    (h : openFile pr ready mode filename fs ≠ none) :
    openFile pr ready mode filename
      (makeDirs pr fs pr.links (pr.start filename) (dirNames filename)) ≠ none := by
  rwa [made_of_opens h]

/-- What can be opened once the directories have been made. -/
lemma opens_made_iff {pr : Process} {ready : Place → Bool} {mode : OpenMode} {filename : Path}
    {fs : Fs} (happ : mode.app = true) (hdots : ∀ c ∈ dirNames filename, ¬dot c) :
    openFile pr ready mode filename
        (makeDirs pr fs pr.links (pr.start filename) (dirNames filename)) ≠ none ↔
      openFile pr ready mode filename fs ≠ none ∨
        (Missing pr fs filename ∧ mode.trunc = false ∧ FileName filename) := by
  have hmode : mode.known = true ∧ mode.creates = true ↔ mode.trunc = false := by
    simp [OpenMode.known, OpenMode.creates, happ]
  constructor
  · intro h
    rcases makeDirs_eq_or pr fs pr.links (pr.start filename) (dirNames filename) with
      hsame | ⟨as, c, bs, k, d, hnames, has, hdir, hnot⟩
    · exact Or.inl (by rwa [hsame] at h)
    · have hfree : fs.obj (d ++ [c]) = none := by
        by_contra hne
        exact hnot ⟨hdir, Or.inr hne⟩
      have hmissing : Missing pr fs filename := ⟨as, c, bs, k, d, hnames, has, hdir, hfree⟩
      obtain ⟨hknown, hcreates, hname⟩ := (opens_of_missing hdots hmissing).1 h
      exact Or.inr ⟨hmissing, hmode.1 ⟨hknown, hcreates⟩, hname⟩
  · rintro (h | ⟨hmissing, htrunc, hname⟩)
    · exact opens_made h
    · obtain ⟨hknown, hcreates⟩ := hmode.2 htrunc
      exact (opens_of_missing hdots hmissing).2 ⟨hknown, hcreates, hname⟩

/-- **`OpenForWrite` opens a file to append once, behind one pass that makes the directories.
Nothing that was there changes, and only directories and the file itself are new. Where no dots
stand on the way, it opens what can be opened at once, and beyond that the files that are to be made
in a directory that is not there, with nothing else in its place.** -/
theorem OpenForWrite_correct (pr : Process) (ready : Place → Bool) (mode : OpenMode)
    (ofs : Ofstream) (filename : Path) (fs : Fs) (hnul : '\x00' ∉ filename)
    (hclosed : ofs.isOpen = false) (happ : mode.app = true) :
    let made := makeDirs pr fs pr.links (pr.start filename) (dirNames filename)
    ∃ ofs' fs', OpenForWrite pr ready mode ofs filename fs = some (ofs', ofs'.isOpen, fs') ∧
      (ofs', fs') = ofstreamOpen pr ready mode ofs filename made ∧
      (∀ c : FileAppender.Answers, c.first = (openFile pr ready mode filename fs).isSome →
        c.second = (openFile pr ready mode filename made).isSome →
        ofs' = (FileAppender.OpenForWrite ofs c).1) ∧
      Adds (fun p kind => kind = .dir ∨ (kind = .reg ∧ ofs'.isOpen = true ∧ ∃ d n,
        lead made pr.links (pr.start filename) (names filename) = some (d, n) ∧
          p = d ++ [n])) fs fs' ∧
      ((∀ c ∈ dirNames filename, ¬dot c) →
        (ofs'.isOpen = true ↔ openFile pr ready mode filename fs ≠ none ∨
          (Missing pr fs filename ∧ mode.trunc = false ∧ FileName filename))) := by
  intro made
  have hmade := adds_makeDirs pr fs pr.links (pr.start filename) (dirNames filename)
  have hopened : (ofstreamOpen pr ready mode ofs filename made).1.isOpen = true ↔
      openFile pr ready mode filename made ≠ none := by
    rw [ofstreamOpen_eq hclosed, tryOpen_isOpen hclosed, Option.isSome_iff_ne_none]
  refine ⟨_, _, OpenForWrite_eq hnul hclosed, rfl, fun c hc1 hc2 => ?_, ?_, fun hdots => ?_⟩
  · rw [FileAppender.OpenForWrite, hc1, hc2, ofstreamOpen_eq hclosed]
    dsimp only
    rw [tryOpen_isOpen hclosed]
    cases hopen : openFile pr ready mode filename fs with
    | some fs' =>
      have hsome := Option.isSome_iff_ne_none.2 (opens_made (hopen ▸ Option.some_ne_none fs'))
      rw [hsome]
      rfl
    | none =>
      rw [Option.isSome_none, if_neg Bool.false_ne_true, tryOpen_again hclosed]
  · refine (hmade.mono fun _ _ h => Or.inl h).trans ?_
    rw [hopened, ofstreamOpen_eq hclosed]
    cases hopen : openFile pr ready mode filename made with
    | some fs' =>
      exact (adds_openFile hopen).mono fun _ _ h => Or.inr ⟨h.1, Option.some_ne_none fs', h.2⟩
    | none => exact Adds.refl _ _
  · rw [hopened]
    exact opens_made_iff happ hdots

end Result

/-- A log in two directories that are not there. -/
theorem OpenForWrite_nested : ∃ ofs fs, OpenForWrite host (fun _ => false) { app := true } {}
    "a/b/log".toList linked = some (ofs, true, fs) ∧ Extends linked fs := by
  obtain ⟨ofs, fs, heq, -, -, hadds, hopen⟩ := OpenForWrite_correct host (fun _ => false)
    { app := true } {} "a/b/log".toList linked (by decide) rfl rfl
  have hopen : ofs.isOpen = true := (hopen (by decide)).2 <| Or.inr
    ⟨⟨[], "a".toList, ["b".toList], 40, [], by decide, rfl, by decide, by decide⟩, rfl,
      by decide, "log".toList, by decide, by decide⟩
  exact ⟨ofs, fs, hopen ▸ heq, hadds.keeps⟩

end Sylar.OpenFile
