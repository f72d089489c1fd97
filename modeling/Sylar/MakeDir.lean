import Sylar.Lib.Memory
import Sylar.PathWalk

/-!
`FSUtil::Mkdir`, which cuts the path at one slash after another.

The buffer that `strdup` gives is a list that ends with the null character; a pointer is a place in
it. The paths that `__mkdir` is called with are noted.
-/

namespace Sylar.MakeDir

open Lib.Memory Sylar.FileSystem Sylar.PathWalk

/-- The first `c` of the string that starts at `p`. -/
def strchr (s : List Char) (p : ℕ) (c : Char) : Option ℕ :=
  ((cstr '\x00' (s.drop p)).idxOf? c).map (p + ·)

structure St where
  fs : Fs
  attempts : List Path

section Model

variable (pr : Process)

/-- `__mkdir`. It returns whether it was successful. -/
def mkdir (dirname : Path) (s : St) : Bool × St :=
  let s := { s with attempts := s.attempts ++ [dirname] }
  if pr.access s.fs dirname then (true, s)
  else
    match pr.mkdir s.fs dirname with
    | some fs => (true, { s with fs := fs })
    | none => (false, s)

lemma strchr_bound {s : List Char} {p i : ℕ} {c : Char} (h : strchr s p c = some i) :
    p ≤ i ∧ i < s.length := by
  obtain ⟨k, hk, rfl⟩ := Option.map_eq_some_iff.1 h
  have hlt : k < (cstr '\x00' (s.drop p)).length := by
    obtain ⟨hlt, -⟩ := List.findIdx?_eq_some_iff_getElem.1 hk
    exact hlt
  have hle : (cstr '\x00' (s.drop p)).length ≤ (s.drop p).length :=
    (List.takeWhile_prefix _).length_le
  rw [List.length_drop] at hle
  omega

/-- The `for` loop. It leaves the buffer, `ptr` and what has been done; a break leaves the buffer
cut. -/
def loop (path : List Char) (ptr : Option ℕ) (s : St) : List Char × Option ℕ × St :=
  match ptr with
  | none => (path, none, s)
  | some p =>
    let cut := path.set p '\x00'
    match mkdir pr (cstr '\x00' cut) s with
    | (false, s) => (cut, some p, s)
    | (true, s) => loop (cut.set p '/') (strchr (cut.set p '/') (p + 1) '/') s
termination_by ptr.elim 0 fun p => path.length - p + 1
decreasing_by
  cases hptr : strchr (cut.set p '/') (p + 1) '/' with
  | none => exact Nat.succ_pos _
  | some i =>
    have hbound := strchr_bound hptr
    simp only [cut, List.length_set] at hbound
    simp only [List.length_set, Option.elim_some]
    omega

def afterLoop : List Char × Option ℕ × St → Bool × St
  | (_, some _, s) => (false, s)
  | (path, none, s) => mkdir pr (cstr '\x00' path) s

/-- There is no result where `path + 1` is behind the end of the buffer. -/
def Mkdir (dirname : Path) (fs : Fs) : Option (Bool × St) :=
  let name := cstr '\x00' dirname
  if pr.lstat fs name then some (true, ⟨fs, []⟩)
  else if name = [] then none
  else
    let path := name ++ ['\x00']
    some (afterLoop pr (loop pr path (strchr path 1 '/') ⟨fs, []⟩))

/-! ### What is to be tried -/

/-- What stands before the slashes of the path from the second character on, shortest first. -/
def prefixes (path : Path) : List Path :=
  ((List.range path.length).filter fun i => 1 ≤ i ∧ path[i]? = some '/').map fun i => path.take i

/-- One after another is tried, up to the first failure. -/
def tryAll : List Path → St → Bool × St
  | [], s => (true, s)
  | p :: ps, s =>
    match mkdir pr p s with
    | (true, s) => tryAll ps s
    | (false, s) => (false, s)

end Model

section Try

variable {pr : Process} {fs : Fs} {s : St} {p : Path} {ps : List Path} {r : Bool × St}

/-! ### One attempt -/

inductive Tried (pr : Process) (p : Path) (s : St) : Bool × St → Prop
  | present (h : pr.access s.fs p = true) : Tried pr p s (true, ⟨s.fs, s.attempts ++ [p]⟩)
  | made {fs : Fs} {q : Place} (hmade : Process.Made s.fs fs q) (hplace : pr.place fs p = some q)
      (h : pr.access fs p = true) : Tried pr p s (true, ⟨fs, s.attempts ++ [p]⟩)
  | failed (h : pr.access s.fs p = false) : Tried pr p s (false, ⟨s.fs, s.attempts ++ [p]⟩)

lemma tried (pr : Process) (p : Path) (s : St) : Tried pr p s (mkdir pr p s) := by
  rw [mkdir]
  dsimp only
  split
  case isTrue h => exact .present h
  case isFalse h =>
    cases hmk : pr.mkdir s.fs p with
    | none => exact .failed (Bool.eq_false_iff.2 h)
    | some fs =>
      obtain ⟨q, hmade, hplace⟩ := Process.exists_made hmk
      exact .made hmade hplace (Process.access_of_mkdir hmk)

lemma Tried.access (ht : Tried pr p s r) (h : r.1 = true) : pr.access r.2.fs p = true := by
  cases ht with
  | present hacc => exact hacc
  | made _ _ hacc => exact hacc
  | failed => cases h

/-- A place that has changed is a new directory, which an attempted path leads to. -/
def Grown (pr : Process) (fs : Fs) (s : St) : Prop :=
  ∀ q, s.fs.obj q ≠ fs.obj q →
    fs.obj q = none ∧ s.fs.IsDir q ∧ ∃ p ∈ s.attempts, pr.place s.fs p = some q

lemma Grown.step (h : Grown pr fs s) (ht : Tried pr p s r) : Grown pr fs r.2 := by
  have hsame : ∀ attempts', s.attempts ⊆ attempts' → Grown pr fs ⟨s.fs, attempts'⟩ :=
    fun attempts' hsub q hq => by
      obtain ⟨hfree, hdir, p', hp', hplace⟩ := h q hq
      exact ⟨hfree, hdir, p', hsub hp', hplace⟩
  cases ht with
  | present => exact hsame _ (List.subset_append_left _ _)
  | failed => exact hsame _ (List.subset_append_left _ _)
  | @made fs' q' hmade hplace =>
    intro q hq
    by_cases hqq : q = q'
    · subst hqq
      have hfree : fs.obj q = none := by
        by_contra hne
        exact hne (h q fun heq => hne (heq.symm.trans hmade.free)).1
      exact ⟨hfree, hmade.isDir, p, List.mem_append_right _ List.mem_cons_self, hplace⟩
    · obtain ⟨hfree, hdir, p', hp', hplace'⟩ := h q (hmade.other q hqq ▸ hq)
      exact ⟨hfree, hmade.extends.isDir hdir, p', List.mem_append_left _ hp',
        Process.place_extends hmade.extends hplace'⟩

/-! ### All attempts -/

lemma Grown.tryAll (h : Grown pr fs s) (ps : List Path) : Grown pr fs (tryAll pr ps s).2 := by
  induction ps generalizing s with
  | nil => exact h
  | cons p ps ih =>
    have hstep := h.step (tried pr p s)
    rw [MakeDir.tryAll]
    split
    case h_1 s' heq =>
      rw [heq] at hstep
      exact ih hstep
    case h_2 s' heq =>
      rw [heq] at hstep
      exact hstep

lemma tryAll_singleton (p : Path) (s : St) : tryAll pr [p] s = mkdir pr p s := by
  rw [tryAll]
  split
  case h_1 heq => exact heq.symm
  case h_2 heq => exact heq.symm

lemma access_of_tryAll (h : (tryAll pr (ps ++ [p]) s).1 = true) :
    pr.access (tryAll pr (ps ++ [p]) s).2.fs p = true := by
  induction ps generalizing s with
  | nil =>
    rw [List.nil_append, tryAll_singleton] at h ⊢
    exact (tried pr p s).access h
  | cons p' ps ih =>
    rw [List.cons_append, tryAll] at h ⊢
    split at h
    case h_1 => exact ih h
    case h_2 => cases h

lemma exists_failed (h : (tryAll pr ps s).1 = false) :
    ∃ p ∈ ps, pr.access (tryAll pr ps s).2.fs p = false := by
  induction ps generalizing s with
  | nil => cases h
  | cons p ps ih =>
    have htried := tried pr p s
    rw [tryAll] at h ⊢
    split at h
    case h_1 =>
      obtain ⟨p', hp', hacc⟩ := ih h
      exact ⟨p', List.mem_cons_of_mem p hp', hacc⟩
    case h_2 heq =>
      rw [heq] at htried
      cases htried with
      | failed hacc => exact ⟨p, List.mem_cons_self, hacc⟩

end Try

/-! ### The cuts -/

section Cuts

variable {pr : Process} {p path u v : Path}

/-- What stands before the slashes of `v`, behind `u`. -/
def cuts : Path → Path → List Path
  | _, [] => []
  | u, c :: v => (if c = '/' then [u] else []) ++ cuts (u ++ [c]) v

lemma cuts_eq (u v : Path) : cuts u v =
    ((List.range v.length).filter fun i => v[i]? = some '/').map fun i => u ++ v.take i := by
  induction v generalizing u with
  | nil => rfl
  | cons c v ih =>
    rw [cuts, ih, List.length_cons, List.range_succ_eq_map, List.filter_cons, List.filter_map,
      List.getElem?_cons_zero]
    have hbehind : ∀ i, u ++ [c] ++ v.take i = u ++ (c :: v).take (i + 1) := fun i => by
      rw [List.take_succ_cons, ← List.append_cons]
    simp only [hbehind]
    by_cases hc : c = '/'
    · rw [if_pos hc, if_pos (by rw [hc, decide_eq_true rfl]), List.map_cons, List.map_map,
        List.take_zero, List.append_nil]
      rfl
    · rw [if_neg hc, if_neg (by simpa using hc), List.map_map]
      rfl

lemma prefixes_cons (c : Char) (v : Path) : prefixes (c :: v) = cuts [c] v := by
  rw [prefixes, cuts_eq, List.length_cons, List.range_succ_eq_map, List.filter_cons,
    List.filter_map, if_neg (by simp), List.map_map]
  refine congrArg (List.map _) (List.filter_congr fun i hi => ?_)
  simp

lemma mem_cuts (h : p ∈ cuts u v) : u <+: p ∧ ∃ w, u ++ v = p ++ '/' :: w := by
  induction v generalizing u with
  | nil => cases h
  | cons c v ih =>
    rw [cuts, List.mem_append] at h
    rcases h with h | h
    · split at h
      case isTrue hc =>
        obtain rfl := List.mem_singleton.1 h
        exact ⟨List.prefix_refl p, v, by rw [hc]⟩
      case isFalse => cases h
    · obtain ⟨hpre, w, hw⟩ := ih h
      exact ⟨(List.prefix_append u [c]).trans hpre, w, by rw [← hw, List.append_cons]⟩

def buffer (path : Path) : List Char := path ++ ['\x00']

lemma strchr_buffer (hv : '\x00' ∉ v) :
    strchr (buffer (u ++ v)) u.length '/' = (v.idxOf? '/').map (u.length + ·) := by
  rw [strchr, buffer, List.append_assoc, List.drop_left, cstr_append hv]

lemma strchr_slash (hv : '\x00' ∉ v) :
    strchr (buffer (u ++ '/' :: v)) u.length '/' = some u.length := by
  have hnul : '\x00' ∉ '/' :: v := by
    rw [List.mem_cons, not_or]
    exact ⟨by decide, hv⟩
  rw [strchr_buffer hnul, List.idxOf?_cons, if_pos (beq_self_eq_true '/'), Option.map_some,
    Nat.add_zero]

lemma strchr_other {c : Char} (hc : c ≠ '/') (hv : '\x00' ∉ c :: v) :
    strchr (buffer (u ++ c :: v)) u.length '/' =
      strchr (buffer (u ++ [c] ++ v)) (u ++ [c]).length '/' := by
  have hlen : (u.length + ·) ∘ (· + 1) = ((u ++ [c]).length + ·) := by
    ext i
    simp only [Function.comp_apply, List.length_append, List.length_singleton]
    omega
  have hbeq : ¬(c == '/') = true := fun h => hc (beq_iff_eq.1 h)
  calc strchr (buffer (u ++ c :: v)) u.length '/'
      = ((c :: v).idxOf? '/').map (u.length + ·) := strchr_buffer hv
    _ = (v.idxOf? '/').map ((u.length + ·) ∘ (· + 1)) := by
        rw [List.idxOf?_cons, if_neg hbeq, Option.map_map]
    _ = (v.idxOf? '/').map ((u ++ [c]).length + ·) := by rw [hlen]
    _ = strchr (buffer (u ++ [c] ++ v)) (u ++ [c]).length '/' :=
        (strchr_buffer (List.not_mem_of_not_mem_cons hv)).symm

lemma loop_none (path : List Char) (s : St) : loop pr path none s = (path, none, s) := by
  rw [loop]

lemma loop_slash (hu : '\x00' ∉ u) (s : St) :
    afterLoop pr (loop pr (buffer (u ++ '/' :: v)) (some u.length) s) =
      match mkdir pr u s with
      | (false, s) => (false, s)
      | (true, s) =>
        afterLoop pr (loop pr (buffer (u ++ '/' :: v))
          (strchr (buffer (u ++ '/' :: v)) (u.length + 1) '/') s) := by
  have hcut : (buffer (u ++ '/' :: v)).set u.length '\x00' = u ++ '\x00' :: (v ++ ['\x00']) := by
    simp [buffer]
  have hback : (u ++ '\x00' :: (v ++ ['\x00'])).set u.length '/' = buffer (u ++ '/' :: v) := by
    simp [buffer]
  rw [loop]
  simp only [hcut, hback, cstr_append hu]
  split
  case h_1 => rfl
  case h_2 => rfl

/-- **The loop and what comes behind it try the cuts and then the path.** The slash is put back
where the loop goes on, so that the buffer holds the path each time. -/
theorem afterLoop_loop (hu : '\x00' ∉ u) (hv : '\x00' ∉ v) (s : St) :
    afterLoop pr (loop pr (buffer (u ++ v)) (strchr (buffer (u ++ v)) u.length '/') s) =
      tryAll pr (cuts u v ++ [u ++ v]) s := by
  induction v generalizing u s with
  | nil =>
    have hptr : strchr (buffer (u ++ [])) u.length '/' = none := by
      rw [strchr_buffer hv]
      rfl
    rw [hptr, loop_none, List.append_nil, afterLoop, buffer, cstr_append hu, cuts, List.nil_append,
      tryAll_singleton]
  | cons c v ih =>
    have hv' := List.not_mem_of_not_mem_cons hv
    have hu' : '\x00' ∉ u ++ [c] := by
      rw [List.mem_append, not_or, List.mem_singleton]
      exact ⟨hu, fun h => hv (h ▸ List.mem_cons_self)⟩
    have hpath : u ++ c :: v = u ++ [c] ++ v := List.append_cons u c v
    by_cases hc : c = '/'
    · subst hc
      have hlen : u.length + 1 = (u ++ ['/']).length := by
        rw [List.length_append, List.length_singleton]
      rw [strchr_slash hv', loop_slash hu, cuts, if_pos rfl, hlen, hpath, List.append_assoc [u],
        List.singleton_append, tryAll]
      split
      case h_1 heq => rw [heq]
      case h_2 heq =>
        rw [heq]
        exact ih hu' hv' _
    · rw [strchr_other hc hv, cuts, if_neg hc, List.nil_append, hpath]
      exact ih hu' hv' s

end Cuts

/-! ### What `Mkdir` does -/

section Result

variable {pr : Process} {dirname path : Path} {fs : Fs}

lemma Mkdir_of_lstat (hpath : cstr '\x00' dirname = path) (h : pr.lstat fs path = true) :
    Mkdir pr dirname fs = some (true, ⟨fs, []⟩) := by
  rw [Mkdir, hpath]
  exact if_pos h

lemma Mkdir_of_not_lstat (hpath : cstr '\x00' dirname = path) (hne : path ≠ [])
    (h : pr.lstat fs path = false) :
    Mkdir pr dirname fs = some (tryAll pr (prefixes path ++ [path]) ⟨fs, []⟩) := by
  have hnul : '\x00' ∉ path := by
    rw [← hpath]
    exact not_mem_cstr
  obtain ⟨c, v, rfl⟩ := List.exists_cons_of_ne_nil hne
  have hone : '\x00' ∉ [c] := by
    rw [List.mem_singleton]
    exact fun hc => hnul (hc ▸ List.mem_cons_self)
  rw [Mkdir, hpath]
  dsimp only
  rw [if_neg (Bool.eq_false_iff.1 h), if_neg hne, prefixes_cons]
  exact congrArg some (afterLoop_loop hone (List.not_mem_of_not_mem_cons hnul) _)

lemma access_of_failed (hne : path ≠ []) {s : St}
    (h : (tryAll pr (prefixes path ++ [path]) s).1 = false) :
    pr.access (tryAll pr (prefixes path ++ [path]) s).2.fs path = false := by
  obtain ⟨p, hp, hacc⟩ := exists_failed h
  rw [List.mem_append, List.mem_singleton] at hp
  rcases hp with hp | rfl
  · obtain ⟨c, v, rfl⟩ := List.exists_cons_of_ne_nil hne
    rw [prefixes_cons] at hp
    obtain ⟨hpre, w, hw⟩ := mem_cuts hp
    have hp : p ≠ [] := by
      rintro rfl
      cases List.prefix_nil.1 hpre
    generalize (tryAll pr (prefixes (c :: v) ++ [c :: v]) s).2.fs = fs at hacc ⊢
    rw [Bool.eq_false_iff] at hacc ⊢
    intro hpath
    rw [← List.singleton_append, hw] at hpath
    exact hacc (Process.access_of_append hp hpath)
  · exact hacc

/-- **`Mkdir` tries the prefixes and the path, and tells whether the path exists.** Where the path
exists already nothing is tried. The path may come to name a link that leads nowhere; then the
result is `false`. -/
theorem Mkdir_correct (pr : Process) (fs : Fs) (hpath : cstr '\x00' dirname = path)
    (hne : path ≠ []) : ∃ ret s, Mkdir pr dirname fs = some (ret, s) ∧
      (pr.lstat fs path = true → ret = true ∧ s = ⟨fs, []⟩) ∧
      (pr.lstat fs path = false → (ret, s) = tryAll pr (prefixes path ++ [path]) ⟨fs, []⟩) ∧
      (pr.lstat fs path = true ∨ ¬Process.Dangling pr s.fs path →
        (ret = true ↔ pr.lstat s.fs path = true)) ∧
      (pr.lstat fs path = false → Process.Dangling pr s.fs path → ret = false) ∧
      Grown pr fs s := by
  have hstart : Grown pr fs ⟨fs, []⟩ := fun q hq => absurd rfl hq
  cases h : pr.lstat fs path with
  | true =>
    refine ⟨_, _, Mkdir_of_lstat hpath h, fun _ => ⟨rfl, rfl⟩, ?_, ?_, ?_, hstart⟩
    · intro hno
      cases hno
    · exact fun _ => iff_of_true rfl h
    · intro hno
      cases hno
  | false =>
    have hgrown := hstart.tryAll (prefixes path ++ [path])
    have hacc : (tryAll pr (prefixes path ++ [path]) ⟨fs, []⟩).1 = true ↔
        pr.access (tryAll pr (prefixes path ++ [path]) ⟨fs, []⟩).2.fs path = true := by
      constructor
      · exact access_of_tryAll
      · intro hacc
        by_contra hret
        rw [access_of_failed hne (Bool.eq_false_iff.2 hret)] at hacc
        cases hacc
    refine ⟨_, _, Mkdir_of_not_lstat hpath hne h, ?_, fun _ => rfl, ?_, ?_, hgrown⟩
    · intro hno
      cases hno
    · rintro (hno | hdang)
      · cases hno
      · rw [hacc, Process.lstat_iff, or_iff_left hdang]
    · intro _ hdang
      rw [Bool.eq_false_iff, ne_eq, hacc, hdang.nowhere]
      exact Bool.false_ne_true

end Result

def host : Process := ⟨[], 40, 0o022, fun _ => 7⟩

def linked : Fs := .single "l".toList (by decide) ⟨.lnk ["nowhere".toList], 0o777, 3⟩

/-- Slashes in a row, and one at the end. -/
theorem Mkdir_slashes : ∃ ret s, Mkdir host "a//b/".toList linked = some (ret, s) ∧
    (host.lstat linked "a//b/".toList = true → ret = true ∧ s = ⟨linked, []⟩) ∧
    (host.lstat linked "a//b/".toList = false →
      (ret, s) = tryAll host (prefixes "a//b/".toList ++ ["a//b/".toList]) ⟨linked, []⟩) ∧
    (host.lstat linked "a//b/".toList = true ∨ ¬Process.Dangling host s.fs "a//b/".toList →
      (ret = true ↔ host.lstat s.fs "a//b/".toList = true)) ∧
    (host.lstat linked "a//b/".toList = false → Process.Dangling host s.fs "a//b/".toList →
      ret = false) ∧
    Grown host linked s :=
  Mkdir_correct host linked (by decide) (by decide)

/-- The first prefix is made, and then the path names the link, which `access` follows. -/
theorem Mkdir_linked :
    (Mkdir host "d/../l".toList linked).map (fun r => (r.1, host.lstat r.2.fs "d/../l".toList)) =
      some (false, true) := by
  rw [Mkdir_of_not_lstat rfl (by decide) (by decide)]
  decide

end Sylar.MakeDir
