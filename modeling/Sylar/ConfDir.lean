import Mathlib.Logic.Function.Basic
import Sylar.Lib.Runs

/-!
`Config::LoadFromConfDir`: a call reads the configuration files below a directory, and skips those
whose modification time is the one it remembers.

The directory, the modification times and what becomes of the loads are given with each call.
-/

namespace Sylar.ConfDir

open Lib.Runs

abbrev Path := List Char

/-- What `readdir` returns: a directory with what it returns there, if it can be opened, a regular
file or something else. -/
inductive Entry
  | dir (name : List Char) (opens : Bool) (entries : List Entry)
  | reg (name : List Char)
  | other (name : List Char)

mutual

/-- `FSUtil::ListAllFile` on a directory that is there and can be opened. -/
def listAllFile (path subfix : List Char) : List Entry → List Path
  | [] => []
  | e :: entries => listEntry path subfix e ++ listAllFile path subfix entries

def listEntry (path subfix : List Char) : Entry → List Path
  | .dir name opens entries =>
    if name = ".".toList ∨ name = "..".toList then []
    else if opens then listAllFile (path ++ '/' :: name) subfix entries
    else []
  | .reg filename =>
    if subfix = [] then [path ++ '/' :: filename]
    else if filename.length < subfix.length then []
    else if filename.drop (filename.length - subfix.length) = subfix then
      [path ++ '/' :: filename]
    else []
  | .other _ => []

end

def getAbsolutePath (cwd path : List Char) : Path :=
  if path = [] then "/".toList
  else if path.head? = some '/' then path
  else cwd ++ path

structure Attempt where
  file : Path
  mtime : UInt64
  ok : Bool
  deriving DecidableEq

/-- `s_file2modifytime`, where a file that was never written counts as 0, and beside it the loads
that were tried, the last one first. -/
structure State where
  s_file2modifytime : Path → UInt64 := fun _ => 0
  attempts : List Attempt := []

/-- What a call finds: the directory, if it can be opened, the `st_mtime` of the files and whether
loading them succeeds. -/
structure Call where
  entries : Option (List Entry)
  st_mtime : Path → Int64
  loads : Path → Bool

def Call.mtime (c : Call) (file : Path) : UInt64 := (c.st_mtime file).toUInt64

variable (cwd path : List Char)

def files (c : Call) : List Path :=
  match c.entries with
  | some entries => listAllFile (getAbsolutePath cwd path) ".yml".toList entries
  | none => []

/-- One pass of the loop. The time is remembered before the file is loaded. -/
def visit (force : Bool) (c : Call) (s : State) (file : Path) : State :=
  if !force && s.s_file2modifytime file = c.mtime file then s
  else
    { s_file2modifytime := Function.update s.s_file2modifytime file (c.mtime file)
      attempts := ⟨file, c.mtime file, c.loads file⟩ :: s.attempts }

def loadFromConfDir (force : Bool) (s : State) (c : Call) : State :=
  (files cwd path c).foldl (visit force c) s

def step (s : State) (c : Call) : Option State := some (loadFromConfDir cwd path false s c)

/-! ### The files below a directory -/

/-- `file` is a regular file with the ending, in the directory or in one below it. -/
inductive Below (ending : List Char) : Path → List Entry → Path → Prop
  | reg {path entries name} : Entry.reg name ∈ entries → ending <:+ name →
      Below ending path entries (path ++ '/' :: name)
  | dir {path entries name sub file} : Entry.dir name true sub ∈ entries →
      name ≠ ".".toList → name ≠ "..".toList → Below ending (path ++ '/' :: name) sub file →
      Below ending path entries file

variable {ending : List Char}

lemma Below.mono {path file : Path} {es fs : List Entry} (h : Below ending path es file)
    (hsub : ∀ e ∈ es, e ∈ fs) : Below ending path fs file := by
  cases h with
  | reg he hend => exact .reg (hsub _ he) hend
  | dir he h1 h2 hrest => exact .dir (hsub _ he) h1 h2 hrest

lemma suffix_iff (name : List Char) :
    name.drop (name.length - ending.length) = ending ↔ ending <:+ name := by
  rw [List.suffix_iff_eq_drop, eq_comm]

mutual

lemma below_of_mem (hne : ending ≠ []) (path : Path) {file : Path} :
    ∀ entries : List Entry, file ∈ listAllFile path ending entries →
      Below ending path entries file
  | [], h => by simp [listAllFile] at h
  | e :: entries, h => by
    rw [listAllFile, List.mem_append] at h
    rcases h with h | h
    · exact (below_of_mem_entry hne path e h).mono (by simp)
    · exact (below_of_mem hne path entries h).mono fun e he => List.mem_cons_of_mem _ he

lemma below_of_mem_entry (hne : ending ≠ []) (path : Path) {file : Path} :
    ∀ e : Entry, file ∈ listEntry path ending e → Below ending path [e] file
  | .dir name opens entries, h => by
    rw [listEntry] at h
    split at h
    · simp at h
    · next hname =>
      split at h
      · next hopens =>
        have hbelow := below_of_mem hne _ entries h
        rw [not_or] at hname
        obtain rfl : opens = true := hopens
        exact .dir List.mem_cons_self hname.1 hname.2 hbelow
      · simp at h
  | .reg name, h => by
    rw [listEntry, if_neg hne] at h
    split at h
    · simp at h
    · split at h
      · next hdrop =>
        rw [List.mem_singleton.1 h]
        exact .reg List.mem_cons_self ((suffix_iff name).1 hdrop)
      · simp at h
  | .other name, h => by simp [listEntry] at h

end

lemma mem_listAllFile_of_entry {path file : Path} {e : Entry} {entries : List Entry}
    (he : e ∈ entries) (h : file ∈ listEntry path ending e) :
    file ∈ listAllFile path ending entries := by
  induction entries with
  | nil => simp at he
  | cons f entries ih =>
    rw [listAllFile, List.mem_append]
    rcases List.mem_cons.1 he with rfl | he
    · exact .inl h
    · exact .inr (ih he)

/-- **The listing has exactly the files with the ending below the directory.** -/
theorem mem_listAllFile_iff (hne : ending ≠ []) {path file : Path} {entries : List Entry} :
    file ∈ listAllFile path ending entries ↔ Below ending path entries file := by
  refine ⟨below_of_mem hne path entries, fun h => ?_⟩
  induction h with
  | reg he hend =>
    refine mem_listAllFile_of_entry he ?_
    rw [listEntry, if_neg hne, if_neg (Nat.not_lt.2 hend.length_le),
      if_pos ((suffix_iff _).2 hend)]
    exact List.mem_singleton_self _
  | dir he h1 h2 _ ih =>
    refine mem_listAllFile_of_entry he ?_
    rw [listEntry, if_neg (not_or.2 ⟨h1, h2⟩), if_pos rfl]
    exact ih

/-! ### What is tried again -/

/-- The file is a configuration file below the directory of the call. -/
def Configured (c : Call) (file : Path) : Prop :=
  ∃ entries, c.entries = some entries ∧
    Below ".yml".toList (getAbsolutePath cwd path) entries file

lemma mem_files_iff {c : Call} {file : Path} :
    file ∈ files cwd path c ↔ Configured cwd path c file := by
  unfold files Configured
  cases c.entries with
  | none => simp
  | some entries => simpa using mem_listAllFile_iff (by decide)

def lastAttempt (attempts : List Attempt) (file : Path) : Option Attempt :=
  attempts.find? fun a => decide (a.file = file)

/-- The modification time at the last load of a file that succeeded. -/
def lastLoaded (attempts : List Attempt) (file : Path) : Option UInt64 :=
  (attempts.find? fun a => decide (a.file = file) && a.ok).map Attempt.mtime

def Tried (s s' : State) (file : Path) : Prop :=
  ∃ news, s'.attempts = news ++ s.attempts ∧ ∃ a ∈ news, a.file = file

/-- The call tries every file whose modification time is not the one at its last successful load,
or that was never loaded. -/
def Retries (s : State) (c : Call) : Prop :=
  ∀ file, Configured cwd path c file → lastLoaded s.attempts file ≠ some (c.mtime file) →
    Tried s (loadFromConfDir cwd path false s c) file

/-- No file that was never tried has the modification time 0, and none whose last attempt failed
has the time of that attempt again, unless it was loaded at that time before. -/
def Cond (s : State) (c : Call) : Prop :=
  ∀ file, Configured cwd path c file →
    match lastAttempt s.attempts file with
    | none => c.mtime file ≠ 0
    | some a => a.ok = false → a.mtime = c.mtime file →
      lastLoaded s.attempts file = some (c.mtime file)

/-- The table has the modification time at the last attempt. -/
def Remembers (s : State) : Prop :=
  ∀ file, s.s_file2modifytime file = ((lastAttempt s.attempts file).map Attempt.mtime).getD 0

variable {cwd path}

lemma remembers_visit {s : State} (h : Remembers s) (force : Bool) (c : Call) (file : Path) :
    Remembers (visit force c s file) := by
  unfold visit
  split
  · exact h
  · intro g
    by_cases hg : g = file
    · subst hg
      simp [lastAttempt]
    · have hne : file ≠ g := fun heq => hg heq.symm
      simpa [lastAttempt, Function.update_of_ne hg, hne] using h g

lemma remembers_load {s : State} (h : Remembers s) (force : Bool) (c : Call) :
    Remembers (loadFromConfDir cwd path force s c) := by
  unfold loadFromConfDir
  induction files cwd path c generalizing s with
  | nil => exact h
  | cons file rest ih => exact ih (remembers_visit h force c file)

/-- One pass tries its file exactly where the time is not the one that is remembered. -/
lemma visit_tries (c : Call) (s : State) (g : Path) :
    ∃ news, (visit false c s g).attempts = news ++ s.attempts ∧
      ∀ file, (∃ a ∈ news, a.file = file) ↔
        file = g ∧ s.s_file2modifytime file ≠ c.mtime file := by
  by_cases h : s.s_file2modifytime g = c.mtime g
  · refine ⟨[], by simp [visit, h], fun file => ?_⟩
    constructor
    · rintro ⟨a, ha, -⟩
      simp at ha
    · rintro ⟨rfl, hne⟩
      exact absurd h hne
  · refine ⟨[⟨g, c.mtime g, c.loads g⟩], by simp [visit, h], fun file => ?_⟩
    constructor
    · rintro ⟨a, ha, rfl⟩
      rw [List.mem_singleton.1 ha]
      exact ⟨rfl, h⟩
    · rintro ⟨rfl, -⟩
      exact ⟨_, List.mem_singleton_self _, rfl⟩

lemma visit_table (c : Call) (s : State) (g file : Path) :
    (visit false c s g).s_file2modifytime file =
      if file = g then c.mtime file else s.s_file2modifytime file := by
  by_cases hfile : file = g
  · subst hfile
    by_cases h : s.s_file2modifytime file = c.mtime file
    · simp [visit, h]
    · simp [visit, h]
  · rw [if_neg hfile, visit]
    split
    · rfl
    · exact Function.update_of_ne hfile _ _

/-- A pass over some files tries those whose time is not the one that is remembered. -/
lemma foldl_visit (c : Call) (s : State) (fs : List Path) :
    ∃ news, (fs.foldl (visit false c) s).attempts = news ++ s.attempts ∧
      ∀ file, (∃ a ∈ news, a.file = file) ↔
        file ∈ fs ∧ s.s_file2modifytime file ≠ c.mtime file := by
  induction fs generalizing s with
  | nil => exact ⟨[], rfl, by simp⟩
  | cons g fs ih =>
    obtain ⟨first, hfirst, htries⟩ := visit_tries c s g
    obtain ⟨news, hnews, hiff⟩ := ih (visit false c s g)
    refine ⟨news ++ first, ?_, fun file => ?_⟩
    · rw [List.foldl_cons, hnews, hfirst, List.append_assoc]
    · have hsplit : (∃ a ∈ news ++ first, a.file = file) ↔
          (∃ a ∈ news, a.file = file) ∨ ∃ a ∈ first, a.file = file := by
        simp only [List.mem_append, or_and_right, exists_or]
      rw [hsplit, hiff, htries, visit_table, List.mem_cons]
      by_cases hfile : file = g
      · -- a second pass over the same file finds its time remembered
        simp [hfile]
      · simp [hfile]

lemma tried_iff {s : State} {c : Call} {file : Path} :
    Tried s (loadFromConfDir cwd path false s c) file ↔
      file ∈ files cwd path c ∧ s.s_file2modifytime file ≠ c.mtime file := by
  obtain ⟨news, hnews, hiff⟩ := foldl_visit c s (files cwd path c)
  rw [← hiff]
  constructor
  · rintro ⟨news', hnews', ha⟩
    have hsame : news' = news := List.append_cancel_right (hnews'.symm.trans hnews)
    rwa [hsame] at ha
  · exact fun h => ⟨news, hnews, h⟩

lemma lastLoaded_of_none {attempts : List Attempt} {file : Path}
    (h : lastAttempt attempts file = none) : lastLoaded attempts file = none := by
  simp only [lastAttempt, List.find?_eq_none, decide_eq_true_eq] at h
  simp only [lastLoaded, Option.map_eq_none_iff, List.find?_eq_none, Bool.and_eq_true,
    decide_eq_true_eq, not_and]
  exact fun a ha hfile => absurd hfile (h a ha)

/-- The last attempt, if it succeeded, is the last successful load. -/
lemma lastLoaded_of_ok {attempts : List Attempt} {file : Path} {a : Attempt}
    (h : lastAttempt attempts file = some a) (hok : a.ok = true) :
    lastLoaded attempts file = some a.mtime := by
  induction attempts with
  | nil => simp [lastAttempt] at h
  | cons b attempts ih =>
    unfold lastAttempt at h ih
    unfold lastLoaded at ih ⊢
    by_cases hb : b.file = file
    · obtain rfl : b = a := by simpa [hb] using h
      simp [hb, hok]
    · rw [List.find?_cons_of_neg (by simpa using hb)] at h
      rw [List.find?_cons_of_neg (by simp [hb])]
      exact ih h

lemma retries_iff_cond {s : State} (h : Remembers s) (c : Call) :
    Retries cwd path s c ↔ Cond cwd path s c := by
  unfold Retries Cond
  refine forall_congr' fun file => ?_
  refine imp_congr_right fun hfile => ?_
  rw [tried_iff, h file]
  simp only [(mem_files_iff cwd path).2 hfile, true_and]
  cases hlast : lastAttempt s.attempts file with
  | none => simp [lastLoaded_of_none hlast, eq_comm]
  | some a =>
    cases hok : a.ok with
    | true => simp [lastLoaded_of_ok hlast hok]
    | false =>
      simp only [Option.map_some, Option.getD_some]
      constructor
      · intro hp _ heq
        by_contra hne
        exact hp hne heq
      · exact fun hc hne heq => hne (hc hok heq)

/-- **Every call tries what should be tried exactly where no file whose load failed is met again
with the same modification time, and none with the time 0 that was never tried**: the time is
remembered before the load, and a file that is not known counts as one with the time 0. -/
theorem retries_iff (cwd path : List Char) (calls : List Call) :
    Meets (step cwd path) (Retries cwd path) {} calls ↔
      Meets (step cwd path) (Cond cwd path) {} calls := by
  refine meets_congr (I := Remembers) ?_ (fun s c h => retries_iff_cond h c) ?_
  · rintro s c s' h hs
    cases hs
    exact remembers_load h false c
  · intro file
    simp [lastAttempt]

/-- A file that did not load is not tried in the next call. -/
theorem failed_file_is_skipped : ¬Meets (step [] "/c".toList) (Retries [] "/c".toList) {}
    [⟨some [.reg "a.yml".toList], fun _ => 5, fun _ => false⟩,
      ⟨some [.reg "a.yml".toList], fun _ => 5, fun _ => true⟩] := by
  intro h
  have hsecond := (h.2 _ rfl).1 "/c/a.yml".toList
    ⟨_, rfl, .reg List.mem_cons_self (by decide)⟩ (by decide)
  exact absurd (tried_iff.1 hsecond).2 (by decide)

end Sylar.ConfDir
