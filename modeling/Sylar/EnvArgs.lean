import Mathlib.Data.List.Basic
import Mathlib.Tactic.Common

/-!
`Env::init` and the command line. Arguments are C strings; `readlink` is a parameter.
-/

namespace Sylar.EnvArgs

structure Env where
  program_ : List Char
  exe_ : List Char
  cwd_ : List Char
  args_ : List Char → Option (List Char)

namespace Env

def add (e : Env) (key val : List Char) : Env :=
  { e with args_ := fun k => if k = key then some val else e.args_ k }

def get (e : Env) (key default_value : List Char) : List Char :=
  match e.args_ key with
  | some val => val
  | none => default_value

def flush (e : Env) : Option (List Char) → Env
  | some key => e.add key []
  | none => e

/-- The loop over the arguments, with the key that waits for its value. -/
def scan (e : Env) (now_key : Option (List Char)) : List (List Char) → Bool × Env
  | [] => (true, e.flush now_key)
  | ('-' :: key) :: args =>
    if key ≠ [] then scan (e.flush now_key) (some key) args else (false, e)
  | val :: args =>
    match now_key with
    | some key => scan (e.add key val) none args
    | none => (false, e)

/-- The directory of a path: all of it up to the last `/`, or all of it. -/
def dir (path : List Char) : List Char :=
  if '/' ∈ path then ((path.reverse.dropWhile (· ≠ '/')).drop 1).reverse else path

/-- `Env::init`, with what `readlink` gives for the running program. -/
def init (e : Env) (readlink : Option (List Char)) (program : List Char)
    (args : List (List Char)) : Bool × Env :=
  match readlink with
  | none => (false, e)
  | some path =>
    scan { e with exe_ := path, cwd_ := dir path ++ ['/'], program_ := program } none args

end Env

/-! ### The grammar -/

/-- Options with the arguments that belong to them. -/
inductive Options : List (List Char) → List (List Char × Option (List Char)) → Prop
  | nil : Options [] []
  | bare {key args opts} (hkey : key ≠ []) (h : Options args opts) :
      Options (('-' :: key) :: args) ((key, none) :: opts)
  | value {key val args opts} (hkey : key ≠ []) (hval : val.head? ≠ some '-')
      (h : Options args opts) : Options (('-' :: key) :: val :: args) ((key, some val) :: opts)

/-- What the options say of a key: the argument of its last occurrence, if there is one. -/
def last (opts : List (List Char × Option (List Char))) (key : List Char) : Option (List Char) :=
  (opts.filter fun o => o.1 = key).getLast?.map fun o => o.2.getD []

def addAll (e : Env) (opts : List (List Char × Option (List Char))) : Env :=
  opts.foldl (fun e o => e.add o.1 (o.2.getD [])) e

/-! ### The loop -/

variable {e : Env} {key val : List Char} {args : List (List Char)}
  {opts : List (List Char × Option (List Char))}

lemma scan_option (now_key : Option (List Char)) (hkey : key ≠ []) :
    e.scan now_key (('-' :: key) :: args) = (e.flush now_key).scan (some key) args := by
  rw [Env.scan, if_pos hkey]

lemma scan_value (hval : val.head? ≠ some '-') :
    e.scan (some key) (val :: args) = (e.add key val).scan none args := by
  rw [Env.scan]
  rintro k rfl
  exact hval rfl

/-- Where an option or nothing follows, a key that waits gets the empty string. -/
lemma scan_pending (h : Options args opts) :
    e.scan (some key) args = (e.add key []).scan none args := by
  cases h with
  | nil => rfl
  | bare hkey _ => rw [scan_option _ hkey, scan_option _ hkey]; rfl
  | value hkey _ _ => rw [scan_option _ hkey, scan_option _ hkey]; rfl

lemma scan_of_options (h : Options args opts) : e.scan none args = (true, addAll e opts) := by
  induction h generalizing e with
  | nil => rfl
  | bare hkey h ih =>
    rw [scan_option _ hkey, scan_pending h, ih]
    rfl
  | value hkey hval _ ih =>
    rw [scan_option _ hkey, scan_value hval, ih]
    rfl

/-- Whatever is accepted consists of options, also behind a key that waits. -/
lemma options_of_scan (args : List (List Char)) :
    (∀ e : Env, (e.scan none args).1 = true → ∃ opts, Options args opts) ∧
    ∀ (e : Env) (key : List Char), key ≠ [] → (e.scan (some key) args).1 = true →
      ∃ opts, Options (('-' :: key) :: args) opts := by
  induction args with
  | nil => exact ⟨fun _ _ => ⟨[], .nil⟩, fun _ key hkey _ => ⟨[(key, none)], .bare hkey .nil⟩⟩
  | cons arg args ih =>
    obtain ⟨ihnone, ihsome⟩ := ih
    by_cases harg : arg.head? = some '-'
    · obtain ⟨k, rfl⟩ := List.head?_eq_some_iff.1 harg
      by_cases hk : k = []
      · subst hk
        have hdash : ∀ (e : Env) (now_key : Option (List Char)),
            (e.scan now_key (['-'] :: args)).1 ≠ true := by simp [Env.scan]
        exact ⟨fun e h => absurd h (hdash e none), fun e key _ h => absurd h (hdash e (some key))⟩
      · have hoption : ∀ (e : Env) (now_key : Option (List Char)),
            (e.scan now_key (('-' :: k) :: args)).1 = true →
              ∃ opts, Options (('-' :: k) :: args) opts := by
          intro e now_key h
          rw [scan_option now_key hk] at h
          exact ihsome _ k hk h
        refine ⟨fun e h => hoption e none h, fun e key hkey h => ?_⟩
        obtain ⟨opts, hopts⟩ := hoption e (some key) h
        exact ⟨_, .bare hkey hopts⟩
    · refine ⟨fun e h => ?_, fun e key hkey h => ?_⟩
      · rw [Env.scan] at h
        · cases h
        · rintro k rfl
          exact harg rfl
      · rw [scan_value harg] at h
        obtain ⟨opts, hopts⟩ := ihnone _ h
        exact ⟨_, .value hkey harg hopts⟩

/-! ### What is stored -/

lemma last_cons (o : List Char × Option (List Char)) (opts) (key : List Char) :
    last (o :: opts) key =
      (last opts key).or (if o.1 = key then some (o.2.getD []) else none) := by
  rw [last, last, List.filter_cons]
  split
  case isTrue h =>
    rw [if_pos (of_decide_eq_true h), List.getLast?_cons]
    cases (opts.filter fun o => o.1 = key).getLast? <;> rfl
  case isFalse h =>
    rw [if_neg fun heq => h (decide_eq_true heq), Option.or_none]

/-- The last occurrence wins over earlier ones and over what was set before. -/
lemma args_addAll (e : Env) (opts : List (List Char × Option (List Char))) (key : List Char) :
    (addAll e opts).args_ key = (last opts key).or (e.args_ key) := by
  induction opts generalizing e with
  | nil => rfl
  | cons o opts ih =>
    have hadd : (e.add o.1 (o.2.getD [])).args_ key =
        (if o.1 = key then some (o.2.getD []) else none).or (e.args_ key) := by
      by_cases h : o.1 = key
      · simp [Env.add, h]
      · simp [Env.add, h, Ne.symm h]
    rw [last_cons, Option.or_assoc, ← hadd]
    exact ih (e.add o.1 (o.2.getD []))

/-- **The command line is accepted if and only if it consists of options, and every key then has the
argument of its last occurrence, its previous value or the default.** -/
theorem init_options (e : Env) (path program : List Char) (args : List (List Char)) :
    ((e.init (some path) program args).1 = true ↔ ∃ opts, Options args opts) ∧
    ∀ opts, Options args opts → ∀ key default_value,
      (e.init (some path) program args).2.get key default_value =
        match last opts key with
        | some val => val
        | none => e.get key default_value := by
  refine ⟨⟨(options_of_scan args).1 _, ?_⟩, ?_⟩
  · rintro ⟨opts, h⟩
    rw [Env.init, scan_of_options h]
  · intro opts h key default_value
    rw [Env.init, scan_of_options h, Env.get, args_addAll]
    cases last opts key <;> rfl

theorem init_options_file :
    (Env.init ⟨[], [], [], fun _ => none⟩ (some "/bin/server".toList) "server".toList
      ["-d".toList, "-file".toList, "a".toList]).2.get "file".toList [] = "a".toList :=
  (init_options _ _ _ _).2 [("d".toList, none), ("file".toList, some "a".toList)]
    (.bare (by decide) (.value (by decide) (by decide) .nil)) _ _

end Sylar.EnvArgs
