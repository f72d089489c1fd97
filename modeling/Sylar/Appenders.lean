import Mathlib.Logic.Function.Basic
import Sylar.Lib.Runs
import Sylar.LogPattern

/-!
Loggers, appenders and their formatters.

An appender has one pointer for its formatter and a flag that says whether it is its own. An
inherited one is written by the logger: when the appender is attached, if it has none, and each
time the formatter of the logger is set.
-/

namespace Sylar.Appenders

open Lib.Runs Sylar.LogPattern

inductive Level
  | unknow
  | debug
  | info
  | warn
  | error
  | fatal
  deriving DecidableEq

/-- The class of an appender, with the name of its file. -/
inductive Sink
  | file (filename : List Char)
  | stdout
  deriving DecidableEq

/-- An appender, with pointers to formatters of type `F`. -/
structure LogAppender (F : Type) where
  sink : Sink
  level : Level := .debug
  hasFormatter : Bool := false
  formatter : Option F := none

structure Logger (F A : Type) where
  level : Level := .debug
  formatter : F
  appenders : List A := []

variable {F A L : Type}

def LogAppender.setFormatter (a : LogAppender F) (val : Option F) : LogAppender F :=
  { a with formatter := val, hasFormatter := val.isSome }

/-- What `Logger::addAppender` does to the appender. -/
def LogAppender.adopt (a : LogAppender F) (formatter : F) : LogAppender F :=
  if a.formatter.isNone then { a with formatter := some formatter } else a

/-- What `Logger::setFormatter` does to an appender. -/
def LogAppender.follow (a : LogAppender F) (formatter : F) : LogAppender F :=
  if a.hasFormatter then a else { a with formatter := some formatter }

def Logger.clearAppenders (l : Logger F A) : Logger F A := { l with appenders := [] }

structure Formatter where
  addr : ℕ
  pattern : List Char

/-- The loggers and the appenders of a program. -/
structure Logging (L A : Type) where
  logger : L → Logger Formatter A
  appender : A → LogAppender Formatter

/-- At first the loggers have a formatter each and nothing is attached. -/
def start (formatter : L → Formatter) (sink : A → Sink) : Logging L A :=
  ⟨fun l => { formatter := formatter l }, fun a => { sink := sink a }⟩

inductive Act (L A : Type)
  | addAppender (l : L) (a : A)
  | delAppender (l : L) (a : A)
  | clearAppenders (l : L)
  /-- `Logger::setFormatter` with a formatter. -/
  | setFormatter (l : L) (val : Formatter)
  /-- `Logger::setFormatter` with a pattern, for which it makes a formatter at `addr`. -/
  | setPattern (l : L) (addr : ℕ) (val : List Char)
  /-- `LogAppender::setFormatter`. -/
  | setAppenderFormatter (a : A) (val : Option Formatter)

section Step

variable [DecidableEq L] [DecidableEq A]

def followAll (formatter : F) (appenders : List A) (appender : A → LogAppender F) :
    A → LogAppender F :=
  appenders.foldl (fun ap i => Function.update ap i ((ap i).follow formatter)) appender

def Logging.setFormatter (s : Logging L A) (l : L) (val : Formatter) : Logging L A where
  logger := Function.update s.logger l { s.logger l with formatter := val }
  appender := followAll val (s.logger l).appenders s.appender

def step (s : Logging L A) : Act L A → Option (Logging L A)
  | .addAppender l a =>
    some {
      logger := Function.update s.logger l
        { s.logger l with appenders := (s.logger l).appenders ++ [a] }
      appender := Function.update s.appender a ((s.appender a).adopt (s.logger l).formatter) }
  | .delAppender l a =>
    some { s with
      logger := Function.update s.logger l
        { s.logger l with appenders := (s.logger l).appenders.erase a } }
  | .clearAppenders l =>
    some { s with logger := Function.update s.logger l (s.logger l).clearAppenders }
  | .setFormatter l val => some (s.setFormatter l val)
  | .setPattern l addr val =>
    if (LogFormatter.init val).error then some s else some (s.setFormatter l ⟨addr, val⟩)
  | .setAppenderFormatter a val =>
    some { s with appender := Function.update s.appender a ((s.appender a).setFormatter val) }

end Step

/-- The appender has a formatter, and it is `f` unless it is its own. -/
def LogAppender.Has (a : LogAppender F) (f : F) : Prop :=
  a.formatter ≠ none ∧ (a.hasFormatter = false → a.formatter = some f)

/-- An appender that is attached to a logger has a formatter, which is that of the logger unless it
is its own. -/
def Inherits (s : Logging L A) : Prop :=
  ∀ l, ∀ a ∈ (s.logger l).appenders, (s.appender a).Has (s.logger l).formatter

/-- No appender is attached to a second logger. -/
def OneLogger (s : Logging L A) : Act L A → Prop
  | .addAppender l a => ∀ l' ≠ l, a ∉ (s.logger l').appenders
  | _ => True

/-- An appender that is attached has its own formatter, or none, or that of the logger; and an
appender that is attached does not lose its formatter. -/
def KeepsFormatter (s : Logging L A) : Act L A → Prop
  | .addAppender l a => (s.appender a).hasFormatter = true ∨ (s.appender a).formatter = none ∨
      (s.appender a).formatter = some (s.logger l).formatter
  | .setAppenderFormatter a none => ∀ l, a ∉ (s.logger l).appenders
  | _ => True

/-! ### Single appenders -/

/-- The flag of an own formatter is not set without one. -/
def LogAppender.Flagged (a : LogAppender F) : Prop := a.hasFormatter = true → a.formatter ≠ none

variable {a : LogAppender F} {f : F}

lemma LogAppender.follow_has (h : a.Flagged) : (a.follow f).Has f := by
  unfold follow
  split
  · rename_i hflag
    exact ⟨h hflag, by simp [hflag]⟩
  · exact ⟨by simp, fun _ => rfl⟩

lemma LogAppender.follow_follow : (a.follow f).follow f = a.follow f := by
  unfold follow
  split <;> simp_all

lemma LogAppender.follow_flagged (h : a.Flagged) : (a.follow f).Flagged := by
  unfold follow
  split
  · exact h
  · exact fun _ => by simp

lemma LogAppender.adopt_has_iff : (a.adopt f).Has f ↔
    a.hasFormatter = true ∨ a.formatter = none ∨ a.formatter = some f := by
  unfold adopt Has
  cases hf : a.formatter with
  | none => simp
  | some g =>
    cases hflag : a.hasFormatter <;> simp [hf, hflag]

lemma LogAppender.adopt_flagged (h : a.Flagged) : (a.adopt f).Flagged := by
  unfold adopt
  split
  · exact fun _ => by simp
  · exact h

lemma LogAppender.setFormatter_flagged (val : Option F) : (a.setFormatter val).Flagged := by
  cases val <;> simp [setFormatter, Flagged]

lemma LogAppender.setFormatter_has (g : F) : (a.setFormatter (some g)).Has f := by
  simp [setFormatter, Has]

lemma LogAppender.not_setFormatter_none_has : ¬ (a.setFormatter none).Has f := by
  simp [setFormatter, Has]

/-! ### Steps -/

lemma followAll_apply [DecidableEq A] (appenders : List A) (appender : A → LogAppender F) (x : A) :
    followAll f appenders appender x =
      if x ∈ appenders then (appender x).follow f else appender x := by
  induction appenders generalizing appender with
  | nil => simp [followAll]
  | cons i appenders ih =>
    have hfold : followAll f (i :: appenders) appender =
        followAll f appenders (Function.update appender i ((appender i).follow f)) := rfl
    rw [hfold, ih]
    by_cases hi : x = i
    · subst hi
      simp [LogAppender.follow_follow]
    · simp [hi]

variable {s s' : Logging L A} {act : Act L A} [DecidableEq L]

/-- No appender is attached to two loggers, and the flags of the appenders are right. -/
def Tidy (s : Logging L A) : Prop :=
  (∀ l l' a, a ∈ (s.logger l).appenders → a ∈ (s.logger l').appenders → l = l') ∧
    ∀ a, (s.appender a).Flagged

lemma mem_update_append {l l' : L} {a x : A} :
    x ∈ (Function.update s.logger l { s.logger l with
      appenders := (s.logger l).appenders ++ [a] } l').appenders ↔
      x ∈ (s.logger l').appenders ∨ l' = l ∧ x = a := by
  by_cases hl : l' = l
  · subst hl
    simp
  · simp [hl]

lemma formatter_update_append {l l' : L} {appenders : List A} :
    (Function.update s.logger l { s.logger l with appenders := appenders } l').formatter =
      (s.logger l').formatter := by
  by_cases hl : l' = l
  · subst hl
    simp
  · simp [hl]

/-- A logger that gives up some of its appenders gets no others. -/
lemma mem_of_mem_update {l l' : L} {appenders : List A} {x : A}
    (hsub : ∀ y ∈ appenders, y ∈ (s.logger l).appenders)
    (hx : x ∈
      (Function.update s.logger l { s.logger l with appenders := appenders } l').appenders) :
    x ∈ (s.logger l').appenders := by
  by_cases hl : l' = l
  · subst hl
    rw [Function.update_self] at hx
    exact hsub x hx
  · rwa [Function.update_of_ne hl] at hx

lemma inherits_detach (hs : Inherits s) {l : L} {appenders : List A}
    (hsub : ∀ y ∈ appenders, y ∈ (s.logger l).appenders) :
    Inherits ⟨Function.update s.logger l { s.logger l with appenders := appenders },
      s.appender⟩ := by
  intro l' x hx
  simp only [formatter_update_append]
  exact hs l' x (mem_of_mem_update hsub hx)

variable [DecidableEq A]

lemma inherits_setFormatter (ht : Tidy s) (hs : Inherits s) (l : L) (val : Formatter) :
    Inherits (s.setFormatter l val) := by
  intro l' x hx
  simp only [Logging.setFormatter, followAll_apply] at hx ⊢
  by_cases hl : l' = l
  · subst hl
    rw [Function.update_self] at hx ⊢
    rw [if_pos hx]
    exact LogAppender.follow_has (ht.2 x)
  · rw [Function.update_of_ne hl] at hx ⊢
    rw [if_neg fun hx' => hl (ht.1 l' l x hx hx')]
    exact hs l' x hx

/-- An appender is attached: what it adopts has to be the formatter of this logger. -/
lemma inherits_addAppender_iff (hs : Inherits s) {l : L} {a : A}
    (hone : ∀ l' ≠ l, a ∉ (s.logger l').appenders) (h : step s (.addAppender l a) = some s') :
    Inherits s' ↔ ((s.appender a).adopt (s.logger l).formatter).Has (s.logger l).formatter := by
  cases h
  simp only [Inherits, mem_update_append, formatter_update_append]
  constructor
  · intro h
    simpa using h l a (.inr ⟨rfl, rfl⟩)
  · intro h l' x hx
    by_cases hxa : x = a
    · subst hxa
      have hl : l' = l := by
        by_contra hl
        rcases hx with hx | ⟨hl', -⟩
        · exact hone l' hl hx
        · exact hl hl'
      subst hl
      simpa using h
    · rw [Function.update_of_ne hxa]
      exact hs l' x (hx.resolve_right fun h => hxa h.2)

/-- An appender gets a formatter of its own, or loses the one it has. -/
lemma inherits_setAppenderFormatter_iff (hs : Inherits s) {a : A} {val : Option Formatter}
    (h : step s (.setAppenderFormatter a val) = some s') :
    Inherits s' ↔ (val = none → ∀ l, a ∉ (s.logger l).appenders) := by
  cases h
  simp only [Inherits]
  constructor
  · rintro h rfl l hl
    have := h l a hl
    rw [Function.update_self] at this
    exact LogAppender.not_setFormatter_none_has this
  · intro h l x hx
    by_cases hxa : x = a
    · subst hxa
      rw [Function.update_self]
      cases val with
      | none => exact absurd hx (h rfl l)
      | some g => exact LogAppender.setFormatter_has g
    · rw [Function.update_of_ne hxa]
      exact hs l x hx

/-- **A step keeps the invariant exactly if it meets the condition.** -/
lemma inherits_step_iff (ht : Tidy s) (hs : Inherits s) (hone : OneLogger s act)
    (h : step s act = some s') : Inherits s' ↔ KeepsFormatter s act := by
  cases act with
  | addAppender l a =>
    rw [inherits_addAppender_iff hs hone h, LogAppender.adopt_has_iff]
    rfl
  | delAppender l a =>
    cases h
    exact iff_of_true (inherits_detach hs fun _ => List.mem_of_mem_erase) trivial
  | clearAppenders l =>
    cases h
    exact iff_of_true (inherits_detach hs (by simp)) trivial
  | setFormatter l val =>
    cases h
    exact iff_of_true (inherits_setFormatter ht hs l val) trivial
  | setPattern l addr val =>
    simp only [step] at h
    refine iff_of_true ?_ trivial
    split at h
    · cases h
      exact hs
    · cases h
      exact inherits_setFormatter ht hs l _
  | setAppenderFormatter a val =>
    rw [inherits_setAppenderFormatter_iff hs h]
    cases val with
    | none => simp [KeepsFormatter]
    | some g => simp [KeepsFormatter]

lemma mem_appenders_step (h : step s act = some s') {l : L} {x : A}
    (hx : x ∈ (s'.logger l).appenders) :
    x ∈ (s.logger l).appenders ∨ act = .addAppender l x := by
  have hset : ∀ l' val, x ∈ ((s.setFormatter l' val).logger l).appenders →
      x ∈ (s.logger l).appenders := by
    intro l' val hx
    by_cases hl : l = l'
    · subst hl
      simpa [Logging.setFormatter] using hx
    · simpa [Logging.setFormatter, hl] using hx
  cases act with
  | addAppender l' a =>
    cases h
    rcases mem_update_append.mp hx with hx | ⟨rfl, rfl⟩
    · exact .inl hx
    · exact .inr rfl
  | delAppender l' a =>
    cases h
    exact .inl (mem_of_mem_update (fun _ => List.mem_of_mem_erase) hx)
  | clearAppenders l' =>
    cases h
    exact .inl (mem_of_mem_update (by simp) hx)
  | setFormatter l' val =>
    cases h
    exact .inl (hset l' val hx)
  | setPattern l' addr val =>
    simp only [step] at h
    split at h
    · cases h
      exact .inl hx
    · cases h
      exact .inl (hset l' _ hx)
  | setAppenderFormatter a val =>
    cases h
    exact .inl hx

lemma flagged_step (hs : ∀ a, (s.appender a).Flagged) (h : step s act = some s') (x : A) :
    (s'.appender x).Flagged := by
  have hset : ∀ l val, ((s.setFormatter l val).appender x).Flagged := by
    intro l val
    simp only [Logging.setFormatter, followAll_apply]
    split
    · exact LogAppender.follow_flagged (hs x)
    · exact hs x
  have hupdate : ∀ a b, b.Flagged → (Function.update s.appender a b x).Flagged := by
    intro a b hb
    by_cases hx : x = a
    · simpa [hx] using hb
    · simpa [hx] using hs x
  cases act with
  | addAppender l a =>
    cases h
    exact hupdate a _ (LogAppender.adopt_flagged (hs a))
  | delAppender l a =>
    cases h
    exact hs x
  | clearAppenders l =>
    cases h
    exact hs x
  | setFormatter l val =>
    cases h
    exact hset l val
  | setPattern l addr val =>
    simp only [step] at h
    split at h
    · cases h
      exact hs x
    · cases h
      exact hset l _
  | setAppenderFormatter a val =>
    cases h
    exact hupdate a _ (LogAppender.setFormatter_flagged val)

lemma tidy_step (ht : Tidy s) (hone : OneLogger s act) (h : step s act = some s') : Tidy s' := by
  refine ⟨fun l l' x hl hl' => ?_, flagged_step ht.2 h⟩
  rcases mem_appenders_step h hl with hl | rfl
  · rcases mem_appenders_step h hl' with hl' | rfl
    · exact ht.1 l l' x hl hl'
    · exact by_contra fun hne => hone l hne hl
  · rcases mem_appenders_step h hl' with hl' | heq
    · exact by_contra fun hne => hone l' (Ne.symm hne) hl'
    · cases heq
      rfl

/-- **Appenders inherit the formatter of their logger exactly in the runs in which no appender is
attached with a formatter that is not its own and not that of the logger, and none that is attached
is left without one.** -/
theorem inherits_iff (formatter : L → Formatter) (sink : A → Sink) {acts : List (Act L A)}
    {s' : Logging L A} (hr : run step (start formatter sink) acts = some s')
    (hone : Meets step OneLogger (start formatter sink) acts) :
    Always step Inherits (start formatter sink) acts ↔
      Meets step KeepsFormatter (start formatter sink) acts := by
  have htidy : Tidy (start formatter sink) :=
    ⟨fun _ _ _ h => absurd h List.not_mem_nil, fun _ => by simp [start, LogAppender.Flagged]⟩
  have hstart : Inherits (start formatter sink) := fun _ _ h => absurd h List.not_mem_nil
  exact always_iff_meets_of_meets (fun _ _ _ ht _ hone _ h => tidy_step ht hone h)
    (fun _ _ _ ht hs hone h => inherits_step_iff ht hs hone h) htidy hstart hone hr

/-- An appender is attached, and its logger gets another formatter. -/
theorem inherits_attach : Always step Inherits
    (start (fun _ : Unit => ⟨0, []⟩) fun _ : Unit => .stdout)
      [.addAppender () (), .setFormatter () ⟨1, []⟩] := by
  refine (inherits_iff _ _ rfl ?_).mpr ?_
  · exact meets_cons (fun _ h => absurd rfl h) rfl <| meets_cons trivial rfl <| meets_nil _
  · exact meets_cons (.inr (.inl rfl)) rfl <| meets_cons trivial rfl <| meets_nil _

/-- **An appender that drops its own formatter while it is attached is left without one.** -/
theorem drops_formatter : ∃ s', run step
    (start (fun _ : Unit => ⟨0, []⟩) fun _ : Unit => .stdout)
      [.addAppender () (), .setAppenderFormatter () (some ⟨1, []⟩),
        .setAppenderFormatter () none] = some s' ∧
    Meets step OneLogger (start (fun _ : Unit => ⟨0, []⟩) fun _ : Unit => .stdout)
      [.addAppender () (), .setAppenderFormatter () (some ⟨1, []⟩),
        .setAppenderFormatter () none] ∧ ¬ Inherits s' := by
  refine ⟨_, rfl, ?_, fun h => ?_⟩
  · exact meets_cons (fun _ h => absurd rfl h) rfl <| meets_cons trivial rfl <|
      meets_cons trivial rfl <| meets_nil _
  · exact (h () () (by simp [start])).1 rfl

end Sylar.Appenders
