import Sylar.Appenders
import Mathlib.Data.List.Induction

/-!
The file of a `FileLogAppender`, which is opened again every three seconds.

Of the stream two bits count: whether its file is open, and whether it has failed. What the system
answers to a call is an argument. A write that fails and one that is never tried look the same from
outside; here an event is taken when the stream has taken all of it. What becomes of the stream's
buffer later is left out: a flush that fails loses events that were taken.
-/

namespace Sylar.FileAppender

open Sylar.Appenders

/-! ### The stream -/

structure Ofstream where
  isOpen : Bool := false
  /-- `failbit` or `badbit` -/
  failed : Bool := false
  deriving DecidableEq

namespace Ofstream

/-- `close` fails when nothing is open, or when what is buffered cannot be written. -/
def close (s : Ofstream) (flush : Bool) : Ofstream :=
  { isOpen := false, failed := s.failed || !(s.isOpen && flush) }

/-- `open` fails on a stream that is open, and clears the state only when it succeeds. -/
def tryOpen (s : Ofstream) (ok : Bool) : Ofstream :=
  if !s.isOpen && ok then { isOpen := true, failed := false } else { s with failed := true }

/-- The insertions of one event. They do nothing on a stream that has failed. -/
def write (s : Ofstream) (ok : Bool) : Ofstream × Bool :=
  if s.failed then (s, false)
  else if s.isOpen && ok then (s, true) else ({ s with failed := true }, false)

end Ofstream

/-- What the system answers while one event is logged: whether the buffer can be written when the
file is closed, whether it can be opened, and whether it can after `Mkdir`. -/
structure Answers where
  flush : Bool
  first : Bool
  second : Bool
  write : Bool

def OpenForWrite (ofs : Ofstream) (c : Answers) : Ofstream × Bool :=
  let ofs := ofs.tryOpen c.first
  let ofs := if ofs.isOpen then ofs else ofs.tryOpen c.second
  (ofs, ofs.isOpen)

/-! ### The appender -/

def value : Level → ℕ
  | .unknow => 0
  | .debug => 1
  | .info => 2
  | .warn => 3
  | .error => 4
  | .fatal => 5

structure Event where
  level : Level
  time : UInt64
  answers : Answers

structure FileLogAppender where
  level : Level := .debug
  filestream : Ofstream := {}
  last_time : UInt64 := 0

namespace FileLogAppender

def reopen (a : FileLogAppender) (c : Answers) : FileLogAppender :=
  let s := if !a.filestream.failed then a.filestream.close c.flush else a.filestream
  { a with filestream := (OpenForWrite s c).1 }

def make (c : Answers) : FileLogAppender := reopen {} c

/-- `FileLogAppender::log`, and whether the event is taken. -/
def log (a : FileLogAppender) (e : Event) : FileLogAppender × Bool :=
  if value a.level ≤ value e.level then
    let a := if a.last_time + 3 ≤ e.time then { a.reopen e.answers with last_time := e.time } else a
    let r := a.filestream.write e.answers.write
    ({ a with filestream := r.1 }, r.2)
  else (a, false)

end FileLogAppender

inductive Act
  | log (e : Event)
  | reopen (c : Answers)
  | setLevel (level : Level)

def next (a : FileLogAppender) : Act → FileLogAppender
  | .log e => (a.log e).1
  | .reopen c => a.reopen c
  | .setLevel level => { a with level := level }

def run (c : Answers) (acts : List Act) : FileLogAppender :=
  acts.foldl next (FileLogAppender.make c)

/-! ### What the appender is meant to do -/

/-- The level, the time of the last opening, and whether it succeeded. -/
structure Plan where
  level : Level
  last_time : UInt64
  opened : Bool

namespace Plan

def reopen (p : Plan) (c : Answers) : Plan := { p with opened := c.first || c.second }

def due (p : Plan) (e : Event) : Plan :=
  if p.last_time + 3 ≤ e.time then { p.reopen e.answers with last_time := e.time } else p

def next (p : Plan) : Act → Plan
  | .log e => if value p.level ≤ value e.level then p.due e else p
  | .reopen c => p.reopen c
  | .setLevel level => { p with level := level }

/-- The event is of interest, and there is a file for it. -/
def Wants (p : Plan) (e : Event) : Prop := value p.level ≤ value e.level ∧ (p.due e).opened = true

end Plan

def plan (c : Answers) (acts : List Act) : Plan :=
  acts.foldl Plan.next ⟨.debug, 0, c.first || c.second⟩

def Intact (c : Answers) (acts : List Act) : Prop :=
  ∀ pre e post, acts = pre ++ .log e :: post → (plan c pre).Wants e → e.answers.write = true

lemma plan_append (c : Answers) (acts : List Act) (a : Act) :
    plan c (acts ++ [a]) = (plan c acts).next a := List.foldl_append ..

lemma run_append (c : Answers) (acts : List Act) (a : Act) :
    run c (acts ++ [a]) = next (run c acts) a := List.foldl_append ..

lemma intact_append (c : Answers) (acts : List Act) (a : Act) :
    Intact c (acts ++ [a]) ↔
      Intact c acts ∧ ∀ e, a = .log e → (plan c acts).Wants e → e.answers.write = true := by
  constructor
  · intro h
    refine ⟨fun pre e post hacts hwants => ?_, fun e ha => ?_⟩
    · exact h pre e (post ++ [a]) (by rw [hacts, List.append_assoc, List.cons_append]) hwants
    · exact h acts e [] (by rw [ha])
  · rintro ⟨h, hlast⟩ pre e post hacts hwants
    rcases List.eq_nil_or_concat post with rfl | ⟨post, b, rfl⟩
    · obtain ⟨rfl, ha⟩ := List.append_inj' hacts rfl
      exact hlast e (List.cons.inj ha).1 hwants
    · rw [List.concat_eq_append, ← List.cons_append, ← List.append_assoc] at hacts
      exact h pre e post (List.append_inj' hacts rfl).1 hwants

/-! ### The states of the stream -/

def Ofstream.ready (opened : Bool) : Ofstream := ⟨opened, !opened⟩

/-- Open and failed: there is no way out. -/
def Ofstream.broken : Ofstream := ⟨true, true⟩

lemma reopen_ready (a : FileLogAppender) (opened : Bool) (c : Answers)
    (h : a.filestream = .ready opened) :
    (a.reopen c).filestream = .ready (c.first || c.second) := by
  unfold FileLogAppender.reopen OpenForWrite
  rw [h]
  cases opened <;> cases c.first <;> cases c.second <;>
    simp [Ofstream.ready, Ofstream.close, Ofstream.tryOpen]

lemma reopen_broken (a : FileLogAppender) (c : Answers) (h : a.filestream = .broken) :
    (a.reopen c).filestream = .broken := by
  unfold FileLogAppender.reopen OpenForWrite
  rw [h]
  rfl

lemma write_ready (opened ok : Bool) : (Ofstream.ready opened).write ok =
    (if opened && !ok then .broken else .ready opened, opened && ok) := by
  cases opened <;> cases ok <;> rfl

lemma write_broken (ok : Bool) : Ofstream.broken.write ok = (.broken, false) := rfl

/-- The appender is where the plan says, and its stream is broken exactly if it is not intact. -/
structure Follows (a : FileLogAppender) (p : Plan) (intact : Prop) : Prop where
  level : a.level = p.level
  last_time : a.last_time = p.last_time
  up : intact → a.filestream = .ready p.opened
  down : ¬intact → a.filestream = .broken

section Follows

variable {a : FileLogAppender} {p : Plan} {intact : Prop}

lemma Follows.reopen (h : Follows a p intact) (c : Answers) :
    Follows (a.reopen c) (p.reopen c) intact where
  level := h.level
  last_time := h.last_time
  up hi := reopen_ready a p.opened c (h.up hi)
  down hi := reopen_broken a c (h.down hi)

/-- The appender that an event of interest is written by. -/
def dueAppender (a : FileLogAppender) (e : Event) : FileLogAppender :=
  if a.last_time + 3 ≤ e.time then { a.reopen e.answers with last_time := e.time } else a

lemma Follows.due (h : Follows a p intact) (e : Event) :
    Follows (dueAppender a e) (p.due e) intact := by
  unfold dueAppender Plan.due
  rw [h.last_time]
  split
  · have hr := h.reopen e.answers
    exact ⟨hr.level, rfl, hr.up, hr.down⟩
  · exact h

lemma log_of_le {e : Event} (hle : value a.level ≤ value e.level) :
    a.log e = ({ dueAppender a e with
      filestream := ((dueAppender a e).filestream.write e.answers.write).1 },
      ((dueAppender a e).filestream.write e.answers.write).2) := if_pos hle

/-- One event: it is taken as it is wanted by an intact appender and written without a failure. -/
lemma Follows.log (h : Follows a p intact) (e : Event) :
    Follows (a.log e).1 (p.next (.log e)) (intact ∧ (p.Wants e → e.answers.write = true)) ∧
      ((a.log e).2 = true ↔ intact ∧ p.Wants e ∧ e.answers.write = true) := by
  by_cases hle : value p.level ≤ value e.level
  · have hle' : value a.level ≤ value e.level := by rwa [h.level]
    have hd := h.due e
    have hnext : p.next (.log e) = p.due e := if_pos hle
    have hwants : p.Wants e ↔ (p.due e).opened = true := and_iff_right hle
    rw [log_of_le hle', hnext, hwants]
    by_cases hi : intact
    · rw [hd.up hi, write_ready]
      refine ⟨⟨hd.level, hd.last_time, fun hi' => ?_, fun hi' => ?_⟩, ?_⟩
      · refine if_neg fun hbad => ?_
        obtain ⟨hopen, hwrite⟩ := (Bool.and_eq_true _ _).mp hbad
        rw [hi'.2 hopen] at hwrite
        cases hwrite
      · refine if_pos ((Bool.and_eq_true _ _).mpr ?_)
        have hfail := not_and.mp hi' hi
        rw [Classical.not_imp] at hfail
        exact ⟨hfail.1, by rw [eq_false_of_ne_true hfail.2]; rfl⟩
      · rw [Bool.and_eq_true, and_iff_right hi]
    · rw [hd.down hi, write_broken]
      exact ⟨⟨hd.level, hd.last_time, fun hi' => absurd hi'.1 hi, fun _ => rfl⟩,
        iff_of_false nofun fun hi' => hi hi'.1⟩
  · have hle' : ¬value a.level ≤ value e.level := by rwa [h.level]
    have hlog : a.log e = (a, false) := if_neg hle'
    have hnext : p.next (.log e) = p := if_neg hle
    have hwants : ¬p.Wants e := fun hw => hle hw.1
    have hintact : (intact ∧ (p.Wants e → e.answers.write = true)) = intact :=
      propext (and_iff_left fun hw => absurd hw hwants)
    rw [hlog, hnext, hintact]
    exact ⟨h, iff_of_false nofun fun hi => hwants hi.2.1⟩

end Follows

lemma follows_run (c : Answers) (acts : List Act) :
    Follows (run c acts) (plan c acts) (Intact c acts) := by
  induction acts using List.reverseRecOn with
  | nil =>
    refine ⟨rfl, rfl, fun _ => ?_, fun h => absurd ?_ h⟩
    · show (FileLogAppender.reopen {} c).filestream = _
      unfold FileLogAppender.reopen OpenForWrite plan
      cases c.first <;> cases c.second <;> rfl
    · intro pre e post h
      cases pre <;> cases h
  | append_singleton acts a ih =>
    rw [run_append, plan_append, propext (intact_append c acts a)]
    have hother (hna : ∀ e, a ≠ .log e) : (Intact c acts ∧ ∀ e, a = .log e →
        (plan c acts).Wants e → e.answers.write = true) = Intact c acts :=
      propext (and_iff_left fun e he => absurd he (hna e))
    cases a with
    | log e =>
      simp only [Act.log.injEq, forall_eq']
      exact (ih.log e).1
    | reopen c' =>
      rw [hother nofun]
      exact ih.reopen c'
    | setLevel level =>
      rw [hother nofun]
      exact ⟨rfl, ih.last_time, ih.up, ih.down⟩

/-- **What the stream of a file appender takes.** It takes an event if that is of interest, the last
attempt to open the file succeeded, its own write does, and no write to the open file ever failed: a
file that could not be opened is tried again, a stream that has failed once is lost for good. -/
theorem taken_iff (c : Answers) (acts : List Act) (e : Event) :
    ((run c acts).log e).2 = true ↔
      (plan c acts).Wants e ∧ e.answers.write = true ∧
        ∀ pre e' post, acts = pre ++ .log e' :: post → (plan c pre).Wants e' →
          e'.answers.write = true := by
  rw [((follows_run c acts).log e).2]
  tauto

end Sylar.FileAppender
