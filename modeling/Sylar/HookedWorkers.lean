import Sylar.DoIo
import Sylar.Connect

/-!
The I/O manager that the hooked functions look for on a worker.

`Scheduler::run` switches hooking on and makes its scheduler the thread's own, of whatever class the
scheduler is. `IOManager::GetThis` is a `dynamic_cast` of the thread's scheduler, and the hooked
functions use the pointer without a test.
-/

namespace Sylar.HookedWorkers

open Lib Lib.Runs Sylar.HookModel
open Sylar.DoIo (Res)

inductive Kind
  | scheduler
  | ioManager
  deriving DecidableEq

variable {T S : Type}

/-- What is local to a thread, and the scheduler whose `run` it is in. -/
structure Locals (S : Type) where
  t_hook_enable : Bool := false
  t_scheduler : Option S := none
  running : Option S := none

abbrev Process (T S : Type) := T → Locals S

/-! ### The hooked functions -/

/-- What becomes of a call: it gets on without an I/O manager, or goes through the pointer. -/
inductive Use (S : Type)
  | pass
  | deref (iom : Option S)

/-- A call by a task. `r` is what the original function has returned, in `do_io` the first result
that is not an interruption. -/
inductive Call
  | sleep
  | usleep
  | nanosleep
  /-- One of the functions that are a call of `do_io`. -/
  | io (ctx : Option FdCtx) (timeout_so : TimeoutSo) (r : Res)
  /-- In `do_io` behind `retry`, after a wait. -/
  | retry (r : Res)
  | connect (ctx : Option FdCtx) (r : Res)
  | close (ctx : Option FdCtx)

section Functions

variable (kind : S → Kind) (l : Locals S)

def GetThis : Option S := l.t_scheduler.filter fun s => kind s = .ioManager

/-- `sleep`, `usleep` and `nanosleep`, which add a timer. -/
def timed : Use S := if l.t_hook_enable = false then .pass else .deref (GetThis kind l)

/-- `do_io` from `retry` on. It adds an event in any case, and a timer before if there is a
timeout. -/
def retry (r : Res) : Use S := if r.wouldBlock then .deref (GetThis kind l) else .pass

def do_io (ctx : Option FdCtx) (timeout_so : TimeoutSo) (r : Res) : Use S :=
  match doIoPath l.t_hook_enable ctx timeout_so with
  | .wait _ => retry kind l r
  | .pass | .ebadf => .pass

def connect_with_timeout (ctx : Option FdCtx) (r : Res) : Use S :=
  if l.t_hook_enable = false then .pass
  else match ctx with
    | none => .pass
    | some ctx =>
      if ctx.isClosed then .pass
      else if ctx.isSocket = false then .pass
      else if ctx.userNonblock then .pass
      else if r.n = 0 then .pass
      else if r.n ≠ -1 ∨ r.errno ≠ Connect.EINPROGRESS then .pass
      else .deref (GetThis kind l)

/-- `close` looks whether there is an I/O manager. -/
def close (ctx : Option FdCtx) : Use S :=
  if l.t_hook_enable = false then .pass
  else match ctx, GetThis kind l with
    | some _, some iom => .deref (some iom)
    | _, _ => .pass

def Call.use : Call → Use S
  | .sleep | .usleep | .nanosleep => timed kind l
  | .io ctx timeout_so r => do_io kind l ctx timeout_so r
  | .retry r => HookedWorkers.retry kind l r
  | .connect ctx r => connect_with_timeout kind l ctx r
  | .close ctx => HookedWorkers.close kind l ctx

end Functions

/-! ### The threads -/

inductive Action (T S : Type)
  /-- `Scheduler(threads, use_caller, name)`. -/
  | construct (t : T) (s : S) (use_caller : Bool)
  /-- `~Scheduler`. -/
  | destroy (t : T) (s : S)
  /-- The thread enters `run`, or leaves it. -/
  | enter (t : T) (s : S)
  | leave (t : T)
  | set_hook_enable (t : T) (flag : Bool)
  | call (t : T) (c : Call)

def start : Process T S := fun _ => {}

section Steps

variable [DecidableEq T] [DecidableEq S]

/-- An assertion stops the process. A thread is in one `run` at a time, and no task destroys the
scheduler whose `run` it is in. -/
def step (p : Process T S) : Action T S → Option (Process T S)
  | .construct t s use_caller =>
    if use_caller then
      if (p t).t_scheduler = none then
        some (Function.update p t { p t with t_scheduler := some s })
      else none
    else some p
  | .destroy t s =>
    if (p t).running = some s then none
    else if (p t).t_scheduler = some s then
      some (Function.update p t { p t with t_scheduler := none })
    else some p
  | .enter t s =>
    if (p t).running = none then
      some (Function.update p t ⟨true, some s, some s⟩)
    else none
  | .leave t => some (Function.update p t { p t with running := none })
  | .set_hook_enable t flag => some (Function.update p t { p t with t_hook_enable := flag })
  | .call _ _ => some p

/-- A call by a task on a worker finds an I/O manager where it goes through the pointer. -/
def Safe (kind : S → Kind) (p : Process T S) : Action T S → Prop
  | .call t c => (p t).running ≠ none → ∀ iom, c.use kind (p t) = .deref iom → iom ≠ none
  | _ => True

/-- The call gets to where it needs an I/O manager. -/
def Call.waits (hook : Bool) : Call → Prop
  | .sleep | .usleep | .nanosleep => hook = true
  | .io ctx timeout_so r =>
    (∃ timeout, doIoPath hook ctx timeout_so = .wait timeout) ∧ r.wouldBlock = true
  | .retry r => r.wouldBlock = true
  | .connect ctx r =>
    hook = true ∧ (∃ c, ctx = some c ∧ c.isClosed = false ∧ c.isSocket = true ∧
      c.userNonblock = false) ∧ r.n = -1 ∧ r.errno = Connect.EINPROGRESS
  | .close _ => False

/-- A task that makes a call which has to wait is on a worker of an `IOManager`. -/
def Cond (kind : S → Kind) (p : Process T S) : Action T S → Prop
  | .call t c => ∀ s, (p t).running = some s → c.waits (p t).t_hook_enable → kind s = .ioManager
  | _ => True

end Steps

/-! ### One call -/

section Calls

variable {kind : S → Kind} {l : Locals S}

lemma use_of_waits {c : Call} (h : c.waits l.t_hook_enable) :
    c.use kind l = .deref (GetThis kind l) := by
  have htimed : l.t_hook_enable = true → timed kind l = .deref (GetThis kind l) := fun hook => by
    rw [timed, hook]
    rfl
  cases c with
  | sleep => exact htimed h
  | usleep => exact htimed h
  | nanosleep => exact htimed h
  | io ctx so r =>
    obtain ⟨⟨timeout, hpath⟩, hr⟩ := h
    simp only [Call.use, do_io, hpath]
    exact if_pos hr
  | retry r => exact if_pos h
  | connect ctx r =>
    obtain ⟨hook, ⟨ctx, rfl, hclosed, hsocket, huser⟩, hn, herrno⟩ := h
    simp [Call.use, connect_with_timeout, hook, hclosed, hsocket, huser, hn, herrno]
  | close ctx => exact h.elim

/-- A call of `connect` that does not get as far returns before. -/
lemma connect_pass {ctx : Option FdCtx} {r : Res}
    (h : ¬(Call.connect ctx r).waits l.t_hook_enable) :
    connect_with_timeout kind l ctx r = .pass := by
  unfold connect_with_timeout
  by_cases hook : l.t_hook_enable = false
  · exact if_pos hook
  · rw [if_neg hook]
    cases ctx with
    | none => rfl
    | some c =>
      dsimp only
      split_ifs with hclosed hsocket huser hzero hres
      case neg =>
        rw [not_or, not_not, not_not] at hres
        have hctx : c.isClosed = false ∧ c.isSocket = true ∧ c.userNonblock = false :=
          ⟨Bool.eq_false_iff.2 hclosed, Bool.eq_true_of_not_eq_false hsocket,
            Bool.eq_false_iff.2 huser⟩
        exact absurd ⟨Bool.eq_true_of_not_eq_false hook, ⟨c, rfl, hctx⟩, hres⟩ h
      all_goals rfl

lemma close_ne_none {ctx : Option FdCtx} {iom : Option S}
    (huse : close kind l ctx = .deref iom) : iom ≠ none := by
  unfold close at huse
  split at huse
  case isTrue => cases huse
  case isFalse =>
    split at huse
    case h_1 =>
      cases huse
      exact Option.some_ne_none _
    case h_2 => cases huse

lemma ne_none_of_not_waits {c : Call} (h : ¬c.waits l.t_hook_enable) {iom : Option S}
    (huse : c.use kind l = .deref iom) : iom ≠ none := by
  have htimed : l.t_hook_enable ≠ true → timed kind l ≠ .deref iom := fun hook => by
    rw [timed, if_pos (by simpa using hook)]
    exact nofun
  cases c with
  | sleep => exact absurd huse (htimed h)
  | usleep => exact absurd huse (htimed h)
  | nanosleep => exact absurd huse (htimed h)
  | io ctx so r =>
    simp only [Call.use, do_io] at huse
    split at huse
    case h_1 timeout hpath =>
      have hr : ¬r.wouldBlock = true := fun hr => h ⟨⟨timeout, hpath⟩, hr⟩
      rw [retry, if_neg hr] at huse
      cases huse
    case h_2 => cases huse
    case h_3 => cases huse
  | retry r =>
    have hr : ¬r.wouldBlock = true := h
    rw [Call.use, retry, if_neg hr] at huse
    cases huse
  | connect ctx r =>
    rw [Call.use, connect_pass h] at huse
    cases huse
  | close ctx => exact close_ne_none huse

/-- On a worker the thread's scheduler is the one whose `run` it is in. -/
lemma GetThis_ne_none_iff {s : S} (h : l.t_scheduler = some s) :
    GetThis kind l ≠ none ↔ kind s = .ioManager := by
  rw [GetThis, h]
  by_cases hk : kind s = .ioManager <;> simp [hk]

end Calls

/-! ### Runs -/

section Runs

variable {kind : S → Kind} {p p' : Process T S} {a : Action T S}

/-- A worker's thread has the scheduler it works for as its own. -/
def Inv (p : Process T S) : Prop := ∀ t s, (p t).running = some s → (p t).t_scheduler = some s

lemma inv_start : Inv (start : Process T S) := fun _ _ h => nomatch h

/-- In a state of the invariant a call is safe if and only if it meets the condition. -/
lemma safe_iff_cond (hp : Inv p) : Safe kind p a ↔ Cond kind p a := by
  cases a with
  | call t c =>
    constructor
    · intro hsafe s hs hwaits
      have hne := hsafe (by simp [hs]) _ (use_of_waits hwaits)
      exact (GetThis_ne_none_iff (hp t s hs)).1 hne
    · intro hcond hrunning iom huse
      obtain ⟨s, hs⟩ := Option.ne_none_iff_exists'.1 hrunning
      by_cases hwaits : c.waits (p t).t_hook_enable
      · rw [use_of_waits hwaits] at huse
        cases huse
        exact (GetThis_ne_none_iff (hp t s hs)).2 (hcond s hs hwaits)
      · exact ne_none_of_not_waits hwaits huse
  | construct => exact Iff.rfl
  | destroy => exact Iff.rfl
  | enter => exact Iff.rfl
  | leave => exact Iff.rfl
  | set_hook_enable => exact Iff.rfl

variable [DecidableEq T]

lemma inv_update {t : T} {l : Locals S} (hp : Inv p)
    (hl : ∀ s, l.running = some s → l.t_scheduler = some s) : Inv (Function.update p t l) := by
  intro u s hs
  by_cases hu : u = t
  · subst hu
    rw [Function.update_self] at hs ⊢
    exact hl s hs
  · rw [Function.update_of_ne hu] at hs ⊢
    exact hp u s hs

variable [DecidableEq S]

lemma inv_step (hp : Inv p) (h : step p a = some p') : Inv p' := by
  cases a with
  | construct t s use_caller =>
    simp only [step] at h
    split at h
    · split at h
      · rename_i hnone
        obtain rfl := Option.some.inj h
        -- a worker has a scheduler, so the constructor's assertion fails there
        refine inv_update hp fun s' hs => ?_
        have hsome := hp t s' hs
        rw [hnone] at hsome
        cases hsome
      · cases h
    · obtain rfl := Option.some.inj h
      exact hp
  | destroy t s =>
    simp only [step] at h
    split at h
    · cases h
    · rename_i hrunning
      split at h
      · rename_i hsched
        obtain rfl := Option.some.inj h
        refine inv_update hp fun s' hs => ?_
        have hsame := hp t s' hs
        rw [hsched] at hsame
        obtain rfl := Option.some.inj hsame
        exact absurd hs hrunning
      · obtain rfl := Option.some.inj h
        exact hp
  | enter t s =>
    simp only [step] at h
    split at h
    · obtain rfl := Option.some.inj h
      exact inv_update hp fun s' hs => hs
    · cases h
  | leave t =>
    obtain rfl := Option.some.inj h
    exact inv_update hp fun s' hs => nomatch hs
  | set_hook_enable t flag =>
    obtain rfl := Option.some.inj h
    exact inv_update hp (hp t)
  | call t c =>
    obtain rfl := Option.some.inj h
    exact hp

lemma meets_safe_iff (kind : S → Kind) (as : List (Action T S)) :
    Meets step (Safe kind) start as ↔ Meets step (Cond kind) start as :=
  meets_congr (fun _ _ _ => inv_step) (fun _ _ => safe_iff_cond) inv_start

/-- A task that sleeps on a worker of the scheduler. -/
def sleeps (t : T) (s : S) : List (Action T S) := [.enter t s, .call t .sleep]

lemma safe_sleeps_iff (kind : S → Kind) (t : T) (s : S) :
    Meets step (Safe kind) start (sleeps t s) ↔ kind s = .ioManager := by
  rw [meets_safe_iff]
  have hstep : step start (.enter t s) = some (Function.update start t ⟨true, some s, some s⟩) := by
    have hfree : ((start : Process T S) t).running = none := rfl
    rw [step, if_pos hfree]
  have hrunning : (Function.update start t ⟨true, some s, some s⟩ : Process T S) t =
      ⟨true, some s, some s⟩ := Function.update_self ..
  constructor
  · intro h
    have hcall : Cond kind _ _ := (h.2 _ hstep).1
    exact hcall s (by rw [hrunning]) (by rw [hrunning]; rfl)
  · intro hk
    refine meets_cons trivial hstep (meets_cons (fun s' hs _ => ?_) rfl trivial)
    rw [hrunning] at hs
    obtain rfl := Option.some.inj hs
    exact hk

/-- **In a run of the process all calls of tasks find their I/O manager if and only if those that
have to wait are made on workers of an `IOManager`. They do so in every run if and only if every
scheduler is one.** -/
theorem safe_iff (kind : S → Kind) (t : T) :
    (∀ as : List (Action T S),
      Meets step (Safe kind) start as ↔ Meets step (Cond kind) start as) ∧
    ((∀ as : List (Action T S), Meets step (Safe kind) start as) ↔
      ∀ s, kind s = .ioManager) := by
  refine ⟨meets_safe_iff kind, fun h s => (safe_sleeps_iff kind t s).1 (h _), fun h as => ?_⟩
  rw [meets_safe_iff]
  refine meets_of_forall (fun p a => ?_) start as
  cases a with
  | call t c => exact fun s _ _ => h s
  | _ => trivial

/-- A task on a worker of a plain `Scheduler` sleeps. -/
theorem plain_sleep :
    (∃ p, run step start (sleeps () ()) = some p) ∧
      ¬Meets step (Safe fun _ => .scheduler) start (sleeps () ()) := by
  refine ⟨⟨_, rfl⟩, fun h => ?_⟩
  cases (safe_sleeps_iff (fun _ => .scheduler) () ()).1 h

end Runs

end Sylar.HookedWorkers
