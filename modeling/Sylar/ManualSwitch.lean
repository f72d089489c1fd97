import Mathlib.Algebra.Ring.Nat
import Sylar.FiberModel

/-!
A fiber that is switched to by hand: the main fiber of a thread makes it and calls `swapIn` until
it has ended, as the test of the fibers does.

`swapIn` saves the caller's context in the fiber that `Scheduler::GetMainFiber` gives, and `swapOut`
goes on with the one saved there. `HOLD` is written by `Scheduler::run` only.
-/

namespace Sylar.ManualSwitch

open Sylar.FiberModel

variable {A : Type}

inductive Body (A : Type)
  | ret
  | act (a : A) (rest : Body A)
  | yieldToHold (rest : Body A)

inductive Pc (A : Type)
  /-- In the main fiber, with so many calls of `swapIn` to come. -/
  | main (calls : ℕ)
  /-- In the main fiber, behind a call of `swapIn`. -/
  | back (calls : ℕ)
  | mainFunc
  /-- In the function, which `MainFunc` has called on the fiber `cur`. -/
  | body (cur : ℕ) (b : Body A)
  /-- Behind `swapOut` in `MainFunc`. -/
  | never
  | done

structure Fiber (A : Type) where
  state : State := .init
  ctx : Pc A
  cb : Option (Body A)

/-- What is seen of a run: what the body does, and `getState()` behind each `swapIn`. -/
inductive Event (A : Type)
  | act (a : A)
  | state (s : State)

inductive Fault
  | assertion
  /-- A null pointer is read. -/
  | null
  /-- A fiber is used that has been destroyed. -/
  | freed
  deriving DecidableEq

structure Thread (A : Type) where
  /-- The fibers that exist. -/
  fibers : ℕ → Option (Fiber A) := fun _ => none
  /-- The address of the next fiber; none is used twice. -/
  next : ℕ := 0
  t_fiber : Option ℕ := none
  t_threadFiber : Option ℕ := none
  t_scheduler_fiber : Option ℕ := none
  pc : Pc A := .main 0
  log : List (Event A) := []

namespace Thread

variable (t : Thread A)

def setFiber (f : ℕ) (x : Fiber A) : Thread A :=
  { t with fibers := Function.update t.fibers f (some x) }

def deref (p : Option ℕ) : Except Fault (ℕ × Fiber A) :=
  match p with
  | none => .error .null
  | some f =>
    match t.fibers f with
    | none => .error .freed
    | some x => .ok (f, x)

/-- `swapcontext`: the thread's own context is kept in the one fiber, and that of the other one is
taken. -/
def swapcontext (save load : Option ℕ) : Except Fault (Thread A) :=
  match t.deref save with
  | .error e => .error e
  | .ok (f, x) =>
    match (t.setFiber f { x with ctx := t.pc }).deref load with
    | .error e => .error e
    | .ok (_, y) => .ok { t.setFiber f { x with ctx := t.pc } with pc := y.ctx }

def newFiber (b : Body A) : ℕ × Thread A :=
  (t.next, { t.setFiber t.next { ctx := .mainFunc, cb := some b } with next := t.next + 1 })

/-- `Fiber::GetThis`, which makes the main fiber where there is none. -/
def GetThis : Except Fault (ℕ × Thread A) :=
  match t.t_fiber with
  | some f => (t.deref (some f)).map fun r => (r.1, t)
  | none =>
    .ok (t.next, { t.setFiber t.next { state := .exec, ctx := t.pc, cb := none } with
      next := t.next + 1, t_fiber := some t.next, t_threadFiber := some t.next })

def swapIn (f : ℕ) : Except Fault (Thread A) :=
  let t := { t with t_fiber := some f }
  match t.deref (some f) with
  | .error e => .error e
  | .ok (_, x) =>
    if x.state = .exec then .error .assertion
    else (t.setFiber f { x with state := .exec }).swapcontext t.t_scheduler_fiber (some f)

def swapOut (f : ℕ) : Except Fault (Thread A) :=
  let t := { t with t_fiber := t.t_scheduler_fiber }
  t.swapcontext (some f) t.t_scheduler_fiber

def YieldToHold : Except Fault (Thread A) :=
  match t.GetThis with
  | .error e => .error e
  | .ok (cur, t) =>
    match t.deref (some cur) with
    | .error e => .error e
    | .ok (_, x) => if x.state ≠ .exec then .error .assertion else t.swapOut cur

/-- The end of `MainFunc`, which writes to `cur` as `g` says. -/
def leave (cur : ℕ) (g : Fiber A → Fiber A) : Except Fault (Thread A) :=
  match t.deref (some cur) with
  | .error e => .error e
  | .ok (_, x) => { t.setFiber cur (g x) with pc := .never }.swapOut cur

def destroy (f : ℕ) : Except Fault (Thread A) :=
  match t.deref (some f) with
  | .error e => .error e
  | .ok (_, x) =>
    if x.state = .term ∨ x.state = .except ∨ x.state = .init then
      .ok { t with fibers := Function.update t.fibers f none }
    else .error .assertion

end Thread

/-- The next step of the thread, which switches to the fiber `f`. -/
def step (f : ℕ) (t : Thread A) : Except Fault (Thread A) :=
  match t.pc with
  | .main (n + 1) => { t with pc := .back n }.swapIn f
  | .back n => (t.deref (some f)).map fun r =>
    { t with pc := .main n, log := t.log ++ [.state r.2.state] }
  | .main 0 => (t.destroy f).map fun t => { t with pc := .done }
  | .mainFunc =>
    match t.GetThis with
    | .error e => .error e
    | .ok (cur, t) =>
      match (t.fibers cur).bind Fiber.cb with
      | some b => .ok { t with pc := .body cur b }
      -- the call of an empty function throws
      | none => t.leave cur fun x => { x with state := .except }
  | .body cur (.act a rest) => .ok { t with pc := .body cur rest, log := t.log ++ [.act a] }
  | .body cur (.yieldToHold rest) => { t with pc := .body cur rest }.YieldToHold
  | .body cur .ret => t.leave cur fun x => { x with cb := none, state := .term }
  | .never => .error .assertion
  | .done => .ok t

def run (f : ℕ) : ℕ → Thread A → Except Fault (Thread A)
  | 0, t => .ok t
  | n + 1, t =>
    match step f t with
    | .error e => .error e
    | .ok t => run f n t

namespace Body

def yields : Body A → ℕ
  | ret => 0
  | act _ rest => rest.yields
  | yieldToHold rest => rest.yields + 1

/-- What is to be seen: the body goes on where it was, the state is `HOLD` after each yield and
`TERM` at the end. -/
def expected : Body A → List (Event A)
  | ret => [.state .term]
  | act a rest => .act a :: rest.expected
  | yieldToHold rest => .state .hold :: rest.expected

end Body

/-- The main fiber makes the fiber and is about to call `swapIn` once more than the body yields. -/
def prepare (t : Thread A) (b : Body A) : Except Fault (ℕ × Thread A) :=
  t.GetThis.map fun r =>
    ((r.2.newFiber b).1, { (r.2.newFiber b).2 with pc := .main (b.yields + 1) })

/-- Switching by hand works: the thread gets to the end without a fault, and what is seen is what is
to be seen. -/
def Works (t : Thread A) (b : Body A) : Prop :=
  ∃ f t₀ n t', prepare t b = .ok (f, t₀) ∧ run f n t₀ = .ok t' ∧ t'.pc = .done ∧
    t'.log = t.log ++ b.expected

/-- The pointers of a thread whose current fiber, if it has one, exists. -/
structure Thread.Wf (t : Thread A) : Prop where
  fibers : ∀ f, t.fibers f ≠ none → f < t.next
  current : ∀ f, t.t_fiber = some f → t.fibers f ≠ none
  scheduler : ∀ f, t.t_scheduler_fiber = some f → f < t.next

/-! ### Runs -/

section Runs

variable {f : ℕ} {t t' : Thread A}

lemma run_succ {n : ℕ} (h : step f t = .ok t') : run f (n + 1) t = run f n t' := by
  rw [run, h]

lemma run_add {m n : ℕ} (h : run f m t = .ok t') : run f (m + n) t = run f n t' := by
  induction m generalizing t with
  | zero =>
    cases h
    rw [Nat.zero_add]
  | succ m ih =>
    rw [run] at h
    rw [Nat.succ_add, run]
    split at h
    case h_1 => cases h
    case h_2 t₁ ht₁ => exact ih h

lemma run_error_add {m n : ℕ} {e : Fault} (h : run f m t = .error e) :
    run f (m + n) t = .error e := by
  induction m generalizing t with
  | zero => cases h
  | succ m ih =>
    rw [run] at h
    rw [Nat.succ_add, run]
    split at h
    case h_1 => exact h
    case h_2 t₁ ht₁ => exact ih h

lemma run_done {n : ℕ} (h : t.pc = .done) : run f n t = .ok t := by
  induction n with
  | zero => rfl
  | succ n ih =>
    have hstep : step f t = .ok t := by rw [step, h]
    rw [run_succ hstep, ih]

lemma not_done {m n : ℕ} {e : Fault} (hm : run f m t = .error e) (hn : run f n t = .ok t')
    (hdone : t'.pc = .done) : False := by
  have herr : run f (m + n) t = .error e := run_error_add hm
  rw [Nat.add_comm, run_add hn, run_done hdone] at herr
  cases herr

end Runs

/-! ### One switch -/

section Switch

variable {f s n : ℕ} {t : Thread A} {b : Body A} {x y : Fiber A}

namespace Thread

@[simp] lemma setFiber_self : (t.setFiber f x).fibers f = some x := Function.update_self ..

lemma setFiber_of_ne (h : s ≠ f) : (t.setFiber f x).fibers s = t.fibers s :=
  Function.update_of_ne h ..

lemma deref_eq (h : t.fibers f = some x) : t.deref (some f) = .ok (f, x) := by
  rw [deref, h]

lemma GetThis_eq (hc : t.t_fiber = some f) (h : t.fibers f = some x) : t.GetThis = .ok (f, t) := by
  simp only [GetThis, hc, deref_eq h]
  rfl

lemma swapcontext_eq (hf : t.fibers f = some x) (hs : t.fibers s = some y) (hne : f ≠ s) :
    t.swapcontext (some f) (some s) =
      .ok { t.setFiber f { x with ctx := t.pc } with pc := y.ctx } := by
  have hload : (t.setFiber f { x with ctx := t.pc }).fibers s = some y := by
    rw [setFiber_of_ne hne.symm, hs]
  rw [swapcontext, deref_eq hf]
  simp only [deref_eq hload]

/-- The caller's context is kept in the scheduling fiber. -/
lemma swapIn_eq (hx : t.fibers f = some x) (hst : x.state ≠ .exec)
    (hsched : t.t_scheduler_fiber = some s) (hy : t.fibers s = some y) (hne : f ≠ s) :
    ∃ t', t.swapIn f = .ok t' ∧ t'.log = t.log ∧ t'.pc = x.ctx ∧ t'.t_fiber = some f ∧
      t'.t_scheduler_fiber = some s ∧ t'.fibers f = some { x with state := .exec } ∧
      t'.fibers s = some { y with ctx := t.pc } := by
  let t₁ : Thread A := { t with t_fiber := some f }.setFiber f { x with state := .exec }
  have hmain : t₁.fibers s = some y := by rw [setFiber_of_ne hne.symm, ← hy]
  have hfiber : t₁.fibers f = some { x with state := .exec } := setFiber_self
  have hswap := swapcontext_eq hmain hfiber hne.symm
  refine ⟨_, Eq.trans ?_ hswap, rfl, rfl, rfl, hsched, ?_, setFiber_self⟩
  · rw [swapIn]
    rw [deref_eq (t := { t with t_fiber := some f }) hx]
    simp only [hst, if_false]
    exact congrArg (fun p => t₁.swapcontext p (some f)) hsched
  · exact (setFiber_of_ne hne).trans hfiber

lemma swapOut_eq (hf : t.fibers f = some x) (hs : t.fibers s = some y) (hne : f ≠ s)
    (hsched : t.t_scheduler_fiber = some s) : t.swapOut f = .ok
      { { t with t_fiber := some s }.setFiber f { x with ctx := t.pc } with pc := y.ctx } := by
  rw [swapOut]
  simp only [hsched]
  exact swapcontext_eq (t := { t with t_fiber := some s, t_scheduler_fiber := some s }) hf hs hne

end Thread

/-- The fiber is in its function, and the main fiber behind a call of `swapIn`. -/
structure Inside (f s n : ℕ) (b : Body A) (t : Thread A) : Prop where
  pc : t.pc = .body f b
  current : t.t_fiber = some f
  scheduler : t.t_scheduler_fiber = some s
  ne : f ≠ s
  fiber : ∃ x, t.fibers f = some x ∧ x.state = .exec
  main : ∃ y, t.fibers s = some y ∧ y.ctx = .back n

/-- The main fiber is behind a call of `swapIn`. -/
structure Outside (f n : ℕ) (st : State) (t : Thread A) : Prop where
  pc : t.pc = .back n
  fiber : ∃ x, t.fibers f = some x ∧ x.state = st

lemma Inside.act {a : A} (h : Inside f s n (.act a b) t) :
    ∃ t', step f t = .ok t' ∧ Inside f s n b t' ∧ t'.log = t.log ++ [.act a] := by
  refine ⟨{ t with pc := .body f b, log := t.log ++ [.act a] }, by rw [step, h.pc], ?_, rfl⟩
  exact ⟨rfl, h.current, h.scheduler, h.ne, h.fiber, h.main⟩

/-- `YieldToHold` leaves the state `EXEC`. -/
lemma Inside.yieldToHold (h : Inside f s n (.yieldToHold b) t) :
    ∃ t', step f t = .ok t' ∧ Outside f n .exec t' ∧ t'.log = t.log := by
  obtain ⟨x, hx, hexec⟩ := h.fiber
  obtain ⟨y, hy, hctx⟩ := h.main
  have hthis : { t with pc := .body f b }.GetThis = .ok (f, { t with pc := .body f b }) :=
    Thread.GetThis_eq h.current hx
  have hout := Thread.swapOut_eq (t := { t with pc := .body f b }) hx hy h.ne h.scheduler
  refine ⟨_, Eq.trans ?_ hout, ⟨hctx, _, Thread.setFiber_self, hexec⟩, rfl⟩
  rw [step, h.pc]
  simp only [Thread.YieldToHold, hthis]
  rw [Thread.deref_eq (t := { t with pc := .body f b }) hx]
  simp only [hexec, ne_eq, not_true_eq_false, if_false]

lemma Inside.ret (h : Inside f s n .ret t) :
    ∃ t', step f t = .ok t' ∧ Outside f n .term t' ∧ t'.log = t.log := by
  obtain ⟨x, hx, hexec⟩ := h.fiber
  obtain ⟨y, hy, hctx⟩ := h.main
  have hmain : (t.setFiber f { x with cb := none, state := .term }).fibers s = some y := by
    rw [Thread.setFiber_of_ne h.ne.symm, hy]
  have hout := Thread.swapOut_eq
    (t := { t.setFiber f { x with cb := none, state := .term } with pc := .never })
    Thread.setFiber_self hmain h.ne h.scheduler
  refine ⟨_, Eq.trans ?_ hout, ⟨hctx, _, Thread.setFiber_self, rfl⟩, rfl⟩
  rw [step, h.pc]
  simp only [Thread.leave, Thread.deref_eq hx]

/-- The first `swapIn` of a fiber, on a thread whose scheduling fiber exists. -/
lemma enter (hpc : t.pc = .main (n + 1)) (hx : t.fibers f = some x) (hst : x.state ≠ .exec)
    (hctx : x.ctx = .mainFunc) (hcb : x.cb = some b) (hsched : t.t_scheduler_fiber = some s)
    (hy : t.fibers s = some y) (hne : f ≠ s) :
    ∃ t', run f 2 t = .ok t' ∧ Inside f s n b t' ∧ t'.log = t.log := by
  let t₁ : Thread A := { t with pc := .back n }
  obtain ⟨t₂, hstep, hlog, hpc₂, hcur, hsched₂, hfiber, hmain⟩ :=
    Thread.swapIn_eq (t := t₁) hx hst hsched hy hne
  have hfirst : step f t = .ok t₂ := by
    rw [step, hpc]
    exact hstep
  have hsecond : step f t₂ = .ok { t₂ with pc := .body f b } := by
    rw [step, hpc₂.trans hctx]
    simp only [Thread.GetThis_eq hcur hfiber, hfiber, Option.bind_some, hcb]
  refine ⟨_, (run_succ hfirst).trans (run_succ hsecond), ?_, hlog⟩
  exact ⟨rfl, hcur, hsched₂, hne, ⟨_, hfiber, rfl⟩, ⟨_, hmain, rfl⟩⟩

lemma Inside.run (h : Inside f s n b t) :
    ∃ m t' es st, run f m t = .ok t' ∧ Outside f n st t' ∧ t'.log = t.log ++ es ∧
      (b.yields = 0 → st = .term ∧ b.expected = es ++ [.state .term]) ∧
      (b.yields ≠ 0 → st = .exec) := by
  induction b generalizing t with
  | ret =>
    obtain ⟨t', hstep, hout, hlog⟩ := h.ret
    exact ⟨1, t', [], .term, run_succ hstep, hout, by rw [hlog, List.append_nil],
      fun _ => ⟨rfl, rfl⟩, fun hne => absurd rfl hne⟩
  | act a b ih =>
    obtain ⟨t₁, hstep, hin, hlog⟩ := h.act
    obtain ⟨m, t', es, st, hrun, hout, hlog', hzero, hpos⟩ := ih hin
    refine ⟨m + 1, t', .act a :: es, st, (run_succ hstep).trans hrun, hout, ?_, fun hy => ?_, hpos⟩
    · rw [hlog', hlog, List.append_assoc]
      rfl
    · obtain ⟨hst, hes⟩ := hzero hy
      exact ⟨hst, congrArg (Event.act a :: ·) hes⟩
  | yieldToHold b =>
    obtain ⟨t', hstep, hout, hlog⟩ := h.yieldToHold
    exact ⟨1, t', [], .exec, run_succ hstep, hout, by rw [hlog, List.append_nil],
      fun hy => absurd hy (Nat.succ_ne_zero _), fun _ => rfl⟩

lemma Outside.getState {st : State} (h : Outside f n st t) :
    ∃ t', step f t = .ok t' ∧ t'.pc = .main n ∧ t'.log = t.log ++ [.state st] ∧
      ∃ x, t'.fibers f = some x ∧ x.state = st := by
  obtain ⟨x, hx, hst⟩ := h.fiber
  refine ⟨{ t with pc := .main n, log := t.log ++ [.state x.state] }, ?_, rfl, by rw [hst], x, hx,
    hst⟩
  rw [step, h.pc]
  simp only [Thread.deref_eq hx]
  rfl

lemma end_of_term (hpc : t.pc = .main 0) (hx : t.fibers f = some x) (hst : x.state = .term) :
    ∃ t', step f t = .ok t' ∧ t'.pc = .done ∧ t'.log = t.log := by
  refine ⟨{ t with fibers := Function.update t.fibers f none, pc := .done }, ?_, rfl, rfl⟩
  rw [step, hpc]
  simp only [Thread.destroy, Thread.deref_eq hx, hst, true_or, if_true]
  rfl

/-! ### Faults -/

lemma assertion_of_exec (hpc : t.pc = .main (n + 1)) (hx : t.fibers f = some x)
    (hst : x.state = .exec) : step f t = .error .assertion := by
  rw [step, hpc]
  simp only [Thread.swapIn]
  rw [Thread.deref_eq (t := { t with pc := .back n, t_fiber := some f }) hx]
  simp only [hst, if_true]

/-- `swapIn` where there is no scheduling fiber, or it does not exist any more. -/
lemma fault_of_deref {e : Fault} (hpc : t.pc = .main (n + 1)) (hx : t.fibers f = some x)
    (hst : x.state ≠ .exec) (hne : t.t_scheduler_fiber ≠ some f)
    (hs : t.deref t.t_scheduler_fiber = .error e) : step f t = .error e := by
  have hderef : ({ t with pc := .back n, t_fiber := some f }.setFiber f
      { x with state := .exec }).deref t.t_scheduler_fiber = .error e := by
    cases hsched : t.t_scheduler_fiber with
    | none =>
      rw [hsched] at hs
      exact hs
    | some s =>
      rw [hsched] at hs hne
      have hsf : s ≠ f := fun h => hne (congrArg some h)
      rw [Thread.deref] at hs ⊢
      simp only [Thread.setFiber_of_ne hsf]
      exact hs
  rw [step, hpc]
  simp only [Thread.swapIn]
  rw [Thread.deref_eq (t := { t with pc := .back n, t_fiber := some f }) hx]
  simp only [hst, if_false, Thread.swapcontext, hderef]

end Switch

/-! ### Whole runs -/

/-- What `prepare` leaves: a new fiber, and the scheduling fiber as it was. -/
structure Prepared (t : Thread A) (b : Body A) (f : ℕ) (t₀ : Thread A) : Prop where
  eq : prepare t b = .ok (f, t₀)
  pc : t₀.pc = .main (b.yields + 1)
  fiber : t₀.fibers f = some { ctx := .mainFunc, cb := some b }
  scheduler : t₀.t_scheduler_fiber = t.t_scheduler_fiber
  log : t₀.log = t.log
  old : ∀ s, t.t_scheduler_fiber = some s → f ≠ s ∧ t₀.fibers s = t.fibers s

variable {t : Thread A} {b : Body A}

lemma prepared_of_GetThis {c : ℕ} {t₁ : Thread A} (hthis : t.GetThis = .ok (c, t₁))
    (hsched : t₁.t_scheduler_fiber = t.t_scheduler_fiber) (hlog : t₁.log = t.log)
    (hold : ∀ s, t.t_scheduler_fiber = some s → s < t₁.next ∧ t₁.fibers s = t.fibers s) :
    Prepared t b t₁.next { (t₁.newFiber b).2 with pc := .main (b.yields + 1) } where
  eq := by
    rw [prepare, hthis]
    rfl
  pc := rfl
  fiber := Thread.setFiber_self
  scheduler := hsched
  log := hlog
  old s hs := by
    obtain ⟨hlt, hfiber⟩ := hold s hs
    exact ⟨Nat.ne_of_gt hlt, (Thread.setFiber_of_ne (Nat.ne_of_lt hlt)).trans hfiber⟩

lemma exists_prepared (h : t.Wf) (b : Body A) : ∃ f t₀, Prepared t b f t₀ := by
  cases hc : t.t_fiber with
  | some c =>
    obtain ⟨x, hx⟩ := Option.ne_none_iff_exists'.1 (h.current c hc)
    exact ⟨_, _, prepared_of_GetThis (Thread.GetThis_eq hc hx) rfl rfl fun s hs =>
      ⟨h.scheduler s hs, rfl⟩⟩
  | none =>
    have hthis : t.GetThis = .ok (t.next,
        { t.setFiber t.next { state := .exec, ctx := t.pc, cb := none } with
          next := t.next + 1, t_fiber := some t.next, t_threadFiber := some t.next }) := by
      simp only [Thread.GetThis, hc]
    refine ⟨_, _, prepared_of_GetThis hthis rfl rfl fun s hs => ?_⟩
    have hlt := h.scheduler s hs
    exact ⟨Nat.lt_succ_of_lt hlt, Thread.setFiber_of_ne (Nat.ne_of_lt hlt)⟩

section Prepared

variable {f s : ℕ} {t₀ : Thread A} (hp : Prepared t b f t₀)
include hp

lemma first_round (hs : t.t_scheduler_fiber = some s) {y : Fiber A} (hy : t.fibers s = some y) :
    ∃ m t' es st, run f m t₀ = .ok t' ∧ t'.pc = .main b.yields ∧
      t'.log = t.log ++ es ++ [.state st] ∧ (∃ x, t'.fibers f = some x ∧ x.state = st) ∧
      (b.yields = 0 → st = .term ∧ b.expected = es ++ [.state .term]) ∧
      (b.yields ≠ 0 → st = .exec) := by
  obtain ⟨hne, hold⟩ := hp.old s hs
  obtain ⟨t₁, hrun₁, hin, hlog₁⟩ := enter hp.pc hp.fiber nofun rfl rfl (hp.scheduler.trans hs)
    (hold.trans hy) hne
  obtain ⟨m, t₂, es, st, hrun₂, hout, hlog₂, hzero, hpos⟩ := hin.run
  obtain ⟨t₃, hstep, hpc, hlog₃, hfiber⟩ := hout.getState
  refine ⟨2 + (m + 1), t₃, es, st, ?_, hpc, ?_, hfiber, hzero, hpos⟩
  · exact (run_add hrun₁).trans ((run_add hrun₂).trans (run_succ hstep))
  · rw [hlog₃, hlog₂, hlog₁, hp.log]

/-- The second `swapIn` of a fiber that has yielded finds the state `EXEC`. -/
lemma assertion_of_yields (hs : t.t_scheduler_fiber = some s) {y : Fiber A}
    (hy : t.fibers s = some y) (hyields : b.yields ≠ 0) :
    ∃ m, run f m t₀ = .error .assertion := by
  obtain ⟨m, t₁, es, st, hround, hpc, -, ⟨x, hx, hst⟩, -, hpos⟩ := first_round hp hs hy
  obtain ⟨k, hk⟩ := Nat.exists_eq_succ_of_ne_zero hyields
  have hassert := assertion_of_exec (hpc.trans (congrArg Pc.main hk)) hx (hst.trans (hpos hyields))
  exact ⟨m + 1, (run_add hround).trans (by rw [run, hassert])⟩

/-- On a thread that has none the first `swapIn` reads the scheduling fiber. -/
lemma fault_of_no_scheduler (hs : ∀ s, t.t_scheduler_fiber = some s → t.fibers s = none) :
    ∃ e, run f 1 t₀ = .error e := by
  have hderef : ∃ e, t₀.deref t₀.t_scheduler_fiber = .error e := by
    rw [hp.scheduler]
    cases hsched : t.t_scheduler_fiber with
    | none => exact ⟨.null, rfl⟩
    | some s =>
      refine ⟨.freed, ?_⟩
      rw [Thread.deref]
      simp only [(hp.old s hsched).2, hs s hsched]
  have hne : t₀.t_scheduler_fiber ≠ some f := fun h =>
    (hp.old f (hp.scheduler.symm.trans h)).1 rfl
  obtain ⟨e, he⟩ := hderef
  exact ⟨e, by rw [run, fault_of_deref hp.pc hp.fiber nofun hne he]⟩

end Prepared

/-- **Switching by hand works exactly on a thread with a scheduling fiber that exists, and for a
body that does not yield.** -/
theorem works_iff (h : t.Wf) (b : Body A) :
    Works t b ↔
      (∃ s, t.t_scheduler_fiber = some s ∧ t.fibers s ≠ none) ∧ b.yields = 0 := by
  obtain ⟨f, t₀, hp⟩ := exists_prepared h b
  constructor
  · rintro ⟨f', t₀', n, t', heq, hrun, hdone, hlog⟩
    obtain ⟨rfl, rfl⟩ : f = f' ∧ t₀ = t₀' := by
      rw [hp.eq] at heq
      cases heq
      exact ⟨rfl, rfl⟩
    by_cases hs : ∃ s, t.t_scheduler_fiber = some s ∧ t.fibers s ≠ none
    · refine ⟨hs, ?_⟩
      by_contra hyields
      obtain ⟨s, hs, hne⟩ := hs
      obtain ⟨y, hy⟩ := Option.ne_none_iff_exists'.1 hne
      obtain ⟨m, hm⟩ := assertion_of_yields hp hs hy hyields
      exact not_done hm hrun hdone
    · push Not at hs
      obtain ⟨e, he⟩ := fault_of_no_scheduler hp hs
      exact (not_done he hrun hdone).elim
  · rintro ⟨⟨s, hs, hne⟩, hyields⟩
    obtain ⟨y, hy⟩ := Option.ne_none_iff_exists'.1 hne
    obtain ⟨m, t₁, es, st, hround, hpc, hlog, ⟨x, hx, hst⟩, hzero, -⟩ := first_round hp hs hy
    obtain ⟨rfl, hes⟩ := hzero hyields
    rw [hyields] at hpc
    obtain ⟨t₂, hstep, hdone, hlog₂⟩ := end_of_term hpc hx hst
    refine ⟨f, t₀, m + 1, t₂, hp.eq, (run_add hround).trans (run_succ hstep), hdone, ?_⟩
    rw [hlog₂, hlog, hes, List.append_assoc]

/-- A thread on which `Scheduler::run` has been. -/
def worker : Thread String where
  fibers := Function.update (fun _ => none) 0 (some { state := .exec, ctx := .main 0, cb := none })
  next := 1
  t_fiber := some 0
  t_threadFiber := some 0
  t_scheduler_fiber := some 0

lemma worker_wf : worker.Wf where
  fibers f hf := by
    rcases Nat.eq_zero_or_pos f with rfl | hpos
    · exact Nat.one_pos
    · have hnone : worker.fibers f = none := by simp [worker, Nat.ne_of_gt hpos]
      exact absurd hnone hf
  current f hf := by
    cases hf
    exact Option.some_ne_none _
  scheduler f hf := by
    cases hf
    exact Nat.one_pos

theorem works_worker : Works worker (.act "begin" .ret) :=
  (works_iff worker_wf _).2 ⟨⟨0, rfl, Option.some_ne_none _⟩, rfl⟩

def run_in_fiber : Body String :=
  .act "run_in_fiber begin" (.yieldToHold (.act "run_in_fiber end" (.yieldToHold .ret)))

/-- On a thread without a scheduler the first `swapIn` reads a null pointer. -/
theorem test_fiber_faults :
    Thread.Wf ({} : Thread String) ∧
    (∃ f t₀, prepare {} run_in_fiber = .ok (f, t₀) ∧ run f 1 t₀ = .error .null) ∧
    ¬Works {} run_in_fiber := by
  have hwf : Thread.Wf ({} : Thread String) := ⟨nofun, nofun, nofun⟩
  refine ⟨hwf, ⟨_, _, rfl, rfl⟩, ?_⟩
  rintro ⟨f, t₀, n, t', heq, hrun, hdone, -⟩
  cases heq
  exact not_done (m := 1) rfl hrun hdone

end Sylar.ManualSwitch
