import Mathlib.Algebra.BigOperators.Group.List.Basic
import Mathlib.Algebra.Ring.Int.Defs
import Mathlib.Data.List.Induction
import Mathlib.Tactic.Common

/-!
The guards `ScopedLockImpl`, `ReadScopedLockImpl` and `WriteScopedLockImpl`, and what they call on
their mutex.
-/

namespace Sylar.ScopedLock

inductive MutexCall
  | lock
  | rdlock
  | wrlock
  | unlock
  deriving DecidableEq

def MutexCall.acquires (m : MutexCall) : Prop := m ≠ unlock

def MutexCall.delta : MutexCall → ℤ
  | unlock => -1
  | _ => 1

structure Guard where
  locked_ : Bool
  /-- What the guard has called on the mutex so far. -/
  calls : List MutexCall

namespace Guard

def net (g : Guard) : ℤ := (g.calls.map MutexCall.delta).sum

def push (g : Guard) (m : MutexCall) (locked : Bool) : Guard := ⟨locked, g.calls ++ [m]⟩

def construct (m : MutexCall) : Guard := ⟨true, [m]⟩

def lock (m : MutexCall) (g : Guard) : Guard := if g.locked_ then g else g.push m true

def unlock (g : Guard) : Guard := if g.locked_ then g.push .unlock false else g

end Guard

/-- A class of guards. -/
structure Impl where
  construct : Guard
  lock : Guard → Guard
  unlock : Guard → Guard
  destroy : Guard → Guard

/-- The class whose constructor and whose `lock` call `m`. -/
def Impl.of (m : MutexCall) : Impl where
  construct := .construct m
  lock := .lock m
  unlock := .unlock
  destroy := .unlock

def ScopedLockImpl : Impl := .of .lock

def ReadScopedLockImpl : Impl where
  construct := .construct .rdlock
  -- `locked_` is not negated here
  lock g := if g.locked_ then g.push .rdlock true else g
  unlock := .unlock
  destroy := .unlock

def WriteScopedLockImpl : Impl := .of .wrlock

inductive Class
  | mutex
  | read
  | write

def Class.impl : Class → Impl
  | mutex => ScopedLockImpl
  | read => ReadScopedLockImpl
  | write => WriteScopedLockImpl

inductive Call
  | lock
  | unlock
  deriving DecidableEq

namespace Impl

variable (i : Impl)

def call (g : Guard) : Call → Guard
  | .lock => i.lock g
  | .unlock => i.unlock g

/-- The guard after its construction and the calls. -/
def run (calls : List Call) : Guard := calls.foldl i.call i.construct

end Impl

/-- The mutex is held once while `locked_` is true, and not while it is false. -/
def Guard.Mirrors (g : Guard) : Prop := g.net = if g.locked_ then 1 else 0

/-- What a guard is to do under the calls. -/
structure Balanced (i : Impl) (calls : List Call) : Prop where
  mirrors : ∀ pre, pre <+: calls → (i.run pre).Mirrors
  held : ∀ pre, pre ++ [.lock] <+: calls → 0 < (i.run (pre ++ [.lock])).net
  released : (i.destroy (i.run calls)).net = 0

/-! ### One call -/

namespace Guard

variable {g : Guard} {m : MutexCall} {b : Bool}

@[simp] lemma net_push : (g.push m b).net = g.net + m.delta := by
  rw [net, push, List.map_append, List.sum_append]
  simp [net]

@[simp] lemma locked_push : (g.push m b).locked_ = b := rfl

lemma delta_of_acquires (hm : m.acquires) : m.delta = 1 := by
  cases m with
  | unlock => exact absurd rfl hm
  | lock => rfl
  | rdlock => rfl
  | wrlock => rfl

lemma mirrors_construct (hm : m.acquires) : (construct m).Mirrors := by
  simp [Mirrors, construct, net, delta_of_acquires hm]

lemma Mirrors.net_unlock (h : g.Mirrors) : g.unlock.net = 0 ∧ g.unlock.locked_ = false := by
  unfold Mirrors at h
  unfold unlock
  cases hl : g.locked_ with
  | false => simpa [hl] using h
  | true =>
    rw [hl] at h
    rw [if_pos rfl, net_push, h]
    exact ⟨rfl, rfl⟩

lemma Mirrors.unlock (h : g.Mirrors) : g.unlock.Mirrors := by
  obtain ⟨hnet, hlocked⟩ := h.net_unlock
  rw [Mirrors, hnet, hlocked]
  rfl

lemma Mirrors.net_lock (h : g.Mirrors) (hm : m.acquires) :
    (g.lock m).net = 1 ∧ (g.lock m).locked_ = true := by
  unfold Mirrors at h
  unfold lock
  cases hl : g.locked_ with
  | false =>
    rw [hl] at h
    rw [if_neg Bool.false_ne_true, net_push, h, delta_of_acquires hm]
    exact ⟨rfl, rfl⟩
  | true => simpa [hl] using h

lemma Mirrors.lock (h : g.Mirrors) (hm : m.acquires) : (g.lock m).Mirrors := by
  obtain ⟨hnet, hlocked⟩ := h.net_lock hm
  rw [Mirrors, hnet, hlocked]
  rfl

end Guard

/-! ### Runs -/

variable {i : Impl} {calls pre : List Call}

lemma run_snoc (i : Impl) (calls : List Call) (c : Call) :
    i.run (calls ++ [c]) = i.call (i.run calls) c := by
  rw [Impl.run, List.foldl_append]
  rfl

/-- The rule for runs: each call keeps what holds at the construction. -/
lemma run_mirrors (h0 : i.construct.Mirrors)
    (hcall : ∀ g c, c ∈ calls → g.Mirrors → (i.call g c).Mirrors) (h : pre <+: calls) :
    (i.run pre).Mirrors := by
  induction pre using List.reverseRecOn with
  | nil => exact h0
  | append_singleton pre c ih =>
    rw [run_snoc]
    exact hcall _ c (h.subset (by simp)) (ih ((List.prefix_append pre [c]).trans h))

lemma balanced_of {m : MutexCall} (hm : m.acquires) (calls : List Call) :
    Balanced (.of m) calls := by
  have hmirrors : ∀ pre, pre <+: calls → ((Impl.of m).run pre).Mirrors := fun pre =>
    run_mirrors (Guard.mirrors_construct hm) fun g c _ hg => by
      cases c with
      | lock => exact hg.lock hm
      | unlock => exact hg.unlock
  refine ⟨hmirrors, fun pre h => ?_, (hmirrors calls (List.prefix_refl calls)).net_unlock.1⟩
  have hnet := (hmirrors pre ((List.prefix_append pre _).trans h)).net_lock hm
  rw [run_snoc]
  exact hnet.1 ▸ Int.one_pos

/-! ### The read guard -/

lemma read_mirrors (h : .lock ∉ calls) (hpre : pre <+: calls) :
    (ReadScopedLockImpl.run pre).Mirrors := by
  refine run_mirrors (Guard.mirrors_construct nofun) (fun g c hc hg => ?_) hpre
  cases c with
  | lock => exact absurd hc h
  | unlock => exact hg.unlock

/-- Where nobody calls `lock` it behaves as the others do. -/
lemma read_balanced (h : .lock ∉ calls) : Balanced ReadScopedLockImpl calls where
  mirrors _ := read_mirrors h
  held pre hpre := absurd (hpre.subset (by simp)) h
  released := (read_mirrors h (List.prefix_refl calls)).net_unlock.1

/-- The first `lock` acquires the mutex a second time, or leaves it released. -/
lemma read_not_balanced (h : .lock ∈ calls) : ¬Balanced ReadScopedLockImpl calls := by
  obtain ⟨pre, post, rfl, hpre⟩ := List.eq_append_cons_of_mem h
  have hto : pre ++ [.lock] <+: pre ++ .lock :: post := ⟨post, by simp⟩
  have hm : (ReadScopedLockImpl.run pre).Mirrors := read_mirrors hpre (List.prefix_refl pre)
  intro hb
  have hheld := hb.held pre hto
  have hmirrors := hb.mirrors _ hto
  rw [run_snoc] at hheld hmirrors
  unfold Guard.Mirrors at hm hmirrors
  cases hl : (ReadScopedLockImpl.run pre).locked_ with
  | false =>
    have hlock : ReadScopedLockImpl.call (ReadScopedLockImpl.run pre) .lock =
        ReadScopedLockImpl.run pre := if_neg (by simp [hl])
    rw [hlock, hm, hl] at hheld
    exact absurd hheld (by decide)
  | true =>
    have hlock : ReadScopedLockImpl.call (ReadScopedLockImpl.run pre) .lock =
        (ReadScopedLockImpl.run pre).push .rdlock true := if_pos hl
    rw [hlock, Guard.net_push, hm, hl, Guard.locked_push] at hmirrors
    exact absurd hmirrors (by decide)

lemma read_stays {g : Guard} (h : g.locked_ = false) (calls : List Call) :
    calls.foldl ReadScopedLockImpl.call g = g := by
  induction calls with
  | nil => rfl
  | cons c calls ih =>
    have hc : ReadScopedLockImpl.call g c = g := by
      cases c with
      | lock => exact if_neg (by simp [h])
      | unlock => exact if_neg (by simp [h])
    rw [List.foldl_cons, hc, ih]

lemma net_destroy_foldl {g : Guard} (h : g.locked_ = true) (calls : List Call) :
    (ReadScopedLockImpl.destroy (calls.foldl ReadScopedLockImpl.call g)).net =
      g.net - 1 + (calls.takeWhile (· = .lock)).length := by
  have hdestroy : ∀ g : Guard, g.locked_ = true →
      (ReadScopedLockImpl.destroy g).net = g.net - 1 := fun g hg => by
    have hunlock : ReadScopedLockImpl.destroy g = g.push .unlock false := if_pos hg
    rw [hunlock, Guard.net_push]
    rfl
  induction calls generalizing g with
  | nil => simpa using hdestroy g h
  | cons c calls ih =>
    rw [List.foldl_cons]
    cases c with
    | lock =>
      have hlock : ReadScopedLockImpl.call g .lock = g.push .rdlock true := if_pos h
      rw [hlock, ih Guard.locked_push, Guard.net_push]
      simp [MutexCall.delta]
    | unlock =>
      have hunlock : ReadScopedLockImpl.call g .unlock = g.push .unlock false := if_pos h
      have hstay : ReadScopedLockImpl.destroy (g.push .unlock false) = g.push .unlock false := rfl
      rw [hunlock, read_stays Guard.locked_push, hstay, Guard.net_push]
      simp [MutexCall.delta]
      omega

/-- A read guard leaves the mutex acquired once for each `lock` before the first `unlock`. -/
theorem read_leak (calls : List Call) :
    (ReadScopedLockImpl.destroy (ReadScopedLockImpl.run calls)).net =
      (calls.takeWhile (· = .lock)).length := by
  have hstart : ReadScopedLockImpl.construct.net = 1 := rfl
  rw [Impl.run, net_destroy_foldl rfl, hstart]
  simp

/-- **The guards are balanced, except a read guard on which `lock` is called.** -/
theorem balanced_iff (c : Class) (calls : List Call) :
    Balanced c.impl calls ↔ c ≠ .read ∨ .lock ∉ calls := by
  cases c with
  | mutex => exact iff_of_true (balanced_of (m := .lock) nofun calls) (Or.inl nofun)
  | write => exact iff_of_true (balanced_of (m := .wrlock) nofun calls) (Or.inl nofun)
  | read =>
    rw [or_iff_right (not_not.2 rfl)]
    constructor
    · exact fun hb h => read_not_balanced h hb
    · exact read_balanced

/-- After an `unlock` a read guard cannot acquire the mutex again. -/
theorem read_relock :
    (ReadScopedLockImpl.run [.unlock, .lock]).net = 0 ∧
      ¬Balanced ReadScopedLockImpl [.unlock, .lock] :=
  ⟨by decide, read_not_balanced (by decide)⟩

end Sylar.ScopedLock
