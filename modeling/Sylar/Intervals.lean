import Sylar.TimerModel
import Mathlib.Algebra.Ring.Int.Defs
import Mathlib.Algebra.Ring.Nat

/-!
Intervals that pass through a narrower type: into the timers from the hooked sleeps, and out
of them into `epoll_wait`.

The hooked `sleep` multiplies in 32 bits and `nanosleep` keeps its milliseconds in an `int`;
the idle loop compares and passes the distance to the next deadline as an `int`. An `int` is
sign-extended where it becomes a `uint64_t`.
-/

namespace Sylar.Intervals

open Sylar.TimerModel TimerManager

variable {C : Type}

def int (x : UInt64) : Int32 := x.toUInt32.toInt32

def uint64 (x : Int32) : UInt64 := UInt64.ofInt x.toInt

lemma ofInt_cases (x : ℤ) :
    (x % 2 ^ 32 < 2 ^ 31 ∧ (Int32.ofInt x).toInt = x % 2 ^ 32) ∨
    (2 ^ 31 ≤ x % 2 ^ 32 ∧ (Int32.ofInt x).toInt = x % 2 ^ 32 - 2 ^ 32) := by
  have hval : (Int32.ofInt x).toInt = x.bmod (2 ^ 32) := Int32.toInt_ofInt
  rw [hval, Int.bmod_def]
  split <;> omega

lemma int_cases (x : UInt64) :
    (x.toNat % 2 ^ 32 < 2 ^ 31 ∧ (int x).toInt = (x.toNat % 2 ^ 32 : ℕ)) ∨
    (2 ^ 31 ≤ x.toNat % 2 ^ 32 ∧ (int x).toInt = (x.toNat % 2 ^ 32 : ℕ) - 2 ^ 32) := by
  have h32 : (int x).toInt = ((x.toNat % 2 ^ 32 : ℕ) : ℤ).bmod (2 ^ 32) := by
    have hnat : x.toUInt32.toBitVec.toNat = x.toNat % 2 ^ 32 := UInt64.toNat_toUInt32 x
    rw [← hnat]
    exact BitVec.toInt_eq_toNat_bmod _
  rw [h32, Int.bmod_def]
  split <;> omega

lemma toNat_uint64 (x : Int32) : ((uint64 x).toNat : ℤ) = x.toInt % 2 ^ 64 := by
  have hlt : (x.toInt % 2 ^ 64).toNat < 2 ^ 64 := by omega
  unfold uint64 UInt64.ofInt
  rw [UInt64.toNat_ofNat_of_lt' hlt]
  omega

/-! ### The hooked sleeps -/

inductive Call
  | sleep (seconds : UInt32)
  | usleep (usec : UInt32)
  | nanosleep (tv_sec tv_nsec : ℤ)

namespace Call

def interval : Call → UInt64
  | .sleep seconds => (seconds * 1000).toUInt64
  | .usleep usec => (usec / 1000).toUInt64
  | .nanosleep tv_sec tv_nsec =>
    let timeout_ms : Int32 := Int32.ofInt (tv_sec * 1000 + (tv_nsec.tdiv 1000).tdiv 1000)
    uint64 timeout_ms

/-- The timer the call arms before it yields, with the callback that schedules its fiber. -/
def arm (call : Call) (m : TimerManager C) (cb : C) (now : UInt64) (addr : ℕ) :
    TimerManager C × ℕ :=
  let r := m.addTimer call.interval (some cb) false now addr
  (r.1, r.2.1)

/-- The arguments a caller may give: `tv_sec` so small that nothing overflows a `long`. -/
def Valid : Call → Prop
  | .nanosleep tv_sec tv_nsec => 0 ≤ tv_sec ∧ tv_sec < 2 ^ 50 ∧ 0 ≤ tv_nsec ∧ tv_nsec < 10 ^ 9
  | _ => True

instance (call : Call) : Decidable call.Valid :=
  match call with
  | .nanosleep .. => inferInstanceAs (Decidable (_ ∧ _ ∧ _ ∧ _))
  | .sleep _ | .usleep _ => isTrue trivial

def requested : Call → ℤ
  | .sleep seconds => seconds.toNat * 1000
  | .usleep usec => usec.toNat / 1000
  | .nanosleep tv_sec tv_nsec => (tv_sec * 10 ^ 9 + tv_nsec) / 10 ^ 6

/-- The deadline of the timer is at least the time asked for from now. -/
def LongEnough (call : Call) (m : TimerManager C) (cb : C) (now : UInt64) (addr : ℕ) : Prop :=
  let r := call.arm m cb now addr
  now.toNat + call.requested ≤ (r.1.heap r.2).next.toNat

/-- The time asked for survives the conversions. As an `int` that comes out negative it makes
the interval huge, and then it is the sum with the clock that must not wrap. -/
def Survives (call : Call) (now : UInt64) : Prop :=
  match call with
  | .sleep seconds => seconds.toNat * 1000 < 2 ^ 32
  | .usleep _ => True
  | .nanosleep .. => call.requested < 2 ^ 31 ∨
      (2 ^ 31 ≤ call.requested % 2 ^ 32 ∧ now.toNat + call.requested % 2 ^ 32 < 2 ^ 32)

instance (call : Call) (now : UInt64) : Decidable (call.Survives now) :=
  match call with
  | .sleep _ => inferInstanceAs (Decidable (_ < _))
  | .usleep _ => isTrue trivial
  | .nanosleep .. => inferInstanceAs (Decidable (_ ∨ _))

lemma arm_next (call : Call) (m : TimerManager C) (cb : C) (now : UInt64) (addr : ℕ) :
    ((call.arm m cb now addr).1.heap (call.arm m cb now addr).2).next.toNat =
      (now.toNat + call.interval.toNat) % 2 ^ 64 := by
  have hheap : ((call.arm m cb now addr).1.heap (call.arm m cb now addr).2).next =
      now + call.interval := by
    simp [arm, addTimer, addTimerLocked, TimerManager.set]
  rw [hheap, UInt64.toNat_add]

/-- Milliseconds and the rest of a second, and the same in nanoseconds. -/
lemma requested_nanosleep {tv_sec tv_nsec : ℤ} (h : 0 ≤ tv_nsec) :
    tv_sec * 1000 + (tv_nsec.tdiv 1000).tdiv 1000 = (nanosleep tv_sec tv_nsec).requested := by
  have h1 : tv_nsec.tdiv 1000 = tv_nsec / 1000 := Int.tdiv_eq_ediv_of_nonneg h
  have h2 : (tv_nsec / 1000).tdiv 1000 = tv_nsec / 1000 / 1000 :=
    Int.tdiv_eq_ediv_of_nonneg (by omega)
  simp only [h1, h2, requested]
  omega

/-- **When a hooked sleep lasts long enough**, at every clock value of ours. -/
theorem sleep_long_enough_iff (call : Call) (hvalid : call.Valid) (now : UInt64)
    (hnow : now.toNat < 2 ^ 62) (m : TimerManager C) (cb : C) (addr : ℕ) :
    call.LongEnough m cb now addr ↔ call.Survives now := by
  unfold LongEnough
  simp only [arm_next]
  cases call with
  | sleep seconds =>
    have hint : (sleep seconds).interval.toNat = seconds.toNat * 1000 % 2 ^ 32 := by
      simp [interval]
    have hsum : (now.toNat + seconds.toNat * 1000 % 2 ^ 32) % 2 ^ 64 =
        now.toNat + seconds.toNat * 1000 % 2 ^ 32 := Nat.mod_eq_of_lt (by omega)
    rw [hint, hsum]
    simp only [requested, Survives]
    omega
  | usleep usec =>
    have hint : (usleep usec).interval.toNat = usec.toNat / 1000 := by
      simp [interval]
    have hlt := usec.toNat_lt
    have hsum : (now.toNat + usec.toNat / 1000) % 2 ^ 64 = now.toNat + usec.toNat / 1000 :=
      Nat.mod_eq_of_lt (by omega)
    rw [hint, hsum]
    simp only [requested, Survives, iff_true]
    omega
  | nanosleep tv_sec tv_nsec =>
    obtain ⟨hsec, hsec', hnsec, hnsec'⟩ := hvalid
    have hreq : 0 ≤ (nanosleep tv_sec tv_nsec).requested ∧
        (nanosleep tv_sec tv_nsec).requested < 2 ^ 61 := by
      simp only [requested]
      omega
    have hint : ((nanosleep tv_sec tv_nsec).interval.toNat : ℤ) =
        (Int32.ofInt (nanosleep tv_sec tv_nsec).requested).toInt % 2 ^ 64 := by
      simp only [interval, requested_nanosleep hnsec, toNat_uint64]
    simp only [Survives]
    generalize (nanosleep tv_sec tv_nsec).requested = req at hreq hint ⊢
    generalize (nanosleep tv_sec tv_nsec).interval.toNat = int at hint ⊢
    rcases ofInt_cases req with ⟨hlow, hval⟩ | ⟨hhigh, hval⟩ <;> rw [hval] at hint <;> omega

theorem sleep_long_enough_iff_nanosleep :
    (nanosleep 2147483 0).LongEnough ({} : TimerManager ℕ) 7 1700000000000 1 :=
  (sleep_long_enough_iff (nanosleep 2147483 0) (by decide) 1700000000000 (by decide) _ 7 1).mpr
    (by decide)

/-- A sleep of 50 days ends after less than a second. -/
theorem sleep_too_short :
    ¬ (sleep 4294968).LongEnough ({} : TimerManager ℕ) 7 1700000000000 1 := by
  unfold LongEnough
  decide

end Call

/-! ### The poll timeout -/

def MAX_TIMEOUT : Int32 := 3000

/-- What the inner loop of `idle` makes of `next_timeout` before it polls. -/
def clamp (next_timeout : UInt64) : UInt64 :=
  if next_timeout ≠ ~~~0 then
    if int next_timeout > MAX_TIMEOUT then uint64 MAX_TIMEOUT else next_timeout
  else uint64 MAX_TIMEOUT

/-- The timeouts the inner loop passes to `epoll_wait`, where `interrupted` says which of its
calls fail with `EINTR`. -/
def polls (next_timeout : UInt64) : List Bool → List Int32
  | [] => []
  | interrupted :: rest =>
    int (clamp next_timeout) ::
      if interrupted then polls (clamp next_timeout) rest else []

/-- Every timeout is between 0 and `MAX_TIMEOUT` and not past the next deadline. -/
def Bounded (next_timeout : UInt64) : Prop :=
  ∀ interrupted : List Bool, ∀ timeout ∈ polls next_timeout interrupted,
    0 ≤ timeout.toInt ∧ timeout.toInt ≤ 3000 ∧ timeout.toInt ≤ next_timeout.toNat

/-- The values a distance takes in the loop: itself, or the maximum. -/
lemma clamp_cases (d : UInt64) :
    clamp d = uint64 MAX_TIMEOUT ∧ (d = ~~~0 ∨ 3000 < (int d).toInt) ∨
    clamp d = d ∧ d ≠ ~~~0 ∧ (int d).toInt ≤ 3000 := by
  have hmax : MAX_TIMEOUT.toInt = 3000 := by decide
  unfold clamp
  by_cases hd : d = ~~~0
  · simp [hd]
  · by_cases hlt : int d > MAX_TIMEOUT
    · have hint := Int32.lt_iff_toInt_lt.mp hlt
      simp only [ne_eq, hd, not_false_eq_true, hlt, if_true]
      exact Or.inl ⟨trivial, Or.inr (by omega)⟩
    · have hint := mt Int32.lt_iff_toInt_lt.mpr hlt
      simp only [ne_eq, hd, not_false_eq_true, hlt, if_true, if_false]
      exact Or.inr ⟨trivial, trivial, by omega⟩

lemma clamp_clamp (d : UInt64) : clamp (clamp d) = clamp d := by
  rcases clamp_cases d with ⟨h, -⟩ | ⟨h, -⟩
  · rw [h]
    decide
  · rw [h, h]

lemma mem_polls {d : UInt64} {interrupted : List Bool} {timeout : Int32}
    (h : timeout ∈ polls d interrupted) : timeout = int (clamp d) := by
  induction interrupted generalizing d with
  | nil => cases h
  | cons b rest ih =>
    rw [polls] at h
    rcases List.mem_cons.mp h with h | h
    · exact h
    · cases b with
      | false => cases h
      | true =>
        rw [ih h, clamp_clamp]

/-- **When the poll timeout is bounded**, however often the poll is interrupted. -/
theorem poll_bounded_iff (d : UInt64) :
    Bounded d ↔ d = ~~~0 ∨ d.toNat % 2 ^ 32 < 2 ^ 31 := by
  have hones : (~~~0 : UInt64).toNat = 2 ^ 64 - 1 := by decide
  have hmax : (int (uint64 MAX_TIMEOUT)).toInt = 3000 := by decide
  constructor
  · intro h
    have h0 := (h [false] (int (clamp d)) (List.mem_singleton.mpr rfl)).1
    by_cases hd : d = ~~~0
    · exact Or.inl hd
    · right
      rcases int_cases d with ⟨hlow, -⟩ | ⟨hhigh, hval⟩
      · exact hlow
      · -- a negative value is below the maximum and goes through
        have hlt := d.toNat_lt
        rcases clamp_cases d with ⟨-, hd' | hbig⟩ | ⟨hsame, -⟩
        · exact absurd hd' hd
        · omega
        · rw [hsame] at h0
          omega
  · intro h interrupted timeout hmem
    rw [mem_polls hmem]
    have hint := int_cases d
    rcases clamp_cases d with ⟨heq, hbig⟩ | ⟨heq, hne, hsmall⟩
    · rw [heq, hmax]
      refine ⟨by omega, by omega, ?_⟩
      rcases hbig with rfl | hbig
      · rw [hones]
        omega
      · omega
    · rw [heq]
      have hlow := h.resolve_left hne
      omega

/-- A timer 2147483648 ms away makes the idle thread wait for ever. -/
theorem poll_waits_for_ever :
    ∃ m : TimerManager ℕ, m = (({} : TimerManager ℕ).addTimer 2147483648 (some 7) false 100 1).1 ∧
      (m.getNextTimer 100).2 = 2147483648 ∧ ¬ Bounded (m.getNextTimer 100).2 := by
  refine ⟨_, rfl, by decide, fun h => ?_⟩
  exact absurd (h [false] _ (List.mem_singleton.mpr rfl)).1 (by decide)

end Sylar.Intervals
