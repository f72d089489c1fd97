import Sylar.Timeouts
import Mathlib.Algebra.Ring.Int.Defs
import Mathlib.Algebra.Ring.Nat
import Mathlib.Data.List.Induction

/-!
`Socket::setSendTimeout` and the three others, which write a timeout for the kernel and read it from
the context that the hook keeps.
-/

namespace Sylar.SocketTimeouts

open Lib Sylar.HookModel Sylar.Timeouts

def int (x : ℤ) : ℤ := x.bmod (2 ^ 32)

/-- A call of `setSendTimeout` or `setRecvTimeout` with the milliseconds `v`, on a hooked thread or
not, and what the original `setsockopt` does. -/
structure Call where
  so : TimeoutSo
  v : ℤ
  long : IsLong v
  hook : Bool
  setsockopt_f : Libc

def Socket.setTimeout (w : World) (sock : ℤ) (c : Call) : Option World :=
  match setsockoptTimeout c.hook w sock c.so (int (c.v.tdiv 1000)) (int (c.v.tmod 1000 * 1000))
      c.setsockopt_f with
  | .ok (some r) => some r.2
  | _ => none

/-- `getSendTimeout` and `getRecvTimeout`; the `uint64_t` becomes an `int64_t`. -/
def Socket.getTimeout (w : World) (sock : ℤ) (so : TimeoutSo) : Except Fault ℤ :=
  match w.get sock with
  | .error e => .error e
  | .ok (some ctx) => .ok (((ctx.getTimeout so).toNat : ℤ).bmod (2 ^ 64))
  | .ok none => .ok (-1)

/-- What is read back after `v` has been set: the seconds have gone through an `int`. -/
def reported (v : ℤ) : ℤ := int (v.tdiv 1000) * 1000 + v.tmod 1000

lemma int_bounds (x : ℤ) : -2 ^ 31 ≤ int x ∧ int x < 2 ^ 31 := by
  unfold int
  have hlow := Int.le_bmod (x := x) (m := 2 ^ 32) (by decide)
  have hhigh := Int.bmod_lt (x := x) (m := 2 ^ 32) (by decide)
  omega

lemma int_eq_self_iff (x : ℤ) : int x = x ↔ -2 ^ 31 ≤ x ∧ x < 2 ^ 31 := by
  constructor
  · intro h
    rw [← h]
    exact int_bounds x
  · rintro ⟨hlow, hhigh⟩
    unfold int
    exact Int.bmod_eq_of_le (by omega) (by omega)

lemma tmod_bounds (v : ℤ) : -1000 < v.tmod 1000 ∧ v.tmod 1000 < 1000 :=
  ⟨Int.lt_tmod_of_pos v (by decide), Int.tmod_lt_of_pos v (by decide)⟩

/-- **A timeout is read back as it was set** if and only if its seconds are an `int`. -/
lemma reported_eq_self_iff (v : ℤ) :
    reported v = v ↔ -2 ^ 31 ≤ v.tdiv 1000 ∧ v.tdiv 1000 < 2 ^ 31 := by
  rw [← int_eq_self_iff, reported]
  have h := Int.mul_tdiv_add_tmod v 1000
  omega

/-- The hook computes what is reported, and never overflows. -/
lemma timevalMs_int (v : ℤ) :
    timevalMs (int (v.tdiv 1000)) (int (v.tmod 1000 * 1000)) =
      some (UInt64.ofInt (reported v)) := by
  have hsec := int_bounds (v.tdiv 1000)
  have hrem := tmod_bounds v
  have husec : int (v.tmod 1000 * 1000) = v.tmod 1000 * 1000 :=
    (int_eq_self_iff _).2 (by omega)
  have hback : (v.tmod 1000 * 1000).tdiv 1000 = v.tmod 1000 := Int.mul_tdiv_cancel _ (by decide)
  unfold timevalMs
  simp only [husec, hback]
  exact if_pos (by unfold IsLong; omega)

/-- The conversions to `uint64_t` and back do nothing to what is reported. -/
lemma bmod_ofInt (v : ℤ) :
    ((UInt64.ofInt (reported v)).toNat : ℤ).bmod (2 ^ 64) = reported v := by
  have hsec := int_bounds (v.tdiv 1000)
  have hrem := tmod_bounds v
  have hnat : ((UInt64.ofInt (reported v)).toNat : ℤ) = reported v % 2 ^ 64 := by
    have hnonneg := Int.emod_nonneg (reported v) (b := 2 ^ 64) (by decide)
    have hlt := Int.emod_lt_of_pos (reported v) (b := 2 ^ 64) (by decide)
    unfold UInt64.ofInt
    rw [UInt64.toNat_ofNat_of_lt' (by show (reported v % 2 ^ 64).toNat < 2 ^ 64; omega)]
    exact Int.toNat_of_nonneg hnonneg
  rw [hnat]
  have hmod : (reported v % 2 ^ 64).bmod (2 ^ 64) = (reported v).bmod (2 ^ 64) := Int.emod_bmod ..
  rw [hmod]
  unfold reported
  exact Int.bmod_eq_of_le (by omega) (by omega)

/-- The value of the last call for the direction that the hook has seen. -/
def lastSet (so : TimeoutSo) (cs : List Call) : Option ℤ :=
  ((cs.filter fun c => c.hook && decide (c.so = so)).getLast?).map Call.v

lemma lastSet_append (so : TimeoutSo) (cs : List Call) (c : Call) :
    lastSet so (cs ++ [c]) = if c.hook = true ∧ c.so = so then some c.v else lastSet so cs := by
  unfold lastSet
  rw [List.filter_append]
  by_cases h : c.hook = true ∧ c.so = so
  · simp [h]
  · have hfilter : [c].filter (fun c => c.hook && decide (c.so = so)) = [] := by
      simpa using h
    rw [hfilter, List.append_nil, if_neg h]

/-- One call never fails, whatever the kernel answers, and the hook writes down what is reported. -/
lemma setTimeout_eq {w : World} {fd : ℕ} {ctx : FdCtx} (hc : w.datas fd = some ctx) (c : Call) :
    ∃ w', Socket.setTimeout w fd c = some w' ∧ w'.datas fd =
      some (if c.hook then ctx.setTimeout c.so (UInt64.ofInt (reported c.v)) else ctx) := by
  unfold Socket.setTimeout setsockoptTimeout
  cases c.hook with
  | false => exact ⟨_, rfl, hc⟩
  | true =>
    rw [get_natCast, hc, timevalMs_int]
    exact ⟨_, rfl, Function.update_self ..⟩

/-- **Timeouts are read back.** After any calls of the four functions on a socket with a context, on
hooked threads or not, the timeout of a direction is what the last hooked call for it reports, and
the one from before if there was none; that is the value set if and only if its seconds fit an
`int`. -/
theorem timeouts_read_back {w : World} {fd : ℕ} {ctx : FdCtx} (hc : w.datas fd = some ctx)
    (cs : List Call) :
    ∃ w', Runs.run (fun w c => Socket.setTimeout w fd c) w cs = some w' ∧ ∀ so,
      (∀ v, lastSet so cs = some v → Socket.getTimeout w' fd so = .ok (reported v) ∧
        (reported v = v ↔ -2 ^ 31 ≤ v.tdiv 1000 ∧ v.tdiv 1000 < 2 ^ 31)) ∧
      (lastSet so cs = none → Socket.getTimeout w' fd so = Socket.getTimeout w fd so) := by
  have hrun : ∃ w' ctx', Runs.run (fun w c => Socket.setTimeout w fd c) w cs = some w' ∧
      w'.datas fd = some ctx' ∧ ∀ so, ctx'.getTimeout so =
        ((lastSet so cs).map fun v => UInt64.ofInt (reported v)).getD (ctx.getTimeout so) := by
    induction cs using List.reverseRecOn with
    | nil => exact ⟨w, ctx, rfl, hc, fun so => rfl⟩
    | append_singleton cs c ih =>
      obtain ⟨m, mctx, hm, hmc, hmget⟩ := ih
      obtain ⟨w', hw', hctx'⟩ := setTimeout_eq hmc c
      refine ⟨w', _, Runs.run_append.mpr ⟨m, hm, Runs.run_cons.mpr ⟨w', hw', rfl⟩⟩, hctx',
        fun so => ?_⟩
      rw [lastSet_append]
      cases hhook : c.hook with
      | false => simpa using hmget so
      | true =>
        by_cases hso : c.so = so
        · simp [hso, getTimeout_setTimeout]
        · simp only [hso, and_false, if_false, if_true, getTimeout_setTimeout, hmget so]
          rw [if_neg (Ne.symm hso)]
  obtain ⟨w', ctx', hw', hctx', hget⟩ := hrun
  have hread {w : World} {ctx : FdCtx} (hc : w.datas fd = some ctx) (so : TimeoutSo) :
      Socket.getTimeout w fd so = .ok (((ctx.getTimeout so).toNat : ℤ).bmod (2 ^ 64)) := by
    unfold Socket.getTimeout
    rw [get_natCast, hc]
  refine ⟨w', hw', fun so => ⟨fun v hv => ⟨?_, reported_eq_self_iff v⟩, fun hnone => ?_⟩⟩
  · rw [hread hctx', hget so, hv, Option.map_some, Option.getD_some, bmod_ofInt]
  · rw [hread hctx', hread hc, hget so, hnone, Option.map_none, Option.getD_none]

/-- The call that the kernel refuses is read back, the one on a thread without hooks is not. -/
theorem timeouts_read_back_refused :
    ∃ w', Runs.run (fun w c => Socket.setTimeout w (7 : ℕ) c) fresh
        [⟨.rcv, -1, by decide, true, fun k => (-1, k)⟩,
          ⟨.rcv, 2500, by decide, false, fun k => (0, k)⟩] = some w' ∧
      Socket.getTimeout w' (7 : ℕ) .rcv = .ok (reported (-1)) := by
  have hctx : fresh.datas (7 : ℕ) =
      some { fd := 7, isInit := true, isSocket := true, sysNonblock := true } := rfl
  obtain ⟨w', hw', hget⟩ := timeouts_read_back hctx
    [⟨.rcv, -1, by decide, true, fun k => (-1, k)⟩, ⟨.rcv, 2500, by decide, false, fun k => (0, k)⟩]
  exact ⟨w', hw', ((hget .rcv).1 (-1) rfl).1⟩

end Sylar.SocketTimeouts
