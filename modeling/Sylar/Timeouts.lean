import Sylar.HookModel
import Sylar.Lib.Runs

/-!
The timeouts of a socket, as `setsockopt` writes them down for `do_io`.

`FdCtx` has its own value for no timeout, and `setsockopt` fills it in before the original call
can fail.
-/

namespace Sylar.Timeouts

open Lib Sylar.HookModel

structure Timeval where
  tv_sec : ℤ
  tv_usec : ℤ
  sec_nonneg : 0 ≤ tv_sec
  usec_nonneg : 0 ≤ tv_usec
  usec_lt : tv_usec < 1000000
  sec_long : tv_sec < 2 ^ 63

/-- The milliseconds of the value, rounded down. -/
def Timeval.ms (tv : Timeval) : ℤ := tv.tv_sec * 1000 + tv.tv_usec / 1000

def Timeval.IsZero (tv : Timeval) : Prop := tv.tv_sec = 0 ∧ tv.tv_usec = 0

instance (tv : Timeval) : Decidable tv.IsZero := inferInstanceAs (Decidable (_ ∧ _))

/-- The world of the calls on one descriptor, and the value of the last successful call for each
direction. -/
structure St where
  w : World
  last : TimeoutSo → Option Timeval

/-- `setsockopt(sockfd, SOL_SOCKET, optname, &tv, sizeof(tv))` on a hooked thread. -/
structure Action where
  optname : TimeoutSo
  tv : Timeval
  ok : Bool

def start (w : World) : St := ⟨w, fun _ => none⟩

def setsockopt_f (ok : Bool) : Libc := fun k => (if ok then 0 else -1, k)

def step (fd : ℕ) (st : St) (a : Action) : Option St :=
  match setsockoptTimeout true st.w fd a.optname a.tv.tv_sec a.tv.tv_usec (setsockopt_f a.ok) with
  | .ok (some (r, w)) =>
    some ⟨w, if r = -1 then st.last else Function.update st.last a.optname (some a.tv)⟩
  | _ => none

/-- The timeout that the last successful call stands for. -/
def meant : Option Timeval → ℤ
  | none => 2 ^ 64 - 1
  | some tv => if tv.IsZero then 2 ^ 64 - 1 else tv.ms

/-- When `do_io` waits, it waits as long as the last successful call for its direction says. -/
def Agrees (fd : ℕ) (st : St) : Prop :=
  ∀ so timeout, doIoPath true (st.w.datas fd) so = .wait timeout →
    (timeout.toNat : ℤ) = meant (st.last so)

/-- The call is defined, and the timeouts agree after it. -/
def Good (fd : ℕ) (st : St) (a : Action) : Prop := ∃ st', step fd st a = some st' ∧ Agrees fd st'

/-- The milliseconds fit a `long`; a successful call is not for `{0, 0}`; a failing call asks for
the timeout that is in force. -/
def Cond (fd : ℕ) (st : St) (a : Action) : Prop :=
  a.tv.ms < 2 ^ 63 ∧ if a.ok then ¬ a.tv.IsZero
    else ∀ c, st.w.datas fd = some c → a.tv.ms = (c.getTimeout a.optname).toNat

/-! ### One call -/

structure Waits (c : FdCtx) : Prop where
  sock : c.isSocket = true
  live : c.isClosed = false
  blocking : c.userNonblock = false

lemma Waits.path {c : FdCtx} (h : Waits c) (so : TimeoutSo) :
    doIoPath true (some c) so = .wait (c.getTimeout so) := by
  simp [doIoPath, h.sock, h.live, h.blocking]

lemma Waits.setTimeout {c : FdCtx} (h : Waits c) (so : TimeoutSo) (v : UInt64) :
    Waits (c.setTimeout so v) := by
  cases so <;> exact ⟨h.sock, h.live, h.blocking⟩

lemma getTimeout_setTimeout (c : FdCtx) (so so' : TimeoutSo) (v : UInt64) :
    (c.setTimeout so v).getTimeout so' = if so' = so then v else c.getTimeout so' := by
  cases so <;> cases so' <;> rfl

lemma Timeval.ms_nonneg (tv : Timeval) : 0 ≤ tv.ms := by
  have h1 := tv.sec_nonneg
  have h2 := tv.usec_nonneg
  unfold Timeval.ms
  omega

lemma timevalMs_eq (tv : Timeval) : timevalMs tv.tv_sec tv.tv_usec =
    if tv.ms < 2 ^ 63 then some (UInt64.ofInt tv.ms) else none := by
  have h1 := tv.sec_nonneg
  have h2 := tv.usec_nonneg
  have hdiv : tv.tv_usec.tdiv 1000 = tv.tv_usec / 1000 := Int.tdiv_eq_ediv_of_nonneg h2
  unfold timevalMs
  simp only [hdiv]
  have hiff : (IsLong (tv.tv_sec * 1000) ∧ IsLong (tv.tv_sec * 1000 + tv.tv_usec / 1000)) ↔
      tv.ms < 2 ^ 63 := by
    unfold IsLong Timeval.ms
    omega
  by_cases hms : tv.ms < 2 ^ 63
  · rw [if_pos (hiff.mpr hms), if_pos hms]
    rfl
  · rw [if_neg (mt hiff.mp hms), if_neg hms]

lemma toNat_ofInt_ms {tv : Timeval} (h : tv.ms < 2 ^ 63) :
    ((UInt64.ofInt tv.ms).toNat : ℤ) = tv.ms := by
  have h0 := tv.ms_nonneg
  have hmod : tv.ms % 2 ^ 64 = tv.ms := Int.emod_eq_of_lt h0 (by omega)
  unfold UInt64.ofInt
  rw [hmod, UInt64.toNat_ofNat_of_lt' (by show tv.ms.toNat < 2 ^ 64; omega)]
  omega

lemma step_eq {fd : ℕ} {st : St} {c : FdCtx} (hc : st.w.datas fd = some c) (a : Action) :
    step fd st a = if a.tv.ms < 2 ^ 63 then
      some ⟨st.w.setData fd (some (c.setTimeout a.optname (UInt64.ofInt a.tv.ms))),
        if a.ok then Function.update st.last a.optname (some a.tv) else st.last⟩
    else none := by
  obtain ⟨so, tv, ok⟩ := a
  unfold step setsockoptTimeout
  rw [get_natCast, hc, timevalMs_eq]
  by_cases hms : tv.ms < 2 ^ 63
  · simp only [hms, if_true]
    cases ok <;> rfl
  · simp only [hms, if_false]
    rfl

lemma agrees_iff {fd : ℕ} {st : St} {c : FdCtx} (hc : st.w.datas fd = some c) (hw : Waits c) :
    Agrees fd st ↔ ∀ so, ((c.getTimeout so).toNat : ℤ) = meant (st.last so) := by
  unfold Agrees
  rw [hc]
  simp only [hw.path, Path.wait.injEq, forall_eq']

/-! ### Runs -/

def Inv (fd : ℕ) (st : St) : Prop := (∃ c, st.w.datas fd = some c ∧ Waits c) ∧ Agrees fd st

lemma step_inv {fd : ℕ} (st : St) (a : Action) (st' : St) (h : Inv fd st) (hg : Good fd st a)
    (hs : step fd st a = some st') : Inv fd st' := by
  obtain ⟨⟨c, hc, hw⟩, -⟩ := h
  obtain ⟨st₁, hs₁, hag⟩ := hg
  obtain rfl := Option.some.inj (hs₁.symm.trans hs)
  refine ⟨?_, hag⟩
  rw [step_eq hc, Option.ite_none_right_eq_some, Option.some.injEq] at hs
  obtain ⟨-, rfl⟩ := hs
  exact ⟨c.setTimeout a.optname (UInt64.ofInt a.tv.ms), Function.update_self .., hw.setTimeout _ _⟩

/-- **One call leaves the timeouts right exactly under the condition.** -/
lemma good_iff {fd : ℕ} (st : St) (a : Action) (h : Inv fd st) : Good fd st a ↔ Cond fd st a := by
  obtain ⟨⟨c, hc, hw⟩, hag⟩ := h
  rw [agrees_iff hc hw] at hag
  obtain ⟨so, tv, ok⟩ := a
  unfold Good Cond
  rw [step_eq hc]
  dsimp only
  by_cases hms : tv.ms < 2 ^ 63
  · rw [if_pos hms]
    simp only [Option.some.injEq, exists_eq_left', hms, true_and]
    rw [agrees_iff (c := c.setTimeout so (UInt64.ofInt tv.ms)) (by simp [World.setData])
      (hw.setTimeout _ _)]
    have hval := toNat_ofInt_ms hms
    have hother (x : TimeoutSo) (hx : x ≠ so) :
        ((c.setTimeout so (UInt64.ofInt tv.ms)).getTimeout x).toNat = (c.getTimeout x).toNat := by
      rw [getTimeout_setTimeout, if_neg hx]
    have hself : (c.setTimeout so (UInt64.ofInt tv.ms)).getTimeout so = UInt64.ofInt tv.ms := by
      rw [getTimeout_setTimeout, if_pos rfl]
    -- only the direction of the call can go wrong
    have hone (last : TimeoutSo → Option Timeval) (hl : ∀ x, x ≠ so → last x = st.last x) :
        (∀ x, (((c.setTimeout so (UInt64.ofInt tv.ms)).getTimeout x).toNat : ℤ) =
          meant (last x)) ↔ tv.ms = meant (last so) := by
      constructor
      · intro hall
        rw [← hall so, hself, hval]
      · intro hso x
        by_cases hx : x = so
        · subst hx
          rw [hself, hval, hso]
        · rw [hother x hx, hl x hx, hag x]
    cases ok with
    | true =>
      simp only [if_true]
      rw [hone _ fun x hx => Function.update_of_ne hx .., Function.update_self, meant]
      by_cases hz : tv.IsZero
      · have h0 : tv.ms = 0 := by
          unfold Timeval.ms
          rw [hz.1, hz.2]
          rfl
        rw [if_pos hz, h0]
        exact ⟨fun h => absurd h (by omega), fun h => absurd hz h⟩
      · rw [if_neg hz]
        exact ⟨fun _ => hz, fun _ => rfl⟩
    | false =>
      simp only [Bool.false_eq_true, if_false]
      rw [hone st.last fun _ _ => rfl, hc]
      simp only [Option.some.injEq, forall_eq', hag so]
  · rw [if_neg hms]
    constructor
    · rintro ⟨_, hs, _⟩
      cases hs
    · exact fun hcond => absurd hcond.1 hms

/-- **`do_io` waits as long as the kernel would exactly in the runs without these slips.** For a
context that `do_io` waits for and that has no timeouts yet, and every sequence of `setsockopt`
for its timeouts, each original call free to fail: after each call the timeout of each direction
is the one the last successful call for it stands for, none if there was none or it was for
`{0, 0}`, if and only if no call's milliseconds overflow, no successful call is for `{0, 0}`,
and each failing call asks for the timeout that is in force. -/
theorem timeouts_agree_iff (w : World) (fd : ℕ) (c : FdCtx) (hc : w.datas fd = some c)
    (hw : Waits c) (hr : c.recvTimeout = -1) (hs : c.sendTimeout = -1) (as : List Action) :
    Agrees fd (start w) ∧ Runs.Meets (step fd) (Good fd) (start w) as ↔
      Runs.Meets (step fd) (Cond fd) (start w) as := by
  have hag : Agrees fd (start w) := by
    rw [agrees_iff hc hw]
    intro so
    cases so with
    | rcv => rw [FdCtx.getTimeout, hr]; rfl
    | snd => rw [FdCtx.getTimeout, hs]; rfl
  rw [and_iff_right hag]
  exact Runs.meets_congr_of_meets step_inv good_iff ⟨⟨c, hc, hw⟩, hag⟩

/-- A managed socket that is just made, on descriptor 7. -/
def fresh : World :=
  ⟨fun _ => some { fd := 7, isInit := true, isSocket := true, sysNonblock := true },
    ⟨fun _ => none⟩⟩

/-- The call for `sec` seconds and `usec` microseconds. -/
def call (so : TimeoutSo) (sec usec : Fin 1000) (ok : Bool) : Action :=
  ⟨so, ⟨sec, usec, by omega, by omega, by omega, by omega⟩, ok⟩

theorem timeouts_agree_both_directions :
    Agrees 7 (start fresh) ∧ Runs.Meets (step 7) (Good 7) (start fresh)
      [call .rcv 2 500 true, call .snd 1 0 true, call .rcv 2 500 false] := by
  refine (timeouts_agree_iff fresh 7 _ rfl ⟨rfl, rfl, rfl⟩ rfl rfl _).mpr ?_
  refine Runs.meets_cons ⟨by decide, by decide⟩ rfl (Runs.meets_cons ⟨by decide, by decide⟩ rfl
    (Runs.meets_cons ⟨by decide, ?_⟩ rfl trivial))
  intro c hc
  cases hc
  decide

/-- A timeout of `{0, 0}` is taken for no time at all. -/
theorem zero_timeout_is_immediate :
    ¬ Runs.Meets (step 7) (Good 7) (start fresh) [call .rcv 0 0 true] := by
  intro h
  obtain ⟨st', hs, hag⟩ := h.1
  cases hs
  have hzero := hag .rcv 0 rfl
  revert hzero
  decide

end Sylar.Timeouts
