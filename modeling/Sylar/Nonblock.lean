import Sylar.HookModel
import Sylar.Lib.Runs

/-!
The three copies of `O_NONBLOCK`: what the user asked for, `sysNonblock_`, and the flag in the
kernel.

`fcntl` puts `O_NONBLOCK` back into what it hands to the kernel; `ioctl` does not. Both write
down what the user asked for before they know whether the call succeeds.
-/

namespace Sylar.Nonblock

open Lib Sylar.HookModel

/-- The world of the calls on one descriptor, with the modes that calls have asked for. -/
structure St where
  w : World
  /-- The mode of the last successful call. -/
  asked : Bool
  /-- The mode of the last call, successful or not. -/
  last : Bool

inductive Action
  | setfl (arg : Flags) (ok : Bool)
  | getfl (ok : Bool)
  | fionbio (v : ℤ) (ok : Bool)

/-- A socket with these flags gets its context. -/
def start (w : World) (fd : ℕ) (flags : Flags) (getfl setfl : Bool) : St :=
  let r := FdCtx.new fd ⟨true, getfl, setfl⟩ (w.kernel.setDesc fd (some ⟨flags, true⟩))
  ⟨{ w.setData fd (some r.1) with kernel := r.2 }, false, false⟩

/-- The mode asked for after a call that returned `r`. -/
def asking (asked : Bool) (r : ℤ) (mode : Bool) : Bool := if r = -1 then asked else mode

def step (fd : ℕ) (st : St) : Action → Option St
  | .setfl arg ok =>
    match fcntlSetfl st.w fd arg ok with
    | .ok r => some ⟨r.2, asking st.asked r.1 (nonblock arg), nonblock arg⟩
    | .error _ => none
  | .getfl ok =>
    match fcntlGetfl st.w fd ok with
    | .ok _ => some st
    | .error _ => none
  | .fionbio v ok =>
    match ioctlFionbio st.w fd (some v) ok with
    | .ok r => some ⟨r.2, asking st.asked r.1 (v ≠ 0), v ≠ 0⟩
    | .error _ => none

/-- As long as `getSysNonblock()` holds, the kernel's flag is set. -/
def SysSet (fd : ℕ) (st : St) : Prop :=
  ∀ c, st.w.datas fd = some c → c.sysNonblock = true →
    ∃ d, st.w.kernel.descs fd = some d ∧ nonblock d.flags = true

/-- The call leaves the kernel's flag set; and `F_GETFL` reports the mode asked for, or `-1` when
the original `F_GETFL` fails. -/
def Keeps (fd : ℕ) (st : St) (a : Action) : Prop :=
  (∀ st', step fd st a = some st' → SysSet fd st') ∧
  match a with
  | .getfl true => ∀ r, fcntlGetfl st.w fd true = .ok r → nonblock (BitVec.ofInt 32 r) = st.asked
  | .getfl false => ∀ r, fcntlGetfl st.w fd false = .ok r → r = -1
  | _ => True

/-- No `FIONBIO` with zero succeeds; when `F_GETFL` succeeds, the last call that asked for a mode
asked for the same as the last successful one; and when it fails, the last one asked for
`O_NONBLOCK`. -/
def Cond (st : St) : Action → Prop
  | .setfl .. => True
  | .getfl true => st.last = st.asked
  | .getfl false => st.last = true
  | .fionbio v ok => ok = true → v ≠ 0

/-! ### The steps -/

/-- The context of an open socket, and its descriptor. -/
structure Managed (fd : ℕ) (st : St) (c : FdCtx) (d : Desc) : Prop where
  ctx : st.w.datas fd = some c
  desc : st.w.kernel.descs fd = some d
  sock : c.isSocket = true
  live : c.isClosed = false
  sys : c.sysNonblock = true
  user : c.userNonblock = st.last

lemma Managed.managed {fd : ℕ} {st : St} {c : FdCtx} {d : Desc} (h : Managed fd st c d) :
    managed (st.w.datas fd) = some c := by
  simp [HookModel.managed, h.ctx, h.sock, h.live]

lemma step_setfl {fd : ℕ} {st : St} {c : FdCtx} {d : Desc} (h : Managed fd st c d) (arg : Flags)
    (ok : Bool) : ∃ st', step fd st (.setfl arg ok) = some st' ∧
      Managed fd st' { c with userNonblock := nonblock arg }
        (if ok then { d with
          flags := d.flags &&& ~~~settable ||| (arg ||| O_NONBLOCK) &&& settable } else d) := by
  cases ok with
  | true =>
    refine ⟨_, by simp only [step, fcntlSetfl, get_natCast, h.managed]; rfl, ?_⟩
    refine ⟨by simp [World.orig, World.setData], ?_, h.sock, h.live, h.sys, rfl⟩
    simp [World.orig, World.setData, Kernel.setfl, h.desc, h.sys, Kernel.setDesc]
  | false =>
    refine ⟨_, by simp only [step, fcntlSetfl, get_natCast, h.managed]; rfl, ?_⟩
    refine ⟨by simp [World.orig, World.setData], ?_, h.sock, h.live, h.sys, rfl⟩
    simp [World.orig, World.setData, Kernel.setfl, h.desc]

lemma step_fionbio {fd : ℕ} {st : St} {c : FdCtx} {d : Desc} (h : Managed fd st c d) (v : ℤ)
    (ok : Bool) : ∃ st', step fd st (.fionbio v ok) = some st' ∧
      Managed fd st' { c with userNonblock := v ≠ 0 }
        (if ok then { d with
          flags := if v ≠ 0 then d.flags ||| O_NONBLOCK else d.flags &&& ~~~O_NONBLOCK }
        else d) := by
  cases ok with
  | true =>
    refine ⟨_, by simp only [step, ioctlFionbio, get_natCast, h.managed]; rfl, ?_⟩
    refine ⟨by simp [World.orig, World.setData], ?_, h.sock, h.live, h.sys, rfl⟩
    simp [World.orig, World.setData, Kernel.fionbio, h.desc, Kernel.setDesc]
  | false =>
    refine ⟨_, by simp only [step, ioctlFionbio, get_natCast, h.managed]; rfl, ?_⟩
    refine ⟨by simp [World.orig, World.setData], ?_, h.sock, h.live, h.sys, rfl⟩
    simp [World.orig, World.setData, Kernel.fionbio, h.desc]

lemma getfl_eq {fd : ℕ} {st : St} {c : FdCtx} {d : Desc} (h : Managed fd st c d) (ok : Bool) :
    fcntlGetfl st.w fd ok = .ok (if c.userNonblock then (if ok then d.flags else -1) ||| O_NONBLOCK
      else (if ok then d.flags else -1) &&& ~~~O_NONBLOCK).toInt := by
  cases ok <;> simp [fcntlGetfl, get_natCast, h.managed, Kernel.getfl, h.desc]

lemma step_getfl {fd : ℕ} {st : St} {c : FdCtx} {d : Desc} (h : Managed fd st c d) (ok : Bool) :
    step fd st (.getfl ok) = some st := by
  simp only [step, getfl_eq h]

lemma sysSet_iff {fd : ℕ} {st : St} {c : FdCtx} {d : Desc} (h : Managed fd st c d) :
    SysSet fd st ↔ nonblock d.flags = true := by
  constructor
  · intro hs
    obtain ⟨d', hd', hn⟩ := hs c h.ctx h.sys
    obtain rfl : d = d' := Option.some.inj (h.desc.symm.trans hd')
    exact hn
  · exact fun hn c' _ _ => ⟨d, h.desc, hn⟩

/-! ### Runs -/

/-- The context and the descriptor are there, and the kernel's flag is set. -/
def Inv (fd : ℕ) (st : St) : Prop := ∃ c d, Managed fd st c d ∧ nonblock d.flags = true

lemma step_inv {fd : ℕ} (st : St) (a : Action) (st' : St) (h : Inv fd st) (hk : Keeps fd st a)
    (hs : step fd st a = some st') : Inv fd st' := by
  obtain ⟨c, d, hm, hn⟩ := h
  have hset := hk.1 st' hs
  cases a with
  | setfl arg ok =>
    obtain ⟨st₁, hs₁, hm₁⟩ := step_setfl hm arg ok
    obtain rfl := Option.some.inj (hs₁.symm.trans hs)
    exact ⟨_, _, hm₁, (sysSet_iff hm₁).mp hset⟩
  | getfl ok =>
    obtain rfl := Option.some.inj ((step_getfl hm ok).symm.trans hs)
    exact ⟨c, d, hm, hn⟩
  | fionbio v ok =>
    obtain ⟨st₁, hs₁, hm₁⟩ := step_fionbio hm v ok
    obtain rfl := Option.some.inj (hs₁.symm.trans hs)
    exact ⟨_, _, hm₁, (sysSet_iff hm₁).mp hset⟩

/-- One call keeps the copies together exactly when it meets the condition. -/
lemma keeps_iff {fd : ℕ} (st : St) (a : Action) (h : Inv fd st) :
    Keeps fd st a ↔ Cond st a := by
  obtain ⟨c, d, hm, hn⟩ := h
  cases a with
  | setfl arg ok =>
    obtain ⟨st₁, hs₁, hm₁⟩ := step_setfl hm arg ok
    refine ⟨fun _ => trivial, fun _ => ⟨fun st' hs => ?_, trivial⟩⟩
    obtain rfl := Option.some.inj (hs₁.symm.trans hs)
    rw [sysSet_iff hm₁]
    cases ok with
    | false => exact hn
    | true => exact (nonblock_settable _ _).trans (nonblock_or arg)
  | getfl ok =>
    have hset : ∀ st', step fd st (.getfl ok) = some st' → SysSet fd st' := fun st' hs => by
      obtain rfl := Option.some.inj ((step_getfl hm ok).symm.trans hs)
      exact (sysSet_iff hm).mpr hn
    cases ok with
    | true =>
      refine (and_iff_right hset).trans ?_
      show (∀ r, fcntlGetfl st.w fd true = .ok r → nonblock (BitVec.ofInt 32 r) = st.asked) ↔
        st.last = st.asked
      rw [getfl_eq hm true, ← hm.user]
      simp only [Except.ok.injEq, forall_eq', BitVec.ofInt_toInt, if_true]
      cases c.userNonblock with
      | true => rw [if_pos rfl, nonblock_or]
      | false => rw [if_neg nofun, nonblock_and_not]
    | false =>
      refine (and_iff_right hset).trans ?_
      show (∀ r, fcntlGetfl st.w fd false = .ok r → r = -1) ↔ st.last = true
      rw [getfl_eq hm false, ← hm.user]
      simp only [Except.ok.injEq, forall_eq', Bool.false_eq_true, if_false]
      cases c.userNonblock <;> decide
  | fionbio v ok =>
    obtain ⟨st₁, hs₁, hm₁⟩ := step_fionbio hm v ok
    refine (and_iff_left trivial).trans ⟨fun hk hok => ?_, fun hc st' hs => ?_⟩
    · subst hok
      have hset := (sysSet_iff hm₁).mp (hk st₁ hs₁)
      intro hv
      simp [hv, nonblock_and_not] at hset
    · obtain rfl := Option.some.inj (hs₁.symm.trans hs)
      rw [sysSet_iff hm₁]
      cases ok with
      | false => exact hn
      | true => simp [hc rfl, nonblock_or]

/-- What `FdCtx::init` makes of the flag: an `F_GETFL` that fails looks like a set flag. -/
lemma initFlags_desc (k : Kernel) (fd : ℕ) (flags : Flags) (getfl setfl : Bool) :
    ∃ d, (FdCtx.initFlags fd ⟨true, getfl, setfl⟩ (k.setDesc fd (some ⟨flags, true⟩))).descs fd =
        some d ∧ d.sock = true ∧ nonblock d.flags = (nonblock flags || getfl && setfl) := by
  have hdesc : (k.setDesc fd (some ⟨flags, true⟩)).descs fd = some ⟨flags, true⟩ := by
    simp [Kernel.setDesc]
  have hmiss : ¬ (-1 : Flags) &&& O_NONBLOCK = 0 := by decide
  cases getfl with
  | false =>
    have hsame : FdCtx.initFlags fd ⟨true, false, setfl⟩ (k.setDesc fd (some ⟨flags, true⟩)) =
        k.setDesc fd (some ⟨flags, true⟩) := if_neg hmiss
    exact ⟨⟨flags, true⟩, by rw [hsame, hdesc], rfl, by simp⟩
  | true =>
    simp only [FdCtx.initFlags, Kernel.getfl, hdesc]
    by_cases hn : flags &&& O_NONBLOCK = 0
    · have hflag : nonblock flags = false := by simp [nonblock, hn]
      rw [if_pos hn, hflag]
      cases setfl with
      | false => exact ⟨_, hdesc, rfl, by simpa using hflag⟩
      | true =>
        refine ⟨_, by simp only [Kernel.setfl, Kernel.setDesc, Function.update_self]; rfl, rfl, ?_⟩
        exact (nonblock_settable _ _).trans (nonblock_or flags)
    · have hflag : nonblock flags = true := by simpa [nonblock] using hn
      rw [if_neg hn]
      exact ⟨_, hdesc, rfl, by simp [hflag]⟩

lemma start_managed (w : World) (fd : ℕ) (flags : Flags) (getfl setfl : Bool) :
    ∃ c d, Managed fd (start w fd flags getfl setfl) c d ∧
      nonblock d.flags = (nonblock flags || getfl && setfl) := by
  obtain ⟨d, hd, -, hn⟩ := initFlags_desc w.kernel fd flags getfl setfl
  have hstat : (w.kernel.setDesc fd (some ⟨flags, true⟩)).fstat true fd = some true := by
    simp [Kernel.fstat, Kernel.setDesc]
  refine ⟨{ fd := fd, isInit := true, isSocket := true, sysNonblock := true }, d,
    ⟨?_, ?_, rfl, rfl, rfl, rfl⟩, hn⟩
  · simp [start, FdCtx.new, hstat, World.setData]
  · simp only [start, FdCtx.new, hstat]
    exact hd

/-- **The copies of `O_NONBLOCK` stay together exactly in the runs without these slips.** For a
socket with any flags that gets its context, and every sequence of `F_SETFL`, `F_GETFL` and
`FIONBIO` on it, each call of an original function free to fail: the kernel's flag is set as
long as `getSysNonblock()` holds, each successful `F_GETFL` reports the mode that the last
successful call asked for, and each failing one `-1`, if and only if the flag was set before or
both calls of `fcntl` in `FdCtx::init` succeed, no `FIONBIO` with zero succeeds, a successful
`F_GETFL` finds that the last call asked for what the last successful one did, and a failing
`F_GETFL` that the last call asked for `O_NONBLOCK`. -/
theorem nonblock_kept_iff (w : World) (fd : ℕ) (flags : Flags) (getfl setfl : Bool)
    (as : List Action) :
    SysSet fd (start w fd flags getfl setfl) ∧
        Runs.Meets (step fd) (Keeps fd) (start w fd flags getfl setfl) as ↔
      (nonblock flags = true ∨ getfl = true ∧ setfl = true) ∧
        Runs.Meets (step fd) Cond (start w fd flags getfl setfl) as := by
  obtain ⟨c, d, hm, hn⟩ := start_managed w fd flags getfl setfl
  have hinit : SysSet fd (start w fd flags getfl setfl) ↔
      (nonblock flags = true ∨ getfl = true ∧ setfl = true) := by
    rw [sysSet_iff hm, hn, Bool.or_eq_true, Bool.and_eq_true]
  rw [← hinit]
  refine and_congr_right fun hset => ?_
  exact Runs.meets_congr_of_meets step_inv keeps_iff ⟨c, d, hm, (sysSet_iff hm).mp hset⟩

/-- `FIONBIO` with zero, on a socket whose context was made without any failure. -/
theorem fionbio_clears_the_flag :
    ¬ Runs.Meets (step 7) (Keeps 7) (start ⟨fun _ => none, ⟨fun _ => none⟩⟩ 7 2 true true)
      [.fionbio 0 true] := by
  intro h
  obtain ⟨d, hd, hn⟩ := h.1.1 _ rfl _ rfl rfl
  cases hd
  cases hn

end Sylar.Nonblock
