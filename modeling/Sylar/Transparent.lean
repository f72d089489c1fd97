import Sylar.HookModel
import Sylar.Lib.Runs

/-!
The hooked functions on a thread where hooking is off.

Most of them test `t_hook_enable` before anything else. `accept` tests it only inside `do_io` and
makes a context for the new descriptor either way, which sets `O_NONBLOCK`; `fcntl` and `ioctl`
do not test it at all, and `fcntl` drops the third argument of a command it does not know.
-/

namespace Sylar.Transparent

open Lib Sylar.HookModel

/-- A call, with what the original function does with its arguments. `io` stands for the
functions of the `read` and the `write` family, which are calls of `do_io`. -/
inductive Call
  | socket (socket_f : Libc) (o : InitCalls)
  | accept (s : ℤ) (accept_f : Libc) (o : InitCalls)
  | io (fd : ℤ) (timeout_so : TimeoutSo) (f : Libc)
  | close (fd : ℤ) (close_f : Libc)
  | setfl (fd : ℤ) (arg : Flags) (ok : Bool)
  | getfl (fd : ℤ) (ok : Bool)
  | fcntl (cmd : FcntlCmd) (arg : Option ℤ) (fcntl_f : Option ℤ → Libc)
  | fionbio (d : ℤ) (arg : Option ℤ) (ok : Bool)
  | ioctl (ioctl_f : Libc)
  | setTimeout (sockfd : ℤ) (optname : TimeoutSo) (tv_sec tv_usec : ℤ) (setsockopt_f : Libc)
  | setsockopt (setsockopt_f : Libc)
  | connect (fd : ℤ) (connect_f : Libc)

/-- The call as the original function takes it. -/
def Call.original : Call → Libc
  | .socket f _ | .accept _ f _ | .io _ _ f | .close _ f => f
  | .setfl fd arg ok => Kernel.setfl ok fd arg
  | .getfl fd ok => fun k => ((k.getfl ok fd).toInt, k)
  | .fcntl _ arg fcntl_f => fcntl_f arg
  | .fionbio d arg ok => Kernel.fionbio ok d arg
  | .ioctl f | .setTimeout _ _ _ _ f | .setsockopt f | .connect _ f => f

section
-- what a hooked thread would do with calls that have to wait; these threads are not hooked
variable (waits : UInt64 → World → ℤ × World)

/-- The call as the hooked function takes it while hooking is off; nothing follows an index out
of range. -/
def Call.hooked (w : World) : Call → Option (ℤ × World)
  | .socket f o => (HookModel.socket false w f o).toOption
  | .accept s f o => (HookModel.accept false w s f waits o).toOption
  | .io fd so f => (HookModel.doIo false w fd so f waits).toOption
  | .close fd f => (HookModel.close false w fd f).toOption
  | .setfl fd arg ok => (HookModel.fcntlSetfl w fd arg ok).toOption
  | .getfl fd ok => (HookModel.fcntlGetfl w fd ok).toOption.map fun r => (r, w)
  | .fcntl cmd arg fcntl_f => some (HookModel.fcntl w cmd arg fcntl_f)
  | .fionbio d arg ok => (HookModel.ioctlFionbio w d arg ok).toOption
  | .ioctl f => some (HookModel.ioctl w f)
  | .setTimeout fd so sec usec f =>
    (HookModel.setsockoptTimeout false w fd so sec usec f).toOption.join
  | .setsockopt f => some (HookModel.setsockopt w f)
  | .connect fd f => (HookModel.connectWithTimeout false w fd f (waits 0)).toOption

/-- A call, or what the other threads make of the contexts and the descriptors meanwhile. -/
inductive Action
  | call (c : Call)
  | others (w : World)

def step (w : World) : Action → Option World
  | .call c => (c.hooked waits w).map Prod.snd
  | .others w => some w

/-- The call returns what the original function returns, and leaves the descriptors as that
leaves them. -/
def AsOriginal (w : World) : Action → Prop
  | .call c => ∃ w', c.hooked waits w = some ((c.original w.kernel).1, w') ∧
      w'.kernel = (c.original w.kernel).2
  | .others _ => True

end

/-- An accepted descriptor that has no context is no socket in blocking mode, as far as the calls
made for its context succeed. `F_SETFL`, `F_GETFL` and `FIONBIO` are for `-1` or a number that
can be an index, and the argument of `FIONBIO` points to something; for a managed socket `F_SETFL`,
if it succeeds, asks for the mode in `sysNonblock_`, and `F_GETFL` finds the mode in
`userNonblock_`. A command that the switch does not know works the same without its argument. -/
def Cond (w : World) : Action → Prop
  | .call (.accept _ accept_f o) =>
    let r := accept_f w.kernel
    r.1 ≥ 0 → w.datas r.1 = none → o.fstat = true → o.getfl = true → o.setfl = true →
      ∀ d, r.2.descs r.1 = some d → d.sock = true → nonblock d.flags = true
  | .call (.setfl fd arg ok) =>
    fd ≥ -1 ∧ (fd ≠ -1 → ∀ c d, managed (w.datas fd) = some c → ok = true →
      w.kernel.descs fd = some d → nonblock arg = c.sysNonblock)
  | .call (.getfl fd ok) =>
    fd ≥ -1 ∧ (fd ≠ -1 → ∀ c, managed (w.datas fd) = some c →
      nonblock (w.kernel.getfl ok fd) = c.userNonblock)
  | .call (.fcntl cmd arg fcntl_f) =>
    cmd.passes = false → fcntl_f none w.kernel = fcntl_f arg w.kernel
  | .call (.fionbio d arg _) => arg ≠ none ∧ d ≥ -1
  | _ => True

/-! ### One call -/

lemma setData_kernel (w : World) (fd : ℤ) (c : Option FdCtx) :
    (w.setData fd c).kernel = w.kernel := rfl

lemma get_of_neg_one (w : World) : w.get (-1) = .ok none := rfl

lemma get_of_lt {w : World} {fd : ℤ} (h : fd < -1) : w.get fd = .error .datas := by
  unfold World.get
  rw [if_neg (by omega), if_pos (by omega)]

lemma get_of_nonneg {w : World} {fd : ℤ} (h : 0 ≤ fd) : w.get fd = .ok (w.datas fd) := by
  unfold World.get
  rw [if_neg (by omega), if_neg (by omega)]

lemma fd_cases (fd : ℤ) : fd < -1 ∨ fd = -1 ∨ 0 ≤ fd := by omega

lemma setfl_fst (ok : Bool) (fd : ℤ) (arg arg' : Flags) (k : Kernel) :
    (Kernel.setfl ok fd arg k).1 = (Kernel.setfl ok fd arg' k).1 := by
  unfold Kernel.setfl
  split <;> rfl

/-- Two arguments that differ in no bit that matters lead to the same descriptors. -/
lemma setfl_snd_iff (ok : Bool) (fd : ℤ) (arg arg' : Flags) (k : Kernel) :
    (Kernel.setfl ok fd arg k).2 = (Kernel.setfl ok fd arg' k).2 ↔
      ∀ d, ok = true → k.descs fd = some d →
        d.flags &&& ~~~settable ||| arg &&& settable =
          d.flags &&& ~~~settable ||| arg' &&& settable := by
  cases ok with
  | false => simp [Kernel.setfl]
  | true =>
    cases hd : k.descs fd with
    | none => simp [Kernel.setfl, hd]
    | some d =>
      simp only [Kernel.setfl, hd, Kernel.setDesc, Kernel.mk.injEq, true_implies,
        Option.some.injEq, forall_eq']
      rw [(Function.update_injective k.descs fd).eq_iff]
      simp

lemma or_O_NONBLOCK {f : Flags} (h : nonblock f = true) : f ||| O_NONBLOCK = f := by
  rw [nonblock_eq] at h
  ext i hi
  rw [BitVec.getElem_or]
  by_cases h11 : i = 11
  · subst h11
    rw [← BitVec.getLsbD_eq_getElem, h, Bool.true_or]
  · have : O_NONBLOCK = BitVec.twoPow 32 11 := by decide
    rw [this, BitVec.getElem_twoPow, decide_eq_false (by omega), Bool.or_false]

lemma and_not_O_NONBLOCK {f : Flags} (h : nonblock f = false) : f &&& ~~~O_NONBLOCK = f := by
  rw [nonblock_eq] at h
  ext i hi
  rw [BitVec.getElem_and, BitVec.getElem_not]
  by_cases h11 : i = 11
  · subst h11
    rw [← BitVec.getLsbD_eq_getElem, h, Bool.false_and]
  · have : O_NONBLOCK = BitVec.twoPow 32 11 := by decide
    rw [this, BitVec.getElem_twoPow, decide_eq_false (by omega), Bool.not_false, Bool.and_true]

/-- The flags with the bit put to `mode`. -/
def withMode (mode : Bool) (f : Flags) : Flags :=
  if mode then f ||| O_NONBLOCK else f &&& ~~~O_NONBLOCK

lemma nonblock_withMode (mode : Bool) (f : Flags) : nonblock (withMode mode f) = mode := by
  cases mode with
  | true => exact nonblock_or f
  | false => exact nonblock_and_not f

lemma withMode_eq_iff (mode : Bool) (f : Flags) : withMode mode f = f ↔ nonblock f = mode := by
  constructor
  · intro h
    rw [← h, nonblock_withMode]
  · rintro rfl
    unfold withMode
    split
    · rename_i h
      exact or_O_NONBLOCK h
    · rename_i h
      exact and_not_O_NONBLOCK (by simpa using h)

variable {waits : UInt64 → World → ℤ × World}

/-- A hooked function that ends with a call of an original one. -/
lemma asOriginal_iff {c : Call} {w w₁ : World} {f : Libc} (hk : w₁.kernel = w.kernel)
    (h : c.hooked waits w = some (w₁.orig f)) :
    AsOriginal waits w (.call c) ↔ f w.kernel = c.original w.kernel := by
  show (∃ w', c.hooked waits w = some ((c.original w.kernel).1, w') ∧
    w'.kernel = (c.original w.kernel).2) ↔ _
  rw [h, World.orig, hk]
  constructor
  · rintro ⟨w', hw, hkernel⟩
    obtain ⟨hret, rfl⟩ := Prod.mk.inj (Option.some.inj hw)
    exact Prod.ext hret hkernel
  · intro heq
    exact ⟨_, by rw [heq], rfl⟩

lemma asOriginal_of_orig {c : Call} {w w₁ : World} (hk : w₁.kernel = w.kernel)
    (h : c.hooked waits w = some (w₁.orig c.original)) : AsOriginal waits w (.call c) :=
  (asOriginal_iff hk h).mpr rfl

lemma not_asOriginal {c : Call} {w : World} (h : c.hooked waits w = none) :
    ¬ AsOriginal waits w (.call c) := by
  rintro ⟨w', hw, -⟩
  rw [h] at hw
  cases hw

lemma setfl_iff (w : World) (fd : ℤ) (arg : Flags) (ok : Bool) :
    AsOriginal waits w (.call (.setfl fd arg ok)) ↔ Cond w (.call (.setfl fd arg ok)) := by
  show _ ↔ fd ≥ -1 ∧ (fd ≠ -1 → ∀ c d, managed (w.datas fd) = some c → ok = true →
    w.kernel.descs fd = some d → nonblock arg = c.sysNonblock)
  rcases fd_cases fd with hlt | rfl | hfd
  · refine ⟨fun h => absurd h (not_asOriginal ?_), fun h => absurd h.1 (by omega)⟩
    simp only [Call.hooked, fcntlSetfl, get_of_lt hlt]
    rfl
  · refine ⟨fun _ => ⟨by omega, fun h => absurd rfl h⟩, fun _ => asOriginal_of_orig rfl ?_⟩
    simp only [Call.hooked, fcntlSetfl, get_of_neg_one]
    rfl
  · rw [and_iff_right (by omega), imp_iff_right (by omega)]
    cases hm : managed (w.datas fd) with
    | none =>
      refine ⟨fun _ _ _ h => (nomatch h), fun _ => asOriginal_of_orig rfl ?_⟩
      simp only [Call.hooked, fcntlSetfl, get_of_nonneg hfd, hm]
      rfl
    | some c =>
      have hcall : Call.hooked waits w (.setfl fd arg ok) =
          some ((w.setData fd (some { c with userNonblock := nonblock arg })).orig
            (Kernel.setfl ok fd (withMode c.sysNonblock arg))) := by
        simp only [Call.hooked, fcntlSetfl, get_of_nonneg hfd, hm]
        rfl
      rw [asOriginal_iff (setData_kernel w fd _) hcall, Call.original, Prod.ext_iff,
        and_iff_right (setfl_fst ..), setfl_snd_iff]
      constructor
      · intro h c' d hc hok hd
        obtain rfl := Option.some.inj hc
        have hbit := congrArg nonblock (h d hok hd)
        rw [nonblock_settable, nonblock_settable, nonblock_withMode] at hbit
        exact hbit.symm
      · intro h d hok hd
        rw [(withMode_eq_iff _ _).mpr (h c d rfl hok hd)]

lemma getfl_iff (w : World) (fd : ℤ) (ok : Bool) :
    AsOriginal waits w (.call (.getfl fd ok)) ↔ Cond w (.call (.getfl fd ok)) := by
  show (∃ w', Call.hooked waits w (.getfl fd ok) = some ((w.kernel.getfl ok fd).toInt, w') ∧
    w'.kernel = w.kernel) ↔ fd ≥ -1 ∧ (fd ≠ -1 → ∀ c, managed (w.datas fd) = some c →
      nonblock (w.kernel.getfl ok fd) = c.userNonblock)
  simp only [Call.hooked, fcntlGetfl]
  rcases fd_cases fd with hlt | rfl | hfd
  · rw [get_of_lt hlt]
    constructor
    · rintro ⟨w', hw, -⟩
      cases hw
    · exact fun h => absurd h.1 (by omega)
  · exact ⟨fun _ => ⟨by omega, fun h => absurd rfl h⟩, fun _ => ⟨w, rfl, rfl⟩⟩
  · rw [get_of_nonneg hfd, and_iff_right (by omega), imp_iff_right (by omega)]
    dsimp only
    cases hm : managed (w.datas fd) with
    | none => exact ⟨fun _ _ h => (nomatch h), fun _ => ⟨w, rfl, rfl⟩⟩
    | some c =>
      have hcond : (∀ c', some c = some c' → nonblock (w.kernel.getfl ok fd) = c'.userNonblock) ↔
          withMode c.userNonblock (w.kernel.getfl ok fd) = w.kernel.getfl ok fd := by
        simp only [Option.some.injEq, forall_eq', withMode_eq_iff]
      rw [hcond]
      constructor
      · rintro ⟨w', hw, -⟩
        exact BitVec.eq_of_toInt_eq (Prod.mk.inj (Option.some.inj hw)).1
      · intro h
        exact ⟨w, congrArg (fun f : Flags => some (f.toInt, w)) h, rfl⟩

lemma fionbio_iff (w : World) (d : ℤ) (arg : Option ℤ) (ok : Bool) :
    AsOriginal waits w (.call (.fionbio d arg ok)) ↔ Cond w (.call (.fionbio d arg ok)) := by
  show _ ↔ arg ≠ none ∧ d ≥ -1
  cases arg with
  | none => exact ⟨fun h => absurd h (not_asOriginal rfl), fun h => absurd rfl h.1⟩
  | some v =>
    rw [and_iff_right (by simp)]
    rcases fd_cases d with hlt | rfl | hfd
    · refine ⟨fun h => absurd h (not_asOriginal ?_), fun h => absurd h (by omega)⟩
      simp only [Call.hooked, ioctlFionbio, get_of_lt hlt]
      rfl
    · refine ⟨fun _ => by omega, fun _ => asOriginal_of_orig rfl ?_⟩
      simp only [Call.hooked, ioctlFionbio, get_of_neg_one]
      rfl
    · refine ⟨fun _ => by omega, fun _ => ?_⟩
      cases hm : managed (w.datas d) with
      | none =>
        refine asOriginal_of_orig rfl ?_
        simp only [Call.hooked, ioctlFionbio, get_of_nonneg hfd, hm]
        rfl
      | some c =>
        refine asOriginal_of_orig (setData_kernel w d (some { c with userNonblock := v ≠ 0 })) ?_
        simp only [Call.hooked, ioctlFionbio, get_of_nonneg hfd, hm]
        rfl

/-- What `FdCtx::init` makes of an open socket: the calls that succeed set the flag. -/
lemma initFlags_eq_iff {fd : ℤ} {o : InitCalls} {k : Kernel} {d : Desc}
    (hd : k.descs fd = some d) : FdCtx.initFlags fd o k = k ↔
      (o.getfl = true → o.setfl = true → nonblock d.flags = true) := by
  have hmiss : ¬ (-1 : Flags) &&& O_NONBLOCK = 0 := by decide
  cases hget : o.getfl with
  | false =>
    have hsame : FdCtx.initFlags fd o k = k := by
      simp only [FdCtx.initFlags, Kernel.getfl, hget]
      exact if_neg hmiss
    exact ⟨fun _ h => (nomatch h), fun _ => hsame⟩
  | true =>
    have hinit : FdCtx.initFlags fd o k = if d.flags &&& O_NONBLOCK = 0 then
        (Kernel.setfl o.setfl fd (d.flags ||| O_NONBLOCK) k).2 else k := by
      simp only [FdCtx.initFlags, Kernel.getfl, hget, hd]
    rw [hinit, imp_iff_right rfl]
    by_cases hn : d.flags &&& O_NONBLOCK = 0
    · have hflag : nonblock d.flags = false := by simp [nonblock, hn]
      rw [if_pos hn, hflag]
      cases hset : o.setfl with
      | false => exact ⟨fun _ h => (nomatch h), fun _ => rfl⟩
      | true =>
        refine ⟨fun heq => ?_, fun h => (nomatch h rfl)⟩
        -- the descriptor has the flag now and had not before
        have hdesc := congrArg (fun k : Kernel => (k.descs fd).map fun d => nonblock d.flags) heq
        simp [Kernel.setfl, hd, Kernel.setDesc, nonblock_settable, nonblock_or, hflag] at hdesc
    · have hflag : nonblock d.flags = true := by simpa [nonblock] using hn
      rw [if_neg hn]
      exact ⟨fun _ _ => hflag, fun _ => rfl⟩

lemma new_eq_iff (fd : ℤ) (o : InitCalls) (k : Kernel) :
    (FdCtx.new fd o k).2 = k ↔ (o.fstat = true → o.getfl = true → o.setfl = true →
      ∀ d, k.descs fd = some d → d.sock = true → nonblock d.flags = true) := by
  unfold FdCtx.new Kernel.fstat
  cases o.fstat with
  | false => exact ⟨fun _ h => (nomatch h), fun _ => rfl⟩
  | true =>
    rw [imp_iff_right rfl, if_pos rfl]
    cases hd : k.descs fd with
    | none => exact ⟨fun _ _ _ _ h => (nomatch h), fun _ => rfl⟩
    | some d =>
      cases hsock : d.sock with
      | false =>
        simp only [Option.map_some, hsock, Option.some.injEq, forall_eq', Bool.false_eq_true,
          false_implies, implies_true]
      | true =>
        simp only [Option.map_some, hsock, Option.some.injEq, forall_eq', true_implies]
        exact initFlags_eq_iff hd

lemma accept_iff (w : World) (s : ℤ) (f : Libc) (o : InitCalls) :
    AsOriginal waits w (.call (.accept s f o)) ↔ Cond w (.call (.accept s f o)) := by
  show (∃ w', Call.hooked waits w (.accept s f o) = some ((f w.kernel).1, w') ∧
    w'.kernel = (f w.kernel).2) ↔ _
  simp only [Cond, Call.hooked, accept, doIo, if_true, World.orig]
  by_cases hr : (f w.kernel).1 ≥ 0
  · rw [if_pos hr, imp_iff_right hr]
    simp only [World.create, get_of_nonneg hr]
    cases hdata : w.datas (f w.kernel).1 with
    | some c => exact ⟨fun _ h => (nomatch h), fun _ => ⟨_, rfl, rfl⟩⟩
    | none =>
      dsimp only
      rw [if_neg (by omega), imp_iff_right rfl, ← new_eq_iff]
      constructor
      · rintro ⟨w', hw, hk⟩
        obtain ⟨-, rfl⟩ := Prod.mk.inj (Option.some.inj hw)
        exact hk
      · exact fun hk => ⟨_, rfl, hk⟩
  · rw [if_neg hr]
    exact ⟨fun _ h => absurd h hr, fun _ => ⟨_, rfl, rfl⟩⟩

lemma fcntl_iff (w : World) (cmd : FcntlCmd) (arg : Option ℤ) (f : Option ℤ → Libc) :
    AsOriginal waits w (.call (.fcntl cmd arg f)) ↔ Cond w (.call (.fcntl cmd arg f)) := by
  have hcall : Call.hooked waits w (.fcntl cmd arg f) =
      some (w.orig (f (if cmd.passes then arg else none))) := rfl
  rw [asOriginal_iff rfl hcall]
  show f (if cmd.passes then arg else none) w.kernel = f arg w.kernel ↔
    (cmd.passes = false → f none w.kernel = f arg w.kernel)
  cases cmd.passes with
  | true => exact ⟨fun _ h => (nomatch h), fun _ => rfl⟩
  | false => exact ⟨fun h _ => h, fun h => h rfl⟩

/-- One call is transparent exactly when it meets the condition. -/
lemma asOriginal_iff_cond (w : World) (a : Action) : AsOriginal waits w a ↔ Cond w a := by
  cases a with
  | others w' => exact Iff.rfl
  | call c =>
    cases c with
    | accept s f o => exact accept_iff w s f o
    | setfl fd arg ok => exact setfl_iff w fd arg ok
    | getfl fd ok => exact getfl_iff w fd ok
    | fcntl cmd arg f => exact fcntl_iff w cmd arg f
    | fionbio d arg ok => exact fionbio_iff w d arg ok
    | _ => exact ⟨fun _ => trivial, fun _ => asOriginal_of_orig rfl rfl⟩

/-! ### Runs -/

/-- The same calls on a thread that has the original functions only: what they return, and what
they leave of the descriptors. -/
def plain : Kernel → List Action → List ℤ × Kernel
  | k, [] => ([], k)
  | k, .call c :: as =>
    let r := plain (c.original k).2 as
    ((c.original k).1 :: r.1, r.2)
  | _, .others w :: as => plain w.kernel as

/-- What the hooked functions return, up to an index out of range. -/
def returns (waits : UInt64 → World → ℤ × World) : World → List Action → List ℤ
  | _, [] => []
  | w, .call c :: as =>
    match c.hooked waits w with
    | none => []
    | some r => r.1 :: returns waits r.2 as
  | _, .others w :: as => returns waits w as

/-- **Calls that are transparent one by one are transparent together.** -/
theorem run_plain {w : World} {as : List Action}
    (h : Runs.Meets (step waits) (AsOriginal waits) w as) :
    ∃ w', Runs.run (step waits) w as = some w' ∧ w'.kernel = (plain w.kernel as).2 ∧
      returns waits w as = (plain w.kernel as).1 := by
  induction as generalizing w with
  | nil => exact ⟨w, rfl, rfl, rfl⟩
  | cons a as ih =>
    obtain ⟨ha, hrest⟩ := h
    cases a with
    | others w₁ =>
      obtain ⟨w', hr, hk, hret⟩ := ih (hrest w₁ rfl)
      exact ⟨w', Runs.run_cons.mpr ⟨w₁, rfl, hr⟩, hk, hret⟩
    | call c =>
      obtain ⟨w₁, hc, hk₁⟩ := ha
      have hs : step waits w (.call c) = some w₁ := by
        simp only [step, hc, Option.map_some]
      obtain ⟨w', hr, hk, hret⟩ := ih (hrest w₁ hs)
      refine ⟨w', Runs.run_cons.mpr ⟨w₁, hs, hr⟩, ?_, ?_⟩
      · rw [hk, hk₁]
        rfl
      · simp only [returns, hc, hret, hk₁]
        rfl

/-- **With hooking off the hooks are transparent exactly in the runs without these slips.** For
every state of the contexts and the descriptors and every sequence of calls, with anything done
by other threads in between: each call returns what the original function returns and leaves the
descriptors as that does, if and only if each call meets the condition. -/
theorem transparent_iff (waits : UInt64 → World → ℤ × World) (w : World) (as : List Action) :
    Runs.Meets (step waits) (AsOriginal waits) w as ↔ Runs.Meets (step waits) Cond w as :=
  Runs.meets_congr (I := fun _ => True) (fun _ _ _ _ _ => trivial)
    (fun w a _ => asOriginal_iff_cond w a) trivial

/-- A connection in blocking mode is accepted as descriptor 9. -/
theorem accept_sets_the_flag :
    ¬ Runs.Meets (step fun _ w => (-1, w)) (AsOriginal fun _ w => (-1, w))
      ⟨fun _ => none, ⟨fun _ => none⟩⟩
      [.call (.accept 5 (fun k => (9, k.setDesc 9 (some ⟨2, true⟩))) {})] := by
  intro h
  obtain ⟨w', hw, hk⟩ := h.1
  obtain rfl := (Prod.mk.inj (Option.some.inj hw)).2
  have hflags := congrArg (fun k : Kernel => (k.descs 9).map Desc.flags) hk
  exact absurd hflags (by decide)

end Sylar.Transparent
