import Sylar.ContextTable
import Sylar.SocketModel
import Mathlib.Algebra.Ring.Int.Defs
import Mathlib.Algebra.Ring.Nat

/-!
The descriptors that `addEvent`, `delEvent`, `cancelEvent` and `cancelAll` are called with.

A descriptor is an `int`, and each function compares it with the size of `fdContexts_` converted
to an `int` before it indexes the vector with it. The index is a `size_t`, so a negative
descriptor is far past the end; and it is below every size that an `int` can hold.
-/

namespace Sylar.FdRange

open Lib Sylar.IoModel Sylar.ContextTable

variable {S F C W : Type}

/-- An index past the end, a negative size, or what the rest of the function stops at. -/
inductive Fault
  | outOfRange
  | badSize
  | io (e : IoModel.Fault)
  deriving DecidableEq

structure Table (S F C W : Type) where
  tab : Tab W
  io : IOManager S F C

def fdContextAt (t : Tab W) (fd : Int32) : Except Fault (Option Context) :=
  match t.fdContexts[(fd.toInt % 2 ^ 64).toNat]? with
  | some fd_ctx => .ok fd_ctx
  | none => .error .outOfRange

/-- `contextResize(fd * 1.5)`. A negative number has no value as a `size_t`. -/
def resizeFor (t : Tab W) (fd : Int32) : Except Fault (Tab W) :=
  if 0 ≤ fd.toInt then .ok (contextResize t (fd.toInt.toNat * 3 / 2)) else .error .badSize

/-- The calls, with all their arguments but the descriptor. -/
inductive Call (S F C : Type)
  | addEvent (event : Event) (cb : Option C) (caller : Caller S F)
  | delEvent (event : Event)
  | cancelEvent (event : Event)
  | cancelAll

def Call.isAdd : Call S F C → Bool
  | .addEvent .. => true
  | _ => false

/-- The descriptor of the context at an index that is in range. -/
def descriptor (fd : Int32) : Fd :=
  ⟨fd.toInt.toNat % 2147483648, Nat.mod_lt _ (Nat.succ_pos 2147483647)⟩

/-- What the call does once it has its context. -/
def Call.body (call : Call S F C) (m : IOManager S F C) (fd : Fd) (ok : Bool) :
    Except IoModel.Fault (Out S F C) :=
  match call with
  | .addEvent event cb caller => m.addEvent fd event cb caller ok
  | .delEvent event => m.delEvent fd event ok
  | .cancelEvent event => m.cancelEvent fd event ok
  | .cancelAll => m.cancelAll fd ok

def indexed (st : Table S F C W) (call : Call S F C) (fd : Int32) (ok : Bool) :
    Except Fault (Bool × Table S F C W) :=
  match fdContextAt st.tab fd with
  | .error e => .error e
  | .ok _ =>
    match call.body st.io (descriptor fd) ok with
    | .error e => .error (.io e)
    | .ok out => .ok (out.ret, { st with io := out.m })

/-- A whole call; `false` stands for the -1 of `addEvent` too. -/
def Call.run (call : Call S F C) (st : Table S F C W) (fd : Int32) (ok : Bool) :
    Except Fault (Bool × Table S F C W) :=
  match call with
  | .addEvent .. =>
    if intSize st.tab > fd.toInt then indexed st call fd ok
    else
      match resizeFor st.tab fd with
      | .error e => .error e
      | .ok tab => indexed { st with tab := tab } call fd ok
  | _ =>
    if intSize st.tab ≤ fd.toInt then .ok (false, st)
    else indexed st call fd ok

/-- The call stays inside the vector, and does nothing for a negative descriptor. -/
def RangeSafe (st : Table S F C W) (call : Call S F C) (fd : Int32) (ok : Bool) : Prop :=
  call.run st fd ok ≠ .error .outOfRange ∧ call.run st fd ok ≠ .error .badSize ∧
  (fd.toInt < 0 → call.run st fd ok = .ok (false, st))

/-- The descriptors each call can take. -/
def Takes (t : Tab W) (call : Call S F C) (fd : Int32) : Prop :=
  if fd.toInt < 0 then call.isAdd = false ∧ intSize t ≤ fd.toInt
  else call.isAdd = true → fd.toInt < intSize t ∨ 2 ≤ fd.toInt

instance (t : Tab W) (call : Call S F C) (fd : Int32) : Decidable (Takes t call fd) :=
  inferInstanceAs (Decidable (if fd.toInt < 0 then call.isAdd = false ∧ intSize t ≤ fd.toInt
    else call.isAdd = true → fd.toInt < intSize t ∨ 2 ≤ fd.toInt))

/-! ### The size as an `int` -/

lemma intSize_le (t : Tab W) : intSize t ≤ t.fdContexts.length := by
  have hmod : (BitVec.ofNat 32 t.fdContexts.length).toNat = t.fdContexts.length % 2 ^ 32 :=
    BitVec.toNat_ofNat _ _
  unfold intSize
  rw [BitVec.toInt_eq_toNat_cond, hmod]
  split <;> omega

lemma intSize_start : intSize (start : Tab W) = 32 := by
  unfold intSize
  rw [show (start : Tab W).fdContexts.length = 32 from length_contextResize _ 32]
  rfl

/-- No call makes the vector longer than one and a half times the largest `int`. -/
lemma length_lt [DecidableEq W] {as : List (Act W)} {t : Tab W}
    (hr : Runs.run step start as = some t) : t.fdContexts.length < 2 ^ 32 := by
  refine Runs.run_inv (I := fun t : Tab W => t.fdContexts.length < 2 ^ 32) ?_ ?_ hr
  · intro t a t' h hs
    rcases step_fdContexts hs with heq | ⟨w, fd, -, -, heq⟩
    · rwa [heq]
    · have hfd := fd.isLt
      rw [heq, length_contextResize]
      unfold grownSize
      omega
  · have hstart : (start : Tab W).fdContexts.length = 32 := length_contextResize _ 32
    rw [hstart]
    omega

/-! ### The index -/

lemma fdContextAt_nonneg {t : Tab W} {fd : Int32} (h : 0 ≤ fd.toInt) :
    fdContextAt t fd = .error .outOfRange ↔ t.fdContexts.length ≤ fd.toInt.toNat := by
  have hlt := fd.toInt_lt
  have hmod : (fd.toInt % 2 ^ 64).toNat = fd.toInt.toNat := by omega
  unfold fdContextAt
  rw [hmod, ← List.getElem?_eq_none_iff]
  cases t.fdContexts[fd.toInt.toNat]? with
  | none => exact iff_of_true rfl rfl
  | some c => exact iff_of_false nofun nofun

lemma fdContextAt_neg {t : Tab W} (ht : t.fdContexts.length < 2 ^ 32) {fd : Int32}
    (h : fd.toInt < 0) : fdContextAt t fd = .error .outOfRange := by
  have hle := fd.le_toInt
  have hget : t.fdContexts[(fd.toInt % 2 ^ 64).toNat]? = none :=
    List.getElem?_eq_none (by omega)
  unfold fdContextAt
  rw [hget]

lemma indexed_neg {st : Table S F C W} (ht : st.tab.fdContexts.length < 2 ^ 32)
    (call : Call S F C) {fd : Int32} (h : fd.toInt < 0) (ok : Bool) :
    indexed st call fd ok = .error .outOfRange := by
  unfold indexed
  rw [fdContextAt_neg ht h]

lemma indexed_fault (st : Table S F C W) (call : Call S F C) (fd : Int32) (ok : Bool) :
    (indexed st call fd ok = .error .outOfRange ↔ fdContextAt st.tab fd = .error .outOfRange) ∧
    indexed st call fd ok ≠ .error .badSize := by
  have hbad : ∀ e, fdContextAt st.tab fd = .error e → e = .outOfRange := by
    intro e he
    unfold fdContextAt at he
    split at he
    · cases he
    · exact (Except.error.inj he).symm
  unfold indexed
  cases hat : fdContextAt st.tab fd with
  | error e =>
    obtain rfl := hbad e hat
    simp
  | ok c =>
    dsimp only
    split <;> simp

/-! ### The calls -/

lemma indexed_safe {st : Table S F C W} (call : Call S F C) {fd : Int32}
    (hfd : 0 ≤ fd.toInt) (hlt : fd.toInt.toNat < st.tab.fdContexts.length) (ok : Bool) :
    indexed st call fd ok ≠ .error .outOfRange := by
  intro h
  have := (fdContextAt_nonneg hfd).mp ((indexed_fault st call fd ok).1.mp h)
  omega

lemma resizeFor_nonneg (t : Tab W) {fd : Int32} (h : 0 ≤ fd.toInt) :
    resizeFor t fd = .ok (contextResize t (fd.toInt.toNat * 3 / 2)) := by
  unfold resizeFor
  rw [if_pos h]

/-- A negative descriptor never comes out of `addEvent` as a failure. -/
lemma addEvent_neg {st : Table S F C W} (ht : st.tab.fdContexts.length < 2 ^ 32) {fd : Int32}
    (h : fd.toInt < 0) (event : Event) (cb : Option C) (caller : Caller S F) (ok : Bool) :
    (Call.addEvent event cb caller).run st fd ok = .error .outOfRange ∨
    (Call.addEvent event cb caller).run st fd ok = .error .badSize := by
  have hresize : resizeFor st.tab fd = .error .badSize := by
    unfold resizeFor
    rw [if_neg (by omega)]
  unfold Call.run
  dsimp only
  split
  · exact Or.inl (indexed_neg ht _ h ok)
  · rw [hresize]
    exact Or.inr rfl

/-- For the others `addEvent` reads what it has compared with, or what it has just resized. -/
lemma addEvent_nonneg (st : Table S F C W) {fd : Int32} (h : 0 ≤ fd.toInt) (event : Event)
    (cb : Option C) (caller : Caller S F) (ok : Bool) :
    ((Call.addEvent event cb caller).run st fd ok ≠ .error .outOfRange ↔
      fd.toInt < intSize st.tab ∨ 2 ≤ fd.toInt) ∧
    (Call.addEvent event cb caller).run st fd ok ≠ .error .badSize := by
  have hsize := intSize_le st.tab
  unfold Call.run
  dsimp only
  split
  · rename_i hlt
    refine ⟨iff_of_true (indexed_safe _ h (by omega) ok) (Or.inl hlt), (indexed_fault _ _ fd ok).2⟩
  · rename_i hlt
    rw [resizeFor_nonneg st.tab h]
    refine ⟨?_, (indexed_fault _ _ fd ok).2⟩
    rw [ne_eq, (indexed_fault _ _ fd ok).1, fdContextAt_nonneg h]
    dsimp only
    rw [length_contextResize]
    omega

/-- The other three look at the size first, and for a descriptor at or past it they fail. -/
lemma lookup_run (st : Table S F C W) {call : Call S F C} (hcall : call.isAdd = false)
    (fd : Int32) (ok : Bool) :
    call.run st fd ok =
      if intSize st.tab ≤ fd.toInt then .ok (false, st) else indexed st call fd ok := by
  cases call with
  | addEvent event cb caller => cases hcall
  | delEvent event => rfl
  | cancelEvent event => rfl
  | cancelAll => rfl

lemma rangeSafe_lookup {st : Table S F C W} (ht : st.tab.fdContexts.length < 2 ^ 32)
    {call : Call S F C} (hcall : call.isAdd = false) (fd : Int32) (ok : Bool) :
    RangeSafe st call fd ok ↔ (fd.toInt < 0 → intSize st.tab ≤ fd.toInt) := by
  have hsize := intSize_le st.tab
  unfold RangeSafe
  rw [lookup_run st hcall]
  by_cases hle : intSize st.tab ≤ fd.toInt
  · rw [if_pos hle]
    exact iff_of_true ⟨nofun, nofun, fun _ => rfl⟩ fun _ => hle
  · rw [if_neg hle]
    by_cases hneg : fd.toInt < 0
    · rw [indexed_neg ht call hneg]
      exact iff_of_false (fun h => h.1 rfl) fun h => hle (h hneg)
    · refine iff_of_true ⟨indexed_safe call (by omega) (by omega) ok,
        (indexed_fault st call fd ok).2, fun h => absurd h hneg⟩ fun h => absurd h hneg

lemma rangeSafe_add {st : Table S F C W} (ht : st.tab.fdContexts.length < 2 ^ 32)
    (event : Event) (cb : Option C) (caller : Caller S F) (fd : Int32) (ok : Bool) :
    RangeSafe st (.addEvent event cb caller) fd ok ↔
      0 ≤ fd.toInt ∧ (fd.toInt < intSize st.tab ∨ 2 ≤ fd.toInt) := by
  unfold RangeSafe
  by_cases hneg : fd.toInt < 0
  · refine iff_of_false (fun h => ?_) fun h => by omega
    rcases addEvent_neg ht hneg event cb caller ok with hrun | hrun
    · exact h.1 hrun
    · exact h.2.1 hrun
  · have hfd : 0 ≤ fd.toInt := by omega
    obtain ⟨hiff, hbad⟩ := addEvent_nonneg st hfd event cb caller ok
    rw [hiff]
    exact ⟨fun h => ⟨hfd, h.1⟩, fun h => ⟨h.2, hbad, fun h' => absurd h' hneg⟩⟩

/-! ### Sockets -/

def sockFd (s : SocketModel.Socket) : Int32 :=
  match s.sock with
  | some fd => Int32.ofNat fd
  | none => -1

/-- `Socket::cancelRead`, `cancelWrite`, `cancelAccept` and `cancelAll`. -/
inductive SocketCancel
  | cancelRead
  | cancelWrite
  | cancelAccept
  | cancelAll

def SocketCancel.call : SocketCancel → Call S F C
  | .cancelRead | .cancelAccept => .cancelEvent .read
  | .cancelWrite => .cancelEvent .write
  | .cancelAll => .cancelAll

variable [DecidableEq W]

/-- **Which descriptors are safe.** For every table the threads can build, every call and every
`int`; and so a socket that has no descriptor cannot cancel anything, except on a table of
`2^31` contexts or more. -/
theorem range_safe_iff {as : List (Act W)} {t : Tab W} (hr : Runs.run step start as = some t)
    (io : IOManager S F C) (ok : Bool) :
    (∀ (call : Call S F C) (fd : Int32), RangeSafe ⟨t, io⟩ call fd ok ↔ Takes t call fd) ∧
    ∀ (s : SocketModel.Socket) (cancel : SocketCancel), s.sock = none →
      (RangeSafe ⟨t, io⟩ cancel.call (sockFd s) ok ↔ intSize t < 0) := by
  have ht : (⟨t, io⟩ : Table S F C W).tab.fdContexts.length < 2 ^ 32 := length_lt hr
  refine ⟨fun call fd => ?_, fun s cancel hs => ?_⟩
  · unfold Takes
    cases hadd : call.isAdd with
    | false =>
      rw [rangeSafe_lookup ht hadd]
      by_cases hneg : fd.toInt < 0 <;> simp [hneg]
    | true =>
      cases call with
      | addEvent event cb caller =>
        rw [rangeSafe_add ht]
        by_cases hneg : fd.toInt < 0
        · simp only [hneg, if_true]
          exact iff_of_false (fun h => by omega) fun h => nomatch h.1
        · simp only [hneg, if_false, true_implies]
          exact ⟨fun h => h.2, fun h => ⟨by omega, h⟩⟩
      | delEvent event => cases hadd
      | cancelEvent event => cases hadd
      | cancelAll => cases hadd
  · have hfd : (sockFd s).toInt = -1 := by
      unfold sockFd
      rw [hs]
      rfl
    have hadd : (cancel.call : Call S F C).isAdd = false := by cases cancel <;> rfl
    rw [rangeSafe_lookup ht hadd, hfd]
    show (-1 < 0 → intSize t ≤ -1) ↔ _
    omega

theorem range_safe_iff_start :
    RangeSafe (⟨start, .init 0⟩ : Table ℕ ℕ ℕ Bool) .cancelAll 31 true ∧
      RangeSafe (⟨start, .init 0⟩ : Table ℕ ℕ ℕ Bool) .cancelAll 2147483647 true := by
  have hr : Runs.run step (start : Tab Bool) [] = some start := rfl
  exact ⟨((range_safe_iff hr (.init 0) true).1 .cancelAll 31).mpr (by decide),
    ((range_safe_iff hr (.init 0) true).1 .cancelAll 2147483647).mpr (by decide)⟩

/-- A socket that was never opened reads in front of the table when it cancels. -/
theorem closed_socket_cancels_out_of_range :
    (SocketCancel.cancelAll.call : Call ℕ ℕ ℕ).run (⟨start, .init 0⟩ : Table ℕ ℕ ℕ Bool)
      (sockFd (SocketModel.Socket.create 2)) true = .error .outOfRange ∧
    ¬ RangeSafe (⟨start, .init 0⟩ : Table ℕ ℕ ℕ Bool) SocketCancel.cancelAll.call
      (sockFd (SocketModel.Socket.create 2)) true := by
  have hrun : (SocketCancel.cancelAll.call : Call ℕ ℕ ℕ).run
      (⟨start, .init 0⟩ : Table ℕ ℕ ℕ Bool) (sockFd (SocketModel.Socket.create 2)) true =
      .error .outOfRange := by
    have hlen : (start : Tab Bool).fdContexts.length = 32 := length_contextResize _ 32
    rw [lookup_run _ rfl, if_neg (by show ¬ intSize start ≤ (-1 : ℤ); rw [intSize_start]; omega)]
    refine indexed_neg ?_ _ (by decide) true
    rw [hlen]
    omega
  exact ⟨hrun, fun h => h.1 hrun⟩

end Sylar.FdRange
