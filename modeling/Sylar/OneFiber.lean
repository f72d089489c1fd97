import Sylar.SchedulerSteps

/-!
One fiber in one scheduler: what a step does to its entries, its state and the worker that takes
the step.
-/

namespace Sylar.OneFiber

open Sylar.FiberModel FiberAndThread Sylar.SchedulerModel Scheduler Sylar.SchedulerSteps

variable {W F C : Type} [DecidableEq F]

/-- What a worker is doing with the fiber. `leaving` is from the end or the yield of the fiber's
function until `run` has looked at the state. -/
inductive Role
  | picked
  | entering (cb : Bool)
  | running (cb : Bool)
  | leaving (cb : Bool)
  | hold (cb : Bool)
  | requeue (cb : Bool)
  deriving DecidableEq

/-- A worker begins with a callback on the fiber. -/
def begins (g g' : Option Role) : Bool :=
  g' = some (.entering true) ∧ g ≠ some (.entering true)

def role (me : F) : Pc F C → Option Role
  | .picked _ ft => if ft.fiber = some me then some .picked else none
  | .entering _ f cb => if f = me then some (.entering cb) else none
  | .running _ f cb => if f = me then some (.running cb) else none
  | .leaving _ f cb _ | .back _ f cb _ | .after f cb _ =>
    if f = me then some (.leaving cb) else none
  | .hold f cb => if f = me then some (.hold cb) else none
  | .requeue f cb => if f = me then some (.requeue cb) else none
  | _ => none

def pins (me : F) (q : List (ℕ × FiberAndThread F C)) : List ℤ :=
  q.filterMap fun e => if e.2.fiber = some me then some e.2.thread else none

/-- The fiber is the worker's `cb_fiber`. -/
def keeps (me : F) (v : Worker F C) : Bool := v.cbFiber = some me

/-- What a worker and a queue have of the fiber, and its state. -/
structure Spot where
  role : Option Role
  keeps : Bool
  state : Option State
  pins : List ℤ

def spot (me : F) (s : Scheduler W F C) (w : W) : Spot :=
  ⟨role me (s.worker w).pc, keeps me (s.worker w), s.state me, pins me s.fibers⟩

/-- What a step of the worker can do to the fiber, unless it runs it. -/
inductive Local (tid : ℤ) : Spot → Spot → Prop
  | same (x : Spot) : Local tid x x
  | take (b : Bool) (st : Option State) (t : ℤ) (l₁ l₂ : List ℤ) (ht : t = -1 ∨ t = tid)
      (hst : st ≠ some .exec) :
      Local tid ⟨none, b, st, l₁ ++ t :: l₂⟩ ⟨some .picked, b, st, l₁ ++ l₂⟩
  | enter (b : Bool) (st : Option State) (l : List ℤ) :
      Local tid ⟨some .picked, b, st, l⟩ ⟨some (.entering false), b, st, l⟩
  | drop (b : Bool) (st : Option State) (l : List ℤ) (hst : ended st = true) :
      Local tid ⟨some .picked, b, st, l⟩ ⟨none, b, st, l⟩
  | reuse (g : Option Role) (st : Option State) (l : List ℤ)
      (hg : g = none ∨ (g = some .picked ∧ ended st = true)) :
      Local tid ⟨g, true, st, l⟩ ⟨some (.entering true), true, some .init, l⟩
  | fresh (l : List ℤ) :
      Local tid ⟨none, false, none, l⟩ ⟨some (.entering true), true, some .init, l⟩
  | swapIn (cb b : Bool) (st : Option State) (l : List ℤ) :
      Local tid ⟨some (.entering cb), b, st, l⟩ ⟨some (.running cb), b, some .exec, l⟩
  | toHold (cb b : Bool) (st : Option State) (l : List ℤ) (hst : ended st = false) :
      Local tid ⟨some (.leaving cb), b, st, l⟩ ⟨some (.hold cb), b, st, l⟩
  | ready (cb b : Bool) (l : List ℤ) :
      Local tid ⟨some (.leaving cb), b, some .ready, l⟩ ⟨some (.requeue cb), b, some .ready, l⟩
  | quit (b : Bool) (st : Option State) (l : List ℤ) (hst : ended st = true) :
      Local tid ⟨some (.leaving false), b, st, l⟩ ⟨none, b, st, l⟩
  | park (b : Bool) (st : Option State) (l : List ℤ) (hst : ended st = true) :
      Local tid ⟨some (.leaving true), b, st, l⟩ ⟨none, b, some .init, l⟩
  | writeHold (cb b : Bool) (st : Option State) (l : List ℤ) :
      Local tid ⟨some (.hold cb), b, st, l⟩ ⟨none, b && !cb, some .hold, l⟩
  | requeue (cb b : Bool) (st : Option State) (l : List ℤ) :
      Local tid ⟨some (.requeue cb), b, st, l⟩ ⟨none, b && !cb, st, l ++ [-1]⟩
  /-- The worker has a new `cb_fiber` to find. -/
  | lose (st : Option State) (l : List ℤ) :
      Local tid ⟨none, true, st, l⟩ ⟨none, false, st, l⟩

lemma pins_append (me : F) (q q' : List (ℕ × FiberAndThread F C)) :
    pins me (q ++ q') = pins me q ++ pins me q' := List.filterMap_append

lemma pins_cons_of_eq {me : F} {e : ℕ × FiberAndThread F C} (q : List (ℕ × FiberAndThread F C))
    (he : e.2.fiber = some me) : pins me (e :: q) = e.2.thread :: pins me q := by
  simp [pins, he]

lemma pins_cons_of_ne {me : F} {e : ℕ × FiberAndThread F C} (q : List (ℕ × FiberAndThread F C))
    (he : e.2.fiber ≠ some me) : pins me (e :: q) = pins me q := by
  simp [pins, he]

lemma pins_number {me : F} {n : ℕ} {fts : List (FiberAndThread F C)}
    (h : ∀ ft ∈ fts, ft.fiber ≠ some me) : pins me (number n fts) = [] := by
  induction fts generalizing n with
  | nil => rfl
  | cons ft fts ih =>
    have hft : ft.fiber ≠ some me := h ft List.mem_cons_self
    rw [number, pins_cons_of_ne _ hft]
    exact ih fun x hx => h x (List.mem_cons_of_mem _ hx)

variable {me : F} {s : Scheduler W F C}

lemma state_setState {f : F} {st : State} (hf : f ≠ me) :
    (s.setState f st).state me = s.state me := Function.update_of_ne (Ne.symm hf) _ _

lemma state_setState_self {st : State} : (s.setState me st).state me = some st :=
  Function.update_self _ _ _

variable [DecidableEq W] {tid : ℤ} {s' : Scheduler W F C} {w : W}

lemma local_of {p : Pc F C} {v : Worker F C} {q : List (ℕ × FiberAndThread F C)}
    {st : Option State} (hpc : (s.worker w).pc = p)
    (hw : s'.worker = Function.update s.worker w v) (hq : s'.fibers = q) (hst : s'.state me = st)
    (h : Local tid ⟨role me p, keeps me (s.worker w), s.state me, pins me s.fibers⟩
      ⟨role me v.pc, keeps me v, st, pins me q⟩) :
    Local tid (spot me s w) (spot me s' w) := by
  unfold spot
  rw [hpc, hw, Function.update_self, hq, hst]
  exact h

lemma local_same {p : Pc F C} {v : Worker F C} (hpc : (s.worker w).pc = p)
    (hw : s'.worker = Function.update s.worker w v) (hq : s'.fibers = s.fibers)
    (hst : s'.state me = s.state me) (hrole : role me v.pc = role me p)
    (hcb : keeps me v = keeps me (s.worker w)) : Local tid (spot me s w) (spot me s' w) := by
  refine local_of hpc hw hq hst ?_
  rw [hrole, hcb]
  exact .same _

lemma local_cases {f : F} {p : Pc F C} {v : Worker F C} (hpc : (s.worker w).pc = p)
    (hw : s'.worker = Function.update s.worker w v) (hq : s'.fibers = s.fibers)
    (hcb : keeps me v = keeps me (s.worker w))
    (hother : f ≠ me → s'.state me = s.state me ∧ role me v.pc = role me p)
    (hself : f = me → Local tid ⟨role me p, keeps me (s.worker w), s.state me, pins me s.fibers⟩
      ⟨role me v.pc, keeps me (s.worker w), s'.state me, pins me s.fibers⟩) :
    Local tid (spot me s w) (spot me s' w) := by
  by_cases hfm : f = me
  · refine local_of hpc hw hq rfl ?_
    rw [hcb]
    exact hself hfm
  · obtain ⟨hst, hrole⟩ := hother hfm
    exact local_same hpc hw hq hst hrole hcb

lemma keeps_drop (v : Worker F C) (pc : Pc F C) (t : Tick) (cb : Bool) :
    keeps me { v with pc := pc, tickle := t, cbFiber := dropCb v cb } = (keeps me v && !cb) := by
  cases cb <;> simp [keeps, dropCb]

lemma local_drop (cb : Bool) {st : Option State} {l : List ℤ} {b : Bool} :
    Local tid ⟨none, b, st, l⟩ ⟨none, b && !cb, st, l⟩ := by
  cases cb with
  | false =>
    rw [Bool.not_false, Bool.and_true]
    exact .same _
  | true =>
    cases b with
    | false => exact .same _
    | true => exact .lose st l

lemma local_move {a : Act F} {p p' : Pc F C} {term : Bool} (hpc : (s.worker w).pc = p)
    (hrun : ∀ cb, role me p ≠ some (.running cb)) (h : Move s term a p p') :
    Local tid (spot me s w) (spot me (s.setPc w p') w) := by
  cases h with
  | enter n ft f new hf hst =>
    refine local_cases (f := f) hpc rfl rfl rfl (fun hfm => ⟨rfl, by simp [role, hf, hfm]⟩) ?_
    rintro rfl
    simp only [role, if_pos hf, if_true]
    exact .enter _ _ _
  | drop n ft new hf =>
    by_cases hfm : ft.fiber = some me
    · refine local_of hpc rfl rfl rfl ?_
      simp only [role, if_pos hfm]
      exact .drop _ _ _ (hf me hfm)
    · refine local_same hpc rfl rfl rfl ?_ rfl
      simp [role, hfm]
  | yieldToHold n f cb hst =>
    have hfm : f ≠ me := by
      rintro rfl
      exact hrun cb (if_pos rfl)
    refine local_same hpc rfl rfl rfl ?_ rfl
    simp [role, hfm]
  | ready f cb how hst =>
    refine local_cases (f := f) hpc rfl rfl rfl (fun hfm => ⟨rfl, by simp [role, hfm]⟩) ?_
    rintro rfl
    have hready : (s.setPc w (.requeue f cb)).state f = some .ready := hst
    rw [hready, hst]
    simp only [role, if_true]
    exact .ready cb _ _
  | quit f how hst =>
    refine local_cases (f := f) hpc rfl rfl rfl (fun hfm => ⟨rfl, by simp [role, hfm]⟩) ?_
    rintro rfl
    simp only [role, if_true]
    exact .quit _ _ _ hst
  | toHold f cb how hr hst =>
    refine local_cases (f := f) hpc rfl rfl rfl (fun hfm => ⟨rfl, by simp [role, hfm]⟩) ?_
    rintro rfl
    simp only [role, if_true]
    exact .toHold cb _ _ _ hst
  | swapOut n f cb how => exact local_same hpc rfl rfl rfl rfl rfl
  | start => exact local_same hpc rfl rfl rfl rfl rfl
  | exit hterm => exact local_same hpc rfl rfl rfl rfl rfl
  | noTimer => exact local_same hpc rfl rfl rfl rfl rfl
  | noEvent => exact local_same hpc rfl rfl rfl rfl rfl
  | wait a role => exact local_same hpc rfl rfl rfl rfl rfl
  | wake tickled hp => exact local_same hpc rfl rfl rfl rfl rfl
  | swapOutIdle => exact local_same hpc rfl rfl rfl rfl rfl

lemma local_take {n : ℕ} {ft : FiberAndThread F C} {v : Worker F C} (hpc : (s.worker w).pc = .scan)
    (hscan : (scan tid s.state s.fibers).taken = some (n, ft))
    (hw : s'.worker = Function.update s.worker w v) (hv : v.pc = .picked n ft)
    (hcb : keeps me v = keeps me (s.worker w)) (hst : s'.state = s.state)
    (hq : s'.fibers = (scan tid s.state s.fibers).rest) :
    Local tid (spot me s w) (spot me s' w) := by
  obtain ⟨q₁, q₂, hentries, hrest, -, he, -⟩ := scan_taken hscan
  refine local_of hpc hw (hq.trans hrest) (congrFun hst me) ?_
  rw [hentries, hcb, hv]
  by_cases hfm : ft.fiber = some me
  · rw [pins_append, pins_cons_of_eq q₂ hfm, pins_append]
    simp only [role, if_pos hfm]
    exact .take _ _ _ _ _ he.1 (he.2 me hfm)
  · have hpins : pins me (q₁ ++ (n, ft) :: q₂) = pins me (q₁ ++ q₂) := by
      rw [pins_append, pins_cons_of_ne q₂ hfm, pins_append]
    rw [hpins]
    simp only [role, if_neg hfm]
    exact .same _

/-- The entry that was taken runs on the fiber that the worker keeps. -/
lemma local_reuse {n : ℕ} {ft : FiberAndThread F C} {f : F} (hpc : (s.worker w).pc = .picked n ft)
    (hslot : (s.worker w).cbFiber = some f)
    (hf : ∀ g, ft.fiber = some g → ended (s.state g) = true) :
    Local tid (spot me s w) (spot me ((s.setState f .init).setPc w (.entering n f true)) w) := by
  by_cases hfm : f = me
  · subst hfm
    have hkeeps : keeps f (s.worker w) = true := by simp [keeps, hslot]
    refine local_of hpc rfl rfl state_setState_self ?_
    show Local _ _ ⟨_, keeps f (s.worker w), _, _⟩
    rw [hkeeps]
    simp only [role, if_true]
    refine .reuse _ _ _ ?_
    by_cases hft : ft.fiber = some f
    · exact .inr ⟨if_pos hft, hf f hft⟩
    · exact .inl (if_neg hft)
  · by_cases hft : ft.fiber = some me
    · refine local_of hpc rfl rfl (state_setState hfm) ?_
      simp only [role, if_pos hft, if_neg hfm]
      exact .drop _ _ _ (hf me hft)
    · refine local_same hpc rfl rfl (state_setState hfm) ?_ rfl
      simp [role, hft, hfm]

/-- The entry that was taken runs on a new fiber, which the worker keeps. -/
lemma local_fresh {n : ℕ} {ft : FiberAndThread F C} {new : F}
    (hpc : (s.worker w).pc = .picked n ft) (hslot : (s.worker w).cbFiber = none)
    (hst : s.state new = none) (hf : ∀ g, ft.fiber = some g → ended (s.state g) = true) :
    Local tid (spot me s w) (spot me ((s.setState new .init).setWorker w
      { s.worker w with pc := .entering n new true, cbFiber := some new }) w) := by
  have hkeeps : keeps me (s.worker w) = false := by simp [keeps, hslot]
  by_cases hfm : new = me
  · subst hfm
    have hft : ft.fiber ≠ some new := by
      intro hft
      have hend := hf new hft
      rw [hst] at hend
      cases hend
    refine local_of hpc rfl rfl state_setState_self ?_
    show Local _ _ ⟨_, decide (some new = some new), _, _⟩
    rw [hkeeps, hst, decide_eq_true rfl]
    simp only [role, if_neg hft, if_true]
    exact .fresh _
  · have hother : decide (some new = some me) = false := by simp [hfm]
    by_cases hft : ft.fiber = some me
    · refine local_of hpc rfl rfl (state_setState hfm) ?_
      show Local _ _ ⟨_, decide (some new = some me), _, _⟩
      rw [hkeeps, hother]
      simp only [role, if_pos hft, if_neg hfm]
      exact .drop _ _ _ (hf me hft)
    · refine local_same hpc rfl rfl (state_setState hfm) ?_ (hother.trans hkeeps.symm)
      simp [role, hft, hfm]

lemma local_requeue {f : F} {cb : Bool} {t : Tick} (hpc : (s.worker w).pc = .requeue f cb) :
    Local tid (spot me s w) (spot me ((pushed s [make (.fiber (some f)) (-1)]).setWorker w
      { s.worker w with pc := .scan, tickle := t, cbFiber := dropCb (s.worker w) cb }) w) := by
  have hq : (pushed s [make (.fiber (some f)) (-1)]).fibers =
      s.fibers ++ number s.issued.length [make (.fiber (some f)) (-1)] := rfl
  refine local_of hpc rfl hq rfl ?_
  rw [keeps_drop, pins_append]
  by_cases hfm : f = me
  · subst hfm
    have hnew : pins f (number s.issued.length [(make (.fiber (some f)) (-1) :
        FiberAndThread F C)]) = [-1] := by simp [pins, number, make]
    rw [hnew]
    simp only [role, if_true]
    exact .requeue cb _ _ _
  · have hnew : pins me (number s.issued.length [(make (.fiber (some f)) (-1) :
        FiberAndThread F C)]) = [] := by simp [pins, number, make, hfm]
    rw [hnew, List.append_nil]
    simp only [role, if_neg hfm]
    exact local_drop cb

/-- **What a step of a worker that does not run the fiber does to the fiber.** -/
lemma local_trans {tids : W → ℤ} {a : Act F}
    (hrun : ∀ cb, role me (s.worker w).pc ≠ some (.running cb))
    (ht : Trans tids s (.worker w a) s') :
    Local (tids w) (spot me s w) (spot me s' w) ∧ ∀ x, x ≠ w → s'.worker x = s.worker x := by
  have hothers : ∀ {t : Scheduler W F C} {v : Worker F C},
      t.worker = Function.update s.worker w v → ∀ x, x ≠ w → t.worker x = s.worker x := by
    intro t v hw x hx
    rw [hw, Function.update_of_ne hx]
  cases ht with
  | move _ _ p htick h => exact ⟨local_move rfl hrun h, hothers rfl⟩
  | ask _ t htick hidle => exact ⟨local_same rfl rfl rfl rfl rfl rfl, hothers rfl⟩
  | write _ htick => exact ⟨local_same rfl rfl rfl rfl rfl rfl, hothers rfl⟩
  | take _ n ft htick hpc hscan =>
    exact ⟨local_take hpc hscan rfl rfl rfl rfl rfl, hothers rfl⟩
  | miss _ t htick hpc hscan => exact ⟨local_same hpc rfl rfl rfl rfl rfl, hothers rfl⟩
  | reuse _ n ft f new htick hpc hslot hst hf => exact ⟨local_reuse hpc hslot hf, hothers rfl⟩
  | fresh _ n ft new htick hpc hslot hst hf =>
    exact ⟨local_fresh hpc hslot hst hf, hothers rfl⟩
  | swapIn _ n f cb htick hpc hst =>
    refine ⟨local_cases (f := f) hpc rfl rfl rfl
      (fun hfm => ⟨state_setState hfm, by simp [role, hfm]⟩) ?_, hothers rfl⟩
    rintro rfl
    have hexec : ((s.setState f .exec).setPc w (.running n f cb)).state f = some .exec :=
      state_setState_self
    rw [hexec]
    simp only [role, if_true]
    exact .swapIn cb _ _ _
  | leave _ n f cb _ st htick hpc ha =>
    have hfm : f ≠ me := by
      rintro rfl
      rw [hpc] at hrun
      exact hrun cb (if_pos rfl)
    refine ⟨local_same hpc rfl rfl (state_setState hfm) ?_ rfl, hothers rfl⟩
    simp [role, hfm]
  | decrement _ n p htick hpc =>
    refine ⟨?_, hothers rfl⟩
    rcases hpc with ⟨f, cb, how, hpc, rfl⟩ | ⟨hpc, rfl⟩
    · exact local_same hpc rfl rfl rfl rfl rfl
    · exact local_same hpc rfl rfl rfl rfl rfl
  | park _ f how htick hpc hst =>
    refine ⟨local_cases (f := f) hpc rfl rfl rfl
      (fun hfm => ⟨state_setState hfm, by simp [role, hfm]⟩) ?_, hothers rfl⟩
    rintro rfl
    have hinit : ((s.setState f .init).setPc w .scan).state f = some .init := state_setState_self
    rw [hinit]
    simp only [role, if_true]
    exact .park _ _ _ hst
  | writeHold _ f cb htick hpc =>
    refine ⟨?_, hothers rfl⟩
    by_cases hfm : f = me
    · subst hfm
      refine local_of hpc rfl rfl state_setState_self ?_
      rw [keeps_drop]
      simp only [role, if_true]
      exact .writeHold cb _ _ _
    · refine local_of hpc rfl rfl (state_setState hfm) ?_
      rw [keeps_drop]
      simp only [role, if_neg hfm]
      exact local_drop cb
  | requeue _ f cb t htick hpc => exact ⟨local_requeue hpc, hothers rfl⟩
  | schedule fts _ ha hk => rcases ha with ⟨_, _, ha, -⟩ | ⟨_, ha, -⟩ <;> cases ha
  | flags _ auto stop ha => rcases ha with ha | ha <;> cases ha
  | goIdle _ htick hpc => exact ⟨local_same hpc rfl rfl rfl rfl rfl, hothers rfl⟩
  | stop _ htick hpc hst => exact ⟨local_same hpc rfl rfl rfl rfl rfl, hothers rfl⟩
  | drain _ htick hpc => exact ⟨local_same hpc rfl rfl rfl rfl rfl, hothers rfl⟩
  | leaveIdle _ htick hpc => exact ⟨local_same hpc rfl rfl rfl rfl rfl, hothers rfl⟩

/-! ### The steps of the worker that runs the fiber -/

lemma work_yieldToHold (hs : s.work tid w .yieldToHold = some s') :
    ∃ n f cb, (s.worker w).pc = .running n f cb ∧ s' = s.setPc w (.leaving n f cb .exec) := by
  unfold work at hs
  dsimp only at hs
  split at hs <;> try contradiction
  rename_i n f cb _ _ hpc
  split at hs
  · obtain rfl := Option.some.inj hs
    exact ⟨n, f, cb, hpc, rfl⟩
  · cases hs

lemma work_finish {thrown : Bool} (hs : s.work tid w (.finish thrown) = some s') :
    ∃ n f cb st, (s.worker w).pc = .running n f cb ∧ ended (some st) = true ∧
      s' = (s.setState f st).setPc w (.leaving n f cb st) := by
  unfold work at hs
  dsimp only at hs
  split at hs <;> try contradiction
  rename_i thrown n f cb _ _ hpc
  obtain rfl := Option.some.inj hs
  refine ⟨n, f, cb, _, hpc, ?_, rfl⟩
  cases thrown <;> rfl

lemma role_running {p : Pc F C} {cb : Bool} (h : role me p = some (.running cb)) :
    ∃ n, p = .running n me cb := by
  cases p with
  | running n f cb' =>
    simp only [role, Option.ite_none_right_eq_some, Option.some.injEq, Role.running.injEq] at h
    obtain ⟨rfl, rfl⟩ := h
    exact ⟨n, rfl⟩
  | _ => simp [role] at h

end Sylar.OneFiber
