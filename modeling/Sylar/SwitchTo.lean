import Sylar.SwitchSystem
import Sylar.FiberPlace

/-!
What `switchTo` promises: the fiber comes back on a worker of the scheduler it asked for, and is
never swapped in while another worker is still on its stack.
-/

namespace Sylar.SwitchTo

open Lib Sylar.FiberModel FiberAndThread Sylar.SchedulerModel Scheduler Sylar.SchedulerSteps
open Sylar.OneFiber Sylar.FiberPlace Sylar.SwitchSystem

variable {K W F C : Type}

open System

variable {tid : K → W → ℤ} {me : F} {s s' : System K W F C} {p p' : Place K W} {k : K} {w : W}

/-! ### The phase and the place -/

/-- What the fiber does in each phase, seen from the workers. -/
inductive Fits (tid : K → W → ℤ) : Phase K → Place K W → Prop
  | absent : Fits tid .unborn .absent
  | idle : Fits tid .made .idle
  | queued (goal : Option (Goal K)) (target : K) (t : ℤ)
      (h : ∀ g, goal = some g → target = g.target ∧ t = g.thread) :
      Fits tid (.away goal) (.queued target t)
  | taken (goal : Option (Goal K)) (k : K) (w : W) (h : ∀ g, goal = some g → g.Met tid k w) :
      Fits tid (.away goal) (.taken k w)
  | resumes (goal : Option (Goal K)) (k : K) (w : W) (h : ∀ g, goal = some g → g.Met tid k w) :
      Fits tid (.away goal) (.runs k w)
  | runs (k : K) (w : W) : Fits tid .on (.runs k w)
  | yields (g : Goal K) (k : K) (w : W) :
      Fits tid (.yielding g) (.yields k w g.target g.thread)
  | leaves (g : Goal K) (k : K) (w : W) :
      Fits tid (.away (some g)) (.leaves k w g.target g.thread)
  | rests (k : K) (w : W) : Fits tid .done (.rests k w)
  | ended (k : K) (w : W) : Fits tid .done (.ended k w)
  | spare (k : K) (w : W) : Fits tid .done (.spare k w)
  | gone : Fits tid .done .gone

/-- The schedulers move the fiber on, and its own goal stays as it is. -/
lemma Fits.next {ph : Phase K} {b : Bool} (h : Fits tid ph p)
    (hnext : Place.Next (tid k w) k w b p p') : Fits tid (if b then .away none else ph) p' := by
  cases hnext with
  | stay => exact h
  | take t ht =>
    cases h with
    | queued goal target t hgoal =>
      refine .taken goal k w fun g hg => ?_
      obtain ⟨htarget, hthread⟩ := hgoal g hg
      exact ⟨htarget, hthread ▸ ht⟩
  | swapIn =>
    cases h with
    | taken goal k w hgoal => exact .resumes goal k w hgoal
  | hold target t =>
    cases h with
    | leaves g k w =>
      refine .queued (some g) g.target g.thread fun g' hg => ?_
      obtain rfl := Option.some.inj hg
      exact ⟨rfl, rfl⟩
  | rest =>
    cases h
    exact .gone
  | park =>
    cases h
    exact .spare k w
  | quit =>
    cases h
    exact .gone
  | lose =>
    cases h
    exact .gone
  | beginNew => exact .taken none k w fun g hg => nomatch hg
  | beginOld => exact .taken none k w fun g hg => nomatch hg

/-! ### What is noted down -/

section Notes

/-- What is noted down in a step is about the worker, which stays as it is. -/
def Notes (k : K) (w : W) (s s' : System K W F C) : Prop :=
  ∃ es, s'.log = s.log ++ es ∧ ∀ e ∈ es, e.worker = (k, w) ∧ s'.sched = s.sched

lemma notes_nil (h : s'.log = s.log) : Notes k w s s' := ⟨[], by simpa using h, by simp⟩

lemma back_notes (s : System K W F C) (g : Goal K) : Notes k w s (s.back g k w) := by
  unfold System.back
  split
  · exact ⟨_, rfl, by simp [Event.worker]⟩
  · exact ⟨_, rfl, by simp [Event.worker]⟩

variable [DecidableEq K]

lemma switchTo_notes (s : System K W F C) (g : Goal K) :
    Notes k w s (s.switchTo tid me k w g) := by
  unfold System.switchTo
  split
  · exact back_notes s g
  · exact notes_nil rfl

variable [DecidableEq W] [DecidableEq F]

lemma body_notes {a : BodyAct K} (hs : s.body tid me k w a = some s') : Notes k w s s' := by
  unfold System.body at hs
  split at hs
  · obtain rfl := Option.some.inj hs
    exact notes_nil rfl
  · obtain rfl := Option.some.inj hs
    exact back_notes s _
  · obtain rfl := Option.some.inj hs
    exact switchTo_notes s _
  · obtain rfl := Option.some.inj hs
    exact notes_nil rfl
  · obtain rfl := Option.some.inj hs
    exact switchTo_notes { s with scopes := k :: s.scopes } _
  · obtain ⟨c, -, rfl⟩ := Option.map_eq_some_iff.mp hs
    exact switchTo_notes s _
  · obtain ⟨r, -, rfl⟩ := Option.map_eq_some_iff.mp hs
    exact notes_nil rfl
  · obtain ⟨r, -, rfl⟩ := Option.map_eq_some_iff.mp hs
    exact notes_nil rfl
  · rw [Option.ite_none_right_eq_some] at hs
    obtain ⟨r, -, rfl⟩ := Option.map_eq_some_iff.mp hs.2
    exact notes_nil rfl
  · cases hs

/-- What is noted down happens on the worker that runs the fiber. -/
lemma step_notes {x : Step K W F C} (hs : s.step tid me x = some s') :
    ∃ es, s'.log = s.log ++ es ∧ ∀ e ∈ es, ∃ n cb,
      ((s'.sched e.worker.1).worker e.worker.2).pc = .running n me cb := by
  unfold System.step at hs
  split at hs
  · rw [Option.ite_none_right_eq_some] at hs
    obtain ⟨r, -, rfl⟩ := Option.map_eq_some_iff.mp hs.2
    exact ⟨[], by simp [System.put], by simp⟩
  · split at hs
    · obtain rfl := Option.some.inj hs
      exact ⟨[], by simp [System.enqueue, System.put], by simp⟩
    · cases hs
  · split at hs
    · rename_i k w a _ cb hrole
      obtain ⟨es, hlog, hes⟩ := body_notes hs
      obtain ⟨n, hpc⟩ := role_running hrole
      refine ⟨es, hlog, fun e he => ⟨n, cb, ?_⟩⟩
      obtain ⟨hworker, hsched⟩ := hes e he
      rw [hworker, hsched]
      exact hpc
    · cases hs

end Notes

/-! ### The places and the system -/

section Queues

variable [DecidableEq F] [DecidableEq W]

lemma outside_trans {tids : W → ℤ} {t t' : Scheduler W F C} {a : Action W F C}
    (ha : ∀ w b, a ≠ .worker w b) (hf : foreign me t a = true) (ht : Trans tids t a t') :
    t'.worker = t.worker ∧ OneFiber.pins me t'.fibers = OneFiber.pins me t.fibers ∧
      ((t'.state me = t.state me ∧ a ≠ .create me) ∨
        (a = .create me ∧ t.state me = none ∧ t'.state me = some .init)) := by
  cases ht with
  | create f hst =>
    refine ⟨rfl, rfl, ?_⟩
    by_cases hfm : f = me
    · subst hfm
      exact .inr ⟨rfl, hst, state_setState_self⟩
    · refine .inl ⟨state_setState hfm, fun he => hfm ?_⟩
      exact Action.create.inj he
  | schedule fts _ hact hk =>
    have hfts : ∀ ft ∈ fts.filter isWork, ft.fiber ≠ some me := by
      intro ft hft
      have hft := (List.mem_filter.mp hft).1
      rcases hact with ⟨fc, thread, rfl, rfl⟩ | ⟨fcs, rfl, rfl⟩
      · rw [List.mem_singleton.mp hft]
        simpa [foreign] using hf
      · obtain ⟨fc, hfc, rfl⟩ := List.mem_map.mp hft
        have hall := List.all_eq_true.mp hf fc hfc
        simpa using hall
    refine ⟨rfl, ?_, .inl ⟨rfl, ?_⟩⟩
    · show OneFiber.pins me (t.fibers ++ number t.issued.length (fts.filter isWork)) = _
      rw [pins_append, pins_number hfts, List.append_nil]
    · rcases hact with ⟨fc, thread, rfl, -⟩ | ⟨fcs, rfl, -⟩ <;> simp
  | tickle => exact ⟨rfl, rfl, .inl ⟨rfl, by simp⟩⟩
  | askOut n ha hk => exact ⟨rfl, rfl, .inl ⟨rfl, by simp⟩⟩
  | writeOut hw => exact ⟨rfl, rfl, .inl ⟨rfl, by simp⟩⟩
  | flags _ auto stop ha => exact ⟨rfl, rfl, .inl ⟨rfl, by rcases ha with rfl | rfl <;> simp⟩⟩
  | move w b q htick h => exact absurd rfl (ha _ _)
  | ask w b htick hidle => exact absurd rfl (ha _ _)
  | write w htick => exact absurd rfl (ha _ _)
  | take w n ft htick hpc hscan => exact absurd rfl (ha _ _)
  | miss w b htick hpc hscan => exact absurd rfl (ha _ _)
  | reuse w n ft f new htick hpc hslot hst hf => exact absurd rfl (ha _ _)
  | fresh w n ft new htick hpc hslot hst hf => exact absurd rfl (ha _ _)
  | swapIn w n f cb htick hpc hst => exact absurd rfl (ha _ _)
  | leave w n f cb b st htick hpc hl => exact absurd rfl (ha _ _)
  | decrement w n q htick hpc => exact absurd rfl (ha _ _)
  | park w f how htick hpc hst => exact absurd rfl (ha _ _)
  | writeHold w f cb htick hpc => exact absurd rfl (ha _ _)
  | requeue w f cb b htick hpc => exact absurd rfl (ha _ _)
  | goIdle w htick hpc => exact absurd rfl (ha _ _)
  | stop w htick hpc hst => exact absurd rfl (ha _ _)
  | drain w htick hpc => exact absurd rfl (ha _ _)
  | leaveIdle w htick hpc => exact absurd rfl (ha _ _)

lemma here_leaving {t : Scheduler W F C} {n : ℕ} {cb : Bool} {how : State}
    (hkeeps : keeps me (t.worker w) = cb) (h : p'.Here (some (.leaving cb)) cb) :
    p'.Here (role me ((t.setPc w (.leaving n me cb how)).worker w).pc)
      (keeps me ((t.setPc w (.leaving n me cb how)).worker w)) := by
  have hworker : (t.setPc w (.leaving n me cb how)).worker w =
      { t.worker w with pc := .leaving n me cb how } := Function.update_self _ _ _
  have hrole : role me (.leaving n me cb how : Pc F C) = some (.leaving cb) := if_pos rfl
  rw [hworker, hrole]
  subst hkeeps
  exact h

end Queues

variable [DecidableEq K]

lemma sched_put (s : System K W F C) {r : Scheduler W F C} {k' : K} (hk : k' ≠ k) :
    (s.put k r).sched k' = s.sched k' := Function.update_of_ne hk _ _

lemma sched_put_self (s : System K W F C) {r : Scheduler W F C} : (s.put k r).sched k = r :=
  Function.update_self _ _ _

variable [DecidableEq F]

structure Rel (me : F) (s : System K W F C) (p : Place K W) : Prop where
  here : ∀ k w, p.worker = some (k, w) →
    p.Here (role me ((s.sched k).worker w).pc) (keeps me ((s.sched k).worker w))
  away : ∀ k w, p.worker ≠ some (k, w) →
    role me ((s.sched k).worker w).pc = none ∧ keeps me ((s.sched k).worker w) = false
  state : p.StateOk (s.state me)
  pins : ∀ k, pins me (s.sched k).fibers = p.PinsAt k

lemma Rel.at (h : Rel me s p) (k : K) (w : W) : p.At k w (spot me (s.view k) w) :=
  ⟨h.here k w, h.away k w, h.state, h.pins k⟩

lemma Rel.at_absent (h : Rel me s p) (hst : s.state me = none) : p = .absent := by
  have hstate := h.state
  rw [hst] at hstate
  cases p with
  | absent => rfl
  | ended => cases hstate
  | gone => exact absurd rfl hstate
  | _ => simp [Place.StateOk] at hstate

lemma Rel.same (h : Rel me s p) (hsched : s'.sched = s.sched) (hstate : s'.state = s.state) :
    Rel me s' p :=
  ⟨by rw [hsched]; exact h.here, by rw [hsched]; exact h.away, by rw [hstate]; exact h.state,
    by rw [hsched]; exact h.pins⟩

lemma Rel.outside (h : Rel me s p) {r : Scheduler W F C} (hworker : r.worker = (s.view k).worker)
    (hpins : OneFiber.pins me r.fibers = p'.PinsAt k) (hstate : p'.StateOk (r.state me))
    (hw : p'.worker = p.worker) (hhere : p.worker ≠ none → p'.Here = p.Here)
    (hothers : ∀ k', k' ≠ k → p'.PinsAt k' = p.PinsAt k') : Rel me (s.put k r) p' := by
  have hsame : ∀ k' w', ((s.put k r).sched k').worker w' = (s.sched k').worker w' := by
    intro k' w'
    by_cases hk : k' = k
    · subst hk
      rw [sched_put_self, hworker]
      rfl
    · rw [sched_put s hk]
  refine ⟨fun k' w' hpw => ?_, fun k' w' hpw => ?_, hstate, fun k' => ?_⟩
  · rw [hw] at hpw
    rw [hsame, hhere (by rw [hpw]; simp)]
    exact h.here k' w' hpw
  · rw [hsame]
    exact h.away k' w' (hw ▸ hpw)
  · by_cases hk : k' = k
    · subst hk
      rw [sched_put_self]
      exact hpins
    · rw [sched_put s hk, hothers k' hk]
      exact h.pins k'

/-- The fiber queues itself, or is queued for the first time. -/
lemma Rel.enqueue {t : ℤ} (h : Rel me s p) (hentry : p.entry = none)
    (hentry' : p'.entry = some (k, t)) (hworker : p'.worker = p.worker)
    (hhere : p.worker ≠ none → p'.Here = p.Here) (hstate : p'.StateOk (s.state me)) :
    Rel me (s.enqueue me k t) p' := by
  have hwork : [(make (.fiber (some me)) t : FiberAndThread F C)].filter isWork =
      [make (.fiber (some me)) t] := rfl
  have hnil : ∀ k', p.PinsAt k' = [] := by
    intro k'
    unfold Place.PinsAt
    rw [hentry]
  unfold System.enqueue
  rw [schedule_eq, hwork]
  refine h.outside rfl ?_ hstate hworker hhere fun k' hk => ?_
  · show OneFiber.pins me ((s.sched k).fibers ++ number _ [make (.fiber (some me)) t]) = _
    rw [pins_append, h.pins k, hnil k]
    simp [OneFiber.pins, number, make, Place.PinsAt, hentry']
  · rw [hnil k']
    simp [Place.PinsAt, hentry', Ne.symm hk]

section Workers

variable [DecidableEq W]

/-- A step of one worker, which is all the same to the others. -/
lemma Rel.put (h : Rel me s p) {r : Scheduler W F C}
    (hworker : ∀ k' w', (k', w') ≠ (k, w) →
      (p'.worker = some (k', w') ↔ p.worker = some (k', w')))
    (hhere : ∀ k' w', (k', w') ≠ (k, w) → p'.worker = some (k', w') → p' = p)
    (hpins : ∀ k', k' ≠ k → p'.PinsAt k' = p.PinsAt k') (hat : p'.At k w (spot me r w))
    (hothers : ∀ x, x ≠ w → r.worker x = (s.view k).worker x) : Rel me (s.put k r) p' := by
  have hsame : ∀ k' w', (k', w') ≠ (k, w) →
      ((s.put k r).sched k').worker w' = (s.sched k').worker w' := by
    intro k' w' hne
    by_cases hk : k' = k
    · subst hk
      rw [sched_put_self]
      exact hothers w' fun hw => hne (by rw [hw])
    · rw [sched_put s hk]
  refine ⟨fun k' w' hw => ?_, fun k' w' hw => ?_, hat.state, fun k' => ?_⟩
  · by_cases hne : (k', w') = (k, w)
    · obtain ⟨rfl, rfl⟩ := Prod.mk.inj hne
      rw [sched_put_self]
      exact hat.here hw
    · obtain rfl := hhere k' w' hne hw
      rw [hsame k' w' hne]
      exact h.here k' w' hw
  · by_cases hne : (k', w') = (k, w)
    · obtain ⟨rfl, rfl⟩ := Prod.mk.inj hne
      rw [sched_put_self]
      exact hat.away hw
    · rw [hsame k' w' hne]
      exact h.away k' w' (mt (hworker k' w' hne).mpr hw)
  · by_cases hk : k' = k
    · subst hk
      rw [sched_put_self]
      exact hat.pins
    · rw [sched_put s hk, hpins k' hk]
      exact h.pins k'

/-- A step of the worker the fiber is on, which stays its worker. -/
lemma Rel.put_own (h : Rel me s p) {r : Scheduler W F C} (hw : p.worker = some (k, w))
    (hw' : p'.worker = some (k, w)) (hentry : p'.entry = p.entry)
    (hhere : p'.Here (role me (r.worker w).pc) (keeps me (r.worker w)))
    (hstate : p'.StateOk (r.state me)) (hfibers : r.fibers = (s.view k).fibers)
    (hothers : ∀ x, x ≠ w → r.worker x = (s.view k).worker x) : Rel me (s.put k r) p' := by
  have hpins : ∀ k', p'.PinsAt k' = p.PinsAt k' := by
    intro k'
    unfold Place.PinsAt
    rw [hentry]
  refine h.put (fun k' w' _ => by rw [hw, hw']) (fun k' w' hne he => ?_)
    (fun k' _ => hpins k') ⟨fun _ => hhere, fun hne => absurd hw' hne, hstate, ?_⟩ hothers
  · rw [hw'] at he
    exact absurd (Option.some.inj he).symm hne
  · show OneFiber.pins me r.fibers = p'.PinsAt k
    rw [hfibers, hpins k]
    exact h.pins k

lemma Rel.yield {r : Scheduler W F C} {cb : Bool} (h : Rel me s p)
    (hrole : role me ((s.sched k).worker w).pc = some (.running cb))
    (hs : (s.view k).work (tid k w) w .yieldToHold = some r) (hw : p.worker = some (k, w))
    (hw' : p'.worker = some (k, w)) (hentry : p'.entry = p.entry)
    (hhere : p'.Here (some (.leaving cb)) cb) (hstate : p'.StateOk (s.state me)) :
    Rel me (s.put k r) p' := by
  obtain ⟨n, f, cb', hpc, rfl⟩ := work_yieldToHold hs
  obtain ⟨n', hpc'⟩ := role_running hrole
  obtain ⟨rfl, rfl, rfl⟩ := Pc.running.inj (hpc'.symm.trans hpc)
  obtain ⟨hkeeps, -⟩ := (h.at k w).eq_runs hrole
  refine h.put_own hw hw' hentry ?_ hstate rfl fun x hx => Function.update_of_ne hx _ _
  exact here_leaving hkeeps hhere

lemma Rel.finish {r : Scheduler W F C} {cb thrown : Bool} (h : Rel me s (.runs k w))
    (hrole : role me ((s.sched k).worker w).pc = some (.running cb))
    (hs : (s.view k).work (tid k w) w (.finish thrown) = some r) :
    Rel me (s.put k r) (.ended k w) := by
  obtain ⟨n, f, cb', st, hpc, hst, rfl⟩ := work_finish hs
  obtain ⟨n', hpc'⟩ := role_running hrole
  obtain ⟨rfl, rfl, rfl⟩ := Pc.running.inj (hpc'.symm.trans hpc)
  obtain ⟨hkeeps, -⟩ := (h.at k w).eq_runs hrole
  refine h.put_own rfl rfl rfl ?_ ?_ rfl fun x hx => Function.update_of_ne hx _ _
  · exact here_leaving hkeeps rfl
  · have hstate : (((s.view k).setState me st).setPc w (.leaving n' me cb st)).state me = some st :=
      state_setState_self
    rw [hstate]
    exact hst

end Workers

/-! ### The invariant -/

structure Inv (tid : K → W → ℤ) (me : F) (s : System K W F C) : Prop where
  place : ∃ p, Rel me s p ∧ Fits tid s.phase p
  /-- A switch in `~SchedulerSwitcher` is to the caller of the innermost scope. -/
  closing : ∀ g, (s.phase = .yielding g ∨ s.phase = .away (some g)) → g.closing = true →
    s.scopes.head? = some g.target
  log : ∀ e ∈ s.log, e.Sound tid

lemma inv_init : Inv tid me ({} : System K W F C) :=
  ⟨⟨.absent, ⟨by simp [Place.worker], fun _ _ _ => ⟨rfl, rfl⟩, rfl, fun _ => rfl⟩, .absent⟩,
    by simp, by simp⟩

lemma Inv.launch {t : ℤ} (h : Inv tid me s) (hph : s.phase = .made) :
    Inv tid me { s.enqueue me k t with phase := .away none } := by
  obtain ⟨p, hrel, hfits⟩ := h.place
  rw [hph] at hfits
  cases hfits
  have hput : Rel me (s.enqueue me k t) (.queued k t) :=
    hrel.enqueue rfl rfl rfl (fun hw => absurd rfl hw) (.inl hrel.state)
  refine ⟨⟨_, hput.same rfl rfl, .queued none k t fun g hg => nomatch hg⟩, fun g hg => ?_, h.log⟩
  rcases hg with hg | hg <;> cases hg

lemma Inv.back {g : Goal K} (hrel : Rel me s (.runs k w)) (hmet : g.Met tid k w)
    (hclose : g.closing = true → s.scopes.head? = some g.target)
    (hlog : ∀ e ∈ s.log, e.Sound tid) : Inv tid me (s.back g k w) := by
  have hreturned : ∀ e ∈ s.log ++ [.returned g k w], e.Sound tid := by
    intro e he
    rcases List.mem_append.mp he with he | he
    · exact hlog e he
    · rw [List.mem_singleton.mp he]
      exact hmet
  unfold System.back
  split
  · rename_i c scopes hclosing hscopes
    have hhead := hclose hclosing
    rw [hscopes] at hhead
    obtain rfl : c = g.target := Option.some.inj hhead
    refine ⟨⟨_, hrel.same rfl rfl, .runs k w⟩, by simp, fun e he => ?_⟩
    rw [List.append_cons] at he
    rcases List.mem_append.mp he with he | he
    · exact hreturned e he
    · rw [List.mem_singleton.mp he]
      exact hmet.1
  · exact ⟨⟨_, hrel.same rfl rfl, .runs k w⟩, by simp, hreturned⟩

lemma Inv.switchTo {g : Goal K} (hrel : Rel me s (.runs k w))
    (hclose : g.closing = true → s.scopes.head? = some g.target)
    (hlog : ∀ e ∈ s.log, e.Sound tid) : Inv tid me (s.switchTo tid me k w g) := by
  unfold System.switchTo
  split
  · rename_i hmet
    exact Inv.back hrel hmet hclose hlog
  · have hput : Rel me (s.enqueue me g.target g.thread) (.yields k w g.target g.thread) :=
      hrel.enqueue rfl rfl rfl (fun _ => rfl) hrel.state
    refine ⟨⟨_, hput.same rfl rfl, .yields g k w⟩, fun g' hg hclosing => ?_, hlog⟩
    rcases hg with hg | hg
    · obtain rfl := Phase.yielding.inj hg
      exact hclose hclosing
    · cases hg

variable [DecidableEq W]

lemma Inv.others {r : Scheduler W F C} {a : Action W F C} (h : Inv tid me s)
    (hf : foreign me (s.view k) a = true) (hs : (s.view k).step (tid k) a = some r) :
    Inv tid me { s.put k r with phase := phaseAfter me s.phase (s.view k) r a } := by
  obtain ⟨p, hrel, hfits⟩ := h.place
  have ht := step_trans hs
  by_cases ha : ∃ w b, a = .worker w b
  · obtain ⟨w, b, rfl⟩ := ha
    have hrun : ∀ cb, role me ((s.view k).worker w).pc ≠ some (.running cb) := by
      intro cb hcb
      simp [foreign, hcb] at hf
    obtain ⟨hl, hothers⟩ := local_trans hrun ht
    obtain ⟨p', hnext, hat⟩ := (hrel.at k w).next hl
    have hput : Rel me (s.put k r) p' :=
      hrel.put (fun k' w' hne => hnext.worker_eq hne) (fun k' w' hne hw => hnext.here hne hw)
        (fun k' hk => hnext.pinsAt_eq hk) hat hothers
    refine ⟨⟨p', hput.same rfl rfl, hfits.next hnext⟩, fun g hg => ?_, h.log⟩
    simp only [phaseAfter] at hg
    split at hg
    · rcases hg with hg | hg <;> cases hg
    · exact h.closing g hg
  · have hno : ∀ w b, a ≠ .worker w b := fun w b hb => ha ⟨w, b, hb⟩
    obtain ⟨hworker, hpins, ⟨hstate, hcreate⟩ | ⟨rfl, hnone, hinit⟩⟩ := outside_trans hno hf ht
    · have hphase : phaseAfter me s.phase (s.view k) r a = s.phase := by
        cases a with
        | worker w b => exact absurd rfl (hno w b)
        | create f => exact if_neg fun hfm => hcreate (by rw [hfm])
        | _ => rfl
      rw [hphase]
      have hput : Rel me (s.put k r) p := by
        refine hrel.outside hworker ?_ ?_ rfl (fun _ => rfl) fun _ _ => rfl
        · rw [hpins]
          exact hrel.pins k
        · rw [hstate]
          exact hrel.state
      exact ⟨⟨p, hput.same rfl rfl, hfits⟩, h.closing, h.log⟩
    · obtain rfl : p = .absent := hrel.at_absent hnone
      have hput : Rel me (s.put k r) .idle := by
        refine hrel.outside hworker ?_ hinit rfl (fun hw => absurd rfl hw) fun _ _ => rfl
        rw [hpins]
        exact hrel.pins k
      refine ⟨⟨.idle, hput.same rfl rfl, ?_⟩, fun g hg => ?_, h.log⟩
      · rw [show phaseAfter me s.phase (s.view k) r (.create me) = .made from if_pos rfl]
        exact .idle
      · simp [phaseAfter] at hg

lemma Inv.body {a : BodyAct K} {cb : Bool} (h : Inv tid me s)
    (hrole : role me ((s.sched k).worker w).pc = some (.running cb))
    (hs : s.body tid me k w a = some s') : Inv tid me s' := by
  obtain ⟨p, hrel, hfits⟩ := h.place
  obtain ⟨-, hp⟩ := (hrel.at k w).eq_runs hrole
  have hon : s.phase = .on → p = .runs k w := by
    intro hph
    rw [hph] at hfits
    rcases hp with hp | ⟨target, t, rfl⟩
    · exact hp
    · cases hfits
  have haway : ∀ goal, s.phase = .away goal →
      p = .runs k w ∧ ∀ g, goal = some g → g.Met tid k w := by
    intro goal hph
    rw [hph] at hfits
    rcases hp with rfl | ⟨target, t, rfl⟩
    · cases hfits with
      | resumes goal k w hgoal => exact ⟨rfl, hgoal⟩
    · cases hfits
  unfold System.body at hs
  split at hs
  · -- the fiber begins
    rename_i hph
    obtain ⟨rfl, -⟩ := haway none hph
    obtain rfl := Option.some.inj hs
    exact ⟨⟨_, hrel.same rfl rfl, .runs k w⟩, by simp, h.log⟩
  · -- it returns from the yield in `switchTo`
    rename_i g hph
    obtain ⟨rfl, hmet⟩ := haway (some g) hph
    obtain rfl := Option.some.inj hs
    exact Inv.back hrel (hmet g rfl) (h.closing g (.inr hph)) h.log
  · rename_i target t hph
    obtain rfl := hon hph
    obtain rfl := Option.some.inj hs
    exact Inv.switchTo hrel (fun hno => nomatch hno) h.log
  · rename_i hph
    obtain rfl := hon hph
    obtain rfl := Option.some.inj hs
    refine ⟨⟨_, hrel.same rfl rfl, ?_⟩, fun g hg => ?_, h.log⟩
    · rw [hph]
      exact .runs k w
    · rw [hph] at hg
      rcases hg with hg | hg <;> cases hg
  · rename_i target hph
    obtain rfl := hon hph
    obtain rfl := Option.some.inj hs
    exact Inv.switchTo (hrel.same rfl rfl) (fun hno => nomatch hno) h.log
  · -- the innermost scope ends
    rename_i hph
    obtain rfl := hon hph
    obtain ⟨c, hc, rfl⟩ := Option.map_eq_some_iff.mp hs
    exact Inv.switchTo hrel (fun _ => hc) h.log
  · -- the yield in `switchTo`
    rename_i g hph
    obtain ⟨r, hr, rfl⟩ := Option.map_eq_some_iff.mp hs
    rw [hph] at hfits
    rcases hp with rfl | ⟨target, t, rfl⟩
    · cases hfits
    · cases hfits with
      | yields g k w =>
        have hput : Rel me (s.put k r) (.leaves k w g.target g.thread) :=
          hrel.yield hrole hr rfl rfl rfl (.inl rfl) hrel.state
        refine ⟨⟨_, hput.same rfl rfl, .leaves g k w⟩, fun g' hg hclosing => ?_, h.log⟩
        rcases hg with hg | hg
        · cases hg
        · obtain rfl := Option.some.inj (Phase.away.inj hg)
          exact h.closing g (.inl hph) hclosing
  · rename_i hph
    obtain rfl := hon hph
    obtain ⟨r, hr, rfl⟩ := Option.map_eq_some_iff.mp hs
    have hput : Rel me (s.put k r) (.rests k w) :=
      hrel.yield hrole hr rfl rfl rfl (.inl rfl) hrel.state
    exact ⟨⟨_, hput.same rfl rfl, .rests k w⟩, by simp, h.log⟩
  · rename_i thrown hph
    obtain rfl := hon hph
    rw [Option.ite_none_right_eq_some] at hs
    obtain ⟨r, hr, rfl⟩ := Option.map_eq_some_iff.mp hs.2
    exact ⟨⟨_, (hrel.finish hrole hr).same rfl rfl, .ended k w⟩, by simp, h.log⟩
  · cases hs

/-- **Every step keeps the fiber where its phase says.** -/
lemma Inv.step {x : Step K W F C} (h : Inv tid me s) (hs : s.step tid me x = some s') :
    Inv tid me s' := by
  unfold System.step at hs
  split at hs
  · rename_i k a
    rw [Option.ite_none_right_eq_some] at hs
    obtain ⟨r, hr, rfl⟩ := Option.map_eq_some_iff.mp hs.2
    exact h.others hs.1 hr
  · split at hs
    · rename_i hph
      obtain rfl := Option.some.inj hs
      exact h.launch hph
    · cases hs
  · split at hs
    · rename_i hrole
      exact h.body hrole hs
    · cases hs

/-! ### The stack of the fiber -/

omit [DecidableEq W] in
lemma Rel.worker_of_onStack (hrel : Rel me s p) (h : OnStack me ((s.sched k).worker w).pc) :
    p.worker = some (k, w) ∧ ∃ cb, role me ((s.sched k).worker w).pc = some (.running cb) ∨
      role me ((s.sched k).worker w).pc = some (.leaving cb) := by
  have hrole : ∃ cb, role me ((s.sched k).worker w).pc = some (.running cb) ∨
      role me ((s.sched k).worker w).pc = some (.leaving cb) := by
    generalize ((s.sched k).worker w).pc = q at h
    cases q with
    | running n f cb =>
      obtain rfl : f = me := h
      exact ⟨cb, .inl (if_pos rfl)⟩
    | leaving n f cb how =>
      obtain rfl : f = me := h
      exact ⟨cb, .inr (if_pos rfl)⟩
    | _ => exact h.elim
  obtain ⟨cb, hcb⟩ := hrole
  rcases hcb with hcb | hcb
  · exact ⟨(hrel.at k w).of_role hcb, cb, .inl hcb⟩
  · exact ⟨(hrel.at k w).of_role hcb, cb, .inr hcb⟩

/-- **`switchTo` brings the fiber where it was asked to.** When it returns, the fiber runs on a
worker of the scheduler, and on the thread if one was asked for; when a scope ends, it runs on a
worker of the scheduler the scope began on. It is on the stack of one worker at most, and of none
when it is about to be swapped in. -/
theorem switchTo_sound (tid : K → W → ℤ) (me : F) (xs : List (Step K W F C))
    (s : System K W F C) (hr : Runs.run (System.step tid me) {} xs = some s) :
    (∀ e ∈ s.log, e.Sound tid) ∧
    (∀ k w k' w', OnStack me ((s.sched k).worker w).pc → OnStack me ((s.sched k').worker w').pc →
      k = k' ∧ w = w') ∧
    (∀ k w n cb, ((s.sched k).worker w).pc = .entering n me cb →
      ∀ k' w', ¬ OnStack me ((s.sched k').worker w').pc) ∧
    ∀ x s', s.step tid me x = some s' → ∃ es, s'.log = s.log ++ es ∧ ∀ e ∈ es, ∃ n cb,
      ((s'.sched e.worker.1).worker e.worker.2).pc = .running n me cb := by
  have h : Inv tid me s := Runs.run_inv (fun _ _ _ h hs => h.step hs) inv_init hr
  obtain ⟨p, hrel, -⟩ := h.place
  refine ⟨h.log, fun k w k' w' hw hw' => ?_, fun k w n cb hpc k' w' hw' => ?_,
    fun x s' hs => step_notes hs⟩
  · have hp := (hrel.worker_of_onStack hw).1
    have hp' := (hrel.worker_of_onStack hw').1
    exact Prod.mk.inj (Option.some.inj (hp.symm.trans hp'))
  · have hrole : role me ((s.sched k).worker w).pc = some (.entering cb) := by
      rw [hpc]
      exact if_pos rfl
    obtain ⟨hp', cb', hrole'⟩ := hrel.worker_of_onStack hw'
    have hp := (hrel.at k w).of_role hrole
    obtain ⟨rfl, rfl⟩ := Prod.mk.inj (Option.some.inj (hp.symm.trans hp'))
    rw [hrole] at hrole'
    rcases hrole' with he | he <;> cases he

/-- A fiber of the first of two schedulers opens a scope on the second, and the scope ends. -/
def roundTrip : List (Step Bool Unit ℕ Unit) :=
  [.others false (.create 0), .launch false (-1), .others false (.worker () .start),
    .others false (.worker () .scan), .others false (.worker () (.branch 1)),
    .others false (.worker () .swapIn), .body false () .resume,
    .body false () (.openScope (some true)), .body false () .yieldToHold,
    .others false (.worker () .swapOut), .others false (.worker () .decrement),
    .others false (.worker () .readState), .others true (.worker () .start),
    .others false (.worker () .writeHold), .others true (.worker () .scan),
    .others true (.worker () (.branch 1)), .others true (.worker () .swapIn),
    .body true () .resume, .body true () .closeScope, .body true () .yieldToHold,
    .others true (.worker () .swapOut), .others true (.worker () .decrement),
    .others true (.worker () .readState), .others true (.worker () .writeHold),
    .others false (.worker () .scan), .others false (.worker () (.branch 1)),
    .others false (.worker () .swapIn), .body false () .resume]

/-- The thread of the one worker of each scheduler. -/
def twoThreads (k : Bool) (_ : Unit) : ℤ := if k then 8 else 7

theorem switchTo_sound_roundTrip : ∃ s, Runs.run (System.step twoThreads 0) {} roundTrip = some s ∧
    s.log.map Event.worker = [(true, ()), (false, ()), (false, ())] ∧
    ∀ e ∈ s.log, e.Sound twoThreads := by
  have hsome : (Runs.run (System.step twoThreads 0) {} roundTrip).isSome := rfl
  obtain ⟨s, hs⟩ := Option.isSome_iff_exists.mp hsome
  have hlog : (Runs.run (System.step twoThreads 0) {} roundTrip).map
      (fun s => s.log.map Event.worker) = some [(true, ()), (false, ()), (false, ())] := rfl
  rw [hs] at hlog
  exact ⟨s, hs, Option.some.inj hlog, (switchTo_sound twoThreads 0 roundTrip s hs).1⟩

end Sylar.SwitchTo
