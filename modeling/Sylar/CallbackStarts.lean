import Sylar.WorkerLoop

/-!
The assertions of the worker loop, and the order in which callbacks begin.

The state of a fiber is written by the fiber, by `MainFunc` and by `run`. What holds between
them is said for each fiber by itself, with the program counter and `cb_fiber` as the only
context; so a step has to be looked at for the fiber it works on, and for all others at once.
-/

namespace Sylar.CallbackStarts

open Lib Sylar.FiberModel FiberAndThread Sylar.SchedulerModel Sylar.SchedulerSteps
open Sylar.WorkerLoop Loop

structure At (pc : WorkerLoop.Pc) (cbFiber : Option ℕ) (f : ℕ) (v : Fiber) : Prop where
  exec : v.state = .exec → current pc = some f
  running : ∀ cb, pc = .running f cb → v.state = .exec
  back : ∀ cb, pc = .back f cb → v.state ≠ .init ∧ v.state ≠ .hold
  /-- A fiber in the middle of a function has the function. -/
  within : v.state = .exec ∨ v.state = .hold ∨ v.state = .ready → v.cb.isSome
  /-- Between two callbacks `cb_fiber` has no function, or has thrown the empty one. -/
  spare : cbFiber = some f → pc = .running f true ∨ pc = .back f true ∨ v.state = .except ∨
    (v.state = .init ∧ v.cb = none)

structure Control (s : Loop) : Prop where
  each : ∀ f, At s.pc s.cbFiber f (s.heap f)
  owns : ∀ f, s.pc = .running f true ∨ s.pc = .back f true → s.cbFiber = some f
  fresh : ∀ f, s.made ≤ f → s.heap f = {}
  cbMade : ∀ f, s.cbFiber = some f → f < s.made
  noFault : ∀ e, s.pc ≠ .fault e
  idle : s.idle = .exec ↔ s.pc = .idling
  idleOk : s.idle ≠ .except

/-! ### One fiber -/

lemma At.other {pc pc' : WorkerLoop.Pc} {c c' : Option ℕ} {f : ℕ} {v : Fiber} (h : At pc c f v)
    (hpc : current pc ≠ some f) (hpc' : current pc' ≠ some f) (hc : c' = some f → c = some f) :
    At pc' c' f v := by
  refine ⟨fun he => absurd (h.exec he) hpc, fun cb he => ?_, fun cb he => ?_, h.within,
    fun he => ?_⟩
  · rw [he] at hpc'
    exact absurd rfl hpc'
  · rw [he] at hpc'
    exact absurd rfl hpc'
  · rcases h.spare (hc he) with he' | he' | he'
    · rw [he'] at hpc
      exact absurd rfl hpc
    · rw [he'] at hpc
      exact absurd rfl hpc
    · exact Or.inr (Or.inr he')

/-- The fiber that a function begins or goes on to run on. -/
lemma at_running {f : ℕ} {cb : Bool} {c : Option ℕ} {v : Fiber} (hst : v.state = .exec)
    (hcb : v.cb.isSome) (hc : c = some f → cb = true) : At (.running f cb) c f v := by
  refine ⟨fun _ => rfl, fun _ _ => hst, by simp, fun _ => hcb, fun he => ?_⟩
  rw [hc he]
  exact Or.inl rfl

lemma at_back {f : ℕ} {cb : Bool} {c : Option ℕ} {v : Fiber}
    (hst : v.state ≠ .init ∧ v.state ≠ .hold)
    (hcb : v.state = .exec ∨ v.state = .ready → v.cb.isSome)
    (hc : c = some f → cb = true ∨ v.state = .except) : At (.back f cb) c f v := by
  refine ⟨fun _ => rfl, by simp, fun _ _ => hst, fun h => ?_, fun he => ?_⟩
  · rcases h with h | h | h
    · exact hcb (Or.inl h)
    · exact absurd h hst.2
    · exact hcb (Or.inr h)
  · rcases hc he with rfl | hex
    · exact Or.inr (Or.inl rfl)
    · exact Or.inr (Or.inr (Or.inl hex))

lemma At.exec_of_back {pc : WorkerLoop.Pc} {c : Option ℕ} {f : ℕ} {v : Fiber} (h : At pc c f v)
    {cb : Bool} (hpc : pc = .back f cb)
    (hst : v.state ≠ .ready ∧ v.state ≠ .term ∧ v.state ≠ .except) : v.state = .exec := by
  obtain ⟨hinit, hhold⟩ := h.back cb hpc
  obtain ⟨hready, hterm, hexcept⟩ := hst
  cases hstate : v.state with
  | exec => rfl
  | init => exact absurd hstate hinit
  | hold => exact absurd hstate hhold
  | term => exact absurd hstate hterm
  | ready => exact absurd hstate hready
  | except => exact absurd hstate hexcept

variable {s s' : Loop} {tid : ℤ} {k : Option Bool}

lemma Control.not_exec (h : Control s) (hpc : current s.pc = none) (f : ℕ) :
    s.state f ≠ .exec := fun he => by
  have := (h.each f).exec he
  rw [hpc] at this
  cases this

lemma Control.current_lt (h : Control s) {f : ℕ} (hf : current s.pc = some f) : f < s.made := by
  by_contra hge
  have hnew : s.heap f = {} := h.fresh f (by omega)
  have hat := h.each f
  rw [hnew] at hat
  cases hpc : s.pc with
  | running g cb =>
    rw [hpc] at hf hat
    obtain rfl : g = f := Option.some.inj hf
    have hexec := hat.running cb rfl
    cases hexec
  | back g cb =>
    rw [hpc] at hf hat
    obtain rfl : g = f := Option.some.inj hf
    exact (hat.back cb rfl).1 rfl
  | scan => rw [hpc] at hf; cases hf
  | picked n ft => rw [hpc] at hf; cases hf
  | missed => rw [hpc] at hf; cases hf
  | idling => rw [hpc] at hf; cases hf
  | exited => rw [hpc] at hf; cases hf
  | fault e => rw [hpc] at hf; cases hf

/-- A fiber that is switched to and is not run as `cb_fiber` is not `cb_fiber`, unless it has
thrown. -/
lemma Control.not_cb (h : Control s) {f : ℕ} (hpc : s.pc ≠ .running f true ∧ s.pc ≠ .back f true)
    (hst : s.state f ≠ .except) (hcb : s.state f = .init → (s.heap f).cb.isSome) :
    s.cbFiber ≠ some f := by
  intro hc
  rcases (h.each f).spare hc with he | he | he | ⟨he, hnone⟩
  · exact hpc.1 he
  · exact hpc.2 he
  · exact hst he
  · have hsome := hcb he
    rw [hnone] at hsome
    cases hsome

/-! ### The assertions -/

/-- **No assertion can fail.** -/
lemma Control.not_broken (h : Control s) : ¬ Broken s := by
  rintro (⟨n, ft, r, hpc, hr, hbad⟩ | ⟨n, ft, f, hpc, hf, hbad⟩ | ⟨f, cb, hpc, hbad⟩ |
    ⟨hpc, hbad⟩ | ⟨hpc, hbad⟩)
  · have hcur : current s.pc = none := by rw [hpc]; rfl
    rcases hbad with hexec | ⟨hnone, hst⟩
    · exact h.not_exec hcur _ hexec
    · have hsome := (h.each r.fiber).within (Or.inr hst)
      rw [hnone] at hsome
      cases hsome
  · rcases (h.each f).spare hf with he | he | he | he
    · rw [hpc] at he
      cases he
    · rw [hpc] at he
      cases he
    · exact hbad.2.1 he
    · exact hbad.2.2 he.1
  · exact hbad ((h.each f).running cb hpc)
  · rcases hbad with he | he
    · have hidle := h.idle.mp he
      rw [hpc] at hidle
      cases hidle
    · exact h.idleOk he
  · exact hbad (h.idle.mpr hpc)

/-! ### The steps -/

/-- What the rest of the invariant looks at besides the fibers. -/
structure Frame (s s' : Loop) : Prop where
  idle : s'.idle = s.idle
  idling : s'.pc = .idling ↔ s.pc = .idling
  noFault : ∀ e, s'.pc ≠ .fault e

lemma control_quiet (h : Control s) (hheap : s'.heap = s.heap) (hmade : s'.made = s.made)
    (hc : s'.cbFiber = s.cbFiber) (hcur : current s.pc = none) (hcur' : current s'.pc = none)
    (hfault : ∀ e, s'.pc ≠ .fault e) (hidle : s'.idle = .exec ↔ s'.pc = .idling)
    (hok : s'.idle ≠ .except) : Control s' := by
  refine ⟨fun f => ?_, fun f hf => ?_, fun f hf => ?_, fun f hf => ?_, hfault, hidle, hok⟩
  · rw [hheap]
    exact (h.each f).other (by rw [hcur]; simp) (by rw [hcur']; simp) (by rw [hc]; exact id)
  · rcases hf with hf | hf
    · rw [hf] at hcur'
      cases hcur'
    · rw [hf] at hcur'
      cases hcur'
  · rw [hheap]
    exact h.fresh f (by rw [← hmade]; exact hf)
  · rw [hmade]
    exact h.cbMade f (by rw [← hc]; exact hf)

/-- A step that works on the fiber `f`: it is enough to look at that one. -/
lemma control_fiber (h : Control s) {f : ℕ} {v : Fiber}
    (hheap : s'.heap = Function.update s.heap f v) (hmade : s'.made = s.made) (hlt : f < s.made)
    (hcur : current s.pc = none ∨ current s.pc = some f)
    (hcur' : current s'.pc = none ∨ current s'.pc = some f) (hframe : Frame s s')
    (hc : ∀ g, g ≠ f → s'.cbFiber = some g → s.cbFiber = some g)
    (hat : At s'.pc s'.cbFiber f v)
    (howns : s'.pc = .running f true ∨ s'.pc = .back f true → s'.cbFiber = some f) :
    Control s' := by
  refine ⟨fun g => ?_, fun g hg => ?_, fun g hg => ?_, fun g hg => ?_, hframe.noFault, ?_, ?_⟩
  · rw [hheap]
    by_cases hgf : g = f
    · subst hgf
      rw [Function.update_self]
      exact hat
    · rw [Function.update_of_ne hgf]
      have hne : ∀ c : Option ℕ, c = none ∨ c = some f → c ≠ some g := by
        rintro c (rfl | rfl) he
        · cases he
        · exact hgf (Option.some.inj he).symm
      exact (h.each g).other (hne _ hcur) (hne _ hcur') (hc g hgf)
  · have hgf : g = f := by
      rcases hg with hg | hg <;> rw [hg] at hcur' <;> rcases hcur' with he | he
      · cases he
      · exact Option.some.inj he
      · cases he
      · exact Option.some.inj he
    subst hgf
    exact howns hg
  · rw [hmade] at hg
    rw [hheap, Function.update_of_ne (by omega)]
    exact h.fresh g hg
  · rw [hmade]
    by_cases hgf : g = f
    · rw [hgf]
      exact hlt
    · exact h.cbMade g (hc g hgf hg)
  · rw [hframe.idle, hframe.idling]
    exact h.idle
  · rw [hframe.idle]
    exact h.idleOk

/-- A step that makes a fiber and switches to it, or makes one and does nothing else. -/
lemma control_made (h : Control s) {v : Fiber}
    (hheap : s'.heap = Function.update s.heap s.made v) (hmade : s'.made = s.made + 1)
    (hpc : s'.pc = s.pc ∨ (current s.pc = none ∧ current s'.pc = some s.made))
    (hframe : Frame s s') (hc : ∀ g, s'.cbFiber = some g → g = s.made ∨ s.cbFiber = some g)
    (hat : At s'.pc s'.cbFiber s.made v)
    (howns : ∀ g, s'.pc = .running g true ∨ s'.pc = .back g true → s'.cbFiber = some g) :
    Control s' := by
  refine ⟨fun g => ?_, howns, fun g hg => ?_, fun g hg => ?_, hframe.noFault, ?_, ?_⟩
  · rw [hheap]
    by_cases hg : g = s.made
    · subst hg
      rw [Function.update_self]
      exact hat
    · rw [Function.update_of_ne hg]
      have hcg : s'.cbFiber = some g → s.cbFiber = some g := fun he => (hc g he).resolve_left hg
      rcases hpc with hsame | ⟨hnone, hsome⟩
      · obtain ⟨h1, h2, h3, h4, h5⟩ := h.each g
        rw [hsame]
        exact ⟨h1, h2, h3, h4, fun he => h5 (hcg he)⟩
      · refine (h.each g).other (by rw [hnone]; simp) ?_ hcg
        rw [hsome]
        exact fun he => hg (Option.some.inj he).symm
  · rw [hmade] at hg
    rw [hheap, Function.update_of_ne (by omega)]
    exact h.fresh g (by omega)
  · rw [hmade]
    rcases hc g hg with rfl | hg
    · omega
    · have := h.cbMade g hg
      omega
  · rw [hframe.idle, hframe.idling]
    exact h.idle
  · rw [hframe.idle]
    exact h.idleOk

lemma control_same (h : Control s) (hheap : s'.heap = s.heap) (hmade : s'.made = s.made)
    (hc : s'.cbFiber = s.cbFiber) (hpc : s'.pc = s.pc) (hidle : s'.idle = s.idle) : Control s' := by
  obtain ⟨h1, h2, h3, h4, h5, h6, h7⟩ := h
  exact ⟨by rwa [hheap, hpc, hc], by rwa [hpc, hc], by rwa [hheap, hmade], by rwa [hc, hmade],
    by rwa [hpc], by rwa [hidle, hpc], by rwa [hidle]⟩

lemma control_schedule (h : Control s) (ft : Entry) : Control (s.scheduleNoLock ft) := by
  obtain ⟨h1, h2, h3, h4, h5⟩ := schedule_same s ft
  exact control_same h h1 h2 h3 h4 h5

lemma control_create (h : Control s) : Control (s.call .create) := by
  have hcur : current s.pc ≠ some s.made := fun he => Nat.lt_irrefl _ (h.current_lt he)
  refine control_made h rfl rfl (.inl rfl) ⟨rfl, Iff.rfl, h.noFault⟩ (fun g hg => .inr hg) ?_ h.owns
  refine ⟨by simp, fun cb he => ?_, fun cb he => ?_, by simp, fun he => ?_⟩
  · have hpc : s.pc = .running s.made cb := he
    rw [hpc] at hcur
    exact absurd rfl hcur
  · have hpc : s.pc = .back s.made cb := he
    rw [hpc] at hcur
    exact absurd rfl hcur
  · exact absurd (h.cbMade _ he) (Nat.lt_irrefl _)

lemma control_call (h : Control s) (c : Call) : Control (s.call c) :=
  call_rule c h (fun _ ft h => control_schedule h ft)
    (fun _ _ h => control_same h rfl rfl rfl rfl rfl) (control_create h)

/-- The fiber of an entry that is switched to is not `cb_fiber`. -/
lemma Control.entry_not_cb (h : Control s) {n : ℕ} {ft : Entry} (hpc : s.pc = .picked n ft) {f : ℕ}
    {b : Body} (hcb : (s.heap f).cb = some b) (hst : s.state f ≠ .except) :
    s.cbFiber ≠ some f := by
  refine h.not_cb ?_ hst fun _ => by rw [hcb]; rfl
  rw [hpc]
  exact ⟨by simp, by simp⟩

lemma Control.lt_made (h : Control s) {f : ℕ} {b : Body} (hcb : (s.heap f).cb = some b) :
    f < s.made := by
  by_contra hge
  rw [h.fresh f (by omega)] at hcb
  cases hcb

lemma control_enter (h : Control s) {n : ℕ} {ft : Entry} (hpc : s.pc = .picked n ft) {f : ℕ}
    {b : Body} (hcb : (s.heap f).cb = some b) (hst : s.state f ≠ .except) (marks : List Mark) :
    Control (((s.setState f .exec).note marks).goto (.running f false)) := by
  have hcur : current s.pc = none := by rw [hpc]; rfl
  have hsome : (s.heap f).cb.isSome := by rw [hcb]; rfl
  refine control_fiber h rfl rfl (h.lt_made hcb) (.inl hcur) (.inr rfl) ⟨rfl, ?_, by simp⟩
    (fun g _ hg => hg) ?_ ?_
  · rw [hpc]
    exact iff_of_false (by simp) (by simp)
  · exact at_running rfl hsome fun he => absurd he (h.entry_not_cb hpc hcb hst)
  · rintro (he | he) <;> cases he

lemma control_leave (h : Control s) {f : ℕ} {cb : Bool} (hpc : s.pc = .running f cb) {v : Fiber}
    (hheap : s'.heap = Function.update s.heap f v) (hmade : s'.made = s.made)
    (hc : s'.cbFiber = s.cbFiber) (hpc' : s'.pc = .back f cb) (hidle : s'.idle = s.idle)
    (hst : v.state ≠ .init ∧ v.state ≠ .hold)
    (hcb : v.state = .exec ∨ v.state = .ready → v.cb.isSome) : Control s' := by
  have hcur : current s.pc = some f := by rw [hpc]; rfl
  have hexec : s.state f = .exec := (h.each f).running cb hpc
  have hown : s.cbFiber = some f → cb = true := by
    intro hc
    cases cb with
    | true => rfl
    | false =>
      refine absurd hc (h.not_cb ?_ (by simp [hexec]) (by simp [hexec]))
      rw [hpc]
      exact ⟨by simp, by simp⟩
  refine control_fiber h hheap hmade (h.current_lt hcur) (.inr hcur) (.inr (by rw [hpc']; rfl))
    ⟨hidle, ?_, by rw [hpc']; simp⟩ (fun g _ hg => hc ▸ hg) ?_ ?_
  · rw [hpc, hpc']
    exact iff_of_false (by simp) (by simp)
  · rw [hpc', hc]
    exact at_back hst hcb fun hc => .inl (hown hc)
  · rw [hpc', hc]
    rintro (he | he)
    · cases he
    · obtain rfl : cb = true := by simpa using he
      exact h.owns f (.inl hpc)

/-- The end of a turn: the fiber that was switched to is put away, and no longer `cb_fiber`
unless it can be reset. -/
lemma control_rest (h : Control s) {f : ℕ} {cb : Bool} (hpc : s.pc = .back f cb) {v : Fiber}
    (hheap : s'.heap = Function.update s.heap f v) (hmade : s'.made = s.made)
    (hpc' : s'.pc = .scan) (hidle : s'.idle = s.idle) (hst : v.state ≠ .exec)
    (hcb : v.state = .hold ∨ v.state = .ready → v.cb.isSome)
    (hc : ∀ g, g ≠ f → s'.cbFiber = some g → s.cbFiber = some g)
    (hspare : s'.cbFiber = some f → v.state = .except ∨ (v.state = .init ∧ v.cb = none)) :
    Control s' := by
  have hcur : current s.pc = some f := by rw [hpc]; rfl
  refine control_fiber h hheap hmade (h.current_lt hcur) (.inr hcur) (.inl (by rw [hpc']; rfl))
    ⟨hidle, ?_, by rw [hpc']; simp⟩ hc ?_ ?_
  · rw [hpc, hpc']
    exact iff_of_false (by simp) (by simp)
  · rw [hpc']
    refine ⟨fun he => absurd he hst, by simp, by simp, fun he => ?_, fun he => ?_⟩
    · exact hcb (he.resolve_left hst)
    · exact .inr (.inr (hspare he))
  · rw [hpc']
    rintro (he | he) <;> cases he

lemma control_turn (h : Control s) (hheap : s'.heap = s.heap) (hmade : s'.made = s.made)
    (hc : s'.cbFiber = s.cbFiber) (hidle : s'.idle = s.idle) (hcur : current s.pc = none)
    (hcur' : current s'.pc = none) (hfault : ∀ e, s'.pc ≠ .fault e) (hpc : s.pc ≠ .idling)
    (hpc' : s'.pc ≠ .idling) : Control s' := by
  have hne : s.idle ≠ .exec := fun hi => hpc (h.idle.mp hi)
  refine control_quiet h hheap hmade hc hcur hcur' hfault (iff_of_false ?_ hpc') ?_
  · rw [hidle]
    exact hne
  · rw [hidle]
    exact h.idleOk

lemma Control.not_cb_back (h : Control s) {f : ℕ} (hpc : s.pc = .back f false)
    (hst : s.state f ≠ .except) : s.cbFiber ≠ some f := by
  refine h.not_cb ?_ hst fun he => absurd he ((h.each f).back false hpc).1
  rw [hpc]
  exact ⟨by simp, by simp⟩

/-- No pointer is to a fiber that has not been made. -/
def Known (s : Loop) : Prop := ∀ r, Points s r → r.fiber < s.made

/-- **What the states say is kept by every step.** -/
lemma control_trans (h : Control s) (hk : Known s) (ht : Trans tid s k s') : Control s' := by
  cases ht with
  | fault e hb => exact absurd hb h.not_broken
  | call c => exact control_call h c
  | flags autoStop stopping ha hs => exact control_same h rfl rfl rfl rfl rfl
  | take n ft q₁ q₂ hpc hq hno he =>
    exact control_turn h rfl rfl rfl rfl (by rw [hpc]; rfl) rfl (by simp) (by simp [hpc]) (by simp)
  | miss hpc hno =>
    exact control_turn h rfl rfl rfl rfl (by rw [hpc]; rfl) rfl (by simp) (by simp [hpc]) (by simp)
  | drop n ft hpc hf hcb =>
    exact control_turn h rfl rfl rfl rfl (by rw [hpc]; rfl) rfl (by simp) (by simp [hpc]) (by simp)
  | empty n ft r hpc hr hst hcb =>
    have hlt : r.fiber < s.made := hk r (.inr (.inr (by rw [hpc]; exact hr)))
    refine control_fiber h rfl rfl hlt (.inl (by rw [hpc]; rfl)) (.inr rfl) ⟨rfl, ?_, by simp⟩
      (fun g _ hg => hg) (at_back ⟨by simp, by simp⟩ (by simp) fun _ => .inr rfl) ?_
    · rw [hpc]
      exact iff_of_false (by simp) (by simp)
    · rintro (he | he) <;> cases he
  | start n ft r b hpc hr hst hcb => exact control_enter h hpc hcb (by rw [hst]; simp) _
  | resume n ft r b hpc hr hst hcb =>
    exact control_enter h hpc hcb (by rcases hst with hst | hst <;> rw [hst] <;> simp) _
  | reuse n ft f hpc hf hcb hc hst =>
    refine control_fiber h rfl rfl (h.cbMade f hc) (.inl (by rw [hpc]; rfl)) (.inr rfl)
      ⟨rfl, ?_, by simp⟩ (fun g _ hg => hg) (at_running rfl rfl fun _ => rfl) fun _ => hc
    rw [hpc]
    exact iff_of_false (by simp) (by simp)
  | fresh n ft hpc hf hcb hc =>
    refine control_made h rfl rfl (.inr ⟨by rw [hpc]; rfl, rfl⟩) ⟨rfl, ?_, by simp⟩
      (fun g hg => .inl (Option.some.inj hg).symm) (at_running rfl rfl fun _ => rfl) fun g hg => ?_
    · rw [hpc]
      exact iff_of_false (by simp) (by simp)
    · rcases hg with hg | hg
      · obtain ⟨rfl, -⟩ : s.made = g ∧ true = true := by simpa [goto] using hg
        rfl
      · cases hg
  | ret f cb hpc => exact control_leave h hpc rfl rfl rfl rfl rfl ⟨by simp, by simp⟩ (by simp)
  | throw f cb hpc => exact control_leave h hpc rfl rfl rfl rfl rfl ⟨by simp, by simp⟩ (by simp)
  | ready f cb hpc hst =>
    have hsome := (h.each f).within (.inl hst)
    exact control_leave h hpc rfl rfl rfl rfl rfl ⟨by simp, by simp⟩ fun _ => hsome
  | hold f cb hpc hst =>
    have hst : (s.heap f).state = .exec := hst
    have hsome := (h.each f).within (.inl hst)
    refine control_leave h hpc (Function.update_eq_self f s.heap).symm rfl rfl rfl rfl ?_
      fun _ => hsome
    rw [hst]
    exact ⟨by simp, by simp⟩
  | this f cb thread hpc => exact control_schedule h _
  | addEvent f cb hpc => exact control_same h rfl rfl rfl rfl rfl
  | requeue f cb hpc hst =>
    obtain ⟨h1, h2, -, -, h5⟩ := schedule_same
      { s with activeThreadCount := s.activeThreadCount - 1 }
      (make (.fiber (some ⟨f, s.body f⟩)) (-1))
    have hst : (s.heap f).state = .ready := hst
    have hsome := (h.each f).within (.inr (.inr hst))
    refine control_rest h hpc (h1.trans (Function.update_eq_self f s.heap).symm) h2 rfl h5
      (by rw [hst]; simp) (fun _ => hsome) (fun g _ hg => ?_) fun hc => ?_
    · cases cb with
      | true => cases hg
      | false => exact hg
    · cases cb with
      | true => cases hc
      | false => exact absurd hc (h.not_cb_back hpc (by show (s.heap f).state ≠ _; rw [hst]; simp))
  | finish f hpc hst =>
    exact control_rest h hpc rfl rfl rfl rfl (by simp) (by simp) (fun g _ hg => hg)
      fun _ => .inr ⟨rfl, rfl⟩
  | quit f hpc hst =>
    have hst : (s.heap f).state = .term ∨ (s.heap f).state = .except := hst
    refine control_rest h hpc (Function.update_eq_self f s.heap).symm rfl rfl rfl ?_ ?_
      (fun g _ hg => hg) fun hc => ?_
    · rcases hst with he | he <;> rw [he] <;> simp
    · rcases hst with he | he <;> rw [he] <;> simp
    · by_contra hne
      simp only [not_or] at hne
      exact h.not_cb_back hpc hne.1 hc
  | park f cb hpc hst =>
    have hexec : (s.heap f).state = .exec := (h.each f).exec_of_back hpc hst
    have hsome := (h.each f).within (.inl hexec)
    refine control_rest h hpc rfl rfl rfl rfl (by simp) (fun _ => hsome) (fun g _ hg => ?_)
      fun hc => ?_
    · cases cb with
      | true => cases hg
      | false => exact hg
    · cases cb with
      | true => cases hc
      | false => exact absurd hc (h.not_cb_back hpc hst.2.2)
  | exit hpc hi =>
    exact control_turn h rfl rfl rfl rfl (by rw [hpc]; rfl) rfl (by simp) (by simp [hpc]) (by simp)
  | idleIn hpc hi =>
    exact control_quiet h rfl rfl rfl (by rw [hpc]; rfl) rfl (by simp) (iff_of_true rfl rfl)
      (by simp [goto])
  | idleOut more hpc hi =>
    refine control_quiet h rfl rfl rfl (by rw [hpc]; rfl) rfl (by simp)
      (iff_of_false ?_ (by simp)) ?_
    · show (if s.stoppingFinal = true ∧ more = true then State.term else State.hold) ≠ State.exec
      split <;> simp
    · show (if s.stoppingFinal = true ∧ more = true then State.term else State.hold) ≠ State.except
      split <;> simp

/-! ### Pointers -/

lemma made_le (ht : Trans tid s k s') : s.made ≤ s'.made := by
  cases ht with
  | call c =>
    refine call_rule (P := fun s' => s.made ≤ s'.made) c (Nat.le_refl _) (fun s' ft h => ?_)
      (fun _ _ h => h) (Nat.le_succ _)
    rw [(schedule_same s' ft).2.1]
    exact h
  | fresh n ft hpc hf hcb hc => exact Nat.le_succ _
  | this f cb thread hpc => exact Nat.le_of_eq (schedule_same s _).2.1.symm
  | requeue f cb hpc hst =>
    exact Nat.le_of_eq
      (schedule_same { s with activeThreadCount := s.activeThreadCount - 1 } _).2.1.symm
  | _ => exact Nat.le_refl _

lemma known_trans (h : Control s) (hk : Known s) (ht : Trans tid s k s') : Known s' := by
  intro r hr
  have hle := made_le ht
  rcases points_trans ht hr with hp | ⟨f, hf⟩ | ⟨f, hf, -, rfl⟩
  · have := hk r hp
    omega
  · simp only [pointer, Option.ite_none_right_eq_some, Option.some.injEq] at hf
    obtain ⟨⟨hlt, -⟩, rfl⟩ := hf
    show f < s'.made
    omega
  · have := h.current_lt hf
    show f < s'.made
    omega

/-! ### The order of the callbacks -/

/-- The callbacks whose entries have been taken, in order. -/
def takenCbs (log : List Mark) : List ℕ :=
  log.filterMap fun
    | .taken n => some n
    | _ => none

/-- The callbacks whose functions `MainFunc` has called, in order. -/
def startedCbs (log : List Mark) : List ℕ :=
  log.filterMap fun
    | .started _ (.cb n) => some n
    | _ => none

/-- The callback that has been taken and not yet started. -/
def pending : WorkerLoop.Pc → List ℕ
  | .picked n ft => if ft.cb.isSome then [n] else []
  | _ => []

@[simp] lemma takenCbs_append (l l' : List Mark) :
    takenCbs (l ++ l') = takenCbs l ++ takenCbs l' := List.filterMap_append

@[simp] lemma startedCbs_append (l l' : List Mark) :
    startedCbs (l ++ l') = startedCbs l ++ startedCbs l' := List.filterMap_append

/-- The numbers of the entries, as far as callbacks are concerned. -/
structure Order (tid : ℤ) (s : Loop) : Prop where
  number : s.fibers.Pairwise fun a b => a.1 < b.1
  below : ∀ e ∈ s.fibers, e.1 < s.issued
  /-- An entry has a fiber or a function. -/
  kinds : ∀ e ∈ s.fibers, e.2.cb.isSome → e.2.fiber = none
  hand : ∀ n ft, s.pc = .picked n ft → ft.cb.isSome → ft.fiber = none
  sorted : (takenCbs s.log).Pairwise (· < ·)
  takenBelow : ∀ n ∈ takenCbs s.log, n < s.issued
  /-- No callback that the worker may run is left behind. -/
  ahead : ∀ n ∈ takenCbs s.log, ∀ e ∈ s.fibers, e.2.cb.isSome → pinned tid e.2 = false → n < e.1
  book : takenCbs s.log = startedCbs s.log ++ pending s.pc
  /-- Before its first switch a fiber has the function it was made with. -/
  notCb : ∀ f n, s.state f = .init → (s.heap f).cb ≠ some (.cb n)

lemma make_kinds (fc : FiberOrCb Ref Unit) (thread : ℤ) :
    (make fc thread : Entry).cb.isSome → (make fc thread : Entry).fiber = none := by
  cases fc with
  | fiber f =>
    intro hcb
    cases hcb
  | cb c => exact fun _ => rfl

lemma order_schedule (h : Order tid s) {ft : Entry} (hkind : ft.cb.isSome → ft.fiber = none) :
    Order tid (s.scheduleNoLock ft) := by
  unfold scheduleNoLock
  split
  · have htaken : takenCbs (s.log ++ [.queued (meant s.issued ft)]) = takenCbs s.log := by
      simp [takenCbs]
    have hstarted : startedCbs (s.log ++ [.queued (meant s.issued ft)]) = startedCbs s.log := by
      simp [startedCbs]
    refine ⟨List.pairwise_append.mpr ⟨h.number, List.pairwise_singleton _ _, fun a ha b hb => ?_⟩,
      fun e he => ?_, fun e he => ?_, h.hand, by rw [htaken]; exact h.sorted, fun n hn => ?_,
      fun n hn e he => ?_, by rw [htaken, hstarted]; exact h.book, h.notCb⟩
    · rw [List.mem_singleton.mp hb]
      exact h.below a ha
    · rcases List.mem_append.mp he with he | he
      · exact Nat.lt_succ_of_lt (h.below e he)
      · rw [List.mem_singleton.mp he]
        exact Nat.lt_succ_self _
    · rcases List.mem_append.mp he with he | he
      · exact h.kinds e he
      · rw [List.mem_singleton.mp he]
        exact hkind
    · rw [htaken] at hn
      exact Nat.lt_succ_of_lt (h.takenBelow n hn)
    · rw [htaken] at hn
      rcases List.mem_append.mp he with he | he
      · exact h.ahead n hn e he
      · rw [List.mem_singleton.mp he]
        exact fun _ _ => h.takenBelow n hn
  · exact h

lemma order_step (h : Order tid s) {marks : List Mark} (hq : s'.fibers = s.fibers)
    (hi : s'.issued = s.issued) (hlog : s'.log = s.log ++ marks) (hm : takenCbs marks = [])
    (hbook : startedCbs marks ++ pending s'.pc = pending s.pc)
    (hpc : pickedRef s'.pc = none ∨ s'.pc = s.pc)
    (hheap : ∀ f n, s'.state f = .init → (s'.heap f).cb ≠ some (.cb n)) : Order tid s' := by
  have htaken : takenCbs s'.log = takenCbs s.log := by
    rw [hlog, takenCbs_append, hm, List.append_nil]
  refine ⟨by rw [hq]; exact h.number, by rw [hq, hi]; exact h.below, by rw [hq]; exact h.kinds,
    fun n ft he hcb => ?_, by rw [htaken]; exact h.sorted, by rw [htaken, hi]; exact h.takenBelow,
    by rw [htaken, hq]; exact h.ahead, ?_, hheap⟩
  · rcases hpc with hnone | hsame
    · rw [he] at hnone
      exact hnone
    · exact h.hand n ft (hsame ▸ he) hcb
  · rw [htaken, hlog, startedCbs_append, List.append_assoc, hbook]
    exact h.book

lemma notCb_update (h : Order tid s) {f : ℕ} {v : Fiber}
    (hv : ∀ n, v.state = .init → v.cb ≠ some (.cb n)) :
    ∀ g n, (Function.update s.heap f v g).state = .init →
      (Function.update s.heap f v g).cb ≠ some (.cb n) := by
  intro g n
  by_cases hg : g = f
  · subst hg
    rw [Function.update_self]
    exact hv n
  · rw [Function.update_of_ne hg]
    exact h.notCb g n

lemma order_call (h : Order tid s) (c : Call) : Order tid (s.call c) := by
  cases c with
  | schedule fc thread =>
    refine order_schedule h ?_
    cases fc with
    | fiber f => exact make_kinds (.fiber (f.bind s.pointer)) thread
    | cb c => exact make_kinds (.cb c) thread
  | create =>
    exact order_step h rfl rfl (List.append_nil _).symm rfl rfl (.inr rfl)
      (notCb_update h (by simp))
  | trigger i =>
    simp only [Loop.call]
    split
    · have hdel : Order tid { s with events := s.events.eraseIdx i } :=
        order_step h rfl rfl (List.append_nil _).symm rfl rfl (.inr rfl) h.notCb
      exact order_schedule hdel (make_kinds _ _)
    · exact h
  | delEvent i => exact order_step h rfl rfl (List.append_nil _).symm rfl rfl (.inr rfl) h.notCb

/-- The scan takes the first callback that the worker may run. -/
lemma order_take (h : Order tid s) {n : ℕ} {ft : Entry} {q₁ q₂ : List (ℕ × Entry)}
    (hpc : s.pc = .scan) (hq : s.fibers = q₁ ++ (n, ft) :: q₂)
    (hno : ∀ x ∈ q₁, ¬ Eligible tid (fun r : Ref => some (s.state r.fiber)) x.2)
    (he : Eligible tid (fun r : Ref => some (s.state r.fiber)) ft) :
    Order tid (({ s with
      fibers := q₁ ++ q₂, activeThreadCount := s.activeThreadCount + 1 }.note
        (if ft.cb.isSome then [.taken n] else [])).goto (.picked n ft)) := by
  have hsub : (q₁ ++ q₂).Sublist s.fibers := by
    rw [hq]
    exact List.Sublist.append (List.Sublist.refl _) (List.sublist_cons_self _ _)
  have hmem : (n, ft) ∈ s.fibers := by rw [hq]; simp
  have hpair := hq ▸ h.number
  -- a callback before it is pinned to another thread
  have hpin : ∀ e ∈ q₁, e.2.cb.isSome → pinned tid e.2 = true := by
    intro e hmem' hcb
    have hnone : e.2.fiber = none := h.kinds e (hsub.subset (List.mem_append_left _ hmem')) hcb
    by_contra hp
    refine hno e hmem' ((eligible_iff _ _ _).mpr ⟨by simpa using hp, ?_⟩)
    simp [executing, hnone]
  have hstarted : startedCbs (if ft.cb.isSome then [Mark.taken n] else []) = [] := by
    split <;> rfl
  have htaken : takenCbs (if ft.cb.isSome then [Mark.taken n] else []) =
      if ft.cb.isSome then [n] else [] := by
    split <;> rfl
  have hnew : ∀ k ∈ takenCbs (if ft.cb.isSome then [Mark.taken n] else []),
      k = n ∧ ft.cb.isSome := by
    intro k hk
    rw [htaken] at hk
    split at hk
    · rename_i hcb
      exact ⟨List.mem_singleton.mp hk, hcb⟩
    · cases hk
  refine ⟨h.number.sublist hsub, fun e hm => h.below e (hsub.subset hm),
    fun e hm => h.kinds e (hsub.subset hm), fun k ft' hk => ?_, ?_, fun k hk => ?_,
    fun k hk e hm hcb hp => ?_, ?_, h.notCb⟩
  · obtain ⟨rfl, rfl⟩ : n = k ∧ ft = ft' := by simpa [goto] using hk
    exact h.kinds _ hmem
  · show (takenCbs (s.log ++ _)).Pairwise _
    rw [takenCbs_append]
    refine List.pairwise_append.mpr ⟨h.sorted, ?_, fun a ha b hb => ?_⟩
    · rw [htaken]
      split <;> simp
    · obtain ⟨rfl, hcb⟩ := hnew b hb
      exact h.ahead a ha _ hmem hcb ((eligible_iff _ _ _).mp he).1
  · have hk : k ∈ takenCbs (s.log ++ _) := hk
    rw [takenCbs_append] at hk
    rcases List.mem_append.mp hk with hk | hk
    · exact h.takenBelow k hk
    · obtain ⟨rfl, -⟩ := hnew k hk
      exact h.below _ hmem
  · have hk : k ∈ takenCbs (s.log ++ _) := hk
    rw [takenCbs_append] at hk
    rcases List.mem_append.mp hk with hk | hk
    · exact h.ahead k hk e (hsub.subset hm) hcb hp
    · obtain ⟨rfl, -⟩ := hnew k hk
      have hm : e ∈ q₁ ++ q₂ := hm
      rcases List.mem_append.mp hm with hm | hm
      · rw [hpin e hm hcb] at hp
        cases hp
      · exact (List.pairwise_cons.mp (List.pairwise_append.mp hpair).2.1).1 e hm
  · show takenCbs (s.log ++ _) = startedCbs (s.log ++ _) ++ _
    rw [takenCbs_append, startedCbs_append, hstarted, htaken, List.append_nil, h.book, hpc]
    simp [pending, goto]

lemma order_plain (h : Order tid s) (hq : s'.fibers = s.fibers) (hi : s'.issued = s.issued)
    (hlog : s'.log = s.log) (hold : pending s.pc = []) (hnew : pickedRef s'.pc = none)
    (hpend : pending s'.pc = [])
    (hheap : ∀ f n, s'.state f = .init → (s'.heap f).cb ≠ some (.cb n)) : Order tid s' := by
  have hlog' : s'.log = s.log ++ [] := by rw [hlog, List.append_nil]
  refine order_step h hq hi hlog' rfl ?_ (.inl hnew) hheap
  rw [hold, hpend]
  rfl

lemma Order.pending_fiber (h : Order tid s) {n : ℕ} {ft : Entry} {r : Ref}
    (hpc : s.pc = .picked n ft) (hr : ft.fiber = some r) : pending s.pc = [] := by
  rw [hpc]
  refine if_neg fun hcb => ?_
  have hnone := h.hand n ft hpc hcb
  rw [hr] at hnone
  cases hnone

lemma Order.pending_cb {n : ℕ} {ft : Entry} (hpc : s.pc = .picked n ft) (hcb : ft.cb.isSome) :
    pending s.pc = [n] := by
  rw [hpc]
  exact if_pos hcb

lemma order_trans (hctl : Control s) (h : Order tid s) (ht : Trans tid s k s') : Order tid s' := by
  cases ht with
  | fault e hb => exact absurd hb hctl.not_broken
  | call c => exact order_call h c
  | flags autoStop stopping ha hs =>
    exact order_step h rfl rfl (List.append_nil _).symm rfl rfl (.inr rfl) h.notCb
  | take n ft q₁ q₂ hpc hq hno he => exact order_take h hpc hq hno he
  | miss hpc hno => exact order_plain h rfl rfl rfl (by rw [hpc]; rfl) rfl rfl h.notCb
  | drop n ft hpc hf hcb =>
    exact order_plain h rfl rfl rfl (by simp [hpc, pending, hcb]) rfl rfl h.notCb
  | empty n ft r hpc hr hst hcb =>
    exact order_plain h rfl rfl rfl (h.pending_fiber hpc hr) rfl rfl (notCb_update h (by simp))
  | start n ft r b hpc hr hst hcb =>
    have hstarted : startedCbs [.started r.body b] = [] := by
      cases b with
      | cb m => exact absurd hcb (h.notCb _ m hst)
      | fiber f => rfl
    refine order_step h rfl rfl rfl rfl ?_ (.inl rfl) (notCb_update h (by simp))
    rw [hstarted, h.pending_fiber hpc hr]
    rfl
  | resume n ft r b hpc hr hst hcb =>
    refine order_step h rfl rfl rfl rfl ?_ (.inl rfl) (notCb_update h (by simp))
    rw [h.pending_fiber hpc hr]
    rfl
  | reuse n ft f hpc hf hcb hc hst =>
    refine order_step h rfl rfl rfl rfl ?_ (.inl rfl) (notCb_update h (by simp))
    rw [Order.pending_cb hpc hcb]
    rfl
  | fresh n ft hpc hf hcb hc =>
    refine order_step h rfl rfl rfl rfl ?_ (.inl rfl) (notCb_update h (by simp))
    rw [Order.pending_cb hpc hcb]
    rfl
  | ret f cb hpc =>
    exact order_step h rfl rfl rfl rfl (by rw [hpc]; rfl) (.inl rfl) (notCb_update h (by simp))
  | throw f cb hpc =>
    exact order_step h rfl rfl rfl rfl (by rw [hpc]; rfl) (.inl rfl) (notCb_update h (by simp))
  | ready f cb hpc hst =>
    exact order_plain h rfl rfl rfl (by rw [hpc]; rfl) rfl rfl (notCb_update h (by simp))
  | hold f cb hpc hst =>
    exact order_step h rfl rfl rfl rfl (by rw [hpc]; rfl) (.inl rfl) h.notCb
  | this f cb thread hpc => exact order_schedule h (make_kinds _ _)
  | addEvent f cb hpc =>
    exact order_step h rfl rfl (List.append_nil _).symm rfl rfl (.inr rfl) h.notCb
  | requeue f cb hpc hst =>
    have hcount : Order tid { s with activeThreadCount := s.activeThreadCount - 1 } :=
      order_step h rfl rfl (List.append_nil _).symm rfl rfl (.inr rfl) h.notCb
    have hsched := order_schedule hcount (make_kinds (.fiber (some ⟨f, s.body f⟩)) (-1))
    have hpc' := (schedule_same { s with activeThreadCount := s.activeThreadCount - 1 }
      (make (.fiber (some ⟨f, s.body f⟩)) (-1))).2.2.2.1
    refine order_plain hsched rfl rfl rfl ?_ rfl rfl hsched.notCb
    rw [hpc']
    show pending s.pc = []
    rw [hpc]
    rfl
  | finish f hpc hst =>
    exact order_plain h rfl rfl rfl (by rw [hpc]; rfl) rfl rfl (notCb_update h (by simp))
  | quit f hpc hst => exact order_plain h rfl rfl rfl (by rw [hpc]; rfl) rfl rfl h.notCb
  | park f cb hpc hst =>
    exact order_plain h rfl rfl rfl (by rw [hpc]; rfl) rfl rfl (notCb_update h (by simp))
  | exit hpc hi => exact order_plain h rfl rfl rfl (by rw [hpc]; rfl) rfl rfl h.notCb
  | idleIn hpc hi => exact order_plain h rfl rfl rfl (by rw [hpc]; rfl) rfl rfl h.notCb
  | idleOut more hpc hi => exact order_plain h rfl rfl rfl (by rw [hpc]; rfl) rfl rfl h.notCb

/-! ### Runs -/

structure Sound (tid : ℤ) (s : Loop) : Prop where
  control : Control s
  known : Known s
  order : Order tid s

lemma sound_init (tid : ℤ) : Sound tid {} := by
  refine ⟨⟨fun f => ?_, by simp, fun _ _ => rfl, by simp, by simp, by simp, by simp⟩, ?_,
    ⟨.nil, by simp, by simp, by simp, .nil, by simp [takenCbs], by simp, rfl, by simp⟩⟩
  · exact ⟨by simp, by simp, by simp, by simp, by simp⟩
  · rintro r (⟨e, he, -⟩ | he | he) <;> cases he

lemma sound_step {a : Act} (h : Sound tid s) (hs : step tid s a = some s') : Sound tid s' := by
  have ht := step_trans hs
  exact ⟨control_trans h.control h.known ht, known_trans h.control h.known ht,
    order_trans h.control h.order ht⟩

lemma sound_run {as : List Act} (hr : Runs.run (step tid) {} as = some s) : Sound tid s :=
  Runs.run_inv (fun _ _ _ h hs => sound_step h hs) (sound_init tid) hr

lemma Sound.starts_next (h : Sound tid s) {n : ℕ} {ft : Entry} (hpc : s.pc = .picked n ft)
    (hcb : ft.cb.isSome) (more : Bool) :
    ∃ s', step tid s (.turn more) = some s' ∧
      s'.log = s.log ++ [.started (.cb n) (.cb n)] := by
  have hnone : ft.fiber = none := h.order.hand n ft hpc hcb
  have hbranch : s.branch n ft = (s.takeCbFiber n).bind fun p => p.1.swapIn p.2 true (.cb n) :=
    branch_cb (by rw [hnone]; rfl) hcb
  have hturn : step tid s (.turn more) = some (s.settle (s.branch n ft)) := by
    simp only [step, turn, hpc, Option.map_some]
  refine ⟨_, hturn, ?_⟩
  rw [hbranch]
  cases hc : s.cbFiber with
  | none =>
    rw [enterCb_fresh hc]
    rfl
  | some f =>
    have hst : s.state f = .term ∨ s.state f = .except ∨ s.state f = .init := by
      rcases (h.control.each f).spare hc with he | he | he | ⟨he, -⟩
      · rw [hpc] at he
        cases he
      · rw [hpc] at he
        cases he
      · exact .inr (.inl he)
      · exact .inr (.inr he)
    rw [enterCb_reuse hc hst]
    rfl

/-- **The worker loop is sound.** No assertion fails. The callbacks that have been taken have
been started once each, but for one in hand, which the next turn starts; they start in the order
of the queue, and pass no callback that the worker might run. -/
theorem callbacks_start_in_order (tid : ℤ) (as : List Act) (s : Loop)
    (hr : Runs.run (step tid) {} as = some s) :
    (∀ e, s.pc ≠ .fault e) ∧
    takenCbs s.log = startedCbs s.log ++ pending s.pc ∧
    (∀ n ft more, s.pc = .picked n ft → ft.cb.isSome → ∃ s', step tid s (.turn more) = some s' ∧
      startedCbs s'.log = startedCbs s.log ++ [n]) ∧
    (startedCbs s.log).Pairwise (· < ·) ∧ s.fibers.Pairwise (fun a b => a.1 < b.1) ∧
    ∀ n ∈ startedCbs s.log, ∀ e ∈ s.fibers, e.2.cb.isSome → pinned tid e.2 = false → n < e.1 := by
  have h := sound_run hr
  have hsub : (startedCbs s.log).Sublist (takenCbs s.log) := by
    rw [h.order.book]
    exact List.sublist_append_left _ _
  refine ⟨h.control.noFault, h.order.book, fun n ft more hpc hcb => ?_,
    h.order.sorted.sublist hsub, h.order.number, fun n hn => h.order.ahead n (hsub.subset hn)⟩
  obtain ⟨s', hs', hlog⟩ := h.starts_next hpc hcb more
  refine ⟨s', hs', ?_⟩
  rw [hlog, startedCbs_append]
  rfl

/-- Two callbacks, of which the first queues its own fiber and ends. -/
def twoCallbacks : List Act :=
  [.call (.schedule (.cb (some ())) (-1)), .call (.schedule (.cb (some ())) (-1)), .turn false,
    .turn false, .body (.scheduleThis (-1)), .body .ret, .turn false, .turn false, .turn false]

theorem callbacks_start_in_order_two :
    ∃ s, Runs.run (step 7) {} twoCallbacks = some s ∧ (∀ e, s.pc ≠ .fault e) ∧
      startedCbs s.log = [0, 1] := by
  have hsome : (Runs.run (step 7) {} twoCallbacks).isSome := rfl
  obtain ⟨s, hs⟩ := Option.isSome_iff_exists.mp hsome
  have hlog : (Runs.run (step 7) {} twoCallbacks).map (fun s => startedCbs s.log) =
      some [0, 1] := rfl
  rw [hs] at hlog
  exact ⟨s, hs, (callbacks_start_in_order 7 twoCallbacks s hs).1, Option.some.inj hlog⟩

end Sylar.CallbackStarts
