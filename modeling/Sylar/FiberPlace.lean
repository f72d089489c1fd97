import Sylar.OneFiber

/-!
Where a fiber is that several schedulers hand to each other, and how a step of a worker takes it
from one place to another.
-/

namespace Sylar.FiberPlace

open Sylar.FiberModel FiberAndThread Sylar.SchedulerModel Sylar.OneFiber

variable {K W : Type}

/-- The places a fiber can be in. Apart from its worker, if it has one, no worker has anything to do
with it, and it has at most one entry. -/
inductive Place (K W : Type)
  | absent
  | idle
  | queued (target : K) (thread : ℤ)
  | taken (k : K) (w : W)
  | runs (k : K) (w : W)
  | yields (k : K) (w : W) (target : K) (thread : ℤ)
  /-- The fiber has yielded, and its worker is on the way to write `HOLD`. -/
  | leaves (k : K) (w : W) (target : K) (thread : ℤ)
  /-- The same without an entry. -/
  | rests (k : K) (w : W)
  | ended (k : K) (w : W)
  /-- Kept as `cb_fiber` for the next callback. -/
  | spare (k : K) (w : W)
  | gone

namespace Place

def worker : Place K W → Option (K × W)
  | taken k w | runs k w | yields k w _ _ | leaves k w _ _ | rests k w | ended k w | spare k w =>
    some (k, w)
  | _ => none

def entry : Place K W → Option (K × ℤ)
  | queued k t | yields _ _ k t | leaves _ _ k t => some (k, t)
  | _ => none

def Here : Place K W → Option Role → Bool → Prop
  | taken _ _, g, b => (g = some .picked ∧ b = false) ∨ g = some (.entering b)
  | runs _ _, g, b | yields _ _ _ _, g, b => g = some (.running b)
  | leaves _ _ _ _, g, b | rests _ _, g, b => g = some (.leaving b) ∨ g = some (.hold b)
  | ended _ _, g, b => g = some (.leaving b)
  | spare _ _, g, b => g = none ∧ b = true
  | _, _, _ => False

inductive On (k : K) (w : W) : Place K W → Option Role → Bool → Prop
  | picked : On k w (taken k w) (some .picked) false
  | entering (b : Bool) : On k w (taken k w) (some (.entering b)) b
  | runs (b : Bool) : On k w (runs k w) (some (.running b)) b
  | yields (b : Bool) (target : K) (t : ℤ) : On k w (yields k w target t) (some (.running b)) b
  | leaves (b : Bool) (target : K) (t : ℤ) : On k w (leaves k w target t) (some (.leaving b)) b
  | holds (b : Bool) (target : K) (t : ℤ) : On k w (leaves k w target t) (some (.hold b)) b
  | rests (b : Bool) : On k w (rests k w) (some (.leaving b)) b
  | restsHold (b : Bool) : On k w (rests k w) (some (.hold b)) b
  | ended (b : Bool) : On k w (ended k w) (some (.leaving b)) b
  | spare : On k w (spare k w) none true

def StateOk : Place K W → Option State → Prop
  | absent, st => st = none
  | queued _ _, st | taken _ _, st => st = some .init ∨ st = some .hold
  | runs _ _, st | yields _ _ _ _, st | leaves _ _ _ _, st | rests _ _, st => st = some .exec
  | ended _ _, st => SchedulerModel.ended st = true
  | idle, st | spare _ _, st => st = some .init
  | gone, st => st ≠ none

/-- The pins of the fiber's entries in a queue. -/
def PinsAt [DecidableEq K] (p : Place K W) (k : K) : List ℤ :=
  match p.entry with
  | some (target, thread) => if target = k then [thread] else []
  | none => []

structure At [DecidableEq K] (p : Place K W) (k : K) (w : W) (x : Spot) : Prop where
  here : p.worker = some (k, w) → p.Here x.role x.keeps
  away : p.worker ≠ some (k, w) → x.role = none ∧ x.keeps = false
  state : p.StateOk x.state
  pins : x.pins = p.PinsAt k

/-- Where a step of the worker takes the fiber; `b` says whether a callback begins on it. -/
inductive Next (tid : ℤ) (k : K) (w : W) : Bool → Place K W → Place K W → Prop
  | stay (p : Place K W) : Next tid k w false p p
  | take (t : ℤ) (ht : t = -1 ∨ t = tid) : Next tid k w false (queued k t) (taken k w)
  | swapIn : Next tid k w false (taken k w) (runs k w)
  | hold (target : K) (t : ℤ) : Next tid k w false (leaves k w target t) (queued target t)
  | rest : Next tid k w false (rests k w) gone
  | park : Next tid k w false (ended k w) (spare k w)
  | quit : Next tid k w false (ended k w) gone
  | lose : Next tid k w false (spare k w) gone
  | beginNew : Next tid k w true absent (taken k w)
  | beginOld : Next tid k w true (spare k w) (taken k w)

end Place

section Places

variable [DecidableEq K] {tid : ℤ} {k : K} {w : W} {p : Place K W}

namespace Place

lemma At.of_role {x : Spot} (h : p.At k w x) {g : Role} (hg : x.role = some g) :
    p.worker = some (k, w) := by
  by_contra hne
  have hnone := (h.away hne).1
  rw [hg] at hnone
  cases hnone

/-- **What the worker has of the fiber says where the fiber is.** -/
lemma At.on {g : Option Role} {b : Bool} {st : Option State} {l : List ℤ}
    (h : p.At k w ⟨g, b, st, l⟩) (hx : g ≠ none ∨ b = true) : On k w p g b := by
  have hw : p.worker = some (k, w) := by
    by_contra hne
    obtain ⟨rfl, rfl⟩ : g = none ∧ b = false := h.away hne
    simp at hx
  have hhere : p.Here g b := h.here hw
  cases p <;> simp only [worker, reduceCtorEq, Option.some.injEq, Prod.mk.injEq] at hw
  all_goals obtain ⟨rfl, rfl⟩ := hw
  case taken =>
    rcases hhere with ⟨rfl, rfl⟩ | rfl
    · exact .picked
    · exact .entering b
  case runs =>
    obtain rfl : g = some (.running b) := hhere
    exact .runs b
  case yields target t =>
    obtain rfl : g = some (.running b) := hhere
    exact .yields b target t
  case leaves target t =>
    rcases hhere with rfl | rfl
    · exact .leaves b target t
    · exact .holds b target t
  case rests =>
    rcases hhere with rfl | rfl
    · exact .rests b
    · exact .restsHold b
  case ended =>
    obtain rfl : g = some (.leaving b) := hhere
    exact .ended b
  case spare =>
    obtain ⟨rfl, rfl⟩ := hhere
    exact .spare

lemma At.eq_runs {x : Spot} (h : p.At k w x) {cb : Bool} (hg : x.role = some (.running cb)) :
    x.keeps = cb ∧ (p = runs k w ∨ ∃ target thread, p = yields k w target thread) := by
  obtain ⟨g, b, st, l⟩ := x
  obtain rfl : g = some (.running cb) := hg
  cases h.on (.inl (by simp)) with
  | runs => exact ⟨rfl, .inl rfl⟩
  | yields _ target t => exact ⟨rfl, .inr ⟨target, t, rfl⟩⟩

lemma At.eq_entry {x : Spot} (h : p.At k w x) {l₁ l₂ : List ℤ} {t : ℤ}
    (hp : x.pins = l₁ ++ t :: l₂) : l₁ = [] ∧ l₂ = [] ∧ p.entry = some (k, t) := by
  have hpins := h.pins
  unfold PinsAt at hpins
  rw [hp] at hpins
  split at hpins
  · rename_i target thread hentry
    split at hpins
    · rename_i htarget
      subst htarget
      have hlen := congrArg List.length hpins
      simp only [List.length_append, List.length_cons, List.length_nil] at hlen
      obtain rfl : l₁ = [] := List.eq_nil_of_length_eq_zero (by omega)
      obtain rfl : l₂ = [] := List.eq_nil_of_length_eq_zero (by omega)
      obtain rfl : t = thread := by simpa using hpins
      exact ⟨rfl, rfl, hentry⟩
    · simp at hpins
  · simp at hpins

/-- **A step of a worker that does not run the fiber takes it from place to place.** -/
lemma At.next {x x' : Spot} (h : p.At k w x) (hl : Local tid x x') :
    ∃ p', Next tid k w (begins x.role x'.role) p p' ∧ p'.At k w x' := by
  cases hl with
  | same x =>
    have hno : begins x.role x.role = false := by simp [begins]
    rw [hno]
    exact ⟨p, .stay p, h⟩
  | take b st t l₁ l₂ ht hst =>
    obtain ⟨rfl, rfl, hentry⟩ := h.eq_entry rfl
    have hstate := h.state
    cases p <;> simp only [entry, reduceCtorEq, Option.some.injEq, Prod.mk.injEq] at hentry
    case queued target thread =>
      obtain ⟨rfl, rfl⟩ := hentry
      have hb : b = false := (h.away (by simp [worker])).2
      subst hb
      exact ⟨taken target w, .take thread ht, fun _ => .inl ⟨rfl, rfl⟩, by simp [worker], hstate,
        rfl⟩
    case yields => exact absurd hstate hst
    case leaves => exact absurd hstate hst
  | enter b st l =>
    cases h.on (.inl (by simp)) with
    | picked => exact ⟨taken k w, .stay _, fun _ => .inr rfl, by simp [worker], h.state, h.pins⟩
  | drop b st l hst =>
    cases h.on (.inl (by simp)) with
    | picked =>
      have hstate : st = some .init ∨ st = some .hold := h.state
      rcases hstate with rfl | rfl <;> cases hst
  | reuse g st l hg =>
    rcases hg with rfl | ⟨rfl, -⟩
    · cases h.on (.inr rfl) with
      | spare =>
        exact ⟨taken k w, .beginOld, fun _ => .inr rfl, by simp [worker], .inl rfl, h.pins⟩
    · cases h.on (.inr rfl)
  | fresh l =>
    have hstate := h.state
    cases p <;> simp only [StateOk, reduceCtorEq, or_self, ne_eq, not_true_eq_false] at hstate
    case absent =>
      exact ⟨taken k w, .beginNew, fun _ => .inr rfl, by simp [worker], .inl rfl, h.pins⟩
    case ended => cases hstate
  | swapIn cb b st l =>
    cases h.on (.inl (by simp)) with
    | entering =>
      have hpins : l = [] := h.pins
      exact ⟨runs k w, .swapIn, fun _ => rfl, by simp [worker], rfl, hpins⟩
  | toHold cb b st l hst =>
    cases h.on (.inl (by simp)) with
    | leaves => exact ⟨_, .stay _, fun _ => .inr rfl, by simp [worker], h.state, h.pins⟩
    | rests => exact ⟨_, .stay _, fun _ => .inr rfl, by simp [worker], h.state, h.pins⟩
    | ended =>
      have hstate : SchedulerModel.ended st = true := h.state
      rw [hst] at hstate
      cases hstate
  | ready cb b l =>
    cases h.on (.inl (by simp)) with
    | leaves => cases h.state
    | rests => cases h.state
    | ended => cases h.state
  | quit b st l hst =>
    cases h.on (.inl (by simp)) with
    | leaves =>
      obtain rfl : st = some .exec := h.state
      cases hst
    | rests =>
      obtain rfl : st = some .exec := h.state
      cases hst
    | ended =>
      refine ⟨gone, .quit, by simp [worker], fun _ => ⟨rfl, rfl⟩, ?_, h.pins⟩
      rintro rfl
      cases hst
  | park b st l hst =>
    cases h.on (.inl (by simp)) with
    | leaves =>
      obtain rfl : st = some .exec := h.state
      cases hst
    | rests =>
      obtain rfl : st = some .exec := h.state
      cases hst
    | ended => exact ⟨spare k w, .park, fun _ => ⟨rfl, rfl⟩, by simp [worker], rfl, h.pins⟩
  | writeHold cb b st l =>
    have hdrop : ∀ c : Bool, (c && !c) = false := by simp
    cases h.on (.inl (by simp)) with
    | holds _ target t =>
      exact ⟨queued target t, .hold target t, by simp [worker], fun _ => ⟨rfl, hdrop cb⟩,
        .inr rfl, h.pins⟩
    | restsHold =>
      exact ⟨gone, .rest, by simp [worker], fun _ => ⟨rfl, hdrop cb⟩, by simp [StateOk], h.pins⟩
  | requeue cb b st l => cases h.on (.inl (by simp))
  | lose st l =>
    cases h.on (.inr rfl) with
    | spare =>
      obtain rfl : st = some .init := h.state
      exact ⟨gone, .lose, by simp [worker], fun _ => ⟨rfl, rfl⟩, by simp [StateOk], h.pins⟩

omit [DecidableEq K] in
/-- The worker that takes the step is the only one for which anything changes. -/
lemma Next.worker_eq {b : Bool} {p' : Place K W} (h : Next tid k w b p p') {k' : K} {w' : W}
    (hne : (k', w') ≠ (k, w)) : p'.worker = some (k', w') ↔ p.worker = some (k', w') := by
  have hne' : (k, w) ≠ (k', w') := fun he => hne he.symm
  cases h <;> simp_all [worker]

lemma Next.pinsAt_eq {b : Bool} {p' : Place K W} (h : Next tid k w b p p') {k' : K}
    (hne : k' ≠ k) : p'.PinsAt k' = p.PinsAt k' := by
  cases h with
  | take t ht => simp [PinsAt, entry, Ne.symm hne]
  | _ => rfl

omit [DecidableEq K] in
/-- A place with a worker stays what it is for the others. -/
lemma Next.here {b : Bool} {p' : Place K W} (h : Next tid k w b p p') {k' : K} {w' : W}
    (hne : (k', w') ≠ (k, w)) (hw : p'.worker = some (k', w')) : p' = p := by
  have hne' : (k, w) ≠ (k', w') := fun he => hne he.symm
  cases h <;> simp_all [worker]

end Place

end Places

end Sylar.FiberPlace
