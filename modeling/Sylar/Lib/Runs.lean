import Mathlib.Data.List.Basic
import Mathlib.Tactic.Common

/-!
Runs of a partial step function.

A system is a function that takes a state and an action to the next state, or to nothing
when the action is not possible there. A run is a list of actions taken one after another;
a claim about every reachable state is proved once for a step and carried along the run.
-/

namespace Lib.Runs

variable {S A : Type*}

/-- The state the actions lead to, if each of them is possible in turn. -/
def run (step : S → A → Option S) : S → List A → Option S
  | s, [] => some s
  | s, a :: as => (step s a).bind fun s' => run step s' as

/-- Every action of the run meets `C` in the state it is taken in. -/
def Meets (step : S → A → Option S) (C : S → A → Prop) : S → List A → Prop
  | _, [] => True
  | s, a :: as => C s a ∧ ∀ s', step s a = some s' → Meets step C s' as

variable {step : S → A → Option S} {C : S → A → Prop}

@[simp] lemma run_nil (s : S) : run step s [] = some s := rfl

lemma run_cons {s s' : S} {a : A} {as : List A} :
    run step s (a :: as) = some s' ↔ ∃ m, step s a = some m ∧ run step m as = some s' := by
  simp [run, Option.bind_eq_some_iff]

lemma run_append {s s' : S} {as bs : List A} :
    run step s (as ++ bs) = some s' ↔
      ∃ m, run step s as = some m ∧ run step m bs = some s' := by
  induction as generalizing s with
  | nil => simp
  | cons a as ih =>
    simp only [List.cons_append, run_cons, ih]
    constructor
    · rintro ⟨m, hm, n, hn, hs⟩
      exact ⟨n, ⟨m, hm, hn⟩, hs⟩
    · rintro ⟨n, ⟨m, hm, hn⟩, hs⟩
      exact ⟨m, hm, n, hn, hs⟩

@[simp] lemma meets_nil (s : S) : Meets step C s [] := trivial

lemma meets_cons {s s' : S} {a : A} {as : List A} (ha : C s a) (hs : step s a = some s')
    (h : Meets step C s' as) : Meets step C s (a :: as) :=
  ⟨ha, fun n hn => by obtain rfl := Option.some.inj (hs.symm.trans hn); exact h⟩

lemma meets_append {s m : S} {as bs : List A} (h : Meets step C s (as ++ bs))
    (hr : run step s as = some m) : Meets step C s as ∧ Meets step C m bs := by
  induction as generalizing s with
  | nil =>
    obtain rfl : s = m := by simpa using hr
    exact ⟨trivial, h⟩
  | cons a as ih =>
    obtain ⟨n, hn, hr'⟩ := run_cons.mp hr
    obtain ⟨ha, hrest⟩ := h
    obtain ⟨h1, h2⟩ := ih (hrest n hn) hr'
    refine ⟨⟨ha, fun n' hn' => ?_⟩, h2⟩
    obtain rfl : n = n' := Option.some.inj (hn.symm.trans hn')
    exact h1

/-- **The invariant rule.** What every step that meets `C` preserves holds at the end of
every run whose steps all meet `C`. -/
theorem run_inv_of_meets {I : S → Prop}
    (hstep : ∀ s a s', I s → C s a → step s a = some s' → I s')
    {s s' : S} {as : List A} (h0 : I s) (hm : Meets step C s as)
    (hr : run step s as = some s') : I s' := by
  induction as generalizing s with
  | nil =>
    obtain rfl : s = s' := by simpa using hr
    exact h0
  | cons a as ih =>
    obtain ⟨n, hn, hr'⟩ := run_cons.mp hr
    exact ih (hstep s a n h0 hm.1 hn) (hm.2 n hn) hr'

/-- The same for a step that preserves the invariant without a condition. -/
theorem run_inv {I : S → Prop} (hstep : ∀ s a s', I s → step s a = some s' → I s')
    {s s' : S} {as : List A} (h0 : I s) (hr : run step s as = some s') : I s' := by
  induction as generalizing s with
  | nil =>
    obtain rfl : s = s' := by simpa using hr
    exact h0
  | cons a as ih =>
    obtain ⟨n, hn, hr'⟩ := run_cons.mp hr
    exact ih (hstep s a n h0 hn) hr'

/-- Two conditions that agree in every state the invariant allows are met by the same runs.
The invariant has to be kept by the steps that meet the conditions only. -/
theorem meets_congr_of_meets {D : S → A → Prop} {I : S → Prop}
    (hstep : ∀ s a s', I s → C s a → step s a = some s' → I s')
    (hcd : ∀ s a, I s → (C s a ↔ D s a)) {s : S} {as : List A} (h0 : I s) :
    Meets step C s as ↔ Meets step D s as := by
  induction as generalizing s with
  | nil => exact Iff.rfl
  | cons a as ih =>
    constructor
    · rintro ⟨ha, hrest⟩
      exact ⟨(hcd s a h0).mp ha, fun s' hs => (ih (hstep s a s' h0 ha hs)).mp (hrest s' hs)⟩
    · rintro ⟨ha, hrest⟩
      have ha := (hcd s a h0).mpr ha
      exact ⟨ha, fun s' hs => (ih (hstep s a s' h0 ha hs)).mpr (hrest s' hs)⟩

theorem meets_congr {D : S → A → Prop} {I : S → Prop}
    (hstep : ∀ s a s', I s → step s a = some s' → I s')
    (hcd : ∀ s a, I s → (C s a ↔ D s a)) {s : S} {as : List A} (h0 : I s) :
    Meets step C s as ↔ Meets step D s as :=
  meets_congr_of_meets (fun s a s' h _ hs => hstep s a s' h hs) hcd h0

/-- A condition is met when it holds at every moment of the run. -/
theorem meets_iff_split {s : S} {as : List A} :
    Meets step C s as ↔
      ∀ pre a post m, as = pre ++ a :: post → run step s pre = some m → C m a := by
  constructor
  · rintro h pre a post m rfl hr
    exact (meets_append h hr).2.1
  · intro h
    induction as generalizing s with
    | nil => trivial
    | cons a as ih =>
      refine ⟨h [] a as s rfl rfl, fun s' hs => ih fun pre b post m has hr => ?_⟩
      exact h (a :: pre) b post m (by rw [has]; rfl) (run_cons.mpr ⟨s', hs, hr⟩)

/-- `P` holds at every moment of the run. -/
def Always (step : S → A → Option S) (P : S → Prop) (s : S) (as : List A) : Prop :=
  ∀ pre post m, as = pre ++ post → run step s pre = some m → P m

lemma always_nil {P : S → Prop} {s : S} : Always step P s [] ↔ P s := by
  constructor
  · exact fun h => h [] [] s rfl rfl
  · rintro h pre post m hpre hr
    obtain ⟨rfl, -⟩ := List.append_eq_nil_iff.mp hpre.symm
    obtain rfl : s = m := by simpa using hr
    exact h

lemma always_cons {P : S → Prop} {s s' : S} {a : A} {as : List A} (hs : step s a = some s') :
    Always step P s (a :: as) ↔ P s ∧ Always step P s' as := by
  constructor
  · refine fun h => ⟨h [] (a :: as) s rfl rfl, fun pre post m has hr => ?_⟩
    exact h (a :: pre) post m (by rw [has]; rfl) (run_cons.mpr ⟨s', hs, hr⟩)
  · rintro ⟨h0, h⟩ pre post m has hr
    cases pre with
    | nil =>
      obtain rfl : s = m := by simpa using hr
      exact h0
    | cons b pre =>
      obtain ⟨rfl, rfl⟩ := List.cons.inj has
      obtain ⟨n, hn, hr⟩ := run_cons.mp hr
      obtain rfl := Option.some.inj (hs.symm.trans hn)
      exact h pre post m rfl hr

/-- **The exact condition.** Where each step that meets `D` from a state with `P` keeps `P` exactly
when it meets `C`, the runs of such steps that never leave `P` are those whose steps all meet
`C`. -/
theorem always_iff_meets_of_meets {D : S → A → Prop} {P I : S → Prop}
    (hstep : ∀ s a s', I s → P s → D s a → C s a → step s a = some s' → I s')
    (hiff : ∀ s a s', I s → P s → D s a → step s a = some s' → (P s' ↔ C s a))
    {s t : S} {as : List A} (h0 : I s) (hp : P s) (hd : Meets step D s as)
    (hr : run step s as = some t) : Always step P s as ↔ Meets step C s as := by
  induction as generalizing s with
  | nil =>
    rw [always_nil]
    exact ⟨fun _ => trivial, fun _ => hp⟩
  | cons a as ih =>
    obtain ⟨m, hm, hr⟩ := run_cons.mp hr
    obtain ⟨ha, hd⟩ := hd
    rw [always_cons hm]
    constructor
    · rintro ⟨-, h⟩
      have hpm : P m := h [] as m rfl rfl
      have hc := (hiff s a m h0 hp ha hm).mp hpm
      exact meets_cons hc hm ((ih (hstep s a m h0 hp ha hc hm) hpm (hd m hm) hr).mp h)
    · rintro ⟨hc, h⟩
      have hpm := (hiff s a m h0 hp ha hm).mpr hc
      exact ⟨hp, (ih (hstep s a m h0 hp ha hc hm) hpm (hd m hm) hr).mpr (h m hm)⟩

lemma meets_of_forall (h : ∀ s a, C s a) (s : S) (as : List A) : Meets step C s as := by
  induction as generalizing s with
  | nil => trivial
  | cons a as ih => exact ⟨h s a, fun s' _ => ih s'⟩

lemma meets_of_mem {P : A → Prop} {as : List A} (h : ∀ a ∈ as, P a) (s : S) :
    Meets step (fun _ a => P a) s as := by
  induction as generalizing s with
  | nil => trivial
  | cons a as ih =>
    exact ⟨h a List.mem_cons_self, fun s' _ => ih (fun b hb => h b (List.mem_cons_of_mem a hb)) s'⟩

theorem always_iff_meets {P I : S → Prop}
    (hstep : ∀ s a s', I s → P s → C s a → step s a = some s' → I s')
    (hiff : ∀ s a s', I s → P s → step s a = some s' → (P s' ↔ C s a))
    {s t : S} {as : List A} (h0 : I s) (hp : P s) (hr : run step s as = some t) :
    Always step P s as ↔ Meets step C s as :=
  always_iff_meets_of_meets (D := fun _ _ => True) (fun s a s' hi hp _ => hstep s a s' hi hp)
    (fun s a s' hi hp _ => hiff s a s' hi hp) h0 hp (meets_of_forall (fun _ _ => trivial) s as) hr

/-- What the actions of a run cost, each in the state it is taken in. -/
def cost (step : S → A → Option S) (c : S → A → ℕ) : S → List A → ℕ
  | _, [] => 0
  | s, a :: as => c s a + ((step s a).map fun s' => cost step c s' as).getD 0

/-- **The rule of potentials**, for runs that end in `Q`. Where each step pays for its cost out of a
potential, a run costs no more than the potential falls. -/
theorem cost_le {I Q : S → Prop} {c : S → A → ℕ} {potential : S → ℕ}
    (hstep : ∀ s a s', I s → step s a = some s' →
      I s' ∧ (Q s' → Q s ∧ c s a + potential s' ≤ potential s))
    {s t : S} {as : List A} (h0 : I s) (hr : run step s as = some t) (hq : Q t) :
    Q s ∧ cost step c s as + potential t ≤ potential s := by
  induction as generalizing s with
  | nil =>
    obtain rfl : s = t := by simpa using hr
    exact ⟨hq, Nat.le_of_eq (Nat.zero_add _)⟩
  | cons a as ih =>
    obtain ⟨m, hm, hr⟩ := run_cons.mp hr
    obtain ⟨hi, hpay⟩ := hstep s a m h0 hm
    obtain ⟨hqm, hrest⟩ := ih hi hr
    obtain ⟨hqs, hfirst⟩ := hpay hqm
    refine ⟨hqs, ?_⟩
    rw [cost, hm, Option.map_some, Option.getD_some]
    omega

end Lib.Runs
