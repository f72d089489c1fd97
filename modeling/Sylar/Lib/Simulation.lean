import Mathlib.Data.List.Forall2
import Mathlib.Tactic.Common

/-!
Runs of a step function that answers, and their simulation by an abstract system.

The abstract system is a relation, so that it may leave open what the function decides. A run of
the function, seen through the names and answers of the abstract system, is a run of that.
-/

namespace Lib.Simulation

variable {S A O T B P : Type*}

/-- The state that the calls lead to, and their answers. -/
def trace (step : S → A → Option (S × O)) : S → List A → Option (S × List O)
  | s, [] => some (s, [])
  | s, a :: as =>
    (step s a).bind fun r => (trace step r.1 as).map fun q => (q.1, r.2 :: q.2)

inductive Trace (rel : T → B → P → T → Prop) : T → List B → List P → T → Prop
  | nil (t : T) : Trace rel t [] [] t
  | cons {t u v : T} {b : B} {p : P} {bs : List B} {ps : List P} (head : rel t b p u)
      (tail : Trace rel u bs ps v) : Trace rel t (b :: bs) (p :: ps) v

/-- What the calls of a run come to, with what was answered. -/
def total (f : B → P → ℕ) : List B → List P → ℕ
  | b :: bs, p :: ps => f b p + total f bs ps
  | _, _ => 0

lemma total_cons (f : B → P → ℕ) (b : B) (bs : List B) (p : P) (ps : List P) :
    total f (b :: bs) (p :: ps) = f b p + total f bs ps := rfl

lemma total_zero (bs : List B) (ps : List P) : total (fun _ _ => 0) bs ps = 0 := by
  induction bs generalizing ps with
  | nil => rfl
  | cons b bs ih =>
    cases ps with
    | nil => rfl
    | cons p ps => rw [total_cons, ih ps]

lemma total_add (f g : B → P → ℕ) (bs : List B) (ps : List P) :
    total (fun b p => f b p + g b p) bs ps = total f bs ps + total g bs ps := by
  induction bs generalizing ps with
  | nil => rfl
  | cons b bs ih =>
    cases ps with
    | nil => rfl
    | cons p ps =>
      rw [total_cons, total_cons, total_cons, ih ps]
      omega

section Function

variable {step : S → A → Option (S × O)} {s : S} {a : A} {as : List A} {q : S × List O}

lemma trace_cons : trace step s (a :: as) = some q ↔
    ∃ r q', step s a = some r ∧ trace step r.1 as = some q' ∧ q = (q'.1, r.2 :: q'.2) := by
  rw [trace, Option.bind_eq_some_iff]
  constructor
  · rintro ⟨r, hr, h⟩
    obtain ⟨q', hq', rfl⟩ := Option.map_eq_some_iff.1 h
    exact ⟨r, q', hr, hq', rfl⟩
  · rintro ⟨r, q', hr, hq', rfl⟩
    exact ⟨r, hr, by rw [hq', Option.map_some]⟩

theorem trace_inv {I : S → Prop} (hstep : ∀ s a r, I s → step s a = some r → I r.1) (h0 : I s)
    (h : trace step s as = some q) : I q.1 := by
  induction as generalizing s q with
  | nil =>
    obtain rfl := Option.some.inj h
    exact h0
  | cons a as ih =>
    obtain ⟨r, q', hr, hq', rfl⟩ := trace_cons.1 h
    exact ih (q := q') (hstep s a r h0 hr) hq'

end Function

section Relation

variable {rel : T → B → P → T → Prop} {t v : T} {b : B} {p : P} {bs : List B} {ps : List P}

/-- **The rule of accounts.** Where each step takes from a balance what it pays out, the end has
what the payments have left. -/
theorem Trace.balance {I : T → Prop} {C : B → Prop} (value : T → ℕ) {paid : B → P → ℕ}
    (hstep : ∀ t b p u, I t → C b → rel t b p u → I u ∧ value t = paid b p + value u)
    (h0 : I t) (hc : ∀ b ∈ bs, C b) (h : Trace rel t bs ps v) :
    I v ∧ value t = total paid bs ps + value v := by
  induction h with
  | nil => exact ⟨h0, (Nat.zero_add _).symm⟩
  | @cons t u v b p bs ps head tail ih =>
    obtain ⟨hu, hvalue⟩ := hstep t b p u h0 (hc b List.mem_cons_self) head
    obtain ⟨hv, hrest⟩ := ih hu fun b' hb' => hc b' (List.mem_cons_of_mem b hb')
    refine ⟨hv, ?_⟩
    rw [hvalue, hrest, total_cons, Nat.add_assoc]

lemma Trace.append_inv {bs₁ bs₂ : List B} (h : Trace rel t (bs₁ ++ bs₂) ps v) :
    ∃ ps₁ ps₂ u, ps = ps₁ ++ ps₂ ∧ bs₁.length = ps₁.length ∧ Trace rel t bs₁ ps₁ u ∧
      Trace rel u bs₂ ps₂ v := by
  induction bs₁ generalizing t ps with
  | nil => exact ⟨[], ps, t, rfl, rfl, .nil t, h⟩
  | cons b bs₁ ih =>
    cases h with
    | cons head tail =>
      obtain ⟨ps₁, ps₂, u, rfl, hlen, h₁, h₂⟩ := ih tail
      exact ⟨_ :: ps₁, ps₂, u, rfl, congrArg (· + 1) hlen, .cons head h₁, h₂⟩

end Relation

/-- **The simulation rule.** `name` and `answer` say how the calls and the answers are seen. -/
theorem simulates {step : S → A → Option (S × O)} {rel : T → B → P → T → Prop} {R : S → T → Prop}
    {name : A → B} {answer : O → P}
    (hstep : ∀ s t a r, R s t → step s a = some r → ∃ u, rel t (name a) (answer r.2) u ∧ R r.1 u)
    {s : S} {t : T} {as : List A} {q : S × List O} (h0 : R s t) (h : trace step s as = some q) :
    ∃ v, Trace rel t (as.map name) (q.2.map answer) v ∧ R q.1 v := by
  induction as generalizing s t q with
  | nil =>
    obtain rfl := Option.some.inj h
    exact ⟨t, .nil t, h0⟩
  | cons a as ih =>
    obtain ⟨r, q', hr, hq', rfl⟩ := trace_cons.1 h
    obtain ⟨u, hrel, hu⟩ := hstep s t a r h0 hr
    obtain ⟨v, hv, hR⟩ := ih hu hq'
    exact ⟨v, .cons hrel hv, hR⟩

end Lib.Simulation
