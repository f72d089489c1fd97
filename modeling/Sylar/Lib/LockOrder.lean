import Mathlib.Logic.Function.Basic
import Mathlib.Logic.Relation
import Mathlib.Tactic.Common

/-!
Threads that take locks in nested scopes, and why an order on the locks keeps them from waiting for
each other in a circle.

A program is what is left of a function when only its locks are looked at: the branches and the
number of turns of a loop are free. A lock is taken in one of two modes, and is not taken twice by
one thread unless the modes agree.
-/

namespace Lib.LockOrder

variable {L T : Type*}

inductive Mode
  | shared | exclusive
  deriving DecidableEq

def Mode.compatible : Mode → Mode → Bool
  | .shared, .shared => true
  | _, _ => false

inductive Prog (L : Type*)
  | skip
  | seq (p q : Prog L)
  | alt (p q : Prog L)
  /-- One of a family, such as the appenders of a logger. -/
  | pick (p : ℕ → Prog L)
  | loop (p : Prog L)
  /-- The scope of a guard. -/
  | locked (l : L) (m : Mode) (p : Prog L)

inductive Item (L : Type*)
  | run (p : Prog L)
  | unlock (l : L) (m : Mode)

/-- The locks a thread holds: those it has still to unlock. -/
def held : List (Item L) → List (L × Mode)
  | [] => []
  | .run _ :: k => held k
  | .unlock l m :: k => (l, m) :: held k

/-- One step of a thread. -/
inductive Move (free : L → Mode → Prop) : List (Item L) → List (Item L) → Prop
  | skip (k : List (Item L)) : Move free (.run .skip :: k) k
  | seq (p q : Prog L) (k : List (Item L)) :
      Move free (.run (.seq p q) :: k) (.run p :: .run q :: k)
  | left (p q : Prog L) (k : List (Item L)) : Move free (.run (.alt p q) :: k) (.run p :: k)
  | right (p q : Prog L) (k : List (Item L)) : Move free (.run (.alt p q) :: k) (.run q :: k)
  | pick (p : ℕ → Prog L) (i : ℕ) (k : List (Item L)) :
      Move free (.run (.pick p) :: k) (.run (p i) :: k)
  | turn (p : Prog L) (k : List (Item L)) :
      Move free (.run (.loop p) :: k) (.run p :: .run (.loop p) :: k)
  | leave (p : Prog L) (k : List (Item L)) : Move free (.run (.loop p) :: k) k
  | lock (l : L) (m : Mode) (p : Prog L) (k : List (Item L)) (h : free l m) :
      Move free (.run (.locked l m p) :: k) (.run p :: .unlock l m :: k)
  | unlock (l : L) (m : Mode) (k : List (Item L)) : Move free (.unlock l m :: k) k

/-- Nobody holds the lock in a way that keeps it from the mode. -/
def Free (c : T → List (Item L)) (l : L) (m : Mode) : Prop :=
  ∀ t m', (l, m') ∈ held (c t) → m.compatible m' = true

inductive Step [DecidableEq T] (c : T → List (Item L)) : (T → List (Item L)) → Prop
  | mk (t : T) (k : List (Item L)) (h : Move (Free c) (c t) k) : Step c (Function.update c t k)

/-- The thread `t` is at a lock that the thread `t'` keeps from it. -/
def WaitsFor (c : T → List (Item L)) (t t' : T) : Prop :=
  ∃ l m p k m', c t = .run (.locked l m p) :: k ∧ (l, m') ∈ held (c t') ∧ m.compatible m' = false

def CanMove (c : T → List (Item L)) (t : T) : Prop := ∃ k, Move (Free c) (c t) k

/-- A thread that has something to do can do it, or waits for someone. -/
lemma canMove_or_waits {c : T → List (Item L)} {t : T} (h : c t ≠ []) :
    CanMove c t ∨ ∃ t', WaitsFor c t t' := by
  unfold CanMove
  cases hc : c t with
  | nil => exact absurd hc h
  | cons i k =>
    cases i with
    | unlock l m => exact .inl ⟨k, .unlock l m k⟩
    | run p =>
      cases p with
      | skip => exact .inl ⟨k, .skip k⟩
      | seq p q => exact .inl ⟨_, .seq p q k⟩
      | alt p q => exact .inl ⟨_, .left p q k⟩
      | pick p => exact .inl ⟨_, .pick p 0 k⟩
      | loop p => exact .inl ⟨_, .leave p k⟩
      | locked l m p =>
        by_cases hfree : Free c l m
        · exact .inl ⟨_, .lock l m p k hfree⟩
        · simp only [Free, not_forall, Bool.not_eq_true] at hfree
          obtain ⟨t', m', hheld, hclash⟩ := hfree
          exact .inr ⟨t', l, m, p, k, m', hc, hheld, hclash⟩

/-! ### The order -/

section Order

variable (rank : L → ℕ)

/-- The program takes only locks of rank `n` or more, and inside a scope only higher ones. -/
def Prog.Above : ℕ → Prog L → Prop
  | _, .skip => True
  | n, .seq p q => p.Above n ∧ q.Above n
  | n, .alt p q => p.Above n ∧ q.Above n
  | n, .pick p => ∀ i, (p i).Above n
  | n, .loop p => p.Above n
  | n, .locked l _ p => n ≤ rank l ∧ p.Above (rank l + 1)

/-- One more than the highest rank that a thread holds. -/
def level : List (Item L) → ℕ
  | [] => 0
  | .run _ :: k => level k
  | .unlock l _ :: _ => rank l + 1

/-- The thread will keep the order. -/
def Ordered : List (Item L) → Prop
  | [] => True
  | .run p :: k => p.Above rank (level rank k) ∧ Ordered k
  | .unlock l _ :: k => level rank k ≤ rank l ∧ Ordered k

variable {rank}

lemma Prog.Above.mono {p : Prog L} {n n' : ℕ} (h : p.Above rank n) (hle : n' ≤ n) :
    p.Above rank n' := by
  induction p with
  | skip => trivial
  | seq p q ihp ihq => exact ⟨ihp h.1, ihq h.2⟩
  | alt p q ihp ihq => exact ⟨ihp h.1, ihq h.2⟩
  | pick p ih => exact fun i => ih i (h i)
  | loop p ih => exact ih h
  | locked l m p ih => exact ⟨Nat.le_trans hle h.1, h.2⟩

lemma Ordered.held_lt {k : List (Item L)} (h : Ordered rank k) {x : L × Mode} (hx : x ∈ held k) :
    rank x.1 < level rank k := by
  induction k with
  | nil => cases hx
  | cons i k ih =>
    cases i with
    | run p => exact ih h.2 hx
    | unlock l m =>
      rcases List.mem_cons.1 hx with rfl | hx
      · exact Nat.lt_succ_self _
      · have hlt := ih h.2 hx
        have hle := h.1
        show rank x.1 < rank l + 1
        omega

lemma Move.ordered {free : L → Mode → Prop} {k k' : List (Item L)} (hmove : Move free k k')
    (h : Ordered rank k) : Ordered rank k' := by
  cases hmove with
  | skip k => exact h.2
  | seq p q k => exact ⟨h.1.1, h.1.2, h.2⟩
  | left p q k => exact ⟨h.1.1, h.2⟩
  | right p q k => exact ⟨h.1.2, h.2⟩
  | pick p i k => exact ⟨h.1 i, h.2⟩
  | turn p k => exact ⟨h.1, h.1, h.2⟩
  | leave p k => exact h.2
  | lock l m p k hfree => exact ⟨h.1.2, h.1.1, h.2⟩
  | unlock l m k => exact h.2

lemma Step.ordered [DecidableEq T] {c c' : T → List (Item L)} (hstep : Step c c')
    (h : ∀ t, Ordered rank (c t)) (t : T) : Ordered rank (c' t) := by
  obtain ⟨t', k, hmove⟩ := hstep
  by_cases ht : t = t'
  · subst ht
    rw [Function.update_self]
    exact hmove.ordered (h t)
  · rw [Function.update_of_ne ht]
    exact h t

/-- The thread that is waited for waits for a lock of higher rank. -/
lemma WaitsFor.rank_lt {c : T → List (Item L)} (h : ∀ t, Ordered rank (c t)) {t t' : T} {l l' : L}
    {m m' : Mode} {p p' : Prog L} {k k' : List (Item L)} (hw : WaitsFor c t t')
    (ht : c t = .run (.locked l m p) :: k) (ht' : c t' = .run (.locked l' m' p') :: k') :
    rank l < rank l' := by
  obtain ⟨l₁, m₁, p₁, k₁, m₂, hc, hheld, -⟩ := hw
  obtain ⟨hi, -⟩ := List.cons.inj (ht.symm.trans hc)
  obtain ⟨rfl, -, -⟩ := Prog.locked.inj (Item.run.inj hi)
  have hord := h t'
  rw [ht'] at hord hheld
  exact Nat.lt_of_lt_of_le (hord.2.held_lt hheld) hord.1.1

lemma TransGen.rank_lt {c : T → List (Item L)} (h : ∀ t, Ordered rank (c t)) {t t' : T} {l l' : L}
    {m m' : Mode} {p p' : Prog L} {k k' : List (Item L)} (hw : Relation.TransGen (WaitsFor c) t t')
    (ht : c t = .run (.locked l m p) :: k) (ht' : c t' = .run (.locked l' m' p') :: k') :
    rank l < rank l' := by
  induction hw generalizing l' m' p' k' with
  | single hw => exact hw.rank_lt h ht ht'
  | tail _ hlast ih =>
    obtain ⟨l₁, m₁, p₁, k₁, -, hc, -⟩ := id hlast
    exact Nat.lt_trans (ih hc) (hlast.rank_lt h hc ht')

/-- **Nobody waits for itself**, however long the way round. -/
theorem acyclic {c : T → List (Item L)} (h : ∀ t, Ordered rank (c t)) (t : T) :
    ¬Relation.TransGen (WaitsFor c) t t := by
  intro hw
  obtain ⟨t', hfirst, -⟩ := Relation.TransGen.head'_iff.1 hw
  obtain ⟨l, m, p, k, -, hc, -⟩ := hfirst
  exact Nat.lt_irrefl _ (TransGen.rank_lt h hw hc hc)

/-- **Every wait leads to a thread that can move.** The induction is on the ranks above the lock
that is waited for. -/
theorem leads_to_move {c : T → List (Item L)} (h : ∀ t, Ordered rank (c t)) {N : ℕ}
    (hN : ∀ l, rank l < N) {t : T} (ht : c t ≠ []) :
    ∃ t', Relation.ReflTransGen (WaitsFor c) t t' ∧ CanMove c t' := by
  have hwait : ∀ n t, (∀ l m p k, c t = .run (.locked l m p) :: k → N ≤ rank l + n) → c t ≠ [] →
      ∃ t', Relation.ReflTransGen (WaitsFor c) t t' ∧ CanMove c t' := by
    intro n
    induction n with
    | zero =>
      intro t hle ht
      obtain hmove | ⟨t', hw⟩ := canMove_or_waits ht
      · exact ⟨t, .refl, hmove⟩
      · obtain ⟨l, m, p, k, -, hc, -⟩ := hw
        exact absurd (hle l m p k hc) (Nat.not_le.2 (hN l))
    | succ n ih =>
      intro t hle ht
      obtain hmove | ⟨t', hw⟩ := canMove_or_waits ht
      · exact ⟨t, .refl, hmove⟩
      · obtain ⟨l, m, p, k, m', hc, hheld, -⟩ := id hw
        have ht' : c t' ≠ [] := by
          intro hnil
          rw [hnil] at hheld
          cases hheld
        have hle' : ∀ l' m' p' k', c t' = .run (.locked l' m' p') :: k' → N ≤ rank l' + n := by
          intro l' m' p' k' hc'
          have hlt := hw.rank_lt h hc hc'
          have hl := hle l m p k hc
          omega
        obtain ⟨t'', hpath, hmove⟩ := ih t' hle' ht'
        exact ⟨t'', .head hw hpath, hmove⟩
  exact hwait N t (fun l m p k _ => Nat.le_add_left N _) ht

end Order

/-! ### Runs -/

/-- The threads at the start of their programs. -/
def start (p : T → Prog L) : T → List (Item L) := fun t => [.run (p t)]

variable [DecidableEq T] {rank : L → ℕ}

lemma ordered_of_reaches {p : T → Prog L} (hp : ∀ t, (p t).Above rank 0) {c : T → List (Item L)}
    (hc : Relation.ReflTransGen Step (start p) c) : ∀ t, Ordered rank (c t) := by
  induction hc with
  | refl => exact fun t => ⟨hp t, trivial⟩
  | tail _ hstep ih => exact hstep.ordered ih

/-- **The rule of the lock order.** Programs that keep an order with finitely many ranks never leave
a thread in a circle of waits, and whoever waits waits in the end for a thread that can move. -/
theorem no_deadlock {p : T → Prog L} (hp : ∀ t, (p t).Above rank 0) {N : ℕ} (hN : ∀ l, rank l < N)
    {c : T → List (Item L)} (hc : Relation.ReflTransGen Step (start p) c) (t : T) :
    ¬Relation.TransGen (WaitsFor c) t t ∧
      (c t ≠ [] → ∃ t', Relation.ReflTransGen (WaitsFor c) t t' ∧ CanMove c t') :=
  ⟨acyclic (ordered_of_reaches hp hc) t, leads_to_move (ordered_of_reaches hp hc) hN⟩

end Lib.LockOrder
