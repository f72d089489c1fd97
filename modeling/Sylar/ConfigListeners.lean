import Mathlib.Logic.Function.Basic
import Sylar.Lib.Runs

/-!
A configuration variable and its listeners, with several threads that set it.

`setValue` has two sections. In the first it holds the read lock, compares, and calls every
listener; in the second it holds the write lock and assigns. Between them it holds no lock.
-/

namespace Sylar.ConfigListeners

open Lib.Runs

variable {T W L : Type}

/-- Where a thread is: not in a call, in the loop over the listeners with those that are still to
be called, or past the first section. -/
inductive Pc (T L : Type)
  | idle
  | notify (v : T) (rest : List L)
  | assign (v : T)

/-- The variable: its value, the holders of the read lock, the threads, and what each listener
was given last as the new value. -/
structure ConfigVar (T W L : Type) where
  val : T
  readers : ℕ
  pc : W → Pc T L
  told : L → Option T

def start (val : T) : ConfigVar T W L := ⟨val, 0, fun _ => .idle, fun _ => none⟩

inductive Act (T W : Type)
  /-- The thread calls `setValue(v)`, takes the read lock and compares. -/
  | setValue (t : W) (v : T)
  /-- The next listener is called. -/
  | callback (t : W)
  /-- The loop is over and the read lock is released. -/
  | unlock (t : W)
  /-- The write lock is free for this thread: it assigns, and the call returns. -/
  | assign (t : W)

/-- One step of a thread. `cbs` is `cbs_`, in the order of its keys. -/
def step [DecidableEq T] [DecidableEq W] [DecidableEq L] (cbs : List L) (s : ConfigVar T W L) :
    Act T W → Option (ConfigVar T W L)
  | .setValue t v =>
    match s.pc t with
    | .idle =>
      if v = s.val then some s
      else some { s with readers := s.readers + 1, pc := Function.update s.pc t (.notify v cbs) }
    | _ => none
  | .callback t =>
    match s.pc t with
    | .notify v (l :: rest) =>
      some { s with
        pc := Function.update s.pc t (.notify v rest)
        told := Function.update s.told l (some v) }
    | _ => none
  | .unlock t =>
    match s.pc t with
    | .notify v [] =>
      some { s with readers := s.readers - 1, pc := Function.update s.pc t (.assign v) }
    | _ => none
  | .assign t =>
    match s.pc t with
    | .assign v =>
      if s.readers = 0 then some { s with val := v, pc := Function.update s.pc t .idle } else none
    | _ => none

/-- While no call is in progress, what each listener was given last is the value. -/
def Agree (s : ConfigVar T W L) : Prop :=
  (∀ t, s.pc t = .idle) → ∀ l v, s.told l = some v → v = s.val

/-- No call gets past its comparison while another one is in progress. -/
def Alone (s : ConfigVar T W L) : Act T W → Prop
  | .setValue t v => v ≠ s.val → ∀ t' ≠ t, s.pc t' = .idle
  | _ => True

variable {cbs : List L} {s s' : ConfigVar T W L} {a : Act T W}

/-- A thread that is in a call makes the agreement hold for now. -/
lemma agree_of_busy {t : W} (h : s.pc t ≠ .idle) : Agree s :=
  fun hidle => absurd (hidle t) h

section Step

variable [DecidableEq T] [DecidableEq W] [DecidableEq L]

lemma step_cases (h : step cbs s a = some s') :
    (∃ t, a = .setValue t s.val ∧ s' = s) ∨
    (∃ t v, a = .setValue t v ∧ s.pc t = .idle ∧ v ≠ s.val ∧ s' = { s with
      readers := s.readers + 1, pc := Function.update s.pc t (.notify v cbs) }) ∨
    (∃ t v l rest, a = .callback t ∧ s.pc t = .notify v (l :: rest) ∧ s' = { s with
      pc := Function.update s.pc t (.notify v rest)
      told := Function.update s.told l (some v) }) ∨
    (∃ t v, a = .unlock t ∧ s.pc t = .notify v [] ∧ s' = { s with
      readers := s.readers - 1, pc := Function.update s.pc t (.assign v) }) ∨
    (∃ t v, a = .assign t ∧ s.pc t = .assign v ∧ s' = { s with
      val := v, pc := Function.update s.pc t .idle }) := by
  cases a with
  | setValue t v =>
    simp only [step] at h
    split at h
    · rename_i hpc
      split at h
      · rename_i heq
        cases h
        exact .inl ⟨t, by rw [heq], rfl⟩
      · rename_i hne
        cases h
        exact .inr (.inl ⟨t, v, rfl, hpc, hne, rfl⟩)
    · cases h
  | callback t =>
    simp only [step] at h
    split at h
    · rename_i v l rest hpc
      cases h
      exact .inr (.inr (.inl ⟨t, v, l, rest, rfl, hpc, rfl⟩))
    · cases h
  | unlock t =>
    simp only [step] at h
    split at h
    · rename_i v hpc
      cases h
      exact .inr (.inr (.inr (.inl ⟨t, v, rfl, hpc, rfl⟩)))
    · cases h
  | assign t =>
    simp only [step] at h
    split at h
    · rename_i v hpc
      split at h
      · cases h
        exact .inr (.inr (.inr (.inr ⟨t, v, rfl, hpc, rfl⟩)))
      · cases h
    · cases h

end Step

/-! ### Calls that do not overlap -/

/-- One thread at most is in a call. The listeners that its loop is past have its value, and no
others were given anything but those that are installed. -/
inductive Solo (cbs : List L) (s : ConfigVar T W L) : Prop
  | quiet (idle : ∀ t, s.pc t = .idle) (told : ∀ l v, s.told l = some v → v = s.val)
      (installed : ∀ l v, s.told l = some v → l ∈ cbs)
  | notify (t : W) (v : T) (rest : List L) (pc : s.pc t = .notify v rest)
      (others : ∀ t' ≠ t, s.pc t' = .idle) (sub : rest ⊆ cbs)
      (past : ∀ l ∈ cbs, l ∉ rest → s.told l = some v)
      (installed : ∀ l v, s.told l = some v → l ∈ cbs)
  | assign (t : W) (v : T) (pc : s.pc t = .assign v) (others : ∀ t' ≠ t, s.pc t' = .idle)
      (told : ∀ l v', s.told l = some v' → v' = v)
      (installed : ∀ l v, s.told l = some v → l ∈ cbs)

lemma Solo.agree (h : Solo cbs s) : Agree s := by
  cases h with
  | quiet idle told => exact fun _ => told
  | notify t v rest pc => exact agree_of_busy (t := t) (by simp [pc])
  | assign t v pc => exact agree_of_busy (t := t) (by simp [pc])

lemma Solo.installed (h : Solo cbs s) : ∀ l v, s.told l = some v → l ∈ cbs := by
  cases h <;> assumption

lemma Solo.of_notify (h : Solo cbs s) {t : W} {v : T} {rest : List L}
    (hpc : s.pc t = .notify v rest) :
    (∀ t' ≠ t, s.pc t' = .idle) ∧ rest ⊆ cbs ∧ ∀ l ∈ cbs, l ∉ rest → s.told l = some v := by
  cases h with
  | quiet idle => simp [idle] at hpc
  | notify t' v' rest' pc others sub past =>
    by_cases ht : t = t'
    · subst ht
      rw [pc] at hpc
      cases hpc
      exact ⟨others, sub, past⟩
    · simp [others t ht] at hpc
  | assign t' v' pc others =>
    by_cases ht : t = t'
    · simp [ht, pc] at hpc
    · simp [others t ht] at hpc

lemma Solo.of_assign (h : Solo cbs s) {t : W} {v : T} (hpc : s.pc t = .assign v) :
    (∀ t' ≠ t, s.pc t' = .idle) ∧ ∀ l v', s.told l = some v' → v' = v := by
  cases h with
  | quiet idle => simp [idle] at hpc
  | notify t' v' rest' pc others =>
    by_cases ht : t = t'
    · simp [ht, pc] at hpc
    · simp [others t ht] at hpc
  | assign t' v' pc others told =>
    by_cases ht : t = t'
    · subst ht
      rw [pc] at hpc
      cases hpc
      exact ⟨others, told⟩
    · simp [others t ht] at hpc

variable [DecidableEq T] [DecidableEq W] [DecidableEq L]

lemma solo_step (hs : Solo cbs s) (ha : Alone s a) (h : step cbs s a = some s') :
    Solo cbs s' := by
  have hinstalled := hs.installed
  have hupdate : ∀ {t : W} (pc : Pc T L), (∀ t' ≠ t, s.pc t' = .idle) →
      ∀ t' ≠ t, Function.update s.pc t pc t' = .idle :=
    fun pc others t' ht' => by rw [Function.update_of_ne ht', others t' ht']
  obtain ⟨t, rfl, rfl⟩ | ⟨t, v, rfl, -, hne, rfl⟩ | ⟨t, v, l, rest, rfl, hpc, rfl⟩ |
    ⟨t, v, rfl, hpc, rfl⟩ | ⟨t, v, rfl, hpc, rfl⟩ := step_cases h
  · exact hs
  · exact .notify t v cbs (Function.update_self ..) (hupdate _ (ha hne)) (List.Subset.refl _)
      (fun l hl hnl => absurd hl hnl) hinstalled
  · obtain ⟨others, sub, past⟩ := hs.of_notify hpc
    refine .notify t v rest (Function.update_self ..) (hupdate _ others)
      (fun l' hl' => sub (List.mem_cons_of_mem _ hl')) ?_ ?_
    · intro l' hl' hnl'
      by_cases heq : l' = l
      · simp [heq]
      · simpa [heq] using past l' hl' (by simp [heq, hnl'])
    · intro l' v' htold
      by_cases heq : l' = l
      · exact heq ▸ sub List.mem_cons_self
      · exact hinstalled l' v' (by simpa [heq] using htold)
  · obtain ⟨others, -, past⟩ := hs.of_notify hpc
    refine .assign t v (Function.update_self ..) (hupdate _ others) ?_ hinstalled
    intro l v' htold
    have := past l (hinstalled l v' htold) List.not_mem_nil
    exact Option.some.inj (htold.symm.trans this)
  · obtain ⟨others, told⟩ := hs.of_assign hpc
    refine .quiet (fun t' => ?_) told hinstalled
    by_cases ht' : t' = t
    · simp [ht']
    · simp [ht', others t' ht']

/-- **The listeners agree with the value in every run in which no two calls overlap**: in every
state of it with no call in progress, what a listener was given last is the value. -/
theorem agree_of_alone (cbs : List L) (val : T) {acts : List (Act T W)}
    (hm : Meets (step cbs) Alone (start (W := W) val) acts) :
    Always (step cbs) Agree (start (W := W) val) acts := by
  rintro pre post m rfl hpre
  have hsolo : Solo cbs (start (W := W) val) := .quiet (fun _ => rfl) nofun nofun
  exact (run_inv_of_meets (fun _ _ _ => solo_step) hsolo (meets_append hm hpre).1 hpre).agree

/-- Two threads set the variable one after the other. -/
theorem agree_twice :
    (∃ s', run (step [()]) (start (W := Bool) (0 : ℕ))
      [.setValue true 1, .callback true, .unlock true, .assign true,
        .setValue false 2, .callback false, .unlock false, .assign false] = some s') ∧
    Always (step [()]) Agree (start (W := Bool) (0 : ℕ))
      [.setValue true 1, .callback true, .unlock true, .assign true,
        .setValue false 2, .callback false, .unlock false, .assign false] := by
  refine ⟨⟨_, rfl⟩, agree_of_alone [()] 0 ?_⟩
  have hothers : ∀ (pc : Bool → Pc ℕ Unit), pc true = .idle → ∀ t' ≠ false, pc t' = .idle := by
    intro pc h t' ht'
    rwa [eq_true_of_ne_false ht']
  exact meets_cons (fun _ _ _ => rfl) rfl <| meets_cons trivial rfl <| meets_cons trivial rfl <|
    meets_cons trivial rfl <| meets_cons (fun _ => hothers _ rfl) rfl <| meets_cons trivial rfl <|
    meets_cons trivial rfl <| meets_cons trivial rfl <| meets_nil _

/-- **Two calls that overlap.** Both threads are in the loop, and the one that calls the listener
last assigns first: the listener was given 2, and the variable is 1. -/
theorem overlap_disagrees : ∃ s', run (step [()]) (start (W := Bool) (0 : ℕ))
    [.setValue true 1, .setValue false 2, .callback true, .callback false, .unlock true,
      .unlock false, .assign false, .assign true] = some s' ∧ ¬ Agree s' := by
  refine ⟨_, rfl, fun h => ?_⟩
  have := h (fun t => by cases t <;> rfl) () 2 rfl
  cases this

end Sylar.ConfigListeners
