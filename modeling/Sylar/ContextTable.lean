import Sylar.IoModel
import Sylar.Lib.Runs

/-!
The vector of `FdContext` pointers and how `addEvent` makes it longer.

A thread compares the size under the read lock, gives that lock up, and resizes under the
write lock. Between the two another thread may have made the vector longer than the size it
is now given.
-/

namespace Sylar.ContextTable

open Lib Sylar.IoModel

/-- An `FdContext`, told apart by the `new` that made it. -/
structure Context where
  id : ℕ
  fd : ℕ
  deriving DecidableEq

/-- Where a thread is in `addEvent`: it has found the vector too short, or it has its
pointer. -/
inductive Thread
  | idle
  | growing (fd : Fd)
  | has (fd : Fd) (fd_ctx : Option Context)
  deriving DecidableEq

structure Tab (W : Type) where
  fdContexts : List (Option Context)
  /-- The number of contexts made so far. -/
  made : ℕ
  thread : W → Thread

variable {W : Type}

/-- `std::vector::resize`: what is cut off is lost, what is new is null. -/
def resize (l : List (Option Context)) (size : ℕ) : List (Option Context) :=
  l.take size ++ List.replicate (size - l.length) none

/-- The loop of `contextResize` from index `i` on. -/
def fill (made i : ℕ) : List (Option Context) → ℕ × List (Option Context)
  | [] => (made, [])
  | some c :: l => ((fill made (i + 1) l).1, some c :: (fill made (i + 1) l).2)
  | none :: l =>
    ((fill (made + 1) (i + 1) l).1, some ⟨made, i⟩ :: (fill (made + 1) (i + 1) l).2)

def contextResize (t : Tab W) (size : ℕ) : Tab W :=
  { t with
    made := (fill t.made 0 (resize t.fdContexts size)).1
    fdContexts := (fill t.made 0 (resize t.fdContexts size)).2 }

def intSize (t : Tab W) : ℤ := (BitVec.ofNat 32 t.fdContexts.length).toInt

def grownSize (fd : Fd) : ℕ := fd.val * 3 / 2

def start : Tab W := contextResize ⟨[], 0, fun _ => .idle⟩ 32

/-- `look` is the part of `addEvent` under the read lock, `grow` the one under the write
lock, `find` the lookup of `delEvent`, `cancelEvent` and `cancelAll`. -/
inductive Act (W : Type)
  | look (w : W) (fd : Fd)
  | grow (w : W)
  | find (w : W) (fd : Fd)

/-- No state follows a read past the end of the vector. -/
def step [DecidableEq W] (t : Tab W) : Act W → Option (Tab W)
  | .look w fd =>
    match t.thread w with
    | .growing _ => none
    | _ =>
      if intSize t > fd.val then
        (t.fdContexts[fd.val]?).map fun fd_ctx =>
          { t with thread := Function.update t.thread w (.has fd fd_ctx) }
      else some { t with thread := Function.update t.thread w (.growing fd) }
  | .grow w =>
    match t.thread w with
    | .growing fd =>
      ((contextResize t (grownSize fd)).fdContexts[fd.val]?).map fun fd_ctx =>
        { contextResize t (grownSize fd) with
          thread := Function.update t.thread w (.has fd fd_ctx) }
    | _ => none
  | .find w fd =>
    match t.thread w with
    | .growing _ => none
    | _ =>
      if intSize t ≤ fd.val then some { t with thread := Function.update t.thread w .idle }
      else (t.fdContexts[fd.val]?).map fun fd_ctx =>
        { t with thread := Function.update t.thread w (.has fd fd_ctx) }

/-! ### One resize -/

lemma length_fill (made i : ℕ) (l : List (Option Context)) :
    (fill made i l).2.length = l.length := by
  induction l generalizing made i with
  | nil => rfl
  | cons c l ih => cases c <;> simp [fill, ih]

lemma fill_getElem? (made i : ℕ) (l : List (Option Context)) {j : ℕ} {c : Context}
    (h : l[j]? = some (some c)) : (fill made i l).2[j]? = some (some c) := by
  induction l generalizing made i j with
  | nil => simp at h
  | cons d l ih =>
    cases j with
    | zero =>
      obtain rfl : d = some c := by simpa using h
      rfl
    | succ j =>
      have h : l[j]? = some (some c) := by simpa using h
      cases d with
      | none => simpa [fill] using ih (made + 1) (i + 1) h
      | some d => simpa [fill] using ih made (i + 1) h

lemma length_contextResize (t : Tab W) (size : ℕ) :
    (contextResize t size).fdContexts.length = size := by
  simp only [contextResize, length_fill, resize, List.length_append, List.length_take,
    List.length_replicate]
  omega

lemma contextResize_getElem? (t : Tab W) {size j : ℕ} {c : Context} (hj : j < size)
    (h : t.fdContexts[j]? = some (some c)) :
    (contextResize t size).fdContexts[j]? = some (some c) := by
  have hlen : j < t.fdContexts.length := (List.getElem?_eq_some_iff.mp h).1
  refine fill_getElem? _ _ _ ?_
  rw [resize, List.getElem?_append_left (by rw [List.length_take]; omega),
    List.getElem?_take_of_lt hj]
  exact h

/-! ### Runs -/

/-- The table `t'` has all the contexts of `t`, where they were. -/
def Extends (t t' : Tab W) : Prop :=
  t.fdContexts.length ≤ t'.fdContexts.length ∧
  ∀ (i : ℕ) (c : Context), t.fdContexts[i]? = some (some c) → t'.fdContexts[i]? = some (some c)

lemma Extends.refl (t : Tab W) : Extends t t := ⟨le_refl _, fun _ _ h => h⟩

lemma Extends.trans {t t' u : Tab W} (h : Extends t t') (h' : Extends t' u) : Extends t u :=
  ⟨h.1.trans h'.1, fun i c hc => h'.2 i c (h.2 i c hc)⟩

/-- A thread that resizes makes the vector no shorter than it finds it. -/
def Grows (t : Tab W) : Act W → Prop
  | .grow w => ∀ fd, t.thread w = .growing fd → t.fdContexts.length ≤ grownSize fd
  | _ => True

lemma extends_contextResize {t : Tab W} {size : ℕ} (h : t.fdContexts.length ≤ size) :
    Extends t (contextResize t size) := by
  refine ⟨by rwa [length_contextResize], fun i c hc => contextResize_getElem? t ?_ hc⟩
  have := (List.getElem?_eq_some_iff.mp hc).1
  omega

variable [DecidableEq W]

lemma step_fdContexts {t t' : Tab W} {a : Act W} (hs : step t a = some t') :
    t'.fdContexts = t.fdContexts ∨ ∃ w fd, a = .grow w ∧ t.thread w = .growing fd ∧
      t'.fdContexts = (contextResize t (grownSize fd)).fdContexts := by
  cases a with
  | look w fd =>
    simp only [step] at hs
    split at hs
    · cases hs
    · split at hs
      · obtain ⟨c, -, rfl⟩ := Option.map_eq_some_iff.mp hs
        exact .inl rfl
      · obtain rfl := Option.some.inj hs
        exact .inl rfl
  | grow w =>
    simp only [step] at hs
    split at hs
    · rename_i fd hw
      obtain ⟨c, -, rfl⟩ := Option.map_eq_some_iff.mp hs
      exact .inr ⟨w, fd, rfl, hw, rfl⟩
    · cases hs
  | find w fd =>
    simp only [step] at hs
    split at hs
    · cases hs
    · split at hs
      · obtain rfl := Option.some.inj hs
        exact .inl rfl
      · obtain ⟨c, -, rfl⟩ := Option.map_eq_some_iff.mp hs
        exact .inl rfl

lemma step_extends {t t' : Tab W} {a : Act W} (hg : Grows t a) (hs : step t a = some t') :
    Extends t t' := by
  rcases step_fdContexts hs with h | ⟨w, fd, rfl, hw, h⟩
  · rw [Extends, h]
    exact Extends.refl t
  · rw [Extends, h]
    exact extends_contextResize (hg fd hw)

lemma run_extends {t t' : Tab W} {as : List (Act W)} (hm : Runs.Meets step Grows t as)
    (hr : Runs.run step t as = some t') : Extends t t' :=
  Runs.run_inv_of_meets (I := Extends t) (fun _ _ _ h hg hs => h.trans (step_extends hg hs))
    (.refl t) hm hr

/-- The table loses nothing between any two moments of a run, and each thread that resizes
finds its descriptor in range. -/
def NeverLoses (as : List (Act W)) : Prop :=
  (∀ pre mid post t t', as = pre ++ mid ++ post → Runs.run step start pre = some t →
    Runs.run step t mid = some t' → Extends t t') ∧
  ∀ pre w post t fd, as = pre ++ .grow w :: post → Runs.run step start pre = some t →
    t.thread w = .growing fd → fd.val < (contextResize t (grownSize fd)).fdContexts.length

/-- **The table never loses an entry in exactly the runs in which every resize finds the
vector no longer than the size it asks for.** -/
theorem neverLoses_iff_grows (as : List (Act W)) :
    NeverLoses as ↔ Runs.Meets step Grows (start : Tab W) as := by
  constructor
  · rintro ⟨hext, hrange⟩
    refine Runs.meets_iff_split.mpr fun pre a post t has hr => ?_
    cases a with
    | look w fd => trivial
    | find w fd => trivial
    | grow w =>
      intro fd hw
      -- the descriptor is in range, so the step is taken and the vector may not get shorter
      have hlt := hrange pre w post t fd has hr hw
      have hget := List.getElem?_eq_getElem hlt
      obtain ⟨t', hs⟩ : ∃ t', step t (.grow w) = some t' := by
        simp only [step, hw, hget, Option.map_some]
        exact ⟨_, rfl⟩
      have hle := (hext pre [.grow w] post t t' (by simpa using has) hr
        (Runs.run_cons.mpr ⟨t', hs, rfl⟩)).1
      simp only [step, hw, hget, Option.map_some, Option.some.injEq] at hs
      rwa [← hs, length_contextResize] at hle
  · intro hm
    refine ⟨fun pre mid post t t' has hr hr' => ?_, fun pre w post t fd has hr hw => ?_⟩
    · rw [has, List.append_assoc] at hm
      exact run_extends (Runs.meets_append (Runs.meets_append hm hr).2 hr').1 hr'
    · rw [has] at hm
      obtain ⟨hpre, hg, -⟩ := Runs.meets_append hm hr
      have hlong := (run_extends hpre hr).1
      have hstart : (start : Tab W).fdContexts.length = 32 := length_contextResize _ 32
      have hsize := hg fd hw
      rw [length_contextResize]
      unfold grownSize at hsize ⊢
      omega

/-- Two threads find the vector of 32 too short, for 100 and for 40. -/
theorem second_growth_cuts_the_first :
    ¬ NeverLoses [Act.look true 40, .look false 100, .grow false, .grow true] := fun h => by
  have hall : (Runs.run step (start : Tab Bool) ([.look true 40, .look false 100, .grow false] ++
      [.grow true])).map (·.fdContexts.length) = some 60 := by decide +kernel
  have hpre : (Runs.run step (start : Tab Bool) [.look true 40, .look false 100,
      .grow false]).map (·.fdContexts.length) = some 150 := by decide +kernel
  obtain ⟨t', ht', hlen'⟩ := Option.map_eq_some_iff.mp hall
  obtain ⟨t, ht, hlast⟩ := Runs.run_append.mp ht'
  rw [ht] at hpre
  have hlen : t.fdContexts.length = 150 := by simpa using hpre
  have hle := (h.1 _ [.grow true] [] t t' rfl ht hlast).1
  omega

end Sylar.ContextTable
