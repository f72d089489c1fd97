import Sylar.IoModel
import Sylar.Lib.Runs

/-!
The vector of `FdCtx` pointers and how `FdManager::get` makes a context.

A thread looks the descriptor up under the read lock, gives that lock up, and makes the context
under the write lock. It does not look again: between the two another thread may have made a
context for the same descriptor, or a longer vector.
-/

namespace Sylar.FdVector

open Lib Sylar.IoModel

/-- Where a thread is in `get`: it has found no context and is to make one. -/
inductive Thread
  | idle
  | creating (fd : Fd)
  deriving DecidableEq

structure Vec (W : Type) where
  /-- A context is told apart by the `new` that made it. -/
  datas : List (Option ℕ)
  /-- The number of contexts made so far. -/
  made : ℕ
  thread : W → Thread
  /-- The results that were not null so far. -/
  results : List (Fd × ℕ)

variable {W : Type}

/-- `std::vector::resize`: what is cut off is lost, what is new is null. -/
def resize (l : List (Option ℕ)) (size : ℕ) : List (Option ℕ) :=
  l.take size ++ List.replicate (size - l.length) none

def intSize (l : List (Option ℕ)) : ℤ := (BitVec.ofNat 32 l.length).toInt

def grownSize (fd : Fd) : ℕ := fd.val * 3 / 2

/-- The vector after the second comparison of `get`. -/
def room (l : List (Option ℕ)) (fd : Fd) : List (Option ℕ) :=
  if fd.val ≥ intSize l then resize l (grownSize fd) else l

def start : Vec W := ⟨resize [] 64, 0, fun _ => .idle, []⟩

/-- `look` is the part of `get` under the read lock, `create` the one under the write lock. -/
inductive Act (W : Type)
  | look (w : W) (fd : Fd) (auto_create : Bool)
  | create (w : W)

/-- No state follows an index past the end of the vector. -/
def step [DecidableEq W] (t : Vec W) : Act W → Option (Vec W)
  | .look w fd auto_create =>
    match t.thread w with
    | .creating _ => none
    | .idle =>
      if intSize t.datas ≤ fd.val then
        if auto_create = false then some t
        else some { t with thread := Function.update t.thread w (.creating fd) }
      else
        (t.datas[fd.val]?).map fun
          | some ctx => { t with results := (fd, ctx) :: t.results }
          | none =>
            if auto_create = false then t
            else { t with thread := Function.update t.thread w (.creating fd) }
  | .create w =>
    match t.thread w with
    | .idle => none
    | .creating fd =>
      if fd.val < (room t.datas fd).length then
        some
          { datas := (room t.datas fd).set fd.val (some t.made)
            made := t.made + 1
            thread := Function.update t.thread w .idle
            results := (fd, t.made) :: t.results }
      else none

/-! ### One resize -/

lemma length_resize (l : List (Option ℕ)) (size : ℕ) : (resize l size).length = size := by
  simp only [resize, List.length_append, List.length_take, List.length_replicate]
  omega

lemma resize_getElem? {l : List (Option ℕ)} {size : ℕ} (h : l.length ≤ size) {i c : ℕ}
    (hi : l[i]? = some (some c)) : (resize l size)[i]? = some (some c) := by
  rw [resize, List.take_of_length_le h, List.getElem?_append_left]
  · exact hi
  · exact (List.getElem?_eq_some_iff.mp hi).1

/-- What a longer or a shorter vector holds was there before. -/
lemma of_resize_getElem? {l : List (Option ℕ)} {size i c : ℕ}
    (h : (resize l size)[i]? = some (some c)) : l[i]? = some (some c) := by
  rw [resize, List.getElem?_append] at h
  split at h
  · rw [List.getElem?_take] at h
    split at h
    · exact h
    · cases h
  · rw [List.getElem?_replicate] at h
    split at h
    · simp at h
    · cases h

lemma start_none (i c : ℕ) : (start : Vec W).datas[i]? ≠ some (some c) := fun h => by
  have h := of_resize_getElem? h
  simp at h

lemma of_room_getElem? {l : List (Option ℕ)} {fd : Fd} {i c : ℕ}
    (h : (room l fd)[i]? = some (some c)) : l[i]? = some (some c) := by
  unfold room at h
  split at h
  · exact of_resize_getElem? h
  · exact h

lemma intSize_le (l : List (Option ℕ)) : intSize l ≤ l.length := by
  have hmod : l.length % 2 ^ 32 ≤ l.length := Nat.mod_le _ _
  rw [intSize, BitVec.toInt_eq_toNat_cond, BitVec.toNat_ofNat]
  split <;> omega

/-! ### One step -/

/-- All that `t` holds is in `t'`, where it was. -/
def Keeps (t t' : Vec W) : Prop :=
  t.datas.length ≤ t'.datas.length ∧
  ∀ (i c : ℕ), t.datas[i]? = some (some c) → t'.datas[i]? = some (some c)

lemma Keeps.refl (t : Vec W) : Keeps t t := ⟨le_refl _, fun _ _ h => h⟩

lemma Keeps.trans {t t' u : Vec W} (h : Keeps t t') (h' : Keeps t' u) : Keeps t u :=
  ⟨h.1.trans h'.1, fun i c hc => h'.2 i c (h.2 i c hc)⟩

/-- A thread that makes a context finds none for its descriptor, and if it resizes it makes the
vector no shorter than it finds it. -/
def Lone (t : Vec W) : Act W → Prop
  | .create w => ∀ fd, t.thread w = .creating fd →
      (∀ c, t.datas[fd.val]? ≠ some (some c)) ∧
      (fd.val ≥ intSize t.datas → t.datas.length ≤ grownSize fd)
  | .look _ _ _ => True

variable [DecidableEq W]

lemma step_cases {t t' : Vec W} {a : Act W} (hs : step t a = some t') :
    (t'.datas = t.datas ∧ t'.made = t.made ∧
      (t'.results = t.results ∨
        ∃ fd c, t.datas[fd.val]? = some (some c) ∧ t'.results = (fd, c) :: t.results)) ∨
    ∃ w fd, a = .create w ∧ t.thread w = .creating fd ∧ fd.val < (room t.datas fd).length ∧
      t'.datas = (room t.datas fd).set fd.val (some t.made) ∧ t'.made = t.made + 1 ∧
      t'.results = (fd, t.made) :: t.results := by
  cases a with
  | look w fd auto_create =>
    simp only [step] at hs
    split at hs
    · cases hs
    · refine .inl ?_
      split at hs
      · split at hs
        · obtain rfl := Option.some.inj hs
          exact ⟨rfl, rfl, .inl rfl⟩
        · obtain rfl := Option.some.inj hs
          exact ⟨rfl, rfl, .inl rfl⟩
      · obtain ⟨o, ho, rfl⟩ := Option.map_eq_some_iff.mp hs
        cases o with
        | some c => exact ⟨rfl, rfl, .inr ⟨fd, c, ho, rfl⟩⟩
        | none =>
          dsimp only
          split
          · exact ⟨rfl, rfl, .inl rfl⟩
          · exact ⟨rfl, rfl, .inl rfl⟩
  | create w =>
    simp only [step] at hs
    split at hs
    · cases hs
    · rename_i fd hw
      split at hs
      · rename_i hlt
        obtain rfl := Option.some.inj hs
        exact .inr ⟨w, fd, rfl, hw, hlt, rfl, rfl, rfl⟩
      · cases hs

lemma step_create {t : Vec W} {w : W} {fd : Fd} (hw : t.thread w = .creating fd)
    (hlt : fd.val < (room t.datas fd).length) :
    ∃ t', step t (.create w) = some t' ∧
      t'.datas = (room t.datas fd).set fd.val (some t.made) := by
  simp only [step, hw, if_pos hlt]
  exact ⟨_, rfl, rfl⟩

lemma step_keeps {t t' : Vec W} {a : Act W} (hl : Lone t a) (hs : step t a = some t') :
    Keeps t t' := by
  rcases step_cases hs with ⟨hd, -, -⟩ | ⟨w, fd, rfl, hw, hlt, hd, -, -⟩
  · rw [Keeps, hd]
    exact Keeps.refl t
  · obtain ⟨hnone, hlong⟩ := hl fd hw
    have hroom : t.datas.length ≤ (room t.datas fd).length ∧
        ∀ (i c : ℕ), t.datas[i]? = some (some c) → (room t.datas fd)[i]? = some (some c) := by
      unfold room
      split
      · rename_i hsize
        exact ⟨by rw [length_resize]; exact hlong hsize,
          fun _ _ hi => resize_getElem? (hlong hsize) hi⟩
      · exact ⟨le_refl _, fun _ _ hi => hi⟩
    rw [Keeps, hd, List.length_set]
    refine ⟨hroom.1, fun i c hi => ?_⟩
    have hne : fd.val ≠ i := by
      rintro rfl
      exact hnone c hi
    rw [List.getElem?_set_ne hne]
    exact hroom.2 i c hi

/-- What was handed out for a descriptor is what is stored for it. -/
def Stored (t : Vec W) : Prop :=
  ∀ (fd : Fd) (c : ℕ), (fd, c) ∈ t.results → t.datas[fd.val]? = some (some c)

lemma step_stored {t t' : Vec W} {a : Act W} (hst : Stored t) (hl : Lone t a)
    (hs : step t a = some t') : Stored t' := by
  have hk := step_keeps hl hs
  intro fd c hmem
  rcases step_cases hs with ⟨hd, -, hr | ⟨fd', c', hc', hr⟩⟩ | ⟨w, fd', rfl, hw, hlt, hd, -, hr⟩
  · rw [hr] at hmem
    exact hk.2 _ _ (hst fd c hmem)
  · rw [hr] at hmem
    rcases List.mem_cons.mp hmem with heq | hmem
    · obtain ⟨rfl, rfl⟩ := Prod.mk.inj heq
      exact hk.2 _ _ hc'
    · exact hk.2 _ _ (hst fd c hmem)
  · rw [hr] at hmem
    rcases List.mem_cons.mp hmem with heq | hmem
    · obtain ⟨rfl, rfl⟩ := Prod.mk.inj heq
      rw [hd, List.getElem?_set_self hlt]
    · exact hk.2 _ _ (hst fd c hmem)

def Made (t : Vec W) : Prop := ∀ (i c : ℕ), t.datas[i]? = some (some c) → c < t.made

lemma step_made (t : Vec W) (a : Act W) (t' : Vec W) (hm : Made t) (hs : step t a = some t') :
    Made t' := by
  intro i c hi
  rcases step_cases hs with ⟨hd, hmade, -⟩ | ⟨w, fd, rfl, -, hlt, hd, hmade, -⟩
  · rw [hmade]
    exact hm i c (by rwa [hd] at hi)
  · rw [hmade]
    rw [hd] at hi
    by_cases hne : fd.val = i
    · subst hne
      rw [List.getElem?_set_self hlt] at hi
      simp only [Option.some.injEq] at hi
      omega
    · rw [List.getElem?_set_ne hne] at hi
      have := hm i c (of_room_getElem? hi)
      omega

/-! ### Runs -/

lemma run_keeps {t t' : Vec W} {as : List (Act W)} (hm : Runs.Meets step Lone t as)
    (hr : Runs.run step t as = some t') : Keeps t t' :=
  Runs.run_inv_of_meets (I := Keeps t) (fun _ _ _ h hl hs => h.trans (step_keeps hl hs))
    (.refl t) hm hr

lemma run_made {t : Vec W} {as : List (Act W)} (hr : Runs.run step start as = some t) : Made t :=
  Runs.run_inv step_made (fun i c hi => absurd hi (start_none i c)) hr

/-- After the first context for a descriptor there is no other: what is stored stays where it is
and the vector never shrinks, all results for one descriptor are the same, and each thread that
makes a context writes in range. -/
def OneContext (as : List (Act W)) : Prop :=
  (∀ pre mid post t t', as = pre ++ mid ++ post → Runs.run step start pre = some t →
    Runs.run step t mid = some t' → Keeps t t') ∧
  (∀ pre post t, as = pre ++ post → Runs.run step start pre = some t →
    ∀ fd c c', (fd, c) ∈ t.results → (fd, c') ∈ t.results → c = c') ∧
  ∀ pre w post t fd, as = pre ++ .create w :: post → Runs.run step start pre = some t →
    t.thread w = .creating fd → fd.val < (room t.datas fd).length

lemma lone_of_oneContext {as : List (Act W)} (h : OneContext as) :
    Runs.Meets step Lone (start : Vec W) as := by
  obtain ⟨hkeeps, -, hrange⟩ := h
  refine Runs.meets_iff_split.mpr fun pre a post t has hr => ?_
  cases a with
  | look w fd auto_create => trivial
  | create w =>
    intro fd hw
    obtain ⟨t', hs, hd⟩ := step_create hw (hrange pre w post t fd has hr hw)
    have hk : Keeps t t' := hkeeps pre [.create w] post t t' (by simpa using has) hr
      (Runs.run_cons.mpr ⟨t', hs, rfl⟩)
    constructor
    · -- the object that is stored now is a new one
      intro c hc
      have hnew := hk.2 _ c hc
      rw [hd, List.getElem?_set_self (hrange pre w post t fd has hr hw)] at hnew
      simp only [Option.some.injEq] at hnew
      have := run_made hr _ c hc
      omega
    · intro hsize
      have hlong := hk.1
      rwa [hd, List.length_set, room, if_pos hsize, length_resize] at hlong

/-- **There is one context for a descriptor in exactly the runs in which nobody makes one that is
already there.** For any number of threads that look up and make contexts in any order: the
results for a descriptor agree, what is stored stays and the vector never shrinks, if and only
if each creation under the write lock finds no context for its descriptor and, if it resizes,
the vector no longer than the size it asks for. -/
theorem oneContext_iff_lone (as : List (Act W)) :
    OneContext as ↔ Runs.Meets step Lone (start : Vec W) as := by
  refine ⟨lone_of_oneContext, fun hm => ⟨?_, ?_, ?_⟩⟩
  · intro pre mid post t t' has hr hr'
    rw [has, List.append_assoc] at hm
    exact run_keeps (Runs.meets_append (Runs.meets_append hm hr).2 hr').1 hr'
  · intro pre post t has hr fd c c' hc hc'
    rw [has] at hm
    have hst : Stored t := Runs.run_inv_of_meets (fun _ _ _ h hl hs => step_stored h hl hs)
      (fun _ _ h => absurd h (by simp [start])) (Runs.meets_append hm hr).1 hr
    have h := (hst fd c hc).symm.trans (hst fd c' hc')
    simpa using h
  · intro pre w post t fd has hr hw
    rw [has] at hm
    obtain ⟨hpre, hl, -⟩ := Runs.meets_append hm hr
    have hlong : 64 ≤ t.datas.length := by
      have h := (run_keeps hpre hr).1
      rwa [start, length_resize] at h
    unfold room
    split
    · rename_i hsize
      have := (hl fd hw).2 hsize
      rw [length_resize]
      unfold grownSize at this ⊢
      omega
    · rename_i hsize
      have := intSize_le t.datas
      omega

/-- Two threads both find no context for descriptor 5, and each makes one. -/
theorem two_creators_differ :
    ¬ OneContext [Act.look true 5 true, .look false 5 true, .create true, .create false] :=
  fun h => by
  have hall : (Runs.run step (start : Vec Bool) [.look true 5 true, .look false 5 true,
      .create true, .create false]).map (·.results) = some [(5, 1), (5, 0)] := by decide +kernel
  obtain ⟨t, ht, hres⟩ := Option.map_eq_some_iff.mp hall
  have h10 := h.2.1 _ [] t (by simp) ht 5 1 0 (by rw [hres]; simp) (by rw [hres]; simp)
  omega

end Sylar.FdVector
