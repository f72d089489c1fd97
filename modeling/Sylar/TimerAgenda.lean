import Sylar.TimerExpiry
import Sylar.Lib.Simulation
import Mathlib.Data.List.Nodup

/-!
What the timer manager is for: it keeps an agenda, from which a timer is struck when it is cancelled
or has expired for the last time.

The agenda knows nothing of the set, the addresses and the objects that are gone. Where several
timers expire at once it says no more of their order than that the deadlines do not decrease.
-/

namespace Sylar.TimerAgenda

open Lib Lib.Simulation Sylar.TimerModel Sylar.TimerInv Sylar.TimerExpiry TimerManager

variable {C : Type}

inductive Call (C : Type)
  | addTimer (ms : UInt64) (cb : C) (recurring : Bool) (now : UInt64)
  | cancel (t : ℕ)
  | refresh (t : ℕ) (now : UInt64)
  | reset (t : ℕ) (ms : UInt64) (from_now : Bool) (now : UInt64)
  | getNextTimer (now : UInt64)
  | listExpiredCb (now : UInt64)
  | hasTimer

inductive Answer (C : Type)
  | timer (t : ℕ)
  | bool (b : Bool)
  | time (d : UInt64)
  | cbs (cbs : List (Option C))

/-! ### The agenda -/

structure Entry (C : Type) where
  recurring : Bool
  ms : UInt64
  next : UInt64
  cb : C

structure Agenda (C : Type) where
  entry : ℕ → Option (Entry C)
  made : ℕ
  previouse : UInt64

namespace Agenda

variable (a : Agenda C)

def write (t : ℕ) (e : Option (Entry C)) : Agenda C :=
  { a with entry := Function.update a.entry t e }

/-- The clock has been put back by more than an hour, as `detectClockRollover` sees it. -/
def Rollover (now : UInt64) : Prop := now < a.previouse ∧ now < a.previouse - 60 * 60 * 1000

def Due (now : UInt64) (t : ℕ) : Prop := ∃ e, a.entry t = some e ∧ (a.Rollover now ∨ e.next ≤ now)

open Classical in
/-- The timers that are due are struck or come again. The clock is looked at if there is a timer. -/
noncomputable def expire (now : UInt64) : Agenda C where
  entry t := if a.Due now t then
      (a.entry t).bind fun e => if e.recurring then some { e with next := now + e.ms } else none
    else a.entry t
  made := a.made
  previouse := if ∃ t, a.entry t ≠ none then now else a.previouse

section Expire

variable {a} {now : UInt64} {t : ℕ} {e : Entry C}

lemma expire_of_due (h : a.Due now t) (he : a.entry t = some e) :
    (a.expire now).entry t = if e.recurring then some { e with next := now + e.ms } else none := by
  refine (if_pos h).trans ?_
  rw [he, Option.bind_some]

lemma expire_of_not_due (h : ¬a.Due now t) : (a.expire now).entry t = a.entry t := if_neg h

end Expire

/-- How long it is until the next deadline. -/
inductive Wait (now : UInt64) : UInt64 → Prop
  | never (h : ∀ t, a.entry t = none) : Wait now (~~~0)
  | now {t : ℕ} {e : Entry C} (h : a.entry t = some e) (hle : e.next ≤ now) : Wait now 0
  | later {t : ℕ} {e : Entry C} (h : a.entry t = some e) (hlt : now < e.next)
      (hmin : ∀ t' e', a.entry t' = some e' → e.next ≤ e'.next) : Wait now (e.next - now)

end Agenda

/-- What a call does to the agenda and answers. -/
inductive Step : Agenda C → Call C → Answer C → Agenda C → Prop
  | addTimer (a : Agenda C) (ms : UInt64) (cb : C) (recurring : Bool) (now : UInt64) :
      Step a (.addTimer ms cb recurring now) (.timer a.made)
        { a.write a.made (some ⟨recurring, ms, now + ms, cb⟩) with made := a.made + 1 }
  | cancel (a : Agenda C) (t : ℕ) (h : t < a.made) :
      Step a (.cancel t) (.bool (a.entry t).isSome) (a.write t none)
  | refresh (a : Agenda C) (t : ℕ) (now : UInt64) (h : t < a.made) :
      Step a (.refresh t now) (.bool (a.entry t).isSome)
        (a.write t ((a.entry t).map fun e => { e with next := now + e.ms }))
  /-- Without `from_now` the deadline stays; the answer may be `true` for a timer that is gone. -/
  | reset (a : Agenda C) (t : ℕ) (ms : UInt64) (from_now : Bool) (now : UInt64) (b : Bool)
      (h : t < a.made) (hb : (a.entry t).isSome = true → b = true)
      (hfrom : from_now = true → b = (a.entry t).isSome) :
      Step a (.reset t ms from_now now) (.bool b)
        (a.write t ((a.entry t).map fun e =>
          { e with ms := ms, next := if from_now then now + ms else e.next }))
  | getNextTimer (a : Agenda C) (now d : UInt64) (h : a.Wait now d) :
      Step a (.getNextTimer now) (.time d) a
  | listExpiredCb (a : Agenda C) (now : UInt64) (due : List (ℕ × Entry C))
      (hmem : ∀ t e, (t, e) ∈ due ↔ a.entry t = some e ∧ a.Due now t)
      (hnodup : (due.map Prod.fst).Nodup)
      (hsorted : due.Pairwise fun x y => x.2.next ≤ y.2.next) :
      Step a (.listExpiredCb now) (.cbs (due.map fun x => some x.2.cb)) (a.expire now)
  | hasTimer (a : Agenda C) (b : Bool) (hb : b = true ↔ ∃ t, a.entry t ≠ none) :
      Step a .hasTimer (.bool b) a

/-! ### The manager -/

/-- The call, and the address of the timer that it makes. A new object is not at the address of a
member; a call on a timer needs the timer. -/
def call (m : TimerManager C) : Call C × ℕ → Option (TimerManager C × Answer C)
  | (.addTimer ms cb recurring now, addr) =>
    if ∀ t ∈ m.timers, (m.heap t).addr ≠ addr then
      let r := m.addTimer ms (some cb) recurring now addr
      some (r.1, .timer r.2.1)
    else none
  | (.cancel t, _) =>
    if t < m.made then
      match m.cancel t with
      | .ok r => some (r.1, .bool r.2)
      | .error _ => none
    else none
  | (.refresh t now, _) =>
    if t < m.made then some ((m.refresh t now).1, .bool (m.refresh t now).2) else none
  | (.reset t ms from_now now, _) =>
    if t < m.made then
      some ((m.reset t ms from_now now).1, .bool (m.reset t ms from_now now).2.1)
    else none
  | (.getNextTimer now, _) => some ((m.getNextTimer now).1, .time (m.getNextTimer now).2)
  | (.listExpiredCb now, addr) =>
    some ((m.listExpiredCb now addr []).1, .cbs (m.listExpiredCb now addr []).2)
  | (.hasTimer, _) => some (m, .bool m.hasTimer)

/-- The timers that have a callback. -/
def entryOf (v : Timer C) : Option (Entry C) := v.cb.map fun cb => ⟨v.recurring, v.ms, v.next, cb⟩

def view (m : TimerManager C) : Agenda C where
  entry t := entryOf (m.heap t)
  made := m.made
  previouse := m.previouseTime

/-! ### Views -/

section View

variable {m : TimerManager C} {t : ℕ} {now : UInt64}

lemma view_set (m : TimerManager C) (t : ℕ) (v : Timer C) :
    view (m.set t v) = (view m).write t (entryOf v) := by
  have hentry : (fun s => entryOf ((m.set t v).heap s)) =
      Function.update (fun s => entryOf (m.heap s)) t (entryOf v) := by
    ext s : 1
    by_cases hs : s = t
    · subst hs
      rw [set_heap_self, Function.update_self]
    · rw [set_heap_ne m v hs, Function.update_of_ne hs]
  exact congrArg (Agenda.mk · m.made m.previouseTime) hentry

lemma write_entry (a : Agenda C) (t : ℕ) : a.write t (a.entry t) = a := by
  rw [Agenda.write, Function.update_eq_self]

lemma isSome_entry (m : TimerManager C) (t : ℕ) :
    ((view m).entry t).isSome = (m.heap t).cb.isSome := Option.isSome_map

lemma entry_eq_none (h : (m.heap t).cb = none) : (view m).entry t = none :=
  Option.map_eq_none_iff.2 h

lemma entry_ne_none (h : Inv m) : (view m).entry t ≠ none ↔ t ∈ m.timers := by
  rw [← Option.isSome_iff_ne_none, isSome_entry, h.mem_iff t]
  exact (and_iff_left List.not_mem_nil).symm

lemma exists_entry (h : Inv m) (ht : t ∈ m.timers) :
    ∃ e, (view m).entry t = some e ∧ e.next = (m.heap t).next ∧ (m.heap t).cb = some e.cb := by
  obtain ⟨e, he⟩ := Option.ne_none_iff_exists'.1 ((entry_ne_none h).2 ht)
  obtain ⟨cb, hcb, rfl⟩ := Option.map_eq_some_iff.1 he
  exact ⟨_, he, rfl, hcb⟩

/-- The time looked at first is that of the first deadline. -/
lemma head_le {t : ℕ} {rest : List ℕ} (h : Inv m) (hm : m.timers = t :: rest) {s : ℕ}
    (hs : s ∈ m.timers) : (m.heap t).next ≤ (m.heap s).next := by
  have hsorted := h.sorted
  rw [hm] at hs hsorted
  rw [UInt64.le_iff_toNat_le]
  rcases List.mem_cons.1 hs with rfl | hs
  · exact Nat.le_refl _
  · have hlt := (List.pairwise_cons.1 hsorted).1 s hs
    rw [TimerManager.lt, comparator_iff] at hlt
    omega

lemma rollover_iff (m : TimerManager C) (now : UInt64) :
    (m.detectClockRollover now).2 = true ↔ (view m).Rollover now := by
  simp [detectClockRollover, Agenda.Rollover, view]

lemma due_iff (h : Inv m) :
    t ∈ due m now (m.detectClockRollover now).2 ↔ (view m).Due now t := by
  have hdue : t ∈ due m now (m.detectClockRollover now).2 ↔ t ∈ m.timers ∧
      ((view m).Rollover now ∨ (m.heap t).next ≤ now) := by
    rw [← rollover_iff, due]
    cases (m.detectClockRollover now).2 <;> simp
  rw [hdue]
  constructor
  · rintro ⟨ht, hor⟩
    obtain ⟨e, he, hnext, -⟩ := exists_entry h ht
    exact ⟨e, he, hnext ▸ hor⟩
  · rintro ⟨e, he, hor⟩
    have ht : t ∈ m.timers := (entry_ne_none h).1 (by rw [he]; exact Option.some_ne_none e)
    obtain ⟨e', he', hnext, -⟩ := exists_entry h ht
    obtain rfl := Option.some.inj (he.symm.trans he')
    exact ⟨ht, hnext ▸ hor⟩

lemma foldl_expireOne_rest (now : UInt64) (out : List ℕ) (s : TimerManager C × List (Option C)) :
    (out.foldl (expireOne now) s).1.made = s.1.made ∧
      (out.foldl (expireOne now) s).1.previouseTime = s.1.previouseTime := by
  induction out generalizing s with
  | nil => exact ⟨rfl, rfl⟩
  | cons t out ih =>
    obtain ⟨hmade, hprev⟩ := ih (expireOne now s t)
    have hone : (expireOne now s t).1.made = s.1.made ∧
        (expireOne now s t).1.previouseTime = s.1.previouseTime := by
      unfold expireOne
      dsimp only
      split <;> exact ⟨rfl, rfl⟩
    exact ⟨hmade.trans hone.1, hprev.trans hone.2⟩

lemma listExpiredCb_rest (m : TimerManager C) (now : UInt64) (addr : ℕ) :
    (m.listExpiredCb now addr []).1.made = m.made ∧
      (m.listExpiredCb now addr []).1.previouseTime =
        if m.timers = [] then m.previouseTime else now := by
  unfold listExpiredCb
  split
  case h_1 hnil => exact ⟨rfl, (if_pos hnil).symm⟩
  case h_2 t rest hcons =>
    have hne : m.timers ≠ [] := by
      rw [hcons]
      exact List.cons_ne_nil t rest
    rw [if_neg hne]
    dsimp only
    split
    · exact ⟨rfl, rfl⟩
    · exact foldl_expireOne_rest now _ _

open Classical in
lemma view_listExpiredCb (h : Inv m) (now : UInt64) (addr : ℕ) :
    view (m.listExpiredCb now addr []).1 = (view m).expire now := by
  obtain ⟨hmade, hprev⟩ := listExpiredCb_rest m now addr
  obtain ⟨-, hin, hout⟩ := listExpiredCb_spec h now addr []
  have hentry : (view (m.listExpiredCb now addr []).1).entry = ((view m).expire now).entry := by
    ext s : 1
    by_cases hs : (view m).Due now s
    · have hs' := (due_iff h).2 hs
      obtain ⟨e, he, -⟩ := id hs
      obtain ⟨cb, hcb, rfl⟩ := Option.map_eq_some_iff.1 he
      rw [Agenda.expire_of_due hs he]
      show entryOf ((m.listExpiredCb now addr []).1.heap s) = _
      rw [hin s hs', expired]
      split
      · exact congrArg (Option.map _) hcb
      · rfl
    · have hs' := mt (due_iff h).1 hs
      rw [Agenda.expire_of_not_due hs]
      exact congrArg entryOf (hout s hs')
  have hempty : (∃ s, (view m).entry s ≠ none) ↔ m.timers ≠ [] := by
    simp only [entry_ne_none h, ne_eq, List.eq_nil_iff_forall_not_mem, not_forall, not_not]
  have hprevious : (view (m.listExpiredCb now addr []).1).previouse =
      ((view m).expire now).previouse := by
    rw [Agenda.expire, view, hprev]
    by_cases hnil : m.timers = []
    · rw [if_pos hnil, if_neg (mt hempty.1 (not_not.2 hnil))]
      rfl
    · rw [if_neg hnil, if_pos (hempty.2 hnil)]
  show Agenda.mk _ _ _ = Agenda.mk _ _ _
  exact congr (congr (congrArg Agenda.mk hentry) hmade) hprevious

end View

/-! ### One call -/

section Calls

variable {m : TimerManager C} {t : ℕ} {now : UInt64}

lemma write_none (a : Agenda C) {f : Entry C → Entry C} (h : a.entry t = none) :
    a.write t ((a.entry t).map f) = a := by
  have hsame : (a.entry t).map f = a.entry t := by rw [h, Option.map_none]
  rw [hsame, write_entry]

lemma step_addTimer (m : TimerManager C) (ms : UInt64) (cb : C) (recurring : Bool) (now : UInt64)
    (addr : ℕ) : Step (view m) (.addTimer ms cb recurring now) (.timer m.made)
      (view (m.addTimer ms (some cb) recurring now addr).1) := by
  have hview : view (m.addTimer ms (some cb) recurring now addr).1 =
      { (view m).write m.made (some ⟨recurring, ms, now + ms, cb⟩) with made := m.made + 1 } :=
    congrArg (fun a : Agenda C => { a with made := m.made + 1 })
      (view_set m m.made ⟨recurring, ms, now + ms, some cb, addr⟩)
  rw [hview]
  exact .addTimer (view m) ms cb recurring now

lemma step_cancel {r : TimerManager C × Bool} (ht : t < m.made) (hr : m.cancel t = .ok r) :
    Step (view m) (.cancel t) (.bool r.2) (view r.1) := by
  have hstep := Step.cancel (view m) t ht
  cases hcb : (m.heap t).cb with
  | none =>
    have hsame : m.cancel t = .ok (m, false) := if_neg (by simp [hcb])
    obtain rfl := Except.ok.inj (hsame.symm.trans hr)
    rw [isSome_entry, hcb, ← entry_eq_none hcb, write_entry] at hstep
    exact hstep
  | some cb =>
    obtain ⟨hnone, -⟩ | ⟨i, rfl⟩ := cancel_cases hr
    · rw [hcb] at hnone
      cases hnone
    · rw [isSome_entry, hcb] at hstep
      have hview := view_set m t { m.heap t with cb := none }
      exact (congrArg (Step (view m) (.cancel t) (.bool true)) hview).mpr hstep

lemma step_refresh (h : Inv m) (ht : t < m.made) (now : UInt64) :
    Step (view m) (.refresh t now) (.bool (m.refresh t now).2) (view (m.refresh t now).1) := by
  have hstep := Step.refresh (view m) t now ht
  cases hcb : (m.heap t).cb with
  | none =>
    have hsame : m.refresh t now = (m, false) := if_pos (by simp [hcb])
    rw [isSome_entry, hcb, write_none _ (entry_eq_none hcb)] at hstep
    rw [hsame]
    exact hstep
  | some cb =>
    obtain ⟨i, hfind, -⟩ := Out.erase h (t := t) (by simp [hcb])
    have hview := view_set m t { m.heap t with next := now + (m.heap t).ms }
    have hentry : ((view m).entry t).map (fun e => { e with next := now + e.ms }) =
        entryOf { m.heap t with next := now + (m.heap t).ms } := by simp [view, entryOf, hcb]
    rw [isSome_entry, hcb, hentry, ← hview] at hstep
    unfold refresh
    rw [if_neg (by simp [hcb])]
    simp only [hfind]
    exact hstep

lemma step_reset (h : Inv m) (ht : t < m.made) (ms : UInt64) (from_now : Bool) (now : UInt64) :
    Step (view m) (.reset t ms from_now now) (.bool (m.reset t ms from_now now).2.1)
      (view (m.reset t ms from_now now).1) := by
  have hstep : ∀ b, _ → _ → Step (view m) (.reset t ms from_now now) (.bool b) _ := fun b =>
    Step.reset (view m) t ms from_now now b ht
  rw [isSome_entry] at hstep
  unfold reset
  by_cases hsame : (m.heap t).ms = ms ∧ from_now = false
  · rw [if_pos hsame]
    have hview : (view m).write t (((view m).entry t).map fun e =>
        { e with ms := ms, next := if from_now then now + ms else e.next }) = view m := by
      have hentry : ((view m).entry t).map (fun e =>
          { e with ms := ms, next := if from_now then now + ms else e.next }) =
            (view m).entry t := by
        cases hcb : (m.heap t).cb <;> simp [view, entryOf, hcb, hsame]
      rw [hentry, write_entry]
    rw [hview] at hstep
    exact hstep true (fun _ => rfl) fun hfrom => by rw [hsame.2] at hfrom; cases hfrom
  rw [if_neg hsame]
  cases hcb : (m.heap t).cb with
  | none =>
    rw [write_none _ (entry_eq_none hcb), hcb] at hstep
    exact hstep false nofun fun _ => rfl
  | some cb =>
    obtain ⟨i, hfind, -⟩ := Out.erase h (t := t) (by simp [hcb])
    have hnext : (if from_now then now else (m.heap t).next - ms) + ms =
        if from_now then now + ms else (m.heap t).next := by
      cases from_now with
      | true => rfl
      | false => exact UInt64.sub_add_cancel _ _
    have hentry : ((view m).entry t).map (fun e =>
        { e with ms := ms, next := if from_now then now + ms else e.next }) =
          entryOf { m.heap t with
            ms := ms, next := (if from_now then now else (m.heap t).next - ms) + ms } := by
      simp [view, entryOf, hcb, hnext]
    have hview := view_set m t { m.heap t with
      ms := ms, next := (if from_now then now else (m.heap t).next - ms) + ms }
    rw [hcb, hentry, ← hview] at hstep
    rw [if_neg (by simp)]
    simp only [hfind]
    exact hstep true (fun _ => rfl) fun _ => rfl

lemma getNextTimer_fst (m : TimerManager C) (now : UInt64) :
    (m.getNextTimer now).1 = { m with tickled := false } := by
  unfold getNextTimer
  dsimp only
  split
  · rfl
  · split <;> rfl

lemma wait_getNextTimer (h : Inv m) (now : UInt64) :
    (view m).Wait now (m.getNextTimer now).2 := by
  unfold getNextTimer
  dsimp only
  split
  case h_1 hnil =>
    refine .never fun t => ?_
    by_contra hne
    have ht := (entry_ne_none h).1 hne
    rw [hnil] at ht
    cases ht
  case h_2 t rest hcons =>
    obtain ⟨e, he, hnext, -⟩ := exists_entry h (t := t) (hcons ▸ List.mem_cons_self)
    rw [← hnext]
    split
    case isTrue hle => exact .now he hle
    case isFalse hlt =>
      refine .later he (UInt64.not_le.1 hlt) fun s e' he' => ?_
      have hs : s ∈ m.timers := (entry_ne_none h).1 (by rw [he']; exact Option.some_ne_none e')
      obtain ⟨e'', he'', hnext', -⟩ := exists_entry h hs
      obtain rfl := Option.some.inj (he'.symm.trans he'')
      rw [hnext, hnext']
      exact head_le h hcons hs

lemma exists_entries (h : Inv m) (l : List ℕ) (hl : l ⊆ m.timers) :
    ∃ due : List (ℕ × Entry C), due.map Prod.fst = l ∧
      (∀ x ∈ due, (view m).entry x.1 = some x.2 ∧ x.2.next = (m.heap x.1).next) ∧
      (due.map fun x => some x.2.cb) = l.map fun t => (m.heap t).cb := by
  induction l with
  | nil => exact ⟨[], rfl, nofun, rfl⟩
  | cons t l ih =>
    obtain ⟨due, hfst, hentry, hcbs⟩ := ih (List.subset_of_cons_subset hl)
    obtain ⟨e, he, hnext, hcb⟩ := exists_entry h (hl List.mem_cons_self)
    refine ⟨(t, e) :: due, congrArg (t :: ·) hfst, fun x hx => ?_, ?_⟩
    · rcases List.mem_cons.1 hx with rfl | hx
      · exact ⟨he, hnext⟩
      · exact hentry x hx
    · rw [List.map_cons, List.map_cons, hcbs, hcb]

lemma step_listExpiredCb (h : Inv m) (now : UInt64) (addr : ℕ) :
    Step (view m) (.listExpiredCb now) (.cbs (m.listExpiredCb now addr []).2)
      (view (m.listExpiredCb now addr []).1) := by
  have hfront := due_front h now (m.detectClockRollover now).2
  obtain ⟨ds, hfst, hentry, hcbs⟩ := exists_entries h _ hfront.subset
  have hmem : ∀ t e, (t, e) ∈ ds ↔ (view m).entry t = some e ∧ (view m).Due now t := by
    intro t e
    rw [← due_iff h, ← hfst, List.mem_map]
    constructor
    · exact fun hx => ⟨(hentry _ hx).1, (t, e), hx, rfl⟩
    · rintro ⟨he, ⟨t, e'⟩, hx, rfl⟩
      obtain rfl := Option.some.inj (he.symm.trans (hentry _ hx).1)
      exact hx
  have hnodup : (ds.map Prod.fst).Nodup := by
    rw [hfst]
    exact (h.sorted.nodup (lt_irrefl m)).sublist hfront.sublist
  have hdeadlines : (ds.map Prod.fst).Pairwise fun a b => (m.heap a).next ≤ (m.heap b).next := by
    rw [hfst]
    refine List.Pairwise.sublist hfront.sublist (h.sorted.imp fun hab => ?_)
    rw [TimerManager.lt, comparator_iff] at hab
    rw [UInt64.le_iff_toNat_le]
    omega
  have hsorted : ds.Pairwise fun x y => x.2.next ≤ y.2.next := by
    refine (List.pairwise_map.1 hdeadlines).imp_of_mem fun hx hy hle => ?_
    rw [(hentry _ hx).2, (hentry _ hy).2]
    exact hle
  have hanswer : (m.listExpiredCb now addr []).2 = ds.map fun x => some x.2.cb := by
    rw [(listExpiredCb_spec h now addr []).1, hcbs, List.nil_append]
  rw [view_listExpiredCb h, hanswer]
  exact .listExpiredCb (view m) now ds hmem hnodup hsorted

lemma hasTimer_iff (h : Inv m) : m.hasTimer = true ↔ ∃ t, (view m).entry t ≠ none := by
  simp only [hasTimer, entry_ne_none h]
  cases m.timers <;> simp

/-- **One call of the manager is one step of the agenda.** -/
theorem step_call (h : Inv m) {c : Call C × ℕ} {r : TimerManager C × Answer C}
    (hc : call m c = some r) : Step (view m) c.1 r.2 (view r.1) ∧ Inv r.1 := by
  obtain ⟨c, addr⟩ := c
  cases c with
  | addTimer ms cb recurring now =>
    rw [call] at hc
    split at hc
    case isFalse => cases hc
    case isTrue haddr =>
      obtain rfl := Option.some.inj hc
      exact ⟨step_addTimer m ms cb recurring now addr, addTimer_inv h ms cb recurring now haddr⟩
  | cancel t =>
    obtain ⟨r', hr', hinv⟩ := cancel_inv h t
    rw [call, hr'] at hc
    split at hc
    case isFalse => cases hc
    case isTrue ht =>
      obtain rfl := Option.some.inj hc
      exact ⟨step_cancel ht hr', hinv⟩
  | refresh t now =>
    rw [call] at hc
    split at hc
    case isFalse => cases hc
    case isTrue ht =>
      obtain rfl := Option.some.inj hc
      exact ⟨step_refresh h ht now, refresh_inv h t now⟩
  | reset t ms from_now now =>
    rw [call] at hc
    split at hc
    case isFalse => cases hc
    case isTrue ht =>
      obtain rfl := Option.some.inj hc
      exact ⟨step_reset h ht ms from_now now, reset_inv h t ms from_now now⟩
  | getNextTimer now =>
    obtain rfl := Option.some.inj hc
    rw [getNextTimer_fst]
    exact ⟨.getNextTimer (view m) now _ (wait_getNextTimer h now),
      ⟨h.sorted, h.mem_iff, h.addr_inj, h.fresh⟩⟩
  | listExpiredCb now =>
    obtain rfl := Option.some.inj hc
    exact ⟨step_listExpiredCb h now addr, listExpiredCb_inv h now addr []⟩
  | hasTimer =>
    obtain rfl := Option.some.inj hc
    exact ⟨.hasTimer (view m) m.hasTimer (hasTimer_iff h), h⟩

end Calls

/-! ### Runs -/

section Runs

def Agenda.empty (now : UInt64) : Agenda C := ⟨fun _ => none, 0, now⟩

/-- **The timer manager is an agenda.** Every run of the manager is a run of the agenda with the
same answers, and ends in what the agenda shows. -/
theorem manager_refines_agenda (start : UInt64) {calls : List (Call C × ℕ)}
    {q : TimerManager C × List (Answer C)} (h : trace call (init start) calls = some q) :
    Trace Step (Agenda.empty start) (calls.map Prod.fst) q.2 (view q.1) := by
  have hstep : ∀ (m : TimerManager C) (a : Agenda C) c r, Inv m ∧ view m = a → call m c = some r →
      ∃ a', Step a (Prod.fst c) (id r.2) a' ∧ Inv r.1 ∧ view r.1 = a' := by
    rintro m _ c r ⟨hm, rfl⟩ hc
    obtain ⟨hrel, hinv⟩ := step_call hm hc
    exact ⟨_, hrel, hinv, rfl⟩
  obtain ⟨a, htrace, -, rfl⟩ := simulates hstep ⟨init_inv start, rfl⟩ h
  rw [List.map_id] at htrace
  exact htrace

theorem manager_refines_agenda_run : ∃ q : TimerManager ℕ × List (Answer ℕ),
    trace call (init 0) [(.addTimer 5 7 true 0, 1), (.refresh 0 3, 0), (.listExpiredCb 8, 2)] =
      some q ∧
    Trace Step (Agenda.empty 0) [.addTimer 5 7 true 0, .refresh 0 3, .listExpiredCb 8] q.2
      (view q.1) := by
  have hrun : (trace call (init 0 : TimerManager ℕ)
      [(.addTimer 5 7 true 0, 1), (.refresh 0 3, 0), (.listExpiredCb 8, 2)]).isSome := rfl
  obtain ⟨q, hq⟩ := Option.isSome_iff_exists.1 hrun
  exact ⟨q, hq, manager_refines_agenda 0 hq⟩

lemma run_inv (start : UInt64) {calls : List (Call C × ℕ)} {q : TimerManager C × List (Answer C)}
    (h : trace call (init start) calls = some q) : Inv q.1 :=
  trace_inv (fun _ _ _ hm hc => (step_call hm hc).2) (init_inv start) h

end Runs

/-! ### Every timer is over once -/

section Once

variable {a a' : Agenda C} {c : C} {t : ℕ} {recurring : Bool} {x : Call C} {y : Answer C}

def Call.callback? : Call C → Option C
  | .addTimer _ cb _ _ => some cb
  | _ => none

def cancels (t : ℕ) : Call C → Answer C → ℕ
  | .cancel s, .bool b => if s = t then b.toNat else 0
  | _, _ => 0

namespace Agenda

def Without (c : C) (a : Agenda C) : Prop := ∀ s e, a.entry s = some e → e.cb ≠ c

structure Only (c : C) (t : ℕ) (recurring : Bool) (a : Agenda C) : Prop where
  made : t < a.made
  cb_iff : ∀ s e, a.entry s = some e → (e.cb = c ↔ s = t)
  kind : ∀ e, a.entry t = some e → e.recurring = recurring

def pending (t : ℕ) (a : Agenda C) : ℕ := (a.entry t).isSome.toNat

lemma write_self (a : Agenda C) (t : ℕ) (o : Option (Entry C)) : (a.write t o).entry t = o :=
  Function.update_self ..

lemma write_ne (a : Agenda C) {s t : ℕ} (o : Option (Entry C)) (h : s ≠ t) :
    (a.write t o).entry s = a.entry s := Function.update_of_ne h ..

lemma write_map {s t : ℕ} {f : Entry C → Entry C} {e : Entry C}
    (h : (a.write t ((a.entry t).map f)).entry s = some e) :
    a.entry s = some e ∨ ∃ e', a.entry s = some e' ∧ e = f e' := by
  by_cases hs : s = t
  · subst hs
    rw [write_self] at h
    obtain ⟨e', he', rfl⟩ := Option.map_eq_some_iff.1 h
    exact .inr ⟨e', he', rfl⟩
  · rw [write_ne a _ hs] at h
    exact .inl h

lemma expire_entry {now : UInt64} {s : ℕ} {e : Entry C} (h : (a.expire now).entry s = some e) :
    ∃ e', a.entry s = some e' ∧ e.cb = e'.cb ∧ e.recurring = e'.recurring := by
  by_cases hs : a.Due now s
  · obtain ⟨e', he', -⟩ := id hs
    rw [expire_of_due hs he'] at h
    split at h
    · obtain rfl := Option.some.inj h
      exact ⟨e', he', rfl, rfl⟩
    · cases h
  · rw [expire_of_not_due hs] at h
    exact ⟨e, h, rfl, rfl⟩

end Agenda

open Agenda

/-- What a call other than `addTimer` leaves was there before, with its callback and its kind. -/
lemma Step.entry_of (h : Step a x y a') {s : ℕ} {e : Entry C} (he : a'.entry s = some e) :
    (∃ e', a.entry s = some e' ∧ e.cb = e'.cb ∧ e.recurring = e'.recurring) ∨
      s = a.made ∧ x.callback? = some e.cb := by
  cases h with
  | addTimer ms cb recurring now =>
    by_cases hs : s = a.made
    · subst hs
      have hself := write_self a a.made (some ⟨recurring, ms, now + ms, cb⟩)
      obtain rfl := Option.some.inj (hself.symm.trans he)
      exact .inr ⟨rfl, rfl⟩
    · have hne := write_ne a (some ⟨recurring, ms, now + ms, cb⟩) hs
      exact .inl ⟨e, hne.symm.trans he, rfl, rfl⟩
  | cancel t ht =>
    by_cases hs : s = t
    · subst hs
      rw [write_self] at he
      cases he
    · rw [write_ne a _ hs] at he
      exact .inl ⟨e, he, rfl, rfl⟩
  | refresh t now ht =>
    obtain he | ⟨e', he', rfl⟩ := write_map he
    · exact .inl ⟨e, he, rfl, rfl⟩
    · exact .inl ⟨e', he', rfl, rfl⟩
  | reset t ms from_now now b ht hb hfrom =>
    obtain he | ⟨e', he', rfl⟩ := write_map he
    · exact .inl ⟨e, he, rfl, rfl⟩
    · exact .inl ⟨e', he', rfl, rfl⟩
  | getNextTimer now d hd => exact .inl ⟨e, he, rfl, rfl⟩
  | listExpiredCb now due hmem hnodup hsorted => exact .inl (expire_entry he)
  | hasTimer b hb => exact .inl ⟨e, he, rfl, rfl⟩

lemma Step.made_le (h : Step a x y a') : a.made ≤ a'.made := by
  cases h <;> first | exact Nat.le_refl _ | exact Nat.le_succ _

lemma Step.without (hstep : Step a x y a') (h : a.Without c) (hx : x.callback? ≠ some c) :
    a'.Without c := by
  intro s e he hcb
  obtain ⟨e', he', hcb', -⟩ | ⟨-, hadd⟩ := hstep.entry_of he
  · exact h s e' he' (hcb' ▸ hcb)
  · exact hx (hcb ▸ hadd)

lemma Step.only (hstep : Step a x y a') (h : a.Only c t recurring) (hx : x.callback? ≠ some c) :
    a'.Only c t recurring where
  made := Nat.lt_of_lt_of_le h.made hstep.made_le
  cb_iff s e he := by
    obtain ⟨e', he', hcb', -⟩ | ⟨rfl, hadd⟩ := hstep.entry_of he
    · rw [hcb']
      exact h.cb_iff s e' he'
    · exact iff_of_false (fun hcb => hx (hcb ▸ hadd)) (Nat.ne_of_gt h.made)
  kind e he := by
    obtain ⟨e', he', -, hkind⟩ | ⟨hmade, -⟩ := hstep.entry_of he
    · exact hkind.trans (h.kind e' he')
    · exact absurd hmade (Nat.ne_of_lt h.made)

lemma Agenda.Only.without_of_none (h : a.Only c t recurring) (ht : a.entry t = none) :
    a.Without c := by
  intro s e he hcb
  obtain rfl := (h.cb_iff s e he).1 hcb
  rw [ht] at he
  cases he

variable [DecidableEq C]

/-- How often an answer hands the callback out. -/
def runs (c : C) : Call C → Answer C → ℕ
  | _, .cbs l => l.count (some c)
  | _, _ => 0

lemma count_due {due : List (ℕ × Entry C)} (hcb : ∀ d ∈ due, d.2.cb = c ↔ d.1 = t) :
    (due.map fun d => some d.2.cb).count (some c) = (due.map Prod.fst).count t := by
  induction due with
  | nil => rfl
  | cons d due ih =>
    have hd := hcb d List.mem_cons_self
    rw [List.map_cons, List.map_cons, List.count_cons, List.count_cons,
      ih fun d' hd' => hcb d' (List.mem_cons_of_mem d hd')]
    simp [hd]

lemma Step.runs_eq_zero (hstep : Step a x y a') (h : a.Without c) : runs c x y = 0 := by
  cases hstep with
  | listExpiredCb now due hmem hnodup hsorted =>
    refine List.count_eq_zero.2 fun hc => ?_
    obtain ⟨d, hd, hdc⟩ := List.mem_map.1 hc
    exact h d.1 d.2 ((hmem d.1 d.2).1 hd).1 (Option.some.inj hdc)
  | _ => rfl

/-- A timer that is there is cancelled, or expires for the last time, or is still there. -/
lemma Step.account (hstep : Step a x y a') (h : a.Only c t recurring) :
    a.pending t = (cancels t x y + if recurring then 0 else runs c x y) + a'.pending t := by
  have hnone : runs c x y = 0 → (if recurring then 0 else runs c x y) = 0 :=
    fun hz => by rw [hz, ite_self]
  cases hstep with
  | addTimer ms cb kind now =>
    have hne := write_ne a (some ⟨kind, ms, now + ms, cb⟩) (Nat.ne_of_lt h.made)
    have hpending := congrArg (fun o => o.isSome.toNat) hne
    rw [hnone rfl, pending, pending, ← hpending]
    exact (Nat.zero_add _).symm
  | cancel s hs =>
    rw [hnone rfl, cancels, Nat.add_zero]
    by_cases hst : s = t
    · subst hst
      rw [if_pos rfl, pending, pending, write_self]
      rfl
    · rw [if_neg hst, pending, pending, write_ne a _ (Ne.symm hst), Nat.zero_add]
  | refresh s now hs =>
    rw [hnone rfl, pending, pending]
    by_cases hst : s = t
    · subst hst
      rw [write_self, Option.isSome_map]
      exact (Nat.zero_add _).symm
    · rw [write_ne a _ (Ne.symm hst)]
      exact (Nat.zero_add _).symm
  | reset s ms from_now now b hs hb hfrom =>
    rw [hnone rfl, pending, pending]
    by_cases hst : s = t
    · subst hst
      rw [write_self, Option.isSome_map]
      exact (Nat.zero_add _).symm
    · rw [write_ne a _ (Ne.symm hst)]
      exact (Nat.zero_add _).symm
  | getNextTimer now d hd =>
    rw [hnone rfl]
    exact (Nat.zero_add _).symm
  | hasTimer b hb =>
    rw [hnone rfl]
    exact (Nat.zero_add _).symm
  | listExpiredCb now due hmem hnodup hsorted =>
    have hruns : runs c (.listExpiredCb now) (.cbs (due.map fun d => some d.2.cb)) =
        (due.map Prod.fst).count t :=
      count_due fun d hd => h.cb_iff d.1 d.2 ((hmem d.1 d.2).1 hd).1
    have hin : t ∈ due.map Prod.fst ↔ a.Due now t := by
      constructor
      · intro ht
        obtain ⟨⟨s, e⟩, hd, rfl⟩ := List.mem_map.1 ht
        exact ((hmem s e).1 hd).2
      · intro ht
        obtain ⟨e, he, -⟩ := id ht
        exact List.mem_map.2 ⟨(t, e), (hmem t e).2 ⟨he, ht⟩, rfl⟩
    have hcancel : cancels t (.listExpiredCb now) (.cbs (due.map fun d => some d.2.cb)) = 0 := rfl
    rw [hcancel, Nat.zero_add, hruns, pending, pending]
    by_cases ht : a.Due now t
    · obtain ⟨e, he, -⟩ := id ht
      rw [List.count_eq_one_of_mem hnodup (hin.2 ht), expire_of_due ht he, he, h.kind e he]
      cases recurring <;> rfl
    · rw [List.count_eq_zero_of_not_mem (mt hin.1 ht), expire_of_not_due ht, ite_self, Nat.zero_add]

section Trace

variable {calls : List (Call C)} {answers : List (Answer C)}

lemma runs_of_without (h : Trace Step a calls answers a') (ha : a.Without c)
    (hcalls : ∀ x ∈ calls, x.callback? ≠ some c) :
    a'.Without c ∧ total (runs c) calls answers = 0 := by
  obtain ⟨ha', htotal⟩ := Trace.balance (fun _ => 0)
    (fun b x y b' hb hx hstep => ⟨hstep.without hb hx, (hstep.runs_eq_zero hb).symm⟩) ha hcalls h
  exact ⟨ha', htotal.symm⟩

lemma account_of_only (h : Trace Step a calls answers a') (ha : a.Only c t recurring)
    (hcalls : ∀ x ∈ calls, x.callback? ≠ some c) :
    a.pending t = (total (cancels t) calls answers +
      if recurring then 0 else total (runs c) calls answers) + a'.pending t := by
  obtain ⟨-, htotal⟩ := Trace.balance (Agenda.pending t)
    (fun b x y b' hb hx hstep => ⟨hstep.only hb hx, hstep.account hb⟩) ha hcalls h
  rw [htotal, total_add]
  cases recurring with
  | false => rfl
  | true =>
    have hzero := total_zero calls answers
    simp only [if_true, hzero]

/-- Once it has been cancelled a timer is never run. -/
lemma runs_after_cancel {i : ℕ} (h : Trace Step a calls answers a') (ha : a.Only c t recurring)
    (hcalls : ∀ x ∈ calls, x.callback? ≠ some c) (hi : calls[i]? = some (.cancel t)) :
    total (runs c) (calls.drop i) (answers.drop i) = 0 := by
  induction h generalizing i with
  | nil => cases hi
  | @cons a b a' x y calls answers head tail ih =>
    have hx := hcalls x List.mem_cons_self
    have hrest : ∀ x' ∈ calls, x'.callback? ≠ some c :=
      fun x' hx' => hcalls x' (List.mem_cons_of_mem x hx')
    cases i with
    | zero =>
      obtain rfl := Option.some.inj hi
      have hb := head.only ha hx
      have hnone : b.entry t = none := by
        cases head
        exact write_self a t none
      have hzero := (runs_of_without tail (hb.without_of_none hnone) hrest).2
      have hhead : runs c (.cancel t) y = 0 := by
        cases head
        rfl
      rw [List.drop_zero, List.drop_zero, total_cons, hhead, hzero]
    | succ i => exact ih (head.only ha hx) hrest hi

end Trace

/-- **A timer is over once.** A timer that nobody shares its callback with is cancelled once, or
expires for the last time once, or is in the set. It is never run before it has been added, nor once
it has been cancelled. -/
theorem timer_over_once (start : UInt64) {calls₁ calls₂ : List (Call C × ℕ)} {ms now : UInt64}
    {addr : ℕ} {q : TimerManager C × List (Answer C)}
    (h : trace call (init start)
      (calls₁ ++ (.addTimer ms c recurring now, addr) :: calls₂) = some q)
    (hcalls : ∀ x ∈ calls₁ ++ calls₂, x.1.callback? ≠ some c) :
    ∃ answers₁ t answers₂, q.2 = answers₁ ++ .timer t :: answers₂ ∧
      answers₁.length = calls₁.length ∧
      total (runs c) (calls₁.map Prod.fst) answers₁ = 0 ∧
      total (cancels t) (calls₂.map Prod.fst) answers₂ +
        (if recurring then 0 else total (runs c) (calls₂.map Prod.fst) answers₂) +
        (if t ∈ q.1.timers then 1 else 0) = 1 ∧
      ∀ i, (calls₂.map Prod.fst)[i]? = some (.cancel t) →
        total (runs c) ((calls₂.map Prod.fst).drop i) (answers₂.drop i) = 0 := by
  have htrace := manager_refines_agenda start h
  have hinv := TimerAgenda.run_inv start h
  rw [List.map_append, List.map_cons] at htrace
  have hcalls₁ : ∀ x ∈ calls₁.map Prod.fst, x.callback? ≠ some c := by
    intro x hx
    obtain ⟨x', hx', rfl⟩ := List.mem_map.1 hx
    exact hcalls x' (List.mem_append_left _ hx')
  have hcalls₂ : ∀ x ∈ calls₂.map Prod.fst, x.callback? ≠ some c := by
    intro x hx
    obtain ⟨x', hx', rfl⟩ := List.mem_map.1 hx
    exact hcalls x' (List.mem_append_right _ hx')
  obtain ⟨answers₁, answers, a, houts, hlen, hbefore, hafter⟩ := htrace.append_inv
  have hempty : (Agenda.empty start : Agenda C).Without c := nofun
  obtain ⟨ha, hzero⟩ := runs_of_without hbefore hempty hcalls₁
  cases hafter with
  | @cons _ u _ _ y _ answers₂ head tail =>
    have honly : u.Only c a.made recurring ∧ u.pending a.made = 1 ∧ y = .timer a.made := by
      cases head
      have hself := write_self a a.made (some ⟨recurring, ms, now + ms, c⟩)
      refine ⟨⟨Nat.lt_succ_self _, fun s e he => ?_, fun e he => ?_⟩, ?_, rfl⟩
      · by_cases hs : s = a.made
        · subst hs
          obtain rfl := Option.some.inj (hself.symm.trans he)
          exact iff_of_true rfl rfl
        · have hne := write_ne a (some ⟨recurring, ms, now + ms, c⟩) hs
          exact iff_of_false (ha s e (hne.symm.trans he)) hs
      · obtain rfl := Option.some.inj (hself.symm.trans he)
        rfl
      · exact congrArg (fun o => o.isSome.toNat) hself
    obtain ⟨honly, hpending, rfl⟩ := honly
    refine ⟨answers₁, a.made, answers₂, houts, ?_, hzero, ?_,
      fun i => runs_after_cancel tail honly hcalls₂⟩
    · rw [← hlen, List.length_map]
    · have haccount := account_of_only tail honly hcalls₂
      rw [hpending] at haccount
      have hset : (view q.1).pending a.made = if a.made ∈ q.1.timers then 1 else 0 := by
        rw [pending]
        by_cases ht : a.made ∈ q.1.timers
        · rw [if_pos ht, Option.isSome_iff_ne_none.2 ((entry_ne_none hinv).2 ht)]
          rfl
        · have hnone := not_not.1 (mt (entry_ne_none hinv).1 ht)
          rw [if_neg ht, hnone]
          rfl
      rw [← hset]
      exact haccount.symm

theorem timer_over_once_run : ∃ q : TimerManager ℕ × List (Answer ℕ),
    trace call (init 0) ([] ++ (.addTimer 5 7 false 0, 1) :: [(.listExpiredCb 8, 2)]) = some q ∧
    ∃ answers₁ t answers₂, q.2 = answers₁ ++ .timer t :: answers₂ ∧
      total (cancels t) [.listExpiredCb 8] answers₂ + total (runs 7) [.listExpiredCb 8] answers₂ +
        (if t ∈ q.1.timers then 1 else 0) = 1 := by
  have hrun : (trace call (init 0 : TimerManager ℕ)
      ([] ++ (.addTimer 5 7 false 0, 1) :: [(.listExpiredCb 8, 2)])).isSome := rfl
  obtain ⟨q, hq⟩ := Option.isSome_iff_exists.1 hrun
  obtain ⟨answers₁, t, answers₂, hq', -, -, hone, -⟩ :=
    timer_over_once 0 hq (by simp [Call.callback?])
  exact ⟨q, hq, answers₁, t, answers₂, hq', hone⟩

end Once

end Sylar.TimerAgenda
