import Mathlib.Data.Int.Notation
import Mathlib.Data.List.Basic
import Sylar.Appenders

/-!
The listener that applies the variable `logs` to the loggers.

It is given the old value and the new one, and acts on the loggers that are new or whose definition
has changed, and then on those that are gone. What a logger is after a sequence of values is
compared with what the last value alone would have made of it.
-/

namespace Sylar.LogConfig

open Sylar.LogPattern Sylar.Appenders

structure LogAppenderDefine where
  type : ℤ := 0
  level : Level := .unknow
  formatter : List Char := []
  file : List Char := []
  deriving DecidableEq

structure LogDefine where
  name : List Char
  level : Level := .unknow
  formatter : List Char := []
  appenders : List LogAppenderDefine := []
  deriving DecidableEq

/-- `std::set<LogDefine>`, which is ordered by the names. -/
structure LogDefines where
  defines : List LogDefine
  sorted : defines.Pairwise fun d e => d.name < e.name

def LogDefines.empty : LogDefines := ⟨[], .nil⟩

def LogDefines.find (v : LogDefines) (name : List Char) : Option LogDefine :=
  v.defines.find? fun d => d.name = name

/-- A logger with appenders that only it refers to. Formatters are given by their patterns. -/
abbrev Logger := Appenders.Logger (List Char) (LogAppender (List Char))

/-- The pattern that the constructor of `Logger` sets. -/
def defaultPattern : List Char :=
  "%d\x7b%Y-%m-%d %H:%M:%S\x7d%T%t%T%N%T%F%T[%p]%T[%c]%T%f:%l%T%m%n".toList

def newLogger : Logger := { formatter := defaultPattern }

def setFormatter (l : Logger) (val : List Char) : Logger :=
  { l with formatter := val, appenders := l.appenders.map (·.follow val) }

def setPattern (l : Logger) (val : List Char) : Logger :=
  if (LogFormatter.init val).error then l else setFormatter l val

def addAppender (l : Logger) (a : LogAppender (List Char)) : Logger :=
  { l with appenders := l.appenders ++ [a.adopt l.formatter] }

abbrev Loggers := List Char → Option Logger

def Loggers.start : Loggers :=
  Function.update (fun _ => none) "root".toList (some (addAppender newLogger { sink := .stdout }))

/-- The level and the formatter of a new appender. -/
def LogAppenderDefine.configure (a : LogAppenderDefine) (sink : Sink) : LogAppender (List Char) :=
  let ap : LogAppender (List Char) := { sink := sink, level := a.level }
  if a.formatter ≠ [] then
    if (LogFormatter.init a.formatter).error = false then ap.setFormatter (some a.formatter) else ap
  else ap

/-- The loop over the appenders of a definition. `hasD` is whether the program has the option `d`.
For a type other than 1 and 2 the pointer `ap` is null where `setLevel` is called. -/
def addAppenders (hasD : Bool) : List LogAppenderDefine → Logger → Option Logger
  | [], l => some l
  | a :: as, l =>
    if a.type = 1 then addAppenders hasD as (addAppender l (a.configure (.file a.file)))
    else if a.type = 2 then
      if hasD = false then addAppenders hasD as (addAppender l (a.configure .stdout))
      else addAppenders hasD as l
    else none

/-- What is done with a logger whose definition is new or has changed. -/
def LogDefine.apply (hasD : Bool) (i : LogDefine) (l : Logger) : Option Logger :=
  let l := { l with level := i.level }
  let l := if i.formatter ≠ [] then setPattern l i.formatter else l
  addAppenders hasD i.appenders l.clearAppenders

/-- The body of the loop over the new value. The entry of a logger is missing until `getLogger`
creates it. -/
def applyNew (hasD : Bool) (old : LogDefines) (i : LogDefine) (e : Option Logger) :
    Option (Option Logger) :=
  match old.find i.name with
  | none => (i.apply hasD (e.getD newLogger)).map some
  | some j => if i = j then some e else (i.apply hasD (e.getD newLogger)).map some

def applyOld (new : LogDefines) (i : LogDefine) (e : Option Logger) : Option (Option Logger) :=
  match new.find i.name with
  | none => some (some { (e.getD newLogger).clearAppenders with level := .unknow })
  | some _ => some e

/-- A loop over definitions, each of which acts on the logger of its name. -/
def forEach (body : LogDefine → Option Logger → Option (Option Logger)) (v : LogDefines)
    (loggers : Loggers) : Option Loggers :=
  v.defines.foldlM (fun ls i => (body i (ls i.name)).map (Function.update ls i.name)) loggers

def onChange (hasD : Bool) (old new : LogDefines) (loggers : Loggers) : Option Loggers := do
  let loggers ← forEach (applyNew hasD old) new loggers
  forEach (applyOld new) old loggers

def deliver (hasD : Bool) (old : LogDefines) : List LogDefines → Loggers → Option Loggers
  | [], loggers => some loggers
  | v :: vs, loggers => (onChange hasD old v loggers).bind (deliver hasD v vs)

def own (a : LogAppender (List Char)) : Option (List Char) :=
  if a.hasFormatter then a.formatter else none

/-- What is compared of an appender: its class with the file, its level and its own formatter. -/
def viewAppender (a : LogAppender (List Char)) : Sink × Level × Option (List Char) :=
  (a.sink, a.level, own a)

/-- What is compared of a logger: its level, its pattern and its appenders. -/
def view (l : Logger) : Level × List Char × List (Sink × Level × Option (List Char)) :=
  (l.level, l.formatter, l.appenders.map viewAppender)

def LogDefine.setsFormatter (d : LogDefine) : Bool :=
  d.formatter ≠ [] && (LogFormatter.init d.formatter).error = false

/-- The last formatter that the values set for a logger. -/
def lastFormatter (name : List Char) : List LogDefines → Option (List Char)
  | [] => none
  | v :: vs =>
    match lastFormatter name vs with
    | some f => some f
    | none => ((v.find name).filter LogDefine.setsFormatter).map LogDefine.formatter

/-- All appenders are of type 1 or 2. -/
def LogDefines.Typed (v : LogDefines) : Prop :=
  ∀ d ∈ v.defines, ∀ a ∈ d.appenders, a.type = 1 ∨ a.type = 2

/-! ### One logger -/

/-- What the definition of an appender adds to the view of a logger. -/
def LogAppenderDefine.shown (hasD : Bool) (a : LogAppenderDefine) :
    List (Sink × Level × Option (List Char)) :=
  if a.type = 1 then [viewAppender (a.configure (.file a.file))]
  else if hasD = false then [viewAppender (a.configure .stdout)]
  else []

lemma configure_flagged (a : LogAppenderDefine) (sink : Sink) : (a.configure sink).Flagged := by
  unfold LogAppenderDefine.configure
  split
  · split
    · exact LogAppender.setFormatter_flagged _
    · simp [LogAppender.Flagged]
  · simp [LogAppender.Flagged]

/-- An appender that takes over the formatter of its logger looks the same. -/
lemma viewAppender_adopt {a : LogAppender (List Char)} (h : a.Flagged) (f : List Char) :
    viewAppender (a.adopt f) = viewAppender a := by
  unfold LogAppender.adopt
  split
  · rename_i hnone
    have hflag : a.hasFormatter = false := by
      by_contra hne
      exact h (by simpa using hne) (Option.isNone_iff_eq_none.mp hnone)
    simp [viewAppender, own, hflag]
  · rfl

lemma view_addAppender (l : Logger) (a : LogAppenderDefine) (sink : Sink) :
    view (addAppender l (a.configure sink)) =
      (l.level, l.formatter, l.appenders.map viewAppender ++
        [viewAppender (a.configure sink)]) := by
  simp [view, addAppender, viewAppender_adopt (configure_flagged a sink)]

lemma addAppenders_spec (hasD : Bool) {as : List LogAppenderDefine}
    (h : ∀ a ∈ as, a.type = 1 ∨ a.type = 2) (l : Logger) :
    ∃ l', addAppenders hasD as l = some l' ∧ view l' =
      (l.level, l.formatter,
        l.appenders.map viewAppender ++ as.flatMap (LogAppenderDefine.shown hasD)) := by
  induction as generalizing l with
  | nil => exact ⟨l, rfl, by simp [view]⟩
  | cons a as ih =>
    have has : ∀ b ∈ as, b.type = 1 ∨ b.type = 2 := fun b hb => h b (List.mem_cons_of_mem _ hb)
    -- one more appender, with the view it adds
    have hadd : ∀ sink, ∃ l', addAppenders hasD as (addAppender l (a.configure sink)) = some l' ∧
        view l' = (l.level, l.formatter, l.appenders.map viewAppender ++
          ([viewAppender (a.configure sink)] ++
            as.flatMap (LogAppenderDefine.shown hasD))) := by
      intro sink
      obtain ⟨l', hl', hview⟩ := ih has (addAppender l (a.configure sink))
      refine ⟨l', hl', ?_⟩
      have := view_addAppender l a sink
      simp only [view, Prod.mk.injEq] at this hview ⊢
      obtain ⟨h1, h2, h3⟩ := this
      obtain ⟨g1, g2, g3⟩ := hview
      exact ⟨g1.trans h1, g2.trans h2, by rw [g3, h3, List.append_assoc]⟩
    rw [List.flatMap_cons]
    by_cases h1 : a.type = 1
    · simpa [addAppenders, LogAppenderDefine.shown, h1] using hadd (.file a.file)
    · have h2 : a.type = 2 := (h a List.mem_cons_self).resolve_left h1
      cases hasD with
      | false => simpa [addAppenders, LogAppenderDefine.shown, h2] using hadd .stdout
      | true => simpa [addAppenders, LogAppenderDefine.shown, h2] using ih has l

lemma apply_spec (hasD : Bool) {i : LogDefine} (h : ∀ a ∈ i.appenders, a.type = 1 ∨ a.type = 2)
    (l : Logger) : ∃ l', i.apply hasD l = some l' ∧ view l' =
      (i.level, if i.setsFormatter then i.formatter else l.formatter,
        i.appenders.flatMap (LogAppenderDefine.shown hasD)) := by
  obtain ⟨l', hl', hview⟩ := addAppenders_spec hasD h
    (if i.formatter ≠ [] then setPattern { l with level := i.level } i.formatter
      else { l with level := i.level } : Logger).clearAppenders
  refine ⟨l', hl', hview.trans ?_⟩
  unfold LogDefine.setsFormatter setPattern setFormatter Logger.clearAppenders
  by_cases hf : i.formatter = []
  · simp [hf]
  · cases herr : (LogFormatter.init i.formatter).error <;> simp [hf]

/-! ### One change -/

lemma find_eq_some_iff {v : LogDefines} {name : List Char} {d : LogDefine} :
    v.find name = some d ↔ d ∈ v.defines ∧ d.name = name := by
  constructor
  · intro h
    exact ⟨List.mem_of_find?_eq_some h, by simpa using List.find?_some h⟩
  · rintro ⟨hmem, rfl⟩
    obtain ⟨pre, post, hsplit⟩ := List.append_of_mem hmem
    have hpre : ∀ e ∈ pre, e.name ≠ d.name := by
      intro e he heq
      have hlt := (List.pairwise_append.mp (hsplit ▸ v.sorted)).2.2 e he d List.mem_cons_self
      rw [heq] at hlt
      exact List.lt_irrefl _ hlt
    rw [LogDefines.find, hsplit, List.find?_append]
    have hnone : pre.find? (fun e => decide (e.name = d.name)) = none := by
      simpa using hpre
    simp [hnone]

lemma find_eq_none_iff {v : LogDefines} {name : List Char} :
    v.find name = none ↔ ∀ d ∈ v.defines, d.name ≠ name := by
  simp [LogDefines.find]

/-- A loop over definitions acts on each logger once, and on the others not at all. -/
lemma forEach_spec {body : LogDefine → Option Logger → Option (Option Logger)} {v : LogDefines}
    (h : ∀ d ∈ v.defines, ∀ e, ∃ e', body d e = some e') (loggers : Loggers) :
    ∃ ls, forEach body v loggers = some ls ∧
      (∀ d ∈ v.defines, body d (loggers d.name) = some (ls d.name)) ∧
      ∀ name, v.find name = none → ls name = loggers name := by
  obtain ⟨l, hl⟩ := v
  simp only [forEach, find_eq_none_iff] at h ⊢
  induction l generalizing loggers with
  | nil => exact ⟨loggers, rfl, by simp, fun _ _ => rfl⟩
  | cons d l ih =>
    obtain ⟨hd, hl⟩ := List.pairwise_cons.mp hl
    have hne : ∀ d' ∈ l, d'.name ≠ d.name := by
      intro d' hd' heq
      exact List.lt_irrefl _ (heq ▸ hd d' hd')
    obtain ⟨e, he⟩ := h d List.mem_cons_self (loggers d.name)
    obtain ⟨ls, hls, hmem, hother⟩ := ih (Function.update loggers d.name e) hl
      (fun d' hd' => h d' (List.mem_cons_of_mem _ hd'))
    refine ⟨ls, by simpa [he] using hls, ?_, ?_⟩
    · intro d' hd'
      rcases List.mem_cons.mp hd' with rfl | hd'
      · rw [hother _ hne, Function.update_self, he]
      · rw [← hmem d' hd', Function.update_of_ne (hne d' hd')]
    · intro name hname
      rw [hother name fun d' hd' => hname d' (List.mem_cons_of_mem _ hd'),
        Function.update_of_ne (hname d List.mem_cons_self).symm]

/-- The body of the first loop leaves a logger alone whose definition is the old one. -/
lemma applyNew_spec (hasD : Bool) (old : LogDefines) {d : LogDefine}
    (h : ∀ a ∈ d.appenders, a.type = 1 ∨ a.type = 2) (e : Option Logger) :
    ∃ e', applyNew hasD old d e = some e' ∧
      if old.find d.name = some d then e' = e
      else ∃ l, e' = some l ∧ d.apply hasD (e.getD newLogger) = some l := by
  obtain ⟨l, hl, -⟩ := apply_spec hasD h (e.getD newLogger)
  unfold applyNew
  cases hfind : old.find d.name with
  | none => exact ⟨some l, by simp [hl], by simp [hl]⟩
  | some j =>
    by_cases hsame : d = j
    · exact ⟨e, by simp [hsame], by simp [hsame]⟩
    · exact ⟨some l, by simp [hsame, hl], by simp [Ne.symm hsame, hl]⟩

/-- The body of the second loop leaves a logger alone that the new value names. -/
lemma applyOld_of_find {new : LogDefines} {i d : LogDefine} (h : new.find i.name = some d)
    (e : Option Logger) : applyOld new i e = some e := by
  simp [applyOld, h]

/-- It takes the appenders of the others, and leaves them their formatter. -/
lemma applyOld_of_find_none {new : LogDefines} {i : LogDefine} (h : new.find i.name = none)
    (e : Option Logger) : ∃ e', applyOld new i e = some e' ∧
      (e'.getD newLogger).formatter = (e.getD newLogger).formatter := by
  unfold applyOld
  rw [h]
  exact ⟨_, rfl, rfl⟩

/-- The loggers that the new value names are as their definitions say, unless these are the old
ones; the others keep their formatter. -/
lemma onChange_spec (hasD : Bool) (old : LogDefines) {new : LogDefines} (h : new.Typed)
    (loggers : Loggers) :
    ∃ ls, onChange hasD old new loggers = some ls ∧
      (∀ d ∈ new.defines,
        if old.find d.name = some d then ls d.name = loggers d.name
        else ∃ l, ls d.name = some l ∧ d.apply hasD ((loggers d.name).getD newLogger) = some l) ∧
      ∀ name, new.find name = none →
        ((ls name).getD newLogger).formatter = ((loggers name).getD newLogger).formatter := by
  have hnew : ∀ d ∈ new.defines, ∀ e, ∃ e', applyNew hasD old d e = some e' := by
    intro d hd e
    obtain ⟨e', he', -⟩ := applyNew_spec hasD old (h d hd) e
    exact ⟨e', he'⟩
  have hold : ∀ d ∈ old.defines, ∀ e, ∃ e', applyOld new d e = some e' := by
    intro d _ e
    unfold applyOld
    split <;> exact ⟨_, rfl⟩
  obtain ⟨mid, hmid, hmem, hother⟩ := forEach_spec hnew loggers
  obtain ⟨ls, hls, hmem', hother'⟩ := forEach_spec hold mid
  refine ⟨ls, by simp [onChange, hmid, hls], fun d hd => ?_, fun name hname => ?_⟩
  · have hkeep : ls d.name = mid d.name := by
      cases hfind : old.find d.name with
      | none => exact hother' d.name hfind
      | some j =>
        obtain ⟨hj, hname⟩ := find_eq_some_iff.mp hfind
        have hfound : new.find j.name = some d := find_eq_some_iff.mpr ⟨hd, hname.symm⟩
        have := hmem' j hj
        rw [applyOld_of_find hfound, hname] at this
        exact (Option.some.inj this).symm
    obtain ⟨e', he', hspec⟩ := applyNew_spec hasD old (h d hd) (loggers d.name)
    obtain rfl : e' = mid d.name := Option.some.inj (he'.symm.trans (hmem d hd))
    rw [hkeep]
    exact hspec
  · rw [← hother name hname]
    cases hfind : old.find name with
    | none => rw [hother' name hfind]
    | some j =>
      obtain ⟨hj, rfl⟩ := find_eq_some_iff.mp hfind
      obtain ⟨e', he', hformatter⟩ := applyOld_of_find_none hname (mid j.name)
      obtain rfl : e' = ls j.name := Option.some.inj (he'.symm.trans (hmem' j hj))
      exact hformatter

/-! ### A sequence of changes -/

lemma lastFormatter_concat (name : List Char) (vs : List LogDefines) (v : LogDefines) :
    lastFormatter name (vs ++ [v]) =
      match (v.find name).filter LogDefine.setsFormatter with
      | some d => some d.formatter
      | none => lastFormatter name vs := by
  induction vs with
  | nil => cases h : (v.find name).filter LogDefine.setsFormatter <;> simp [lastFormatter, h]
  | cons w vs ih =>
    rw [List.cons_append, lastFormatter, ih]
    cases h : (v.find name).filter LogDefine.setsFormatter <;> simp [lastFormatter]

lemma lastFormatter_of_mem {name : List Char} {vs : List LogDefines} {v : LogDefines}
    {d : LogDefine} (h : v.find name = some d) :
    lastFormatter name (vs ++ [v]) =
      if d.setsFormatter then some d.formatter else lastFormatter name vs := by
  rw [lastFormatter_concat, h]
  cases hd : d.setsFormatter <;> simp [Option.filter, hd]

def current (vs : List LogDefines) : LogDefines := vs.getLast?.getD .empty

def After (hasD : Bool) (vs : List LogDefines) (loggers : Loggers) : Prop :=
  (∀ name, ((loggers name).getD newLogger).formatter =
    (lastFormatter name vs).getD defaultPattern) ∧
  ∀ d ∈ (current vs).defines,
    (d.setsFormatter = true → lastFormatter d.name vs = some d.formatter) ∧
    ∃ l, loggers d.name = some l ∧ view l = (d.level,
      (lastFormatter d.name vs).getD defaultPattern,
      d.appenders.flatMap (LogAppenderDefine.shown hasD))

lemma after_start (hasD : Bool) : After hasD [] .start := by
  refine ⟨fun name => ?_, fun d hd => ?_⟩
  · by_cases hname : name = "root".toList
    · rw [hname, Loggers.start, Function.update_self]
      rfl
    · rw [Loggers.start, Function.update_of_ne hname]
      rfl
  · cases hd

/-- **One more value.** -/
lemma after_onChange {hasD : Bool} {vs : List LogDefines} {loggers : Loggers}
    (h : After hasD vs loggers) {v : LogDefines} (hv : v.Typed) :
    ∃ ls, onChange hasD (current vs) v loggers = some ls ∧ After hasD (vs ++ [v]) ls := by
  obtain ⟨ls, hls, hnew, hother⟩ := onChange_spec hasD (current vs) hv loggers
  have hmem : ∀ d ∈ v.defines, ∃ l, ls d.name = some l ∧ view l = (d.level,
      (lastFormatter d.name (vs ++ [v])).getD defaultPattern,
      d.appenders.flatMap (LogAppenderDefine.shown hasD)) := by
    intro d hd
    rw [lastFormatter_of_mem (find_eq_some_iff.mpr ⟨hd, rfl⟩)]
    have hdo := hnew d hd
    split at hdo
    · -- an old definition: the logger is as it was
      rename_i hsame
      obtain ⟨hsets, l, hl, hview⟩ := h.2 d (find_eq_some_iff.mp hsame).1
      refine ⟨l, hdo.trans hl, hview.trans ?_⟩
      split
      · rename_i hd
        rw [hsets hd]
      · rfl
    · obtain ⟨l, hl, happly⟩ := hdo
      obtain ⟨l', hl', hview⟩ := apply_spec hasD (hv d hd) ((loggers d.name).getD newLogger)
      obtain rfl : l' = l := Option.some.inj (hl'.symm.trans happly)
      refine ⟨l', hl, hview.trans ?_⟩
      rw [h.1 d.name]
      split <;> rfl
  refine ⟨ls, hls, fun name => ?_, fun d hd => ?_⟩
  · cases hfind : v.find name with
    | none =>
      rw [hother name hfind, h.1 name, lastFormatter_concat, hfind]
      rfl
    | some d =>
      obtain ⟨hd, rfl⟩ := find_eq_some_iff.mp hfind
      obtain ⟨l, hl, hview⟩ := hmem d hd
      rw [hl]
      exact congrArg (·.2.1) hview
  · have hcur : current (vs ++ [v]) = v := by simp [current]
    rw [hcur] at hd
    refine ⟨fun hsets => ?_, hmem d hd⟩
    rw [lastFormatter_of_mem (find_eq_some_iff.mpr ⟨hd, rfl⟩), if_pos hsets]

/-- **A sequence of values.** -/
lemma after_deliver {hasD : Bool} {vs ws : List LogDefines} {loggers : Loggers}
    (h : After hasD vs loggers) (hws : ∀ v ∈ ws, v.Typed) :
    ∃ ls, deliver hasD (current vs) ws loggers = some ls ∧ After hasD (vs ++ ws) ls := by
  induction ws generalizing vs loggers with
  | nil => exact ⟨loggers, rfl, by simpa using h⟩
  | cons v ws ih =>
    obtain ⟨mid, hmid, hafter⟩ := after_onChange h (hws v List.mem_cons_self)
    have hcur : current (vs ++ [v]) = v := by simp [current]
    obtain ⟨ls, hls, hls'⟩ := ih hafter fun w hw => hws w (List.mem_cons_of_mem _ hw)
    rw [hcur] at hls
    exact ⟨ls, by simp [deliver, hmid, hls], by simpa using hls'⟩

/-- What a logger is after a sequence of values, and after the last one alone. -/
lemma view_deliver (hasD : Bool) (vs : List LogDefines) (v : LogDefines)
    (h : ∀ w ∈ vs ++ [v], w.Typed) :
    ∃ ls fresh, deliver hasD .empty (vs ++ [v]) .start = some ls ∧
      deliver hasD .empty [v] .start = some fresh ∧
      ∀ d ∈ v.defines, (ls d.name).map view = (fresh d.name).map view ↔
        d.setsFormatter = true ∨
          (lastFormatter d.name vs).getD defaultPattern = defaultPattern := by
  obtain ⟨ls, hls, -, hviews⟩ := after_deliver (after_start hasD) h
  have hv : ∀ w ∈ [v], w.Typed := fun w hw => h w (List.mem_append_right _ hw)
  obtain ⟨fresh, hfresh, -, hviews'⟩ := after_deliver (after_start hasD) hv
  refine ⟨ls, fresh, hls, hfresh, fun d hd => ?_⟩
  obtain ⟨-, l, hl, hview⟩ := hviews d (by simpa [current] using hd)
  obtain ⟨-, l', hl', hview'⟩ := hviews' d (by simpa [current] using hd)
  have hfind : v.find d.name = some d := find_eq_some_iff.mpr ⟨hd, rfl⟩
  rw [List.nil_append, lastFormatter_of_mem hfind] at hview
  rw [lastFormatter_of_mem hfind] at hview'
  rw [hl, hl', Option.map_some, Option.map_some, Option.some.injEq, hview, hview']
  cases hsets : d.setsFormatter <;> simp [lastFormatter]

/-- **The loggers do not depend on earlier values exactly if each definition of the last value sets
a formatter, or the last formatter that an earlier value set for its logger is the default one or
there is none.** -/
theorem view_eq_iff (hasD : Bool) (vs : List LogDefines) (v : LogDefines)
    (h : ∀ w ∈ vs ++ [v], w.Typed) :
    ∃ ls fresh, deliver hasD .empty (vs ++ [v]) .start = some ls ∧
      deliver hasD .empty [v] .start = some fresh ∧
      ((∀ d ∈ v.defines, (ls d.name).map view = (fresh d.name).map view) ↔
        ∀ d ∈ v.defines, d.setsFormatter = true ∨
          (lastFormatter d.name vs).getD defaultPattern = defaultPattern) := by
  obtain ⟨ls, fresh, hls, hfresh, hview⟩ := view_deliver hasD vs v h
  exact ⟨ls, fresh, hls, hfresh, forall₂_congr hview⟩

/-- A value with the one logger `a`, with no appenders. -/
def single (formatter : List Char) : LogDefines :=
  ⟨[{ name := ['a'], formatter := formatter }], List.pairwise_singleton _ _⟩

lemma single_typed (formatter : List Char) : (single formatter).Typed := by
  simp [single, LogDefines.Typed]

lemma setsFormatter_directive {c : Char} {kind : Kind} (h : Kind.ofChar c = some kind) :
    LogDefine.setsFormatter { name := ['a'], formatter := ['%', c] } = true := by
  have herror := (init_of_parses (Parses.plain (p := []) h trivial .nil)).1
  simp [LogDefine.setsFormatter, herror]

/-- A formatter takes the place of another one. -/
theorem view_eq_replaced :
    ∃ ls fresh, deliver false .empty [single ['%', 'm'], single ['%', 'n']] .start = some ls ∧
      deliver false .empty [single ['%', 'n']] .start = some fresh ∧
      ∀ d ∈ (single ['%', 'n']).defines, (ls d.name).map view = (fresh d.name).map view := by
  have htyped : ∀ w ∈ [single ['%', 'm']] ++ [single ['%', 'n']], w.Typed := by
    simp [single_typed]
  obtain ⟨ls, fresh, hls, hfresh, hiff⟩ := view_eq_iff false _ _ htyped
  refine ⟨ls, fresh, hls, hfresh, hiff.mpr fun d hd => .inl ?_⟩
  rw [List.mem_singleton.mp hd]
  exact setsFormatter_directive (show Kind.ofChar 'n' = some .newLine from rfl)

/-- **A formatter that is no longer configured stays.** -/
theorem view_ne_dropped :
    ∃ ls fresh, deliver false .empty [single ['%', 'm'], single []] .start = some ls ∧
      deliver false .empty [single []] .start = some fresh ∧
      (ls ['a']).map view ≠ (fresh ['a']).map view := by
  have htyped : ∀ w ∈ [single ['%', 'm']] ++ [single []], w.Typed := by
    simp [single_typed]
  obtain ⟨ls, fresh, hls, hfresh, hiff⟩ := view_deliver false _ _ htyped
  refine ⟨ls, fresh, hls, hfresh, fun heq => ?_⟩
  have hlast : lastFormatter ['a'] [single ['%', 'm']] = some ['%', 'm'] := by
    have := setsFormatter_directive (show Kind.ofChar 'm' = some .message from rfl)
    simp [lastFormatter, single, LogDefines.find, Option.filter, this]
  have hdefault : defaultPattern ≠ ['%', 'm'] := by
    intro h
    unfold defaultPattern at h
    simp at h
  have hmem : { name := ['a'] } ∈ (single []).defines := by
    simp [single]
  have hcond := (hiff _ hmem).mp heq
  simp [LogDefine.setsFormatter, hlast, hdefault.symm] at hcond

end Sylar.LogConfig
