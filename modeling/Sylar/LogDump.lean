import Sylar.FileAppender
import Sylar.LexicalCast
import Sylar.LogText

/-!
The loggers as text, loaded by another program.

`LoggerManager::toYamlString` writes what the variable `logs` reads. A logger that comes back so is
compared with the first by the events that it hands to its appenders, and the patterns they are
written with.
-/

namespace Sylar.LogDump

open Sylar.Appenders Sylar.FileAppender Sylar.LogConfig Sylar.LogText Sylar.LogPattern Sylar.Yaml
open Sylar.LexicalCast

/-! ### Dumping -/

/-- `loggers_` of the manager, which is ordered by the names. -/
structure LoggerMap where
  loggers : List (List Char × Logger)
  sorted : loggers.Pairwise fun p q => p.1 < q.1

def LoggerMap.table (m : LoggerMap) : Loggers := fun name =>
  (m.loggers.find? fun p => p.1 = name).map Prod.snd

def dumpAppender (a : LogAppender (List Char)) : Node :=
  let node := match a.sink with
    | .file filename =>
      put (key .file) (.scalar filename) (put (key .type) (.scalar fileLogAppender) [])
    | .stdout => put (key .type) (.scalar stdoutLogAppender) []
  let node := if a.level ≠ .unknow then put (key .level) (.scalar (levelToString a.level)) node
    else node
  let node := match own a with
    | some pattern => put (key .formatter) (.scalar pattern) node
    | none => node
  ofEntries node

def appenderToString (lib : Library) (a : LogAppender (List Char)) : List Char :=
  lib.emit (some (dumpAppender a))

/-- The node that a logger builds, with what its appenders' texts are loaded as. -/
def dumpLogger (name : List Char) (l : Logger) (appenders : List Node) : Node :=
  let node := put (key .name) (.scalar name) []
  let node := if l.level ≠ .unknow then put (key .level) (.scalar (levelToString l.level)) node
    else node
  let node := put (key .formatter) (.scalar l.formatter) node
  let node := if appenders ≠ [] then put (key .appenders) (.sequence appenders) node else node
  ofEntries node

/-- `Logger::toYamlString`. `YAML::Load` may throw. -/
def loggerToString (lib : Library) (p : List Char × Logger) : Option (List Char) := do
  let appenders ← p.2.appenders.mapM fun i => lib.load (appenderToString lib i)
  some (lib.emit (some (dumpLogger p.1 p.2 appenders)))

/-- A node that `push_back` is called on is null until the first call. -/
def ofItems : List Node → Node
  | [] => .null
  | items => .sequence items

def toYamlString (lib : Library) (m : LoggerMap) : Option (List Char) := do
  let items ← m.loggers.mapM fun i => (loggerToString lib i).bind lib.load
  some (lib.emit (some (ofItems items)))

/-! ### Loading -/

def insert (v : List LogDefine) (d : LogDefine) : List LogDefine :=
  if v.any fun e => e.name = d.name then v
  else (v.takeWhile fun e => e.name < d.name) ++ d :: v.dropWhile fun e => e.name < d.name

lemma mem_takeWhile_lt {v : List LogDefine} {d e : LogDefine}
    (he : e ∈ v.takeWhile fun e => e.name < d.name) : e.name < d.name := by
  simpa using List.mem_takeWhile_imp he

lemma lt_of_mem_dropWhile {v : List LogDefine} {d e : LogDefine}
    (hv : v.Pairwise fun d e => d.name < e.name) (hne : ∀ e ∈ v, e.name ≠ d.name)
    (he : e ∈ v.dropWhile fun e => e.name < d.name) : d.name < e.name := by
  induction v with
  | nil => cases he
  | cons f v ih =>
    obtain ⟨hf, hv⟩ := List.pairwise_cons.mp hv
    obtain ⟨hfne, hne⟩ := List.forall_mem_cons.mp hne
    by_cases hlt : f.name < d.name
    · rw [List.dropWhile_cons_of_pos (by simpa using hlt)] at he
      exact ih hv hne he
    · rw [List.dropWhile_cons_of_neg (by simpa using hlt)] at he
      have hdf : d.name < f.name := lt_of_le_of_ne (not_lt.mp hlt) (Ne.symm hfne)
      rcases List.mem_cons.mp he with rfl | he
      · exact hdf
      · exact hdf.trans (hf e he)

lemma pairwise_insert {v : List LogDefine} (hv : v.Pairwise fun d e => d.name < e.name)
    (d : LogDefine) : (insert v d).Pairwise fun d e => d.name < e.name := by
  unfold insert
  split
  case isTrue => exact hv
  case isFalse hany =>
    have hne : ∀ e ∈ v, e.name ≠ d.name := by simpa using hany
    refine List.pairwise_append.mpr ⟨hv.sublist (List.takeWhile_sublist _),
      List.pairwise_cons.mpr ⟨fun e he => lt_of_mem_dropWhile hv hne he,
        hv.sublist (List.dropWhile_sublist _)⟩, fun e he f hf => ?_⟩
    have hed := mem_takeWhile_lt he
    rcases List.mem_cons.mp hf with rfl | hf
    · exact hed
    · exact hed.trans (lt_of_mem_dropWhile hv hne hf)

def LogDefines.insert (v : LogDefines) (d : LogDefine) : LogDefines :=
  ⟨LogDump.insert v.defines d, pairwise_insert v.sorted d⟩

/-- `LexicalCast<LogDefine, std::string>` and its inverse. -/
def castDefine (lib : Library) : Cast LogDefine where
  toStr d := some (defineToString lib d)
  fromStr := defineOfString lib

/-- `LexicalCast<std::string, std::set<LogDefine>>`. -/
def definesOfString (lib : Library) (v : List Char) : Option LogDefines :=
  (elements lib (castDefine lib) v).map (·.foldl LogDefines.insert .empty)

/-- The loggers of a program that loads the text at its start. -/
def reload (lib : Library) (hasD : Bool) (text : List Char) : Option Loggers :=
  (definesOfString lib text).bind fun v => onChange hasD .empty v .start

/-! ### Logging -/

/-- An event that is handed to an appender, and the pattern it is written with. -/
abbrev Entry := Sink × Option (List Char)

def handOut (level : Level) (appenders : List (LogAppender (List Char))) : List Entry :=
  (appenders.filter fun a => value a.level ≤ value level).map fun a => (a.sink, a.formatter)

/-- `Logger::log`, for a logger with the given `root_`. -/
def Logger.log (root_ : Option Logger) (l : Logger) (level : Level) : List Entry :=
  if value l.level ≤ value level then
    if l.appenders ≠ [] then handOut level l.appenders
    else match root_ with
      | some r =>
        if value r.level ≤ value level then handOut level r.appenders else []
      | none => []
  else []

/-- What the loggers do with an event. The root logger has no `root_`. -/
def log (ls : Loggers) (name : List Char) (level : Level) : List Entry :=
  match ls name with
  | some l => Logger.log (if name = "root".toList then none else ls "root".toList) l level
  | none => []

/-! ### What is read -/

/-- The definition that is read of an appender. -/
def readAppender (a : LogAppender (List Char)) : LogAppenderDefine :=
  match a.sink with
  | .file filename => { type := 1, formatter := (own a).getD [], file := filename }
  | .stdout => { type := 2, formatter := (own a).getD [] }

def readLogger (p : List Char × Logger) : LogDefine where
  name := p.1
  level := p.2.level
  formatter := p.2.formatter
  appenders := p.2.appenders.map readAppender

/-- The node that is made of a logger whose appenders are loaded as they were. -/
def dump (p : List Char × Logger) : Node :=
  dumpLogger p.1 p.2 (p.2.appenders.map dumpAppender)

lemma get_dumpAppender {a : LogAppender (List Char)} {base : List (Node × Node)} (hbase : base ≠ [])
    (h : (match a.sink with
      | .file filename =>
        put (key .file) (.scalar filename) (put (key .type) (.scalar fileLogAppender) [])
      | .stdout => put (key .type) (.scalar stdoutLogAppender) []) = base) (k : List Char) :
    (dumpAppender a).get k = some (
      if k = key .formatter ∧ (own a).isSome then (own a).map .scalar
      else if k = key .level ∧ a.level ≠ .unknow then some (.scalar (levelToString a.level))
      else Node.lookup k base) := by
  rw [dumpAppender, h]
  cases hown : own a with
  | none =>
    dsimp only
    rw [get_ofEntries (ite_put_ne_nil hbase), lookup_ite_put]
    simp
  | some pattern =>
    dsimp only
    rw [get_ofEntries put_ne_nil, lookup_put, lookup_ite_put]
    simp

lemma stringOr_option {node : Node} {k : List Char} {v : Option (List Char)}
    (h : node.get k = some (v.map .scalar)) :
    stringOr (some node) k [] = some (v.getD []) := by
  cases v with
  | none => simp [stringOr, child, h]
  | some v => simp [stringOr, child, h, Node.asString]

lemma appenderOfNode_dumpAppender (a : LogAppender (List Char)) :
    appenderOfNode (some (dumpAppender a)) = some (some (readAppender a)) := by
  have hformatter : stringOr (some (dumpAppender a)) (key .formatter) [] =
      some ((own a).getD []) := by
    refine stringOr_option ?_
    rw [get_dumpAppender (a := a) ?_ rfl]
    · cases a.sink <;> cases own a <;> simp [lookup_put]
    · cases a.sink <;> exact put_ne_nil
  cases hsink : a.sink with
  | file filename =>
    have hget := get_dumpAppender (a := a) put_ne_nil (by rw [hsink])
    simp [appenderOfNode, child, hget, hformatter, lookup_put, Node.asString, readAppender, hsink]
  | stdout =>
    have hget := get_dumpAppender (a := a) put_ne_nil (by rw [hsink])
    simp [appenderOfNode, child, hget, hformatter, lookup_put, Node.asString, readAppender, hsink,
      stdoutLogAppender_ne]

lemma mapM_eq_map {α β : Type} {f : α → Option β} {g : α → β} {l : List α}
    (h : ∀ x ∈ l, f x = some (g x)) : l.mapM f = some (l.map g) := by
  induction l with
  | nil => rfl
  | cons x l ih =>
    obtain ⟨hx, hl⟩ := List.forall_mem_cons.mp h
    rw [List.mapM_cons, hx, ih hl]
    rfl

lemma mapM_appenderOfNode (as : List (LogAppender (List Char))) :
    ((as.map dumpAppender).map some).mapM appenderOfNode =
      some ((as.map readAppender).map some) := by
  rw [List.map_map, List.map_map, List.mapM_map]
  exact mapM_eq_map fun a _ => appenderOfNode_dumpAppender a

lemma get_dumpLogger (p : List Char × Logger) (k : List Char) :
    (dump p).get k = some (
      if k = key .appenders ∧ p.2.appenders ≠ [] then
        some (.sequence (p.2.appenders.map dumpAppender))
      else if k = key .formatter then some (.scalar p.2.formatter)
      else if k = key .level ∧ p.2.level ≠ .unknow then
        some (.scalar (levelToString p.2.level))
      else if k = key .name then some (.scalar p.1)
      else none) := by
  rw [dump, dumpLogger, get_ofEntries (ite_put_ne_nil put_ne_nil), lookup_ite_put, lookup_put,
    lookup_ite_put, lookup_put, lookup_nil]
  simp

/-- **What is read of a logger.** -/
lemma defineOfString_dump {lib : Library} {p : List Char × Logger}
    (hload : lib.load (lib.emit (some (dump p))) = some (dump p)) :
    defineOfString lib (lib.emit (some (dump p))) = some (readLogger p) := by
  have hget := get_dumpLogger p
  have hformatter : stringOr (some (dump p)) (key .formatter) [] = some p.2.formatter := by
    simp [stringOr, child, hget, Node.asString]
  have hlevel : ∃ text, stringOr (some (dump p)) (key .level) [' '] = some text ∧
      levelFromString text = p.2.level := by
    by_cases hp : p.2.level = .unknow
    · refine ⟨[' '], by simp [stringOr, child, hget, hp], ?_⟩
      rw [hp]
      simp [levelFromString]
    · exact ⟨levelToString p.2.level, by simp [stringOr, child, hget, hp, Node.asString],
        levelFromString_toString p.2.level⟩
  obtain ⟨text, htext, hlevel⟩ := hlevel
  have happenders := mapM_appenderOfNode p.2.appenders
  have hreduce : ((p.2.appenders.map readAppender).map some).reduceOption =
      p.2.appenders.map readAppender := by
    simp [List.reduceOption]
  by_cases hp : p.2.appenders = []
  · simp [defineOfString, hload, hget, hformatter, htext, hlevel, hp, Node.asString, readLogger]
  · rw [List.map_map] at happenders hreduce
    simp [defineOfString, hload, hget, hformatter, htext, hlevel, hp, Node.asString,
      Node.children_sequence, happenders, hreduce, readLogger]

/-- The library reads what it has written of a node. -/
def Reads (lib : Library) (n : Node) : Prop := lib.load (lib.emit (some n)) = some n

def LoggerMap.nodes (m : LoggerMap) : List Node :=
  .sequence (m.loggers.map dump) ::
    m.loggers.flatMap fun p => dump p :: p.2.appenders.map dumpAppender

section Text

variable {lib : Library} {m : LoggerMap} (hlib : ∀ n ∈ m.nodes, Reads lib n)
include hlib

lemma reads_dump {p : List Char × Logger} (hp : p ∈ m.loggers) : Reads lib (dump p) :=
  hlib _ (List.mem_cons_of_mem _ (List.mem_flatMap.mpr ⟨p, hp, List.mem_cons_self⟩))

lemma reads_dumpAppender {p : List Char × Logger} (hp : p ∈ m.loggers)
    {a : LogAppender (List Char)} (ha : a ∈ p.2.appenders) : Reads lib (dumpAppender a) :=
  hlib _ (List.mem_cons_of_mem _ (List.mem_flatMap.mpr
    ⟨p, hp, List.mem_cons_of_mem _ (List.mem_map_of_mem ha)⟩))

lemma loggerToString_eq {p : List Char × Logger} (hp : p ∈ m.loggers) :
    loggerToString lib p = some (lib.emit (some (dump p))) := by
  have hload : p.2.appenders.mapM (fun i => lib.load (appenderToString lib i)) =
      some (p.2.appenders.map dumpAppender) :=
    mapM_eq_map fun a ha => reads_dumpAppender hlib hp ha
  rw [loggerToString, hload]
  rfl

lemma toYamlString_eq (hne : m.loggers ≠ []) :
    toYamlString lib m = some (lib.emit (some (.sequence (m.loggers.map dump)))) := by
  have hload : m.loggers.mapM (fun i => (loggerToString lib i).bind lib.load) =
      some (m.loggers.map dump) := by
    refine mapM_eq_map fun p hp => ?_
    rw [loggerToString_eq hlib hp, Option.bind_some]
    exact reads_dump hlib hp
  obtain ⟨p, ps, hps⟩ := List.exists_cons_of_ne_nil hne
  rw [toYamlString, hload, hps]
  rfl

lemma elements_dump : elements lib (castDefine lib)
    (lib.emit (some (.sequence (m.loggers.map dump)))) = some (m.loggers.map readLogger) := by
  have hload : lib.load (lib.emit (some (.sequence (m.loggers.map dump)))) =
      some (.sequence (m.loggers.map dump)) := hlib _ List.mem_cons_self
  rw [elements, hload]
  simp only [Option.bind_eq_bind, Option.bind_some, Node.children_sequence, List.map_map]
  rw [List.mapM_map]
  exact mapM_eq_map fun p hp => defineOfString_dump (reads_dump hlib hp)

end Text

/-- A definition whose name is greater than the others goes to the end. -/
lemma insert_last {v : List LogDefine} {d : LogDefine} (h : ∀ e ∈ v, e.name < d.name) :
    insert v d = v ++ [d] := by
  have hany : ¬(v.any fun e => e.name = d.name) := by
    simpa using fun e he => (h e he).ne
  have htrue : ∀ e ∈ v, decide (e.name < d.name) := by simpa using h
  rw [insert, if_neg hany, List.takeWhile_eq_self_iff.mpr htrue,
    List.dropWhile_eq_nil_iff.mpr htrue]

lemma foldl_insert (v : LogDefines) (ds : List LogDefine)
    (h : (v.defines ++ ds).Pairwise fun d e => d.name < e.name) :
    (ds.foldl LogDefines.insert v).defines = v.defines ++ ds := by
  induction ds generalizing v with
  | nil => exact (List.append_nil _).symm
  | cons d ds ih =>
    have hlast : (LogDefines.insert v d).defines = v.defines ++ [d] :=
      insert_last fun e he => (List.pairwise_append.mp h).2.2 e he d List.mem_cons_self
    have hassoc : (LogDefines.insert v d).defines ++ ds = v.defines ++ d :: ds := by
      rw [hlast, List.append_assoc, List.singleton_append]
    rw [List.foldl_cons, ih _ (by rwa [hassoc]), hassoc]

/-- **The definitions that are read of the dump of the loggers.** -/
lemma definesOfString_dump {lib : Library} {m : LoggerMap} (hlib : ∀ n ∈ m.nodes, Reads lib n)
    (hne : m.loggers ≠ []) : ∃ text v, toYamlString lib m = some text ∧
      definesOfString lib text = some v ∧ v.defines = m.loggers.map readLogger := by
  have hsorted : (m.loggers.map readLogger).Pairwise fun d e => d.name < e.name :=
    List.pairwise_map.mpr m.sorted
  refine ⟨_, _, toYamlString_eq hlib hne, ?_, foldl_insert .empty _ hsorted⟩
  rw [definesOfString, elements_dump hlib]
  rfl

/-! ### What becomes of a logger -/

def valid (pattern : List Char) : Bool :=
  pattern ≠ [] && (LogFormatter.init pattern).error = false

/-- The pattern that the appender writes with when the logger has been loaded. -/
def reread (l : Logger) (a : LogAppender (List Char)) : List Char :=
  ((own a).filter valid).getD (if valid l.formatter then l.formatter else defaultPattern)

lemma formatter_of_has {a : LogAppender (List Char)} {f : List Char} (h : a.Has f) :
    a.formatter = some ((own a).getD f) := by
  unfold own
  split
  case isTrue hflag =>
    obtain ⟨g, hg⟩ := Option.ne_none_iff_exists'.mp h.1
    rw [hg]
    rfl
  case isFalse hflag => exact h.2 (eq_false_of_ne_true hflag)

/-- What the loop over the appenders does shows in the view of a logger. -/
lemma handOut_eq {f : List Char} {appenders : List (LogAppender (List Char))}
    (h : ∀ a ∈ appenders, a.Has f) (level : Level) :
    handOut level appenders =
      ((appenders.map viewAppender).filter fun x => value x.2.1 ≤ value level).map fun x =>
        (x.1, some (x.2.2.getD f)) := by
  rw [handOut, List.filter_map, List.map_map]
  refine List.map_congr_left fun a ha => ?_
  rw [formatter_of_has (h a (List.mem_of_mem_filter ha))]
  rfl

lemma configure_has (d : LogAppenderDefine) (sink : Sink) (f : List Char) :
    ((d.configure sink).adopt f).Has f := by
  rw [LogAppender.adopt_has_iff]
  unfold LogAppenderDefine.configure
  split
  · split
    · exact Or.inl rfl
    · exact Or.inr (Or.inl rfl)
  · exact Or.inr (Or.inl rfl)

/-- The appenders that are added have a formatter, their own or that of the logger. -/
lemma addAppenders_has {hasD : Bool} {ds : List LogAppenderDefine} {l l' : Logger}
    (hl : ∀ a ∈ l.appenders, a.Has l.formatter) (h : addAppenders hasD ds l = some l') :
    ∀ a ∈ l'.appenders, a.Has l'.formatter := by
  induction ds generalizing l with
  | nil =>
    cases h
    exact hl
  | cons d ds ih =>
    have hadd : ∀ sink, ∀ a ∈ (addAppender l (d.configure sink)).appenders,
        a.Has (addAppender l (d.configure sink)).formatter := by
      intro sink a ha
      rcases List.mem_append.mp ha with ha | ha
      · exact hl a ha
      · rw [List.mem_singleton.mp ha]
        exact configure_has d sink l.formatter
    unfold addAppenders at h
    split at h
    · exact ih (hadd _) h
    · split at h
      · split at h
        · exact ih (hadd _) h
        · exact ih hl h
      · cases h

lemma apply_has {hasD : Bool} {d : LogDefine} {l l' : Logger} (h : d.apply hasD l = some l') :
    ∀ a ∈ l'.appenders, a.Has l'.formatter := by
  refine addAppenders_has (fun a ha => ?_) h
  cases ha

lemma shown_readAppender (a : LogAppender (List Char)) :
    (readAppender a).shown false = [(a.sink, .unknow, (own a).filter valid)] := by
  have hview : ∀ d : LogAppenderDefine, d.level = .unknow → d.formatter = (own a).getD [] →
      ∀ sink, viewAppender (d.configure sink) = (sink, .unknow, (own a).filter valid) := by
    intro d hlevel hformatter sink
    unfold LogAppenderDefine.configure valid
    rw [hlevel, hformatter]
    cases own a with
    | none => rfl
    | some f =>
      by_cases hf : f = []
      · subst hf
        rfl
      · cases herror : (LogFormatter.init f).error <;>
          simp [hf, herror, viewAppender, own, LogAppender.setFormatter, Option.filter]
  unfold readAppender LogAppenderDefine.shown
  cases a.sink with
  | file filename => exact congrArg List.singleton (hview _ rfl rfl _)
  | stdout => exact congrArg List.singleton (hview _ rfl rfl _)

/-- What is left of a logger that has been loaded. -/
structure Reloaded (l l' : Logger) : Prop where
  level : l'.level = l.level
  handOut : ∀ level, handOut level l'.appenders =
    l.appenders.map fun a => (a.sink, some (reread l a))
  nil : l'.appenders = [] ↔ l.appenders = []

lemma reloaded_of_apply {p : List Char × Logger} {l l' : Logger} (hl : l.formatter = defaultPattern)
    (h : (readLogger p).apply false l = some l') : Reloaded p.2 l' := by
  have htyped : ∀ d ∈ (readLogger p).appenders, d.type = 1 ∨ d.type = 2 := by
    intro d hd
    obtain ⟨a, -, rfl⟩ := List.mem_map.mp hd
    unfold readAppender
    cases a.sink <;> simp
  obtain ⟨l'', hl'', hview⟩ := apply_spec false htyped l
  obtain rfl : l'' = l' := Option.some.inj (hl''.symm.trans h)
  have hsets : (readLogger p).setsFormatter = valid p.2.formatter := rfl
  have hshown : (readLogger p).appenders.flatMap (LogAppenderDefine.shown false) =
      p.2.appenders.map fun a => (a.sink, .unknow, (own a).filter valid) := by
    rw [readLogger, List.flatMap_map]
    simp only [shown_readAppender]
    exact List.flatMap_pure_eq_map _ _
  rw [hsets, hshown, hl, view, Prod.mk.injEq, Prod.mk.injEq] at hview
  obtain ⟨hlevel, hformatter, happenders⟩ := hview
  refine ⟨hlevel, fun level => ?_, ?_⟩
  · rw [handOut_eq (apply_has h), happenders]
    have hall : ∀ x ∈ p.2.appenders.map fun a => (a.sink, Level.unknow, (own a).filter valid),
        decide (value x.2.1 ≤ value level) := by
      intro x hx
      obtain ⟨a, -, rfl⟩ := List.mem_map.mp hx
      exact decide_eq_true (Nat.zero_le _)
    rw [List.filter_eq_self.mpr hall, List.map_map]
    refine List.map_congr_left fun a _ => ?_
    exact congrArg (fun f => (a.sink, some (((own a).filter valid).getD f))) hformatter
  · rw [← List.map_eq_nil_iff (f := viewAppender), happenders, List.map_eq_nil_iff]

/-! ### The events -/

/-- An appender takes every event that its logger lets pass, and comes back with its pattern. -/
def Kept (l : Logger) (a : LogAppender (List Char)) : Prop :=
  value a.level ≤ max (value l.level) (value .debug) ∧ a.formatter = some (reread l a)

lemma map_filter_eq_map_iff {α β : Type} {P : α → Bool} {f g : α → β} {l : List α} :
    l.map g = (l.filter P).map f ↔ ∀ a ∈ l, P a ∧ g a = f a := by
  constructor
  · intro h
    have hlen : (l.filter P).length = l.length := by
      have hmap := congrArg List.length h
      rw [List.length_map, List.length_map] at hmap
      exact hmap.symm
    have hall := List.length_filter_eq_length_iff.mp hlen
    rw [List.filter_eq_self.mpr hall] at h
    exact fun a ha => ⟨hall a ha, List.map_inj_left.mp h a ha⟩
  · intro h
    rw [List.filter_eq_self.mpr fun a ha => (h a ha).1]
    exact List.map_congr_left fun a ha => (h a ha).2

/-- An event reaches the appenders of a logger as before. -/
lemma handOut_iff {l l' : Logger} (h : Reloaded l l') (level : Level) :
    handOut level l'.appenders = handOut level l.appenders ↔
      ∀ a ∈ l.appenders, value a.level ≤ value level ∧ a.formatter = some (reread l a) := by
  rw [h.handOut, handOut, map_filter_eq_map_iff]
  refine forall₂_congr fun a _ => ?_
  rw [decide_eq_true_iff, Prod.mk.injEq, eq_comm (a := some (reread l a))]
  simp

structure Back (l l' : Logger) : Prop where
  reloaded : Reloaded l l'
  kept : ∀ a ∈ l.appenders, Kept l a

section Log

variable {l l' : Logger} {root root' : Option Logger} {level : Level}

lemma Back.handOut (h : Back l l') (hne : level ≠ .unknow) (hle : value l.level ≤ value level) :
    handOut level l'.appenders = handOut level l.appenders := by
  refine (handOut_iff h.reloaded level).mpr fun a ha => ⟨?_, (h.kept a ha).2⟩
  have hdebug : value .debug ≤ value level := by
    cases level with
    | unknow => exact absurd rfl hne
    | _ => exact Nat.le_of_ble_eq_true rfl
  exact (h.kept a ha).1.trans (max_le hle hdebug)

/-- A logger without appenders hands events to the root logger. -/
lemma Back.log (h : Back l l') (hroot : Option.Rel Back root root') (hne : level ≠ .unknow) :
    Logger.log root' l' level = Logger.log root l level := by
  unfold Logger.log
  rw [h.reloaded.level]
  split
  case isFalse => rfl
  case isTrue hle =>
    by_cases hnil : l.appenders = []
    · rw [if_neg (not_not.mpr (h.reloaded.nil.mpr hnil)), if_neg (not_not.mpr hnil)]
      cases hroot with
      | none => rfl
      | some hr =>
        dsimp only
        rw [hr.reloaded.level]
        split
        case isTrue hle => exact hr.handOut hne hle
        case isFalse => rfl
    · rw [if_pos fun hnil' => hnil (h.reloaded.nil.mp hnil'), if_pos hnil]
      exact h.handOut hne hle

lemma kept_of_log (h : Reloaded l l')
    (hlog : ∀ level, level ≠ .unknow → Logger.log root' l' level = Logger.log root l level) :
    ∀ a ∈ l.appenders, Kept l a := by
  intro a ha
  have hne : l.appenders ≠ [] := List.ne_nil_of_mem ha
  -- the least event that the logger lets pass
  obtain ⟨level, hunknow, hvalue⟩ : ∃ level, level ≠ Level.unknow ∧
      value level = max (value l.level) (value .debug) := by
    by_cases hlevel : l.level = .unknow
    · exact ⟨.debug, nofun, by rw [hlevel]; rfl⟩
    · refine ⟨l.level, hlevel, (max_eq_left ?_).symm⟩
      cases hl : l.level with
      | unknow => exact absurd hl hlevel
      | _ => exact Nat.le_of_ble_eq_true rfl
  have hle : value l.level ≤ value level := hvalue ▸ le_max_left _ _
  have hsame := hlog level hunknow
  unfold Logger.log at hsame
  rw [h.level, if_pos hle, if_pos hle, if_pos fun hnil => hne (h.nil.mp hnil), if_pos hne,
    handOut_iff h] at hsame
  exact ⟨hvalue ▸ (hsame a ha).1, (hsame a ha).2⟩

end Log

/-! ### All loggers -/

lemma LoggerMap.table_eq (m : LoggerMap) {p : List Char × Logger} (hp : p ∈ m.loggers) :
    m.table p.1 = some p.2 := by
  obtain ⟨pre, post, hsplit⟩ := List.append_of_mem hp
  have hpre : ∀ q ∈ pre, q.1 ≠ p.1 := by
    intro q hq heq
    have hlt := (List.pairwise_append.mp (hsplit ▸ m.sorted)).2.2 q hq p List.mem_cons_self
    rw [heq] at hlt
    exact List.lt_irrefl _ hlt
  have hnone : pre.find? (fun q => decide (q.1 = p.1)) = none := by simpa using hpre
  rw [LoggerMap.table, hsplit, List.find?_append, hnone]
  simp

lemma reload_spec {lib : Library} {m : LoggerMap} (hlib : ∀ n ∈ m.nodes, Reads lib n)
    (hne : m.loggers ≠ []) : ∃ text ls, toYamlString lib m = some text ∧
      reload lib false text = some ls ∧
      ∀ p ∈ m.loggers, ∃ l', ls p.1 = some l' ∧ Reloaded p.2 l' := by
  obtain ⟨text, v, htext, hv, hdefines⟩ := definesOfString_dump hlib hne
  have htyped : v.Typed := by
    intro d hd a ha
    rw [hdefines] at hd
    obtain ⟨p, -, rfl⟩ := List.mem_map.mp hd
    obtain ⟨b, -, rfl⟩ := List.mem_map.mp ha
    unfold readAppender
    cases b.sink <;> simp
  obtain ⟨ls, hls, hmem, -⟩ := onChange_spec false .empty htyped .start
  refine ⟨text, ls, htext, by rw [reload, hv]; exact hls, fun p hp => ?_⟩
  have happly := hmem (readLogger p) (hdefines ▸ List.mem_map_of_mem hp)
  rw [if_neg nofun] at happly
  obtain ⟨l', hl', happly⟩ := happly
  refine ⟨l', hl', reloaded_of_apply ?_ happly⟩
  by_cases hroot : p.1 = "root".toList
  · have hstart : Loggers.start (readLogger p).name =
        some (addAppender newLogger { sink := .stdout }) := by
      show Loggers.start p.1 = _
      rw [hroot, Loggers.start, Function.update_self]
    rw [hstart]
    rfl
  · have hstart : Loggers.start (readLogger p).name = none := by
      show Loggers.start p.1 = _
      rw [Loggers.start, Function.update_of_ne hroot]
    rw [hstart]
    rfl

/-- **The loggers that are loaded from a dump do with every event what the dumped ones do, if and
only if each appender takes every event that its logger lets pass and is given its pattern again.**
The program that loads them has no option `d`, and events of the level `UNKNOW` are left out. -/
theorem reload_log_iff {lib : Library} {m : LoggerMap} (hlib : ∀ n ∈ m.nodes, Reads lib n)
    (hroot : ∃ r, ("root".toList, r) ∈ m.loggers) :
    ∃ text ls, toYamlString lib m = some text ∧ reload lib false text = some ls ∧
      ((∀ p ∈ m.loggers, ∀ level, level ≠ .unknow → log ls p.1 level = log m.table p.1 level) ↔
        ∀ p ∈ m.loggers, ∀ a ∈ p.2.appenders,
          value a.level ≤ max (value p.2.level) (value .debug) ∧
            a.formatter = some (reread p.2 a)) := by
  obtain ⟨r, hr⟩ := hroot
  obtain ⟨text, ls, htext, hls, hspec⟩ := reload_spec hlib (List.ne_nil_of_mem hr)
  refine ⟨text, ls, htext, hls, fun h p hp => ?_, fun h p hp level hne => ?_⟩
  · obtain ⟨l', hl', hreloaded⟩ := hspec p hp
    have hlog := h p hp
    simp only [log, hl', m.table_eq hp] at hlog
    exact kept_of_log hreloaded hlog
  · have hback : ∀ p ∈ m.loggers, ∃ l', ls p.1 = some l' ∧ Back p.2 l' := by
      intro p hp
      obtain ⟨l', hl', hreloaded⟩ := hspec p hp
      exact ⟨l', hl', hreloaded, h p hp⟩
    obtain ⟨l', hl', hl⟩ := hback p hp
    obtain ⟨r', hr', hr''⟩ := hback _ hr
    simp only [log, hl', m.table_eq hp]
    refine hl.log ?_ hne
    split
    · exact .none
    · rw [hr', m.table_eq hr]
      exact .some hr''

/-! ### A dump -/

/-- The root logger with the pattern `%m` and one appender. -/
def oneLogger (level : Level) : LoggerMap where
  loggers := [("root".toList, {
    level := .info
    formatter := ['%', 'm']
    appenders := [{ sink := .stdout, level := level, formatter := some ['%', 'm'] }] })]
  sorted := List.pairwise_singleton _ _

def appenderText : List Char := "type: StdoutLogAppender\nlevel: INFO".toList

def loggerText : List Char :=
  ("name: root\nlevel: INFO\nformatter: \"%m\"\n" ++
    "appenders:\n  - type: StdoutLogAppender\n    level: INFO").toList

def dumpText : List Char :=
  ("- name: root\n  level: INFO\n  formatter: \"%m\"\n" ++
    "  appenders:\n    - type: StdoutLogAppender\n      level: INFO").toList

def loadInfo (v : List Char) : Option Node :=
  if v = dumpText then some (.sequence ((oneLogger .info).loggers.map dump))
  else if v = loggerText then (oneLogger .info).loggers.head?.map dump
  else if v = appenderText then
    some (dumpAppender { sink := .stdout, level := .info, formatter := some ['%', 'm'] })
  else none

def infoLibrary : Library where
  load := loadInfo
  emit
    | some (.sequence _) => dumpText
    | some (.map (_ :: _ :: _ :: _)) => loggerText
    | _ => appenderText
  index _ := none

lemma reads_infoLibrary : ∀ n ∈ (oneLogger .info).nodes, Reads infoLibrary n := by
  have hlogger : loggerText ≠ dumpText := by decide
  have happender : appenderText ≠ dumpText ∧ appenderText ≠ loggerText := by decide
  intro n hn
  rcases List.mem_cons.mp hn with rfl | hn
  · show loadInfo dumpText = _
    rw [loadInfo, if_pos rfl]
  · rcases List.mem_cons.mp hn with rfl | hn
    · show loadInfo loggerText = _
      rw [loadInfo, if_neg hlogger, if_pos rfl]
      rfl
    · obtain rfl := List.mem_singleton.mp hn
      show loadInfo appenderText = _
      rw [loadInfo, if_neg happender.1, if_neg happender.2, if_pos rfl]

/-- An appender with the level of its logger. -/
theorem reload_log_info :
    ∃ text ls, toYamlString infoLibrary (oneLogger .info) = some text ∧
      reload infoLibrary false text = some ls ∧
      ∀ p ∈ (oneLogger .info).loggers, ∀ level, level ≠ .unknow →
        log ls p.1 level = log (oneLogger .info).table p.1 level := by
  have hvalid : valid ['%', 'm'] = true :=
    setsFormatter_directive (show Kind.ofChar 'm' = some .message from rfl)
  obtain ⟨text, ls, htext, hls, hiff⟩ := reload_log_iff reads_infoLibrary
    ⟨_, List.mem_singleton_self _⟩
  refine ⟨text, ls, htext, hls, hiff.mpr fun p hp a ha => ?_⟩
  obtain rfl := List.mem_singleton.mp hp
  obtain rfl := List.mem_singleton.mp ha
  refine ⟨le_max_left _ _, ?_⟩
  simp [reread, own, hvalid]

end Sylar.LogDump
