import Mathlib.Data.List.ReduceOption
import Sylar.LogConfig
import Sylar.Yaml

/-!
The text form of a `LogDefine`, and its way back.
-/

namespace Sylar.LogText

open Sylar.Appenders Sylar.LogConfig Sylar.Yaml

def levelText : Level → String
  | .debug => "DEBUG"
  | .info => "INFO"
  | .warn => "WARN"
  | .error => "ERROR"
  | .fatal => "FATAL"
  | .unknow => "UNKNOW"

def levelToString (level : Level) : List Char := (levelText level).toList

def levelFromString (str : List Char) : Level :=
  if str = "DEBUG".toList then .debug
  else if str = "INFO".toList then .info
  else if str = "WARN".toList then .warn
  else if str = "ERROR".toList then .error
  else if str = "FATAL".toList then .fatal
  else if str = "debug".toList then .debug
  else if str = "info".toList then .info
  else if str = "warn".toList then .warn
  else if str = "error".toList then .error
  else if str = "fatal".toList then .fatal
  else .unknow

inductive Field
  | name
  | level
  | formatter
  | appenders
  | type
  | file

def Field.text : Field → String
  | name => "name"
  | level => "level"
  | formatter => "formatter"
  | appenders => "appenders"
  | type => "type"
  | file => "file"

def key (f : Field) : List Char := f.text.toList

@[simp] lemma key_inj {f g : Field} : key f = key g ↔ f = g := by
  rw [key, key, String.toList_inj]
  cases f <;> cases g <;> simp [Field.text]

def fileLogAppender : List Char := "FileLogAppender".toList

def stdoutLogAppender : List Char := "StdoutLogAppender".toList

lemma stdoutLogAppender_ne : stdoutLogAppender ≠ fileLogAppender := by
  unfold stdoutLogAppender fileLogAppender
  rw [ne_eq, String.toList_inj]
  simp

/-! ### The encoder -/

/-- A node that entries are assigned to is null until the first one. -/
def ofEntries : List (Node × Node) → Node
  | [] => .null
  | entries => .map entries

def appenderNode (a : LogAppenderDefine) : Node :=
  let na := if a.type = 1 then
      put (key .file) (.scalar a.file) (put (key .type) (.scalar fileLogAppender) [])
    else if a.type = 2 then put (key .type) (.scalar stdoutLogAppender) []
    else []
  let na := if a.level ≠ .unknow then put (key .level) (.scalar (levelToString a.level)) na
    else na
  let na := if a.formatter ≠ [] then put (key .formatter) (.scalar a.formatter) na else na
  ofEntries na

/-- The node of a definition. The first `push_back` makes a sequence of `node["appenders"]`. -/
def defineNode (i : LogDefine) : Node :=
  let node := put (key .name) (.scalar i.name) []
  let node := if i.level ≠ .unknow then put (key .level) (.scalar (levelToString i.level)) node
    else node
  let node := if i.formatter ≠ [] then put (key .formatter) (.scalar i.formatter) node else node
  let node := if i.appenders ≠ [] then
      put (key .appenders) (.sequence (i.appenders.map appenderNode)) node
    else node
  ofEntries node

def defineToString (lib : Library) (i : LogDefine) : List Char := lib.emit (some (defineNode i))

/-! ### The decoder -/

/-- `node[key]` for a node that need not be defined. -/
def child (node : Option Node) (key : List Char) : Option (Option Node) :=
  match node with
  | none => some none
  | some node => node.get key

/-- `node[key].IsDefined() ? node[key].as<std::string>() : fallback`. -/
def stringOr (node : Option Node) (key fallback : List Char) : Option (List Char) := do
  match ← child node key with
  | some n => n.asString
  | none => some fallback

/-- The body of the loop over the appenders: it throws, or skips the appender, or adds it. -/
def appenderOfNode (appender : Option Node) : Option (Option LogAppenderDefine) := do
  match ← child appender (key .type) with
  | none => some none
  | some t =>
    let type ← t.asString
    if type = fileLogAppender then
      match ← child appender (key .file) with
      | none => some none
      | some f =>
        let file ← f.asString
        let formatter ← stringOr appender (key .formatter) []
        some (some { type := 1, file := file, formatter := formatter })
    else if type = stdoutLogAppender then
      let formatter ← stringOr appender (key .formatter) []
      some (some { type := 2, formatter := formatter })
    else some none

def defineOfString (lib : Library) (v : List Char) : Option LogDefine := do
  let node ← lib.load v
  match ← node.get (key .name) with
  | none => none
  | some n =>
    let name ← n.asString
    let level ← stringOr (some node) (key .level) [' ']
    let formatter ← stringOr (some node) (key .formatter) []
    let appenders ←
      match ← node.get (key .appenders) with
      | none => some []
      | some appenders => (appenders.children lib).mapM appenderOfNode
    some {
      name := name
      level := levelFromString level
      formatter := formatter
      appenders := appenders.reduceOption }

/-! ### The round trip -/

lemma levelFromString_toString (l : Level) : levelFromString (levelToString l) = l := by
  simp only [levelFromString, levelToString, String.toList_inj]
  cases l <;> simp [levelText]

lemma get_ofEntries {entries : List (Node × Node)} (h : entries ≠ []) (key : List Char) :
    (ofEntries entries).get key = some (Node.lookup key entries) := by
  cases entries with
  | nil => exact absurd rfl h
  | cons e entries => rfl

/-- What comes back of an appender: its level is not read. -/
def survives (a : LogAppenderDefine) : LogAppenderDefine :=
  { type := a.type, formatter := a.formatter, file := if a.type = 1 then a.file else [] }

lemma lookup_ite_put {c : Prop} [Decidable c] {key : List Char} {value : Node}
    {entries : List (Node × Node)} (key' : List Char) :
    Node.lookup key' (if c then put key value entries else entries) =
      if key' = key ∧ c then some value else Node.lookup key' entries := by
  by_cases hc : c
  · simp [hc, lookup_put]
  · simp [hc]

lemma ite_put_ne_nil {c : Prop} [Decidable c] {key : List Char} {value : Node}
    {entries : List (Node × Node)} (h : entries ≠ []) :
    (if c then put key value entries else entries) ≠ [] := by
  split
  · exact put_ne_nil
  · exact h

lemma stringOr_ite {node : Node} {key v : List Char}
    (h : node.get key = some (if v ≠ [] then some (.scalar v) else none)) :
    stringOr (some node) key [] = some v := by
  by_cases hv : v = []
  · simp [stringOr, child, h, hv]
  · simp [stringOr, child, h, hv, Node.asString]

lemma get_appenderNode {a : LogAppenderDefine} {base : List (Node × Node)} (hbase : base ≠ [])
    (h : (if a.type = 1 then
        put (key .file) (.scalar a.file) (put (key .type) (.scalar fileLogAppender) [])
      else if a.type = 2 then put (key .type) (.scalar stdoutLogAppender) []
      else []) = base) (k : List Char) :
    (appenderNode a).get k = some (
      if k = key .formatter ∧ a.formatter ≠ [] then some (.scalar a.formatter)
      else if k = key .level ∧ a.level ≠ .unknow then some (.scalar (levelToString a.level))
      else Node.lookup k base) := by
  rw [appenderNode, h, get_ofEntries (ite_put_ne_nil (ite_put_ne_nil hbase)), lookup_ite_put,
    lookup_ite_put]

lemma appenderOfNode_appenderNode {a : LogAppenderDefine} (h : a.type = 1 ∨ a.type = 2) :
    appenderOfNode (some (appenderNode a)) = some (some (survives a)) := by
  rcases h with h | h
  · have hget := get_appenderNode (a := a) put_ne_nil (if_pos h)
    have hformatter : stringOr (some (appenderNode a)) (key .formatter) [] =
        some a.formatter := by
      apply stringOr_ite
      simp [hget, lookup_put]
    simp [appenderOfNode, child, hget, hformatter, lookup_put, Node.asString, survives, h]
  · have hne : a.type ≠ 1 := by omega
    have hget := get_appenderNode (a := a) put_ne_nil ((if_neg hne).trans (if_pos h))
    have hformatter : stringOr (some (appenderNode a)) (key .formatter) [] =
        some a.formatter := by
      apply stringOr_ite
      simp [hget, lookup_put]
    simp [appenderOfNode, child, hget, hformatter, lookup_put, Node.asString, survives, h,
      stdoutLogAppender_ne]

lemma mapM_appenderOfNode {as : List LogAppenderDefine} (h : ∀ a ∈ as, a.type = 1 ∨ a.type = 2) :
    ((as.map appenderNode).map some).mapM appenderOfNode =
      some ((as.map survives).map some) := by
  induction as with
  | nil => rfl
  | cons a as ih =>
    have ha := appenderOfNode_appenderNode (h a List.mem_cons_self)
    have has := ih fun b hb => h b (List.mem_cons_of_mem _ hb)
    simp only [List.map_map] at has
    simp [ha, has]

lemma get_defineNode (d : LogDefine) (k : List Char) :
    (defineNode d).get k = some (
      if k = key .appenders ∧ d.appenders ≠ [] then
        some (.sequence (d.appenders.map appenderNode))
      else if k = key .formatter ∧ d.formatter ≠ [] then some (.scalar d.formatter)
      else if k = key .level ∧ d.level ≠ .unknow then some (.scalar (levelToString d.level))
      else if k = key .name then some (.scalar d.name)
      else none) := by
  rw [defineNode, get_ofEntries (ite_put_ne_nil (ite_put_ne_nil (ite_put_ne_nil put_ne_nil))),
    lookup_ite_put, lookup_ite_put, lookup_ite_put, lookup_put, lookup_nil]

/-- **What comes back of a definition.** -/
lemma defineOfString_toString {lib : Library} {d : LogDefine}
    (hload : lib.load (lib.emit (some (defineNode d))) = some (defineNode d))
    (h : ∀ a ∈ d.appenders, a.type = 1 ∨ a.type = 2) :
    defineOfString lib (defineToString lib d) =
      some { d with appenders := d.appenders.map survives } := by
  have hget := get_defineNode d
  have hformatter : stringOr (some (defineNode d)) (key .formatter) [] = some d.formatter := by
    apply stringOr_ite
    simp [hget]
  have hlevel : ∃ text, stringOr (some (defineNode d)) (key .level) [' '] = some text ∧
      levelFromString text = d.level := by
    by_cases hd : d.level = .unknow
    · refine ⟨[' '], by simp [stringOr, child, hget, hd], ?_⟩
      rw [hd]
      simp [levelFromString]
    · exact ⟨levelToString d.level, by simp [stringOr, child, hget, hd, Node.asString],
        levelFromString_toString d.level⟩
  obtain ⟨text, htext, hlevel⟩ := hlevel
  have happenders := mapM_appenderOfNode h
  have hreduce : ((d.appenders.map survives).map some).reduceOption = d.appenders.map survives := by
    simp [List.reduceOption]
  rw [List.map_map] at happenders hreduce
  by_cases hd : d.appenders = []
  · simp [defineOfString, defineToString, hload, hget, hformatter, htext, hlevel, hd,
      Node.asString]
  · simp [defineOfString, defineToString, hload, hget, hformatter, htext, hlevel, hd,
      Node.asString, Node.children_sequence, happenders, hreduce]

lemma survives_eq_iff {a : LogAppenderDefine} (h : a.type = 1 ∨ a.type = 2) :
    survives a = a ↔ a.level = .unknow ∧ (a.type = 2 → a.file = []) := by
  obtain ⟨type, level, formatter, file⟩ := a
  rcases h with rfl | rfl
  · simp [survives, eq_comm]
  · simp [survives, eq_comm]

/-- **A definition comes back from its text exactly if no appender has a level, and none for
standard output has a file.** -/
theorem defineOfString_eq_iff (lib : Library) (d : LogDefine)
    (hload : lib.load (lib.emit (some (defineNode d))) = some (defineNode d))
    (h : ∀ a ∈ d.appenders, a.type = 1 ∨ a.type = 2) :
    defineOfString lib (defineToString lib d) = some d ↔
      ∀ a ∈ d.appenders, a.level = .unknow ∧ (a.type = 2 → a.file = []) := by
  have hmap : d.appenders.map survives = d.appenders ↔ ∀ a ∈ d.appenders, survives a = a := by
    have := List.map_inj_left (l := d.appenders) (f := survives) (g := id)
    simpa using this
  have hdefine : { d with appenders := d.appenders.map survives } = d ↔
      d.appenders.map survives = d.appenders := by
    obtain ⟨name, level, formatter, appenders⟩ := d
    simp
  rw [defineOfString_toString hload h, Option.some.injEq, hdefine, hmap]
  exact forall₂_congr fun a ha => survives_eq_iff (h a ha)

def table (text : List Char) (node : Node) : Library where
  load v := if v = text then some node else none
  emit _ := text
  index _ := none

lemma table_load (text : List Char) (node : Node) :
    (table text node).load ((table text node).emit (some node)) = some node := by
  simp [table]

def oneAppender (a : LogAppenderDefine) : LogDefine := { name := ['a'], appenders := [a] }

/-- An appender for standard output without a level comes back. -/
theorem defineOfString_stdout :
    let d := oneAppender { type := 2 }
    let text := "name: a\nappenders:\n  - type: StdoutLogAppender".toList
    defineOfString (table text (defineNode d)) (defineToString (table text (defineNode d)) d) =
      some d := by
  refine (defineOfString_eq_iff _ _ (table_load _ _) ?_).mpr ?_
  · simp [oneAppender]
  · simp [oneAppender]

/-- **The level of an appender is written and not read.** -/
theorem defineOfString_loses_level :
    let d := oneAppender { type := 2, level := .error }
    let text := "name: a\nappenders:\n  - type: StdoutLogAppender\n    level: ERROR".toList
    defineOfString (table text (defineNode d)) (defineToString (table text (defineNode d)) d) ≠
      some d := by
  intro d text
  rw [defineOfString_toString (table_load _ _) (by simp [d, oneAppender])]
  simp [d, oneAppender, survives]

end Sylar.LogText
