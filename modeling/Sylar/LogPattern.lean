import Mathlib.Data.List.Basic

/-!
The pattern of a log formatter, and the scanner that cuts it into items.

`LogFormatter::init` runs over the pattern with two nested index loops. What it has to accept is
given as a grammar: characters other than `%`, and directives with or without a text in braces.
-/

namespace Sylar.LogPattern

/-- The classes of the items that directives stand for. -/
inductive Kind
  | message
  | level
  | elapse
  | name
  | threadId
  | newLine
  | dateTime
  | filename
  | line
  | tab
  | fiberId
  | threadName
  deriving DecidableEq

def Kind.ofChar : Char → Option Kind
  | 'm' => some .message
  | 'p' => some .level
  | 'r' => some .elapse
  | 'c' => some .name
  | 't' => some .threadId
  | 'n' => some .newLine
  | 'd' => some .dateTime
  | 'f' => some .filename
  | 'l' => some .line
  | 'T' => some .tab
  | 'F' => some .fiberId
  | 'N' => some .threadName
  | _ => none

/-- `format_items.find(str)`: all its keys have one letter. -/
def formatItems : List Char → Option Kind
  | [c] => Kind.ofChar c
  | _ => none

/-- An item. Only the one for the time keeps a text. -/
inductive FormatItem
  | string (str : List Char)
  | item (kind : Kind) (format : List Char)
  deriving DecidableEq

/-- The constructor of an item's class, applied to the text in braces. -/
def Kind.build (kind : Kind) (fmt : List Char) : FormatItem :=
  match kind with
  | .dateTime => .item .dateTime (if fmt = [] then "%Y-%m-%d %H:%M:%S".toList else fmt)
  | kind => .item kind []

/-- An entry of `vec`: a literal text, or a directive with its text in braces. -/
inductive Entry
  | literal (str : List Char)
  | directive (str fmt : List Char)
  deriving DecidableEq

def substr (p : List Char) (pos len : ℕ) : List Char := (p.drop pos).take len

/-- The variables of the inner loop; `status` says whether a brace is open. -/
structure Scan where
  n : ℕ
  status : Bool := false
  fmtBegin : ℕ := 0
  str : List Char := []
  fmt : List Char := []

def scanFormat (p : List Char) (i : ℕ) (s : Scan) : Scan :=
  if h : s.n < p.length then
    let c := p[s.n]
    if s.status = false ∧ c.isAlpha = false ∧ c ≠ '{' ∧ c ≠ '}' then
      { s with str := substr p (i + 1) (s.n - i - 1) }
    else if s.status = false ∧ c = '{' then
      scanFormat p i { s with
        str := substr p (i + 1) (s.n - i - 1), status := true, fmtBegin := s.n, n := s.n + 1 }
    else if s.status = true ∧ c = '}' then
      { s with
        fmt := substr p (s.fmtBegin + 1) (s.n - s.fmtBegin - 1), status := false, n := s.n + 1 }
    else
      scanFormat p i { s with
        n := s.n + 1
        str := if s.n + 1 = p.length ∧ s.str = [] then p.drop (i + 1) else s.str }
  else s
termination_by p.length - s.n

lemma le_scanFormat (p : List Char) (i : ℕ) (s : Scan) : s.n ≤ (scanFormat p i s).n := by
  fun_induction scanFormat p i s with
  | case1 => exact Nat.le_refl _
  | case2 s h c _ _ ih => exact Nat.le_trans (Nat.le_succ _) ih
  | case3 => exact Nat.le_succ _
  | case4 s h c _ _ _ ih => exact Nat.le_trans (Nat.le_succ _) ih
  | case5 => exact Nat.le_refl _

structure Result where
  vec : List Entry := []
  nstr : List Char := []
  error : Bool := false

def Result.flush (r : Result) : List Entry :=
  if r.nstr = [] then r.vec else r.vec ++ [.literal r.nstr]

def scan (p : List Char) (i : ℕ) (r : Result) : Result :=
  if h : i < p.length then
    if p[i] ≠ '%' then scan p (i + 1) { r with nstr := r.nstr ++ [p[i]] }
    else if p[i + 1]? = some '%' then scan p (i + 1) { r with nstr := r.nstr ++ ['%'] }
    else
      let s := scanFormat p i { n := i + 1 }
      if s.status = false then
        -- `i = n - 1`, and the loop adds one
        scan p s.n { r with vec := r.flush ++ [.directive s.str s.fmt], nstr := [] }
      else
        scan p (i + 1) { r with
          vec := r.vec ++ [.literal "<<pattern_error>>".toList], error := true }
  else r
termination_by p.length - i
decreasing_by
  all_goals try omega
  have := le_scanFormat p i { n := i + 1 }
  simp only at this
  omega

def Entry.item : Entry → FormatItem
  | .literal str => .string str
  | .directive str fmt =>
    match formatItems str with
    | none => .string ("<<error_format %".toList ++ str ++ ">>".toList)
    | some kind => kind.build fmt

def Entry.unknown : Entry → Bool
  | .literal _ => false
  | .directive str _ => (formatItems str).isNone

structure LogFormatter where
  pattern : List Char
  items : List FormatItem
  error : Bool

def LogFormatter.init (pattern : List Char) : LogFormatter :=
  let r := scan pattern 0 {}
  ⟨pattern, r.flush.map Entry.item, r.error || r.flush.any Entry.unknown⟩

/-! ### The grammar -/

/-- What follows a directive without braces does not belong to it. -/
def Stops : List Char → Prop
  | [] => True
  | c :: _ => c.isAlpha = false ∧ c ≠ '{' ∧ c ≠ '}'

inductive Segment
  | literal (c : Char)
  | directive (kind : Kind) (fmt : List Char)

inductive Parses : List Char → List Segment → Prop
  | nil : Parses [] []
  | literal {c : Char} {p : List Char} {segs : List Segment} (hc : c ≠ '%') (h : Parses p segs) :
      Parses (c :: p) (.literal c :: segs)
  | plain {c : Char} {kind : Kind} {p : List Char} {segs : List Segment}
      (hc : Kind.ofChar c = some kind) (hp : Stops p) (h : Parses p segs) :
      Parses ('%' :: c :: p) (.directive kind [] :: segs)
  | braces {c : Char} {kind : Kind} {text p : List Char} {segs : List Segment}
      (hc : Kind.ofChar c = some kind) (ht : '}' ∉ text) (h : Parses p segs) :
      Parses ('%' :: c :: '{' :: (text ++ '}' :: p)) (.directive kind text :: segs)

def WellFormed (p : List Char) : Prop := ∃ segs, Parses p segs

/-- The items of a list of segments, after the literal text `run`: one for each maximal run of
literals, and one for each directive. -/
def itemsOf (run : List Char) : List Segment → List FormatItem
  | [] => if run = [] then [] else [.string run]
  | .literal c :: segs => itemsOf (run ++ [c]) segs
  | .directive kind fmt :: segs =>
    (if run = [] then [] else [.string run]) ++ kind.build fmt :: itemsOf [] segs

/-! ### One directive -/

/-- What the inner loop runs over while no brace is open. -/
def inWord (c : Char) : Bool := c.isAlpha || c == '}'

section Positions

variable {p pre mid q : List Char} {b c : Char}

/-- The character at the position of the inner loop, when it has passed `mid` behind `b`. -/
lemma getElem_behind (hp : p = pre ++ b :: (mid ++ c :: q))
    (hn : pre.length + 1 + mid.length < p.length) : p[pre.length + 1 + mid.length] = c := by
  simp only [hp]
  rw [List.getElem_append_right (by omega)]
  simp [Nat.add_assoc, Nat.add_comm 1]

lemma lt_length_behind (hp : p = pre ++ b :: (mid ++ c :: q)) :
    pre.length + 1 + mid.length < p.length := by
  simp only [hp, List.length_append, List.length_cons]
  omega

lemma substr_behind (hp : p = pre ++ b :: (mid ++ q)) :
    substr p (pre.length + 1) (pre.length + 1 + mid.length - pre.length - 1) = mid := by
  have hcut : p = (pre ++ [b]) ++ (mid ++ q) := by simp [hp]
  have hlen : pre.length + 1 + mid.length - pre.length - 1 = mid.length := by omega
  rw [substr, hlen, hcut, List.drop_left' (by simp), List.take_left]

end Positions

lemma scanFormat_open (pre text q : List Char) (i : ℕ) (str : List Char) (ht : '}' ∉ text)
    {p : List Char} (hp : p = pre ++ '{' :: (text ++ q)) :
    ('}' ∈ q → scanFormat p i ⟨pre.length + 1 + text.length, true, pre.length, str, []⟩ =
      ⟨pre.length + 1 + text.length + (q.takeWhile (· ≠ '}')).length + 1, false, pre.length, str,
        text ++ q.takeWhile (· ≠ '}')⟩) ∧
    ('}' ∉ q →
      (scanFormat p i ⟨pre.length + 1 + text.length, true, pre.length, str, []⟩).status =
        true) := by
  induction q generalizing text str with
  | nil =>
    refine ⟨nofun, fun _ => ?_⟩
    rw [scanFormat, dif_neg (by simp [hp]; omega)]
  | cons c q ih =>
    rw [scanFormat, dif_pos (lt_length_behind hp)]
    simp only [getElem_behind hp]
    rw [if_neg (by simp), if_neg (by simp)]
    by_cases hclose : c = '}'
    · subst hclose
      rw [if_pos (by simp)]
      refine ⟨fun _ => ?_, fun hno => absurd List.mem_cons_self hno⟩
      simp [substr_behind hp]
    · rw [if_neg (by simp [hclose])]
      have hnext : p = pre ++ '{' :: ((text ++ [c]) ++ q) := by simp [hp]
      have htext : '}' ∉ text ++ [c] := by
        simpa [ht] using fun h => hclose h.symm
      have hlen : pre.length + 1 + text.length + 1 = pre.length + 1 + (text ++ [c]).length := by
        simp; omega
      have htake : (c :: q).takeWhile (· ≠ '}') = c :: q.takeWhile (· ≠ '}') := by
        simp [hclose]
      constructor
      · intro hmem
        have hq : '}' ∈ q := by
          simpa [Ne.symm hclose] using hmem
        have hlast : ¬ (pre.length + 1 + text.length + 1 = p.length ∧ str = []) := by
          rintro ⟨h, -⟩
          have := List.length_pos_of_mem hq
          simp [hp] at h
          omega
        rw [if_neg hlast, hlen, (ih (text ++ [c]) str htext hnext).1 hq, htake]
        simp
        omega
      · intro hmem
        have hq : '}' ∉ q := fun h => hmem (List.mem_cons_of_mem _ h)
        rw [hlen]
        exact (ih (text ++ [c]) _ htext hnext).2 hq

section Word

variable {p pre w q : List Char} {c : Char}

/-- The word goes on. At the end of the pattern it is all that is left. -/
lemma scanFormat_inWord (hp : p = pre ++ '%' :: (w ++ c :: q)) (hword : inWord c = true) :
    scanFormat p pre.length ⟨pre.length + 1 + w.length, false, 0, [], []⟩ =
      scanFormat p pre.length
        ⟨pre.length + 1 + (w ++ [c]).length, false, 0, if q = [] then w ++ [c] else [], []⟩ := by
  have hopen : c ≠ '{' := by
    rintro rfl
    cases hword
  have hstop : ¬ (c.isAlpha = false ∧ c ≠ '{' ∧ c ≠ '}') := by
    rintro ⟨h1, -, h2⟩
    simp [inWord, h1, h2] at hword
  have hlast : (if pre.length + 1 + w.length + 1 = p.length ∧ True
      then p.drop (pre.length + 1) else []) = if q = [] then w ++ [c] else [] := by
    have hlen : p.length = pre.length + 1 + w.length + 1 + q.length := by
      simp only [hp, List.length_append, List.length_cons]
      omega
    have hend : pre.length + 1 + w.length + 1 = p.length ↔ q = [] := by
      rw [← List.length_eq_zero_iff]
      omega
    have hcut : p = (pre ++ ['%']) ++ (w ++ c :: q) := by simp [hp]
    by_cases hq : q = []
    · rw [if_pos ⟨hend.mpr hq, trivial⟩, if_pos hq, hcut, List.drop_left' (by simp), hq]
    · rw [if_neg fun h => hq (hend.mp h.1), if_neg hq]
  have hlen : pre.length + 1 + w.length + 1 = pre.length + 1 + (w ++ [c]).length := by
    simp only [List.length_append, List.length_singleton]
    omega
  rw [scanFormat, dif_pos (lt_length_behind hp)]
  simp only [getElem_behind hp]
  rw [if_neg (by simpa using hstop), if_neg (by simp [hopen]), if_neg (by simp), hlast, hlen]

lemma scanFormat_brace (hp : p = pre ++ '%' :: (w ++ '{' :: q)) :
    scanFormat p pre.length ⟨pre.length + 1 + w.length, false, 0, [], []⟩ =
      scanFormat p pre.length
        ⟨pre.length + 1 + w.length + 1, true, pre.length + 1 + w.length, w, []⟩ := by
  rw [scanFormat, dif_pos (lt_length_behind hp)]
  simp only [getElem_behind hp, substr_behind hp]
  rw [if_neg (by simp), if_pos ⟨trivial, trivial⟩]

/-- The directive ends, and the character stays for the outer loop. -/
lemma scanFormat_stop (hp : p = pre ++ '%' :: (w ++ c :: q)) (hword : ¬ inWord c = true)
    (hopen : c ≠ '{') :
    scanFormat p pre.length ⟨pre.length + 1 + w.length, false, 0, [], []⟩ =
      ⟨pre.length + 1 + w.length, false, 0, w, []⟩ := by
  have hstop : c.isAlpha = false ∧ c ≠ '}' := by
    simpa [inWord] using hword
  rw [scanFormat, dif_pos (lt_length_behind hp)]
  simp only [getElem_behind hp, substr_behind hp]
  rw [if_pos ⟨trivial, hstop.1, hopen, hstop.2⟩]

end Word

/-- What the inner loop finds after a `%`: the word, the text in braces and the rest of the
pattern, unless a brace stays open. -/
def find : List Char → Option (List Char × List Char × List Char)
  | [] => some ([], [], [])
  | c :: q =>
    if inWord c then (find q).map fun r => (c :: r.1, r.2)
    else if c = '{' then
      if '}' ∈ q then some ([], q.takeWhile (· ≠ '}'), (q.dropWhile (· ≠ '}')).tail) else none
    else some ([], [], c :: q)

lemma close_eq {q : List Char} (h : '}' ∈ q) :
    q.takeWhile (· ≠ '}') ++ '}' :: (q.dropWhile (· ≠ '}')).tail = q := by
  induction q with
  | nil => cases h
  | cons c q ih =>
    by_cases hc : c = '}'
    · simp [hc]
    · have hq := ih (by simpa [Ne.symm hc] using h)
      simpa [hc] using hq

/-- The inner loop before a brace, with the word `w` behind it. -/
lemma scanFormat_word (pre w q : List Char) {p : List Char}
    (hp : p = pre ++ '%' :: (w ++ q)) {s : Scan} (hs : s = scanFormat p pre.length
      ⟨pre.length + 1 + w.length, false, 0, if q = [] then w else [], []⟩) :
    match find q with
    | none => s.status = true
    | some (str, fmt, rest) =>
      s.status = false ∧ s.str = w ++ str ∧ s.fmt = fmt ∧ s.n + rest.length = p.length := by
  induction q generalizing w with
  | nil =>
    rw [scanFormat, dif_neg (by simp [hp]; omega)] at hs
    subst hs
    simp [find, hp]
    omega
  | cons c q ih =>
    rw [if_neg (List.cons_ne_nil c q)] at hs
    unfold find
    by_cases hword : inWord c = true
    · have hnext : p = pre ++ '%' :: ((w ++ [c]) ++ q) := by simp [hp]
      rw [scanFormat_inWord hp hword] at hs
      have := ih (w ++ [c]) hnext hs
      rw [if_pos hword]
      cases hfind : find q with
      | none => simpa [hfind] using this
      | some r => simpa [hfind] using this
    · rw [if_neg hword]
      by_cases hopen : c = '{'
      · subst hopen
        rw [scanFormat_brace hp] at hs
        rw [if_pos rfl]
        obtain ⟨hclosed, hunclosed⟩ := scanFormat_open (pre ++ '%' :: w) [] q pre.length w nofun
          (p := p) (by simp [hp])
        have hlen : (pre ++ '%' :: w).length = pre.length + 1 + w.length := by
          simp
          omega
        simp only [hlen, List.length_nil, Nat.add_zero, List.nil_append, ← hs] at hclosed hunclosed
        by_cases hq : '}' ∈ q
        · rw [if_pos hq, hclosed hq]
          have hlen := congrArg List.length (close_eq hq)
          simp only [List.length_append, List.length_cons] at hlen
          refine ⟨rfl, (List.append_nil w).symm, rfl, ?_⟩
          simp only [hp, List.length_append, List.length_cons]
          omega
        · rw [if_neg hq]
          exact hunclosed hq
      · rw [scanFormat_stop hp hword hopen] at hs
        rw [if_neg hopen, hs]
        refine ⟨rfl, (List.append_nil w).symm, rfl, ?_⟩
        simp only [hp, List.length_append, List.length_cons]
        omega

/-- What the inner loop took away: the word alone, or the word and a text in braces. -/
lemma find_eq_some {q str fmt rest : List Char} (h : find q = some (str, fmt, rest)) :
    (q = str ++ rest ∧ fmt = [] ∧ Stops rest) ∨
      (q = str ++ '{' :: (fmt ++ '}' :: rest) ∧ '}' ∉ fmt) := by
  induction q generalizing str with
  | nil =>
    cases h
    exact .inl ⟨rfl, rfl, trivial⟩
  | cons c q ih =>
    unfold find at h
    split at h
    · obtain ⟨⟨str', fmt', rest'⟩, hr, heq⟩ := Option.map_eq_some_iff.mp h
      cases heq
      rcases ih hr with ⟨hq, hfmt, hstop⟩ | ⟨hq, hfmt⟩
      · exact .inl ⟨by rw [hq, List.cons_append], hfmt, hstop⟩
      · exact .inr ⟨by rw [hq, List.cons_append], hfmt⟩
    · rename_i hword
      split at h
      · rename_i hopen
        split at h
        · rename_i hmem
          cases h
          refine .inr ⟨?_, fun hin => ?_⟩
          · rw [close_eq hmem, hopen, List.nil_append]
          · simpa using List.all_eq_true.mp List.all_takeWhile _ hin
        · cases h
      · rename_i hopen
        cases h
        refine .inl ⟨rfl, rfl, ?_⟩
        simp only [inWord, Bool.or_eq_true, beq_iff_eq, not_or, Bool.not_eq_true] at hword
        exact ⟨hword.1, hopen, hword.2⟩

/-! ### The outer loop -/

variable {p pre q : List Char} {r : Result}

lemma scan_end (hp : p = pre) : scan p pre.length r = r := by
  rw [scan, dif_neg (by simp [hp])]

lemma scan_literal {c : Char} (hp : p = pre ++ c :: q) (hc : c ≠ '%') :
    scan p pre.length r = scan p (pre ++ [c]).length { r with nstr := r.nstr ++ [c] } := by
  have hi : pre.length < p.length := by simp [hp]
  have hget : p[pre.length] = c := by simp [hp]
  rw [scan, dif_pos hi, hget, if_pos hc, List.length_append, List.length_singleton]

/-- At a `%` before another one, only the first is passed. -/
lemma scan_pair (hp : p = pre ++ '%' :: '%' :: q) :
    scan p pre.length r = scan p (pre ++ ['%']).length { r with nstr := r.nstr ++ ['%'] } := by
  have hi : pre.length < p.length := by simp [hp]
  have hget : p[pre.length] = '%' := by simp [hp]
  have hnext : p[pre.length + 1]? = some '%' := by
    rw [hp, List.getElem?_append_right (by omega)]
    simp
  rw [scan, dif_pos hi, hget, if_neg (by simp), if_pos hnext, List.length_append,
    List.length_singleton]

lemma scan_percent (hp : p = pre ++ '%' :: q) (hq : q.head? ≠ some '%') {s : Scan}
    (hs : s = scanFormat p pre.length { n := pre.length + 1 }) :
    scan p pre.length r =
      if s.status = false then
        scan p s.n { r with vec := r.flush ++ [.directive s.str s.fmt], nstr := [] }
      else
        scan p (pre.length + 1) { r with
          vec := r.vec ++ [.literal "<<pattern_error>>".toList], error := true } := by
  have hi : pre.length < p.length := by simp [hp]
  have hget : p[pre.length] = '%' := by simp [hp]
  have hnext : p[pre.length + 1]? ≠ some '%' := by
    rw [hp, List.getElem?_append_right (by omega)]
    simpa [← List.head?_eq_getElem?] using hq
  rw [scan, dif_pos hi, hget, if_neg (by simp), if_neg hnext, ← hs]

lemma scanFormat_find (hp : p = pre ++ '%' :: q) :
    match find q with
    | none => (scanFormat p pre.length { n := pre.length + 1 }).status = true
    | some (str, fmt, rest) =>
      ∃ pre', p = pre' ++ rest ∧ ∃ b, scanFormat p pre.length { n := pre.length + 1 } =
        ⟨pre'.length, false, b, str, fmt⟩ := by
  have hword := scanFormat_word pre [] q (p := p) hp rfl
  simp only [List.length_nil, Nat.add_zero, ite_self, List.nil_append] at hword
  cases hfind : find q with
  | none => simpa only [hfind] using hword
  | some found =>
    obtain ⟨str, fmt, rest⟩ := found
    simp only [hfind] at hword ⊢
    generalize scanFormat p pre.length { n := pre.length + 1 } = s at hword ⊢
    obtain ⟨n, status, b, str', fmt'⟩ := s
    obtain ⟨rfl, rfl, rfl, hn⟩ := hword
    have hsuffix : ∃ pre', p = pre' ++ rest := by
      rcases find_eq_some hfind with ⟨hq, -⟩ | ⟨hq, -⟩
      · exact ⟨pre ++ '%' :: str', by simp [hp, hq]⟩
      · exact ⟨pre ++ '%' :: str' ++ '{' :: (fmt' ++ ['}']), by simp [hp, hq]⟩
    obtain ⟨pre', hp'⟩ := hsuffix
    have hlen : n = pre'.length := by
      rw [hp', List.length_append] at hn
      simp only at hn
      omega
    exact ⟨pre', hp', b, by rw [hlen]⟩

lemma scan_open (hp : p = pre ++ '%' :: q) (hq : q.head? ≠ some '%') (hfind : find q = none) :
    scan p pre.length r = scan p (pre.length + 1) { r with
      vec := r.vec ++ [.literal "<<pattern_error>>".toList], error := true } := by
  have hstatus := scanFormat_find hp
  rw [hfind] at hstatus
  rw [scan_percent hp hq rfl, if_neg (by simp [hstatus])]

lemma scan_directive {str fmt rest : List Char} (hp : p = pre ++ '%' :: q)
    (hq : q.head? ≠ some '%') (hfind : find q = some (str, fmt, rest)) :
    ∃ pre', p = pre' ++ rest ∧ scan p pre.length r = scan p pre'.length { r with
      vec := r.flush ++ [.directive str fmt], nstr := [] } := by
  have hfound := scanFormat_find hp
  rw [hfind] at hfound
  obtain ⟨pre', hp', b, hs⟩ := hfound
  exact ⟨pre', hp', by rw [scan_percent hp hq rfl, hs, if_pos rfl]⟩

/-! ### Entries and items -/

lemma any_flush (r : Result) : r.flush.any Entry.unknown = r.vec.any Entry.unknown := by
  unfold Result.flush
  split <;> simp [Entry.unknown]

lemma map_flush (r : Result) : r.flush.map Entry.item =
    r.vec.map Entry.item ++ if r.nstr = [] then [] else [.string r.nstr] := by
  unfold Result.flush
  split <;> simp [Entry.item]

lemma scan_error (p : List Char) (i : ℕ) (r : Result) (h : r.error = true) :
    (scan p i r).error = true := by
  fun_induction scan p i r with
  | case1 i r _ _ ih => exact ih h
  | case2 i r _ _ _ ih => exact ih h
  | case3 i r _ _ _ s _ ih => exact ih h
  | case4 i r _ _ _ s _ ih => exact ih rfl
  | case5 => exact h

lemma scan_extends (p : List Char) (i : ℕ) (r : Result) :
    ∃ more, (scan p i r).flush = r.vec ++ more := by
  have hflush : ∀ r : Result, ∃ more, r.flush = r.vec ++ more := by
    intro r
    unfold Result.flush
    split
    · exact ⟨[], (List.append_nil _).symm⟩
    · exact ⟨_, rfl⟩
  fun_induction scan p i r with
  | case1 i r _ _ ih => exact ih
  | case2 i r _ _ _ ih => exact ih
  | case3 i r _ _ _ s _ ih =>
    obtain ⟨more, hmore⟩ := ih
    obtain ⟨run, hrun⟩ := hflush r
    exact ⟨run ++ [.directive s.str s.fmt] ++ more, by rw [hmore]; simp [hrun]⟩
  | case4 i r _ _ _ s _ ih =>
    obtain ⟨more, hmore⟩ := ih
    exact ⟨[.literal "<<pattern_error>>".toList] ++ more, by rw [hmore]; simp⟩
  | case5 i r => exact hflush r

lemma scan_unknown (p : List Char) (i : ℕ) (r : Result) (h : r.vec.any Entry.unknown = true) :
    (scan p i r).vec.any Entry.unknown = true := by
  obtain ⟨more, hmore⟩ := scan_extends p i r
  rw [← any_flush, hmore, List.any_append, h, Bool.true_or]

/-! ### Patterns that are well formed -/

lemma isAlpha_of_ofChar {c : Char} {kind : Kind} (h : Kind.ofChar c = some kind) :
    c.isAlpha = true := by
  unfold Kind.ofChar at h
  split at h <;> first | rfl | cases h

lemma find_of_stops (h : Stops q) : find q = some ([], [], q) := by
  cases q with
  | nil => rfl
  | cons c q => simp [find, inWord, h.1, h.2.1, h.2.2]

lemma find_plain {c : Char} (hc : c.isAlpha = true) (hq : Stops q) :
    find (c :: q) = some ([c], [], q) := by
  rw [find, inWord, hc, Bool.true_or, if_pos rfl, find_of_stops hq]
  rfl

lemma find_braces {c : Char} {text : List Char} (hc : c.isAlpha = true) (ht : '}' ∉ text) :
    find (c :: '{' :: (text ++ '}' :: q)) = some ([c], text, q) := by
  have hall : ∀ a ∈ text, decide (a ≠ '}') = true := by
    intro a ha
    have hne : a ≠ '}' := by
      rintro rfl
      exact ht ha
    simpa using hne
  have hbrace : find ('{' :: (text ++ '}' :: q)) = some ([], text, q) := by
    rw [find, if_neg (by decide), if_pos rfl, if_pos (by simp),
      List.takeWhile_append_of_pos hall, List.dropWhile_append_of_pos hall]
    simp
  rw [find, inWord, hc, Bool.true_or, if_pos rfl, hbrace]
  rfl

/-- A directive among `format_items` adds the literals before it and its item. -/
lemma scan_item {c : Char} {kind : Kind} {fmt rest : List Char} (hp : p = pre ++ '%' :: c :: q)
    (hc : Kind.ofChar c = some kind) (hfind : find (c :: q) = some ([c], fmt, rest)) :
    ∃ pre' r', p = pre' ++ rest ∧ scan p pre.length r = scan p pre'.length r' ∧
      r'.error = r.error ∧ r'.nstr = [] ∧
      r'.vec.any Entry.unknown = r.vec.any Entry.unknown ∧
      r'.vec.map Entry.item = r.vec.map Entry.item ++
        ((if r.nstr = [] then [] else [.string r.nstr]) ++ [kind.build fmt]) := by
  have hhead : (c :: q).head? ≠ some '%' := by
    intro heq
    cases heq
    cases hc
  obtain ⟨pre', hp', hscan⟩ := scan_directive (r := r) hp hhead hfind
  refine ⟨pre', _, hp', hscan, rfl, rfl, ?_, ?_⟩
  · simp [any_flush, Entry.unknown, formatItems, hc]
  · simp [map_flush, Entry.item, formatItems, hc]

lemma stops_append {p q : List Char} (hp : Stops p) (hq : Stops q) : Stops (p ++ q) := by
  cases p with
  | nil => exact hq
  | cons c p => exact hp

/-- A well formed part of the pattern is passed, whatever follows it that no directive takes. -/
lemma scan_append {segs : List Segment} {tail : List Char} (h : Parses q segs)
    (hp : p = pre ++ (q ++ tail)) (htail : Stops tail) :
    ∃ r', scan p pre.length r = scan p (pre ++ q).length r' ∧ r'.error = r.error ∧
      r'.vec.any Entry.unknown = r.vec.any Entry.unknown ∧
      r'.flush.map Entry.item = r.vec.map Entry.item ++ itemsOf r.nstr segs := by
  induction h generalizing pre r with
  | nil => exact ⟨r, by rw [List.append_nil], rfl, rfl, map_flush r⟩
  | @literal c q segs hc _ ih =>
    rw [List.cons_append] at hp
    have hnext : p = (pre ++ [c]) ++ (q ++ tail) := by simp [hp]
    obtain ⟨r', hscan, hrest⟩ := ih (r := { r with nstr := r.nstr ++ [c] }) hnext
    refine ⟨r', ?_, hrest⟩
    rw [scan_literal hp hc, hscan, List.append_assoc, List.singleton_append]
  | @plain c kind q segs hc hstop _ ih =>
    simp only [List.cons_append] at hp
    obtain ⟨pre', r', hp', hscan, herror, hnstr, hunknown, hitems⟩ :=
      scan_item (r := r) hp hc (find_plain (isAlpha_of_ofChar hc) (stops_append hstop htail))
    obtain ⟨r'', hscan', herror', hunknown', hitems'⟩ := ih (r := r') hp'
    have hall : pre' ++ q ++ tail = pre ++ '%' :: c :: q ++ tail := by
      simpa using hp'.symm.trans hp
    have hpos := List.append_cancel_right hall
    refine ⟨r'', by rw [hscan, hscan', hpos], herror'.trans herror, hunknown'.trans hunknown, ?_⟩
    rw [hitems', hitems, hnstr, itemsOf]
    simp
  | @braces c kind fmt q segs hc ht _ ih =>
    simp only [List.cons_append, List.append_assoc] at hp
    obtain ⟨pre', r', hp', hscan, herror, hnstr, hunknown, hitems⟩ :=
      scan_item (r := r) hp hc (find_braces (isAlpha_of_ofChar hc) ht)
    obtain ⟨r'', hscan', herror', hunknown', hitems'⟩ := ih (r := r') hp'
    have hall : pre' ++ q ++ tail = pre ++ '%' :: c :: '{' :: (fmt ++ '}' :: q) ++ tail := by
      simpa using hp'.symm.trans hp
    have hpos := List.append_cancel_right hall
    refine ⟨r'', by rw [hscan, hscan', hpos], herror'.trans herror, hunknown'.trans hunknown, ?_⟩
    rw [hitems', hitems, hnstr, itemsOf]
    simp

/-- **A well formed rest of the pattern adds its items and no error.** -/
lemma scan_of_parses {segs : List Segment} (h : Parses q segs) (hp : p = pre ++ q) :
    (scan p pre.length r).error = r.error ∧
      (scan p pre.length r).vec.any Entry.unknown = r.vec.any Entry.unknown ∧
      (scan p pre.length r).flush.map Entry.item =
        r.vec.map Entry.item ++ itemsOf r.nstr segs := by
  have hp' : p = pre ++ (q ++ []) := by rw [List.append_nil, hp]
  obtain ⟨r', hscan, hrest⟩ := scan_append (r := r) h hp' trivial
  rw [hscan, scan_end hp]
  exact hrest

/-! ### Patterns that are accepted -/

lemma formatItems_eq_some {str : List Char} {kind : Kind} (h : formatItems str = some kind) :
    ∃ c, str = [c] ∧ Kind.ofChar c = some kind := by
  unfold formatItems at h
  split at h
  · exact ⟨_, rfl, h⟩
  · cases h

/-- **A rest of the pattern that is passed without an error is well formed.** -/
lemma wellFormed_of_scan {n : ℕ} (hn : q.length < n) (hp : p = pre ++ q)
    (hpair : ¬ ['%', '%'] <:+: q) (herror : (scan p pre.length r).error = false)
    (hunknown : (scan p pre.length r).vec.any Entry.unknown = false) : WellFormed q := by
  induction n generalizing q pre r with
  | zero => exact absurd hn (Nat.not_lt_zero _)
  | succ n ih =>
    cases q with
    | nil => exact ⟨[], .nil⟩
    | cons c q =>
      have hrest : ∀ (mid : List Char) {rest : List Char}, c :: q = mid ++ rest →
          ¬ ['%', '%'] <:+: rest :=
        fun _ _ heq h => hpair (h.trans ⟨_, [], by rw [heq, List.append_nil]⟩)
      by_cases hc : c = '%'
      · subst hc
        have hhead : q.head? ≠ some '%' := by
          intro heq
          obtain ⟨q', rfl⟩ := List.head?_eq_some_iff.mp heq
          exact hpair ⟨[], q', rfl⟩
        cases hfind : find q with
        | none =>
          rw [scan_open hp hhead hfind, scan_error _ _ _ rfl] at herror
          cases herror
        | some found =>
          obtain ⟨str, fmt, rest⟩ := found
          obtain ⟨pre', hp', hscan⟩ := scan_directive (r := r) hp hhead hfind
          rw [hscan] at herror hunknown
          cases hitem : formatItems str with
          | none =>
            rw [scan_unknown _ _ _ (by simp [Entry.unknown, hitem])] at hunknown
            cases hunknown
          | some kind =>
            obtain ⟨c, rfl, hkind⟩ := formatItems_eq_some hitem
            rcases find_eq_some hfind with ⟨hq, rfl, hstop⟩ | ⟨hq, hfmt⟩
            · obtain ⟨segs, hsegs⟩ := ih (by simp [hq] at hn; omega) hp'
                (hrest ['%', c] (by simp [hq])) herror hunknown
              subst hq
              exact ⟨_, .plain hkind hstop hsegs⟩
            · obtain ⟨segs, hsegs⟩ := ih (by simp [hq] at hn; omega) hp'
                (hrest ('%' :: c :: '{' :: (fmt ++ ['}'])) (by simp [hq])) herror hunknown
              subst hq
              exact ⟨_, .braces hkind hfmt hsegs⟩
      · rw [scan_literal hp hc] at herror hunknown
        obtain ⟨segs, hsegs⟩ := ih (by simpa using hn) (by simp [hp])
          (hrest [c] rfl) herror hunknown
        exact ⟨_, .literal hc hsegs⟩

lemma init_error_iff (p : List Char) : (LogFormatter.init p).error = false ↔
    (scan p 0 {}).error = false ∧ (scan p 0 {}).vec.any Entry.unknown = false := by
  rw [LogFormatter.init, any_flush, Bool.or_eq_false_iff]

lemma init_of_parses {segs : List Segment} (h : Parses p segs) :
    (LogFormatter.init p).error = false ∧ (LogFormatter.init p).items = itemsOf [] segs := by
  obtain ⟨herror, hunknown, hitems⟩ := scan_of_parses (r := {}) h (List.nil_append p).symm
  exact ⟨(init_error_iff p).mpr ⟨herror, hunknown⟩, hitems⟩

/-- **The patterns that are accepted without an error are the well formed ones, and their items
are their segments.** -/
theorem init_error_eq_false_iff (p : List Char) (hpair : ¬ ['%', '%'] <:+: p) :
    ((LogFormatter.init p).error = false ↔ WellFormed p) ∧
      ∀ segs, Parses p segs → (LogFormatter.init p).items = itemsOf [] segs := by
  refine ⟨⟨fun h => ?_, fun ⟨segs, h⟩ => (init_of_parses h).1⟩,
    fun segs h => (init_of_parses h).2⟩
  obtain ⟨herror, hunknown⟩ := (init_error_iff p).mp h
  exact wellFormed_of_scan (Nat.lt_succ_self _) (List.nil_append p).symm hpair herror hunknown

def testPattern : List Char :=
  ['%', 'd', '%', 'T', '%', 'p', '%', 'T', '%', 'm', '%', 'n']

theorem init_testPattern : ¬ ['%', '%'] <:+: testPattern ∧
    (LogFormatter.init testPattern).error = false ∧
    (LogFormatter.init testPattern).items =
      [.item .dateTime "%Y-%m-%d %H:%M:%S".toList, .item .tab [], .item .level [],
        .item .tab [], .item .message [], .item .newLine []] := by
  have hpair : ¬ ['%', '%'] <:+: testPattern := by decide
  have hstop : ∀ q, Stops ('%' :: q) := fun _ => ⟨rfl, by decide, by decide⟩
  have hparses : Parses testPattern
      ([.dateTime, .tab, .level, .tab, .message, .newLine].map (Segment.directive · [])) :=
    .plain rfl (hstop _) <| .plain rfl (hstop _) <| .plain rfl (hstop _) <|
      .plain rfl (hstop _) <| .plain rfl (hstop _) <| .plain rfl trivial .nil
  obtain ⟨herror, hitems⟩ := init_error_eq_false_iff _ hpair
  refine ⟨hpair, herror.mpr ⟨_, hparses⟩, ?_⟩
  rw [hitems _ hparses]
  simp [itemsOf, Kind.build]

end Sylar.LogPattern
