import Sylar.LogPattern
import Sylar.LogText

/-!
What a log formatter writes, and `%%` in its pattern.

The items write one behind the other. The text of a time is `strftime`'s, which is a parameter; it
has no value where the text does not fit the buffer of 64 bytes.
-/

namespace Sylar.LogFormat

open Sylar.Appenders Sylar.LogPattern Sylar.LogText

/-- What the items read of an event, of its logger and of the call. -/
structure Event where
  content : List Char
  level : Level
  elapse : UInt32
  name : List Char
  threadId : UInt32
  fiberId : UInt32
  time : UInt64
  file : List Char
  line : Int32
  threadName : List Char

/-- `strftime` of the local time, into a buffer of 64 bytes. -/
abbrev Strftime := List Char → UInt64 → Option (List Char)

variable (strftime : Strftime) (e : Event)

def kindText (fmt : List Char) : Kind → Option (List Char)
  | .message => some e.content
  | .level => some (levelToString e.level)
  | .elapse => some (toString e.elapse).toList
  | .name => some e.name
  | .threadId => some (toString e.threadId).toList
  | .newLine => some ['\n']
  | .dateTime => strftime fmt e.time
  | .filename => some e.file
  | .line => some (toString e.line).toList
  | .tab => some ['\t']
  | .fiberId => some (toString e.fiberId).toList
  | .threadName => some e.threadName

def itemText : FormatItem → Option (List Char)
  | .string str => some str
  | .item kind fmt => kindText strftime e fmt kind

def format : List FormatItem → Option (List Char)
  | [] => some []
  | i :: items => (itemText strftime e i).bind fun s => (format items).map fun t => s ++ t

def text (pattern : List Char) : Option (List Char) :=
  format strftime e (LogFormatter.init pattern).items

/-- What is asked of `%%` between two patterns. -/
def IsPercent (p q : List Char) : Prop :=
  (LogFormatter.init (p ++ '%' :: '%' :: q)).error = false ∧
    ∀ e, ∃ s t, text strftime e p = some s ∧ text strftime e q = some t ∧
      text strftime e (p ++ '%' :: '%' :: q) = some (s ++ '%' :: t)

/-- `strftime` in the C locale, as far as it has a value: ordinary characters are copied, and what
stands for a conversion begins with another character than `d` and `{`. -/
structure Documented : Prop where
  empty : ∀ t, strftime [] t = some []
  ordinary : ∀ {c fmt t x}, c ≠ '%' → strftime (c :: fmt) t = some x →
    ∃ y, strftime fmt t = some y ∧ x = c :: y
  conversion : ∀ {c fmt t x}, c ∈ "mprctndflTFNY".toList →
    strftime ('%' :: c :: fmt) t = some x → ∃ y ys, x = y :: ys ∧ y ≠ 'd' ∧ y ≠ '\x7b'

/-! ### Texts of lists of items -/

variable {strftime e}

lemma format_append (xs ys : List FormatItem) : format strftime e (xs ++ ys) =
    (format strftime e xs).bind fun s => (format strftime e ys).map fun t => s ++ t := by
  induction xs with
  | nil => simp [format]
  | cons i xs ih =>
    rw [List.cons_append, format, format, ih]
    cases itemText strftime e i with
    | none => rfl
    | some s =>
      cases format strftime e xs with
      | none => rfl
      | some t => cases format strftime e ys <;> simp

lemma format_append_eq_some {xs ys : List FormatItem} {r : List Char}
    (h : format strftime e (xs ++ ys) = some r) :
    ∃ s t, format strftime e xs = some s ∧ format strftime e ys = some t ∧ r = s ++ t := by
  rw [format_append, Option.bind_eq_some_iff] at h
  obtain ⟨s, hs, h⟩ := h
  obtain ⟨t, ht, rfl⟩ := Option.map_eq_some_iff.1 h
  exact ⟨s, t, hs, ht, rfl⟩

lemma format_singleton (i : FormatItem) : format strftime e [i] = itemText strftime e i := by
  cases h : itemText strftime e i <;> simp [format, h]

lemma format_run (run : List Char) :
    format strftime e (if run = [] then [] else [.string run]) = some run := by
  split
  · next h => rw [h, format]
  · rw [format_singleton, itemText]

def segText (strftime : Strftime) (e : Event) : List Segment → Option (List Char)
  | [] => some []
  | .literal c :: segs => (segText strftime e segs).map fun t => c :: t
  | .directive kind fmt :: segs =>
    (itemText strftime e (kind.build fmt)).bind fun s =>
      (segText strftime e segs).map fun t => s ++ t

lemma format_itemsOf (run : List Char) (segs : List Segment) :
    format strftime e (itemsOf run segs) = (segText strftime e segs).map fun t => run ++ t := by
  induction segs generalizing run with
  | nil => simp [itemsOf, format_run, segText]
  | cons seg segs ih =>
    cases seg with
    | literal c =>
      rw [itemsOf, ih, segText]
      cases segText strftime e segs <;> simp
    | directive kind fmt =>
      rw [itemsOf, format_append, format_run, format, ih, segText]
      cases itemText strftime e (kind.build fmt) with
      | none => rfl
      | some s => cases segText strftime e segs <;> simp

lemma text_of_parses {p : List Char} {segs : List Segment} (h : Parses p segs) :
    text strftime e p = segText strftime e segs := by
  rw [text, (init_of_parses h).2, format_itemsOf]
  simp

/-- What has been scanned, as text: the items and the literal text behind them. -/
def resultText (strftime : Strftime) (e : Event) (r : Result) : Option (List Char) :=
  format strftime e (r.flush.map Entry.item)

lemma resultText_eq (r : Result) : resultText strftime e r =
    (format strftime e (r.vec.map Entry.item)).map fun s => s ++ r.nstr := by
  rw [resultText, map_flush, format_append, format_run]
  cases format strftime e (r.vec.map Entry.item) <;> rfl

/-! ### The scan behind `%%` -/

variable {p q : List Char}

/-- At the second `%` the text of `p` and a `%` have been scanned, and the second `%` is read. -/
lemma scan_reaches {segs : List Segment} (h : Parses p segs) (q : List Char) :
    ∃ r, scan (p ++ '%' :: '%' :: q) 0 {} =
        scan (p ++ '%' :: '%' :: q) (p ++ ['%']).length r ∧
      ∀ strftime e, resultText strftime e r = (text strftime e p).map fun s => s ++ ['%'] := by
  have hstops : Stops ('%' :: '%' :: q) := ⟨rfl, by decide, by decide⟩
  obtain ⟨r, hscan, -, -, hitems⟩ :=
    scan_append (r := {}) h (List.nil_append _).symm hstops
  refine ⟨{ r with nstr := r.nstr ++ ['%'] }, ?_, fun strftime e => ?_⟩
  · rw [List.length_nil, List.nil_append] at hscan
    rw [hscan, scan_pair rfl]
  · have htext : text strftime e p = resultText strftime e r := by
      rw [text, (init_of_parses h).2, resultText, hitems]
      rfl
    rw [htext, resultText_eq, resultText_eq]
    cases format strftime e (r.vec.map Entry.item) <;> simp

lemma text_third_percent {segs segs' : List Segment} (hp : Parses p segs)
    (hq : Parses ('%' :: q) segs') {u : List Char}
    (hu : text strftime e (p ++ '%' :: '%' :: '%' :: q) = some u) :
    ∃ s t, text strftime e p = some s ∧ text strftime e ('%' :: q) = some t ∧
      u = s ++ '%' :: '%' :: t := by
  obtain ⟨r, hscan, hr⟩ := scan_reaches hp ('%' :: q)
  have hpair : p ++ '%' :: '%' :: '%' :: q = (p ++ ['%']) ++ '%' :: '%' :: q := by simp
  have hlast : p ++ '%' :: '%' :: '%' :: q = (p ++ ['%'] ++ ['%']) ++ '%' :: q := by simp
  obtain ⟨-, -, hitems⟩ := scan_of_parses (r := { r with nstr := r.nstr ++ ['%'] }) hq hlast
  rw [text, LogFormatter.init] at hu
  simp only at hu
  rw [hscan, scan_pair hpair, hitems] at hu
  obtain ⟨s, t, hs, ht, rfl⟩ := format_append_eq_some hu
  rw [format_itemsOf] at ht
  obtain ⟨y, hy, rfl⟩ := Option.map_eq_some_iff.1 ht
  have hrun := hr strftime e
  rw [resultText_eq, hs, Option.map_some] at hrun
  obtain ⟨x, hx, hsx⟩ := Option.map_eq_some_iff.1 hrun.symm
  refine ⟨x, y, hx, (text_of_parses hq).trans hy, ?_⟩
  rw [← List.append_assoc, ← List.append_assoc, ← hsx]
  simp

lemma error_of_open {segs : List Segment} (hp : Parses p segs) (hhead : q.head? ≠ some '%')
    (hfind : find q = none) : (LogFormatter.init (p ++ '%' :: '%' :: q)).error = true := by
  obtain ⟨r, hscan, -⟩ := scan_reaches hp q
  have hsecond : p ++ '%' :: '%' :: q = (p ++ ['%']) ++ '%' :: q := by simp
  rw [LogFormatter.init]
  simp only
  rw [hscan, scan_open hsecond hhead hfind, scan_error _ _ _ rfl, Bool.true_or]

lemma text_reread {segs : List Segment} (hp : Parses p segs) (hhead : q.head? ≠ some '%')
    {str fmt rest : List Char} (hfind : find q = some (str, fmt, rest))
    (herror : (LogFormatter.init (p ++ '%' :: '%' :: q)).error = false) :
    ∃ c kind after, str = [c] ∧ Kind.ofChar c = some kind ∧
      (∀ segs', Parses rest segs' → after = itemsOf [] segs') ∧
      ∀ strftime e u, text strftime e (p ++ '%' :: '%' :: q) = some u →
        ∃ s x y, text strftime e p = some s ∧ itemText strftime e (kind.build fmt) = some x ∧
          format strftime e after = some y ∧ u = s ++ '%' :: (x ++ y) := by
  obtain ⟨r, hscan, hr⟩ := scan_reaches hp q
  have hsecond : p ++ '%' :: '%' :: q = (p ++ ['%']) ++ '%' :: q := by simp
  obtain ⟨pre', hpre', hdirective⟩ := scan_directive (r := r) hsecond hhead hfind
  obtain ⟨-, hunknown⟩ := (init_error_iff _).1 herror
  rw [hscan, hdirective] at hunknown
  cases hitem : formatItems str with
  | none =>
    rw [scan_unknown _ _ _ (by simp [Entry.unknown, hitem])] at hunknown
    cases hunknown
  | some kind =>
    obtain ⟨c, rfl, hkind⟩ := formatItems_eq_some hitem
    set r' : Result := { r with vec := r.flush ++ [.directive [c] fmt], nstr := [] } with hr'
    obtain ⟨more, hmore⟩ := scan_extends (p ++ '%' :: '%' :: q) pre'.length r'
    refine ⟨c, kind, more.map Entry.item, rfl, hkind, fun segs' hsegs => ?_,
      fun strftime e u hu => ?_⟩
    · obtain ⟨-, -, hitems⟩ := scan_of_parses (r := r') hsegs hpre'
      rw [hmore, List.map_append] at hitems
      exact List.append_cancel_left hitems
    · rw [text, LogFormatter.init] at hu
      simp only at hu
      rw [hscan, hdirective, hmore, List.map_append] at hu
      obtain ⟨w, y, hw, hy, rfl⟩ := format_append_eq_some hu
      rw [hr', List.map_append] at hw
      obtain ⟨s, x, hs, hx, rfl⟩ := format_append_eq_some hw
      have hrun := hr strftime e
      rw [resultText, hs] at hrun
      obtain ⟨s', hs', rfl⟩ := Option.map_eq_some_iff.1 hrun.symm
      have hx' : itemText strftime e (kind.build fmt) = some x := by
        simpa [Entry.item, formatItems, hkind, format_singleton] using hx
      exact ⟨s', x, y, hs', hx', hy, by simp⟩

/-! ### What is expected behind `%%` -/

lemma segText_literal {c : Char} (hc : c ≠ '%') {segs : List Segment} (h : Parses (c :: q) segs)
    {t : List Char} (ht : segText strftime e segs = some t) :
    ∃ segs' t', Parses q segs' ∧ segText strftime e segs' = some t' ∧ t = c :: t' := by
  cases h with
  | literal _ hrest =>
    rw [segText] at ht
    obtain ⟨t', ht', rfl⟩ := Option.map_eq_some_iff.1 ht
    exact ⟨_, t', hrest, ht', rfl⟩
  | plain => exact absurd rfl hc
  | braces => exact absurd rfl hc

/-- A `%` in a well formed pattern is followed by the letter of a directive. -/
lemma letter_of_parses {segs : List Segment} (h : Parses ('%' :: q) segs) :
    ∃ c q' kind, q = c :: q' ∧ Kind.ofChar c = some kind := by
  cases h with
  | literal hc _ => exact absurd rfl hc
  | plain hc _ _ => exact ⟨_, _, _, rfl, hc⟩
  | braces hc _ _ => exact ⟨_, _, _, rfl, hc⟩

lemma mem_letters {c : Char} {kind : Kind} (h : Kind.ofChar c = some kind) :
    c ∈ "mprctndflTFNY".toList := by
  unfold Kind.ofChar at h
  split at h <;> first | decide | cases h

lemma eq_of_dateTime {c : Char} (h : Kind.ofChar c = some .dateTime) : c = 'd' := by
  unfold Kind.ofChar at h
  split at h <;> first | rfl | cases h

/-- An event whose texts begin with no letter of a directive. -/
def plainEvent : Event :=
  ⟨['0'], .debug, 0, ['0'], 0, 0, 0, ['0'], 0, ['0']⟩

/-- What an item writes for it is not the letter of its directive. -/
lemma kindText_plainEvent {c : Char} {kind : Kind} (h : Kind.ofChar c = some kind)
    (hdate : kind ≠ .dateTime) (fmt : List Char) :
    ∃ y ys, itemText strftime plainEvent (kind.build fmt) = some (y :: ys) ∧ y ≠ c := by
  unfold Kind.ofChar at h
  split at h <;> cases h
  case h_7 => exact absurd rfl hdate
  all_goals exact ⟨_, _, rfl, by decide⟩

/-! ### A time -/

/-- The text of a time with a format does not read `d{`, the format and `}`, whatever `rest` writes
behind both. -/
lemma date_ne (hs : Documented strftime) {fmt rest x y z : List Char} {segs : List Segment}
    {t : UInt64} (h : Parses (fmt ++ '\x7d' :: rest) segs) (hx : strftime fmt t = some x)
    (hy : segText strftime e segs = some y)
    (hz : ∀ segs', Parses rest segs' → segText strftime e segs' = some z) :
    x ++ z ≠ 'd' :: '\x7b' :: y := by
  have hend : ∀ {segs' y'}, Parses ('\x7d' :: rest) segs' →
      segText strftime e segs' = some y' → y' = '\x7d' :: z := by
    intro segs' y' hsegs hy'
    obtain ⟨segs'', y'', hrest, hy'', rfl⟩ := segText_literal (by decide) hsegs hy'
    rw [hz segs'' hrest] at hy''
    rw [Option.some.inj hy'']
  have hconversion : ∀ {fmt' segs' x'}, Parses ('%' :: fmt' ++ '\x7d' :: rest) segs' →
      strftime ('%' :: fmt') t = some x' → ∃ a as, x' = a :: as ∧ a ≠ 'd' ∧ a ≠ '\x7b' := by
    intro fmt' segs' x' hsegs hx'
    obtain ⟨c, q', kind, hq', hkind⟩ := letter_of_parses hsegs
    cases fmt' with
    | nil =>
      obtain ⟨rfl, -⟩ := List.cons.inj hq'
      cases hkind
    | cons c' fmt' =>
      obtain ⟨rfl, -⟩ := List.cons.inj hq'
      exact hs.conversion (mem_letters hkind) hx'
  intro heq
  induction hn : fmt.length using Nat.strongRecOn generalizing fmt segs x y with
  | ind n ih =>
    match fmt, hn with
    | [], _ =>
      obtain rfl : [] = x := by simpa [hs.empty] using hx
      rw [hend h hy] at heq
      have := congrArg List.length heq
      simp at this
      omega
    | a :: fmt, hn =>
      by_cases ha : a = '%'
      · subst ha
        obtain ⟨b, bs, rfl, hb, -⟩ := hconversion h hx
        exact hb (List.cons.inj heq).1
      · obtain ⟨x', hx', rfl⟩ := hs.ordinary ha hx
        obtain ⟨segs', y', h', hy', rfl⟩ := segText_literal ha h hy
        obtain ⟨rfl, heq⟩ := List.cons.inj heq
        match fmt, hn with
        | [], _ =>
          obtain rfl : [] = x' := by simpa [hs.empty] using hx'
          rw [hend h' hy'] at heq
          have := congrArg List.length heq
          simp at this
          omega
        | b :: fmt, hn =>
          by_cases hb : b = '%'
          · subst hb
            obtain ⟨c, cs, rfl, -, hc⟩ := hconversion h' hx'
            exact hc (List.cons.inj heq).1
          · -- two characters of the format are copied, and are as the two before it
            obtain ⟨x'', hx'', rfl⟩ := hs.ordinary hb hx'
            obtain ⟨segs'', y'', h'', hy'', rfl⟩ := segText_literal hb h' hy'
            obtain ⟨rfl, heq⟩ := List.cons.inj heq
            exact ih _ (by simp at hn; omega) h'' hx'' hy'' heq rfl

/-- The text of a time without a format does not begin with a `d`. -/
lemma default_ne (hs : Documented strftime) {x : List Char}
    (hx : itemText strftime e (Kind.build .dateTime []) = some x) (y z : List Char) :
    x ++ y ≠ 'd' :: z := by
  obtain ⟨a, as, rfl, ha, -⟩ := hs.conversion (c := 'Y') (by decide) hx
  intro heq
  exact ha (List.cons.inj heq).1

/-- The item that is read again writes another text than what is expected. -/
lemma reread_ne (hs : Documented strftime) {c : Char} {kind : Kind} {fmt rest x y t : List Char}
    {segs : List Segment} (hfind : find q = some ([c], fmt, rest))
    (hkind : Kind.ofChar c = some kind) (hq : Parses q segs)
    (ht : segText strftime plainEvent segs = some t)
    (hx : itemText strftime plainEvent (kind.build fmt) = some x)
    (hy : ∀ segs', Parses rest segs' → segText strftime plainEvent segs' = some y) :
    t ≠ x ++ y := by
  intro heq
  have hc : c ≠ '%' := by
    rintro rfl
    cases hkind
  -- the letter of the directive stands in front of what is expected
  have hfront : ∃ t', t = c :: t' := by
    rcases find_eq_some hfind with ⟨rfl, -⟩ | ⟨rfl, -⟩ <;>
    · obtain ⟨-, t', -, -, rfl⟩ := segText_literal hc hq ht
      exact ⟨t', rfl⟩
  obtain ⟨t', rfl⟩ := hfront
  by_cases hdate : kind = .dateTime
  · subst hdate
    obtain rfl := eq_of_dateTime hkind
    by_cases hfmt : fmt = []
    · subst hfmt
      exact default_ne hs hx y t' heq.symm
    · rcases find_eq_some hfind with ⟨-, hnil, -⟩ | ⟨rfl, -⟩
      · exact hfmt hnil
      · obtain ⟨segs₁, t₁, hq₁, ht₁, heq₁⟩ := segText_literal hc hq ht
        obtain ⟨segs₂, t₂, hq₂, ht₂, heq₂⟩ := segText_literal (by decide) hq₁ ht₁
        rw [heq₁, heq₂] at heq
        have hx' : strftime fmt plainEvent.time = some x := by
          simpa [Kind.build, itemText, kindText, hfmt] using hx
        exact date_ne hs hq₂ hx' ht₂ hy heq.symm
  · obtain ⟨a, as, hx', ha⟩ := kindText_plainEvent hkind hdate fmt
    obtain rfl := Option.some.inj (hx.symm.trans hx')
    exact ha (List.cons.inj heq).1.symm

/-! ### The whole pattern -/

/-- **`%%` is a percent sign between no two patterns**: its second `%` is read again. -/
theorem not_isPercent (strftime : Strftime) (hs : Documented strftime) (p q : List Char)
    (hp : WellFormed p) (hq : WellFormed q) : ¬IsPercent strftime p q := by
  obtain ⟨segs, hp⟩ := hp
  obtain ⟨segs', hq⟩ := hq
  rintro ⟨herror, htext⟩
  obtain ⟨s, t, hs', ht, hu⟩ := htext plainEvent
  by_cases hhead : q.head? = some '%'
  · -- one `%` too many
    obtain ⟨q, rfl⟩ := List.head?_eq_some_iff.1 hhead
    obtain ⟨s', t', hs'', ht', heq⟩ := text_third_percent hp hq hu
    obtain rfl : s = s' := Option.some.inj (hs'.symm.trans hs'')
    obtain rfl : t = t' := Option.some.inj (ht.symm.trans ht')
    have := congrArg List.length heq
    simp at this
  · cases hfind : find q with
    | none =>
      rw [error_of_open hp hhead hfind] at herror
      cases herror
    | some found =>
      obtain ⟨str, fmt, rest⟩ := found
      obtain ⟨c, kind, after, rfl, hkind, hafter, hitems⟩ := text_reread hp hhead hfind herror
      obtain ⟨s', x, y, hs'', hx, hy, heq⟩ := hitems _ _ _ hu
      obtain rfl : s = s' := Option.some.inj (hs'.symm.trans hs'')
      have hrest : ∀ segs', Parses rest segs' → segText strftime plainEvent segs' = some y := by
        intro segs' hsegs
        rw [hafter segs' hsegs, format_itemsOf] at hy
        simpa using hy
      rw [text_of_parses hq] at ht
      exact reread_ne hs hfind hkind hq ht hx hrest
        (List.cons.inj (List.append_cancel_left heq)).2

/-- Between two empty patterns it is an error. -/
theorem percent_alone : WellFormed [] ∧
    (LogFormatter.init ([] ++ '%' :: '%' :: [])).error = true ∧
    (LogFormatter.init ([] ++ '%' :: '%' :: [])).items =
      [.string ['%'], .string "<<error_format %>>".toList] := by
  refine ⟨⟨[], .nil⟩, ?_⟩
  have hfirst : ['%', '%'] = [] ++ '%' :: '%' :: [] := rfl
  have hsecond : ['%', '%'] = ['%'] ++ '%' :: [] := rfl
  obtain ⟨pre', hpre', hscan⟩ :=
    scan_directive (r := { nstr := ['%'] }) hsecond nofun rfl
  have hall : scan ['%', '%'] 0 {} =
      { vec := [.literal ['%'], .directive [] []], nstr := [] } := by
    calc scan ['%', '%'] 0 {}
      _ = scan ['%', '%'] ['%'].length { nstr := ['%'] } := scan_pair hfirst
      _ = _ := by rw [hscan, scan_end (by simp [hpre'])]; rfl
  constructor
  · rw [List.nil_append, LogFormatter.init, hall]
    rfl
  · rw [List.nil_append, LogFormatter.init, hall]
    rfl

/-! ### A clock that stands still -/

/-- The conversions for the first second of 1970, in the C locale. -/
def epochConversion : Char → List Char
  | 'Y' => "1970".toList
  | 'm' => "01".toList
  | 'd' => "01".toList
  | 'H' => "00".toList
  | 'M' => "00".toList
  | 'S' => "00".toList
  | 'p' => "AM".toList
  | 'r' => "12:00:00 AM".toList
  | 'c' => "Thu Jan  1 00:00:00 1970".toList
  | 'F' => "1970-01-01".toList
  | 'T' => "00:00:00".toList
  | 'l' => "12".toList
  | 't' => ['\t']
  | 'n' => ['\n']
  | '%' => ['%']
  | c => ['%', c]

def epochText : List Char → List Char
  | '%' :: c :: fmt => epochConversion c ++ epochText fmt
  | c :: fmt => c :: epochText fmt
  | [] => []

/-- The `strftime` of a clock that stands there. -/
def epoch : Strftime := fun fmt _ =>
  if (epochText fmt).length < 64 then some (epochText fmt) else none

lemma epoch_eq_some {fmt x : List Char} {t : UInt64} :
    epoch fmt t = some x ↔ (epochText fmt).length < 64 ∧ epochText fmt = x := by
  simp [epoch]

lemma epoch_documented : Documented epoch where
  empty _ := rfl
  ordinary := by
    intro c fmt t x hc hx
    have htext : epochText (c :: fmt) = c :: epochText fmt := by
      simp [epochText, hc]
    rw [epoch_eq_some, htext, List.length_cons] at hx
    exact ⟨epochText fmt, epoch_eq_some.2 ⟨by omega, rfl⟩, hx.2.symm⟩
  conversion := by
    intro c fmt t x hc hx
    have hhead : ∀ c ∈ "mprctndflTFNY".toList, epochConversion c ≠ [] ∧
        'd' ∉ (epochConversion c).head? ∧ '\x7b' ∉ (epochConversion c).head? := by
      intro c hc
      simp only [String.reduceToList, List.mem_cons, List.not_mem_nil, or_false] at hc
      rcases hc with rfl | rfl | rfl | rfl | rfl | rfl | rfl | rfl | rfl | rfl | rfl | rfl | rfl <;>
        decide
    obtain ⟨hne, hd, hbrace⟩ := hhead c hc
    obtain ⟨-, rfl⟩ := epoch_eq_some.1 hx
    rw [epochText]
    cases hconv : epochConversion c with
    | nil => exact absurd hconv hne
    | cons y ys =>
      rw [hconv] at hd hbrace
      exact ⟨y, _, rfl, fun h => hd (by simp [h]), fun h => hbrace (by simp [h])⟩

theorem not_isPercent_empty : ¬IsPercent epoch [] [] :=
  not_isPercent epoch epoch_documented [] [] ⟨[], .nil⟩ ⟨[], .nil⟩

end Sylar.LogFormat
