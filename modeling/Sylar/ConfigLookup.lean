import Sylar.ConfigModel

/-!
Registering a variable and then loading a document for it.

The names are documented as over `[0-9a-z_.]`. The check of `Lookup` and that of `ListAllMember` use
the same list of characters, and that list has no `9`.
-/

namespace Sylar.ConfigLookup

open Sylar.Yaml Sylar.ConfigModel

variable {τ : Type} {El : τ → Type}

def insert (r : Registry El) (name : List Char) (var : Var El) (h : validName name = true) :
    Registry El where
  datas n := if n = name then some var else r.datas n
  valid n hn := by
    split at hn
    · rename_i heq
      rwa [heq]
    · exact r.valid n hn

/-- `Config::Lookup` with a default value. It throws, or returns a pointer, which is null if there
is a variable of another type. -/
def lookup [DecidableEq τ] (r : Registry El) (t : τ) (name : List Char) (defaultValue : El t) :
    Option (Bool × Registry El) :=
  match r.datas name with
  | some var => some (var.1 = t, r)
  | none =>
    if h : validName name = true then some (true, insert r name ⟨t, defaultValue⟩ h) else none

def documented (c : Char) : Bool :=
  ('0' ≤ c && c ≤ '9') || ('a' ≤ c && c ≤ 'z') || c = '_' || c = '.'

def nest : List (List Char) → Node → Node
  | [], node => node
  | key :: keys, node => .map [(.scalar key, nest keys node)]

/-! ### The alphabets -/

lemma toNat_lt_of_documented {c : Char} (h : documented c = true) : c.toNat < 128 := by
  simp only [documented, Bool.or_eq_true, Bool.and_eq_true, decide_eq_true_eq, Char.le_def,
    UInt32.le_iff_toNat_le] at h
  rcases h with ((⟨-, h⟩ | ⟨-, h⟩) | rfl) | rfl
  · change c.toNat ≤ 57 at h
    omega
  · change c.toNat ≤ 122 at h
    omega
  · decide
  · decide

/-- The characters that are accepted are the documented ones without the nine. -/
lemma mem_nameChars_iff {c : Char} : c ∈ nameChars ↔ documented c = true ∧ c ≠ '9' := by
  constructor
  · have hall : nameChars.all (fun c => documented c && c != '9') = true := by decide
    intro hc
    simpa using List.all_eq_true.mp hall c hc
  · rintro ⟨hdoc, hnine⟩
    have hall : ∀ n < 128, documented (Char.ofNat n) = true → Char.ofNat n ≠ '9' →
        Char.ofNat n ∈ nameChars := by decide
    have := hall c.toNat (toNat_lt_of_documented hdoc)
    rw [Char.ofNat_toNat] at this
    exact this hdoc hnine

lemma validName_iff {name : List Char} (h : name.all documented = true) :
    validName name = true ↔ '9' ∉ name := by
  simp only [validName, List.all_eq_true, decide_eq_true_eq] at h ⊢
  constructor
  · intro hvalid hmem
    exact (mem_nameChars_iff.mp (hvalid _ hmem)).2 rfl
  · intro hnine c hc
    refine mem_nameChars_iff.mpr ⟨h c hc, ?_⟩
    rintro rfl
    exact hnine hc

/-! ### The document -/

lemma flatten_prefix_append (path keys : List (List Char)) :
    flatten path <+: flatten (path ++ keys) := by
  induction keys generalizing path with
  | nil => rw [List.append_nil]
  | cons key keys ih =>
    have hone : flatten path <+: flatten (path ++ [key]) := by
      by_cases hpath : path = []
      · rw [hpath]
        exact List.nil_prefix
      · rw [flatten_concat hpath]
        exact List.prefix_append _ _
    have := hone.trans (ih (path ++ [key]))
    rwa [List.append_assoc, List.singleton_append] at this

lemma flatten_ne {path keys : List (List Char)} {key : List Char} (hkey : key ≠ []) :
    flatten path ≠ flatten (path ++ key :: keys) := by
  intro heq
  have hlt : (flatten path).length < (flatten (path ++ [key])).length := by
    by_cases hpath : path = []
    · rw [hpath, List.nil_append, flatten_singleton]
      exact List.length_pos_iff.mpr hkey
    · rw [flatten_concat hpath, List.length_append, List.length_cons]
      omega
  have hle := (flatten_prefix_append (path ++ [key]) keys).length_le
  rw [List.append_assoc, List.singleton_append, ← heq] at hle
  omega

lemma validName_of_isPrefix {name name' : List Char} (h : name <+: name')
    (hvalid : validName name' = true) : validName name = true := by
  simp only [validName, List.all_eq_true] at hvalid ⊢
  exact fun c hc => hvalid c (h.subset hc)

lemma reachable_of_valid {path keys : List (List Char)}
    (h : validName (flatten (path ++ keys)) = true) : reachable path = true := by
  rw [reachable_iff]
  rintro p ⟨rest, rfl⟩
  rw [List.append_assoc] at h
  exact validName_of_isPrefix (flatten_prefix_append p (rest ++ keys)) h

lemma keyed_nest {keys : List (List Char)} (h : ∀ key ∈ keys, key ≠ []) (text : List Char) :
    Keyed (nest keys (.scalar text)) := by
  induction keys with
  | nil => trivial
  | cons key keys ih =>
    exact ⟨⟨key, h key List.mem_cons_self, rfl⟩, ih fun k hk => h k (List.mem_cons_of_mem _ hk),
      trivial⟩

/-- Of the nodes of the document only the scalar has the name. -/
lemma filter_nodesAt_nest {path keys : List (List Char)} (h : ∀ key ∈ keys, key ≠ [])
    (hvalid : validName (flatten (path ++ keys)) = true) (text : List Char) :
    ((nodesAt path (nest keys (.scalar text))).filter fun e =>
      reachable e.1 && flatten e.1 = flatten (path ++ keys)) =
      [(path ++ keys, .scalar text)] := by
  induction keys generalizing path with
  | nil =>
    rw [List.append_nil] at hvalid ⊢
    have hnil : validName (flatten (path ++ [])) = true := by simpa using hvalid
    have hreach : reachable path = true := reachable_of_valid hnil
    simp [nest, nodesAt, hreach]
  | cons key keys ih =>
    have hne : flatten path ≠ flatten (path ++ key :: keys) := flatten_ne (h key List.mem_cons_self)
    have happ : path ++ key :: keys = (path ++ [key]) ++ keys := by simp
    have hrest := ih (fun k hk => h k (List.mem_cons_of_mem _ hk)) (happ ▸ hvalid)
    rw [nest, nodesAt, nodesIn, nodesIn, List.append_nil, List.filter_cons_of_neg (by simp [hne]),
      happ]
    exact hrest

lemma updates_nest (lib : Library) {keys : List (List Char)} (h : ∀ key ∈ keys, key ≠ [])
    (hvalid : validName (flatten keys) = true) (text : List Char) :
    updates lib (nest keys (.scalar text)) (flatten keys) = [text] := by
  have hnil : validName (flatten ([] ++ keys)) = true := hvalid
  have := filter_nodesAt_nest h hnil text
  rw [List.nil_append] at this
  rw [updates, this]
  rfl

/-! ### Registering and loading -/

section Load

variable [∀ t, DecidableEq (El t)] (lib : Library) (fromStr : ∀ t, List Char → Option (El t))

lemma loadFromYaml_nest {r : Registry El} {t : τ} {keys : List (List Char)}
    (hkeys : ∀ key ∈ keys, key ≠ []) (hne : flatten keys ≠ []) {val x : El t}
    (hval : r.datas (flatten keys) = some ⟨t, val⟩) {text : List Char}
    (hx : fromStr t text = some x) :
    (loadFromYaml lib fromStr r (nest keys (.scalar text))).datas (flatten keys) =
      some ⟨t, x⟩ := by
  have hvalid : validName (flatten keys) = true := r.valid _ (by simp [hval])
  have hset : setValue val x = x := by
    unfold setValue
    split
    · rename_i heq
      exact heq.symm
    · rfl
  rw [loadFromYaml_datas lib fromStr r (keyed_nest hkeys text) hne, hval,
    updates_nest lib hkeys hvalid]
  simp [fromString, hx, hset]

end Load

variable [DecidableEq τ]

/-- What is found is of the type, and the name of a variable passes the check. -/
lemma lookup_eq_some {r r' : Registry El} {t : τ} {name : List Char} {defaultValue : El t}
    {found : Bool} (h : lookup r t name defaultValue = some (found, r')) :
    validName name = true ∧ (found = true → ∃ val : El t, r'.datas name = some ⟨t, val⟩) := by
  unfold lookup at h
  split at h
  · rename_i var hvar
    cases h
    refine ⟨r.valid name (by simp [hvar]), fun hfound => ?_⟩
    obtain ⟨t', val⟩ := var
    obtain rfl : t' = t := by simpa using hfound
    exact ⟨val, hvar⟩
  · split at h
    · rename_i hvalid
      cases h
      exact ⟨hvalid, fun _ => ⟨defaultValue, by simp [insert]⟩⟩
    · cases h

lemma lookup_of_valid (r : Registry El) (t : τ) {name : List Char} (defaultValue : El t)
    (h : validName name = true) : ∃ found r', lookup r t name defaultValue = some (found, r') := by
  unfold lookup
  split
  · exact ⟨_, _, rfl⟩
  · rw [dif_pos h]
    exact ⟨_, _, rfl⟩

/-- **A documented name can be registered and loaded exactly if it has no nine.** -/
theorem configurable_iff [∀ t, DecidableEq (El t)] (lib : Library)
    (fromStr : ∀ t, List Char → Option (El t)) (r : Registry El) (t : τ) (name : List Char)
    (hname : name ≠ []) (hdoc : name.all documented = true) (defaultValue : El t)
    (keys : List (List Char)) (hkeys : ∀ key ∈ keys, key ≠ []) (hflat : flatten keys = name)
    (text : List Char) (x : El t) (hx : fromStr t text = some x) :
    (∃ found r', lookup r t name defaultValue = some (found, r') ∧
      (found = true →
        (loadFromYaml lib fromStr r' (nest keys (.scalar text))).datas name = some ⟨t, x⟩)) ↔
      '9' ∉ name := by
  rw [← validName_iff hdoc]
  constructor
  · rintro ⟨found, r', hlookup, -⟩
    exact (lookup_eq_some hlookup).1
  · intro hvalid
    obtain ⟨found, r', hlookup⟩ := lookup_of_valid r t defaultValue hvalid
    refine ⟨found, r', hlookup, fun hfound => ?_⟩
    obtain ⟨val, hval⟩ := (lookup_eq_some hlookup).2 hfound
    subst hflat
    exact loadFromYaml_nest lib fromStr hkeys hname hval hx

def empty : Registry El := ⟨fun _ => none, fun _ h => absurd rfl h⟩

/-- The variable `tcp.p8`, with the keys `tcp` and `p8`. -/
theorem configurable_port :
    ∃ found r', lookup (empty : Registry fun _ => ℕ) () ['t', 'c', 'p', '.', 'p', '8'] 0 =
      some (found, r') ∧ (found = true →
        (loadFromYaml ⟨fun _ => none, fun _ => [], fun _ => none⟩ digit r'
          (nest [['t', 'c', 'p'], ['p', '8']] (.scalar ['5']))).datas
            ['t', 'c', 'p', '.', 'p', '8'] = some ⟨(), 5⟩) :=
  (configurable_iff _ digit empty () ['t', 'c', 'p', '.', 'p', '8'] (by simp) (by decide) 0
    [['t', 'c', 'p'], ['p', '8']] (by simp) rfl ['5'] 5 rfl).mpr (by decide)

/-- **A name with a nine cannot be registered.** -/
theorem lookup_nine : ['p', '9'].all documented = true ∧
    lookup (empty : Registry fun _ => ℕ) () ['p', '9'] 0 = none := by
  refine ⟨by decide, ?_⟩
  rw [lookup, empty, dif_neg (by decide)]

end Sylar.ConfigLookup
