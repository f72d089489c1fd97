import Mathlib.Data.List.Basic
import Mathlib.Tactic.Common

/-!
`ReadFixFromStreamWithSpeed` and `WriteFixToStreamWithSpeed`.

A stream is a state that says whether it is good, and the operation the loops call on it. What the
speed limit sleeps for is left out: it does not touch the stream.
-/

namespace Sylar.StreamSpeed

/-- The bytes of one pass, at least 64K of them. -/
abbrev Chunk := {n : ℕ // 1024 * 64 ≤ n}

/-- `std::max((uint64_t)ceil(speed / 100.0), (uint64_t)1024 * 64)`. -/
def per (hundredth : ℕ) : Chunk := ⟨max hundredth (1024 * 64), Nat.le_max_right _ _⟩

structure OStream (σ : Type) where
  good : σ → Bool
  write : σ → List UInt8 → σ

/-- A stream to read from. A read that comes back short leaves the stream failed. -/
structure IStream (σ : Type) where
  good : σ → Bool
  read : σ → ℕ → List UInt8 × σ
  gcount_le : ∀ s n, (read s n).1.length ≤ n
  short : ∀ s n, (read s n).1.length < n → good (read s n).2 = false

variable {σ τ : Type}

/-- A write: where it begins, what it hands over and whether the stream is good after it. -/
structure Write where
  offset : ℕ
  bytes : List UInt8
  ok : Bool

structure Writing (σ : Type) where
  os : σ
  offset : ℕ
  writes : List Write

/-- `size - offset > per ? per : size - offset`. -/
def share (p : Chunk) (size offset : ℕ) : ℕ :=
  if size - offset > p then p else size - offset

lemma share_le (p : Chunk) (size offset : ℕ) : share p size offset ≤ size - offset := by
  unfold share
  split <;> omega

lemma share_pos (p : Chunk) {size offset : ℕ} (h : offset < size) : 0 < share p size offset := by
  have hp := p.2
  unfold share
  split <;> omega

def writeLoop (st : OStream σ) (p : Chunk) (data : List UInt8) (w : Writing σ) : Writing σ :=
  if st.good w.os = true ∧ w.offset < data.length then
    let s := share p data.length w.offset
    let bytes := (data.drop w.offset).take s
    let os := st.write w.os bytes
    writeLoop st p data ⟨os, w.offset + s, w.writes ++ [⟨w.offset, bytes, st.good os⟩]⟩
  else w
termination_by data.length - w.offset
decreasing_by
  rename_i h
  have := share_pos p h.2
  omega

/-- What `WriteFixToStreamWithSpeed` leaves behind; `data` is its `size` bytes. -/
def written (st : OStream σ) (p : Chunk) (data : List UInt8) (os : σ) : Writing σ :=
  writeLoop st p data ⟨os, 0, []⟩

def writeFixToStreamWithSpeed (st : OStream σ) (p : Chunk) (data : List UInt8) (os : σ) : Bool :=
  (written st p data os).offset = data.length

structure Reading (τ : Type) where
  is : τ
  offset : ℕ
  data : List UInt8
  reads : List (List UInt8)

def store (data : List UInt8) (offset : ℕ) (bytes : List UInt8) : List UInt8 :=
  data.take offset ++ bytes ++ data.drop (offset + bytes.length)

def readLoop (st : IStream τ) (p : Chunk) (size : ℕ) (r : Reading τ) : Reading τ :=
  if st.good r.is = true ∧ r.offset < size then
    let a := st.read r.is (share p size r.offset)
    readLoop st p size
      ⟨a.2, r.offset + a.1.length, store r.data r.offset a.1, r.reads ++ [a.1]⟩
  else r
termination_by 2 * (size - r.offset) + (st.good r.is).toNat
decreasing_by
  -- a full read moves on, a short one ends the stream
  rename_i h
  have hpos := share_pos p h.2
  rcases Nat.lt_or_ge (st.read r.is (share p size r.offset)).1.length
    (share p size r.offset) with hshort | hfull
  · rw [st.short _ _ hshort, h.1]
    simp only [Bool.toNat_false, Bool.toNat_true]
    omega
  · have hbit := Bool.toNat_le (st.good (st.read r.is (share p size r.offset)).2)
    rw [h.1, Bool.toNat_true]
    omega

/-- What `ReadFixFromStreamWithSpeed` leaves behind; `data` is where its `size` bytes go. -/
def readBytes (st : IStream τ) (p : Chunk) (data : List UInt8) (is : τ) : Reading τ :=
  readLoop st p data.length ⟨is, 0, data, []⟩

def readFixFromStreamWithSpeed (st : IStream τ) (p : Chunk) (data : List UInt8) (is : τ) : Bool :=
  (readBytes st p data is).offset = data.length

/-! ### Writing -/

/-- Ranges of `data` one behind the other, from `start` to `stop`. -/
def Consecutive (data : List UInt8) : ℕ → List Write → ℕ → Prop
  | start, [], stop => start = stop
  | start, w :: ws, stop => w.offset = start ∧ w.bytes ≠ [] ∧
      w.bytes = (data.drop start).take w.bytes.length ∧
      Consecutive data (start + w.bytes.length) ws stop

lemma Consecutive.snoc {data : List UInt8} {a b : ℕ} {ws : List Write} {w : Write}
    (h : Consecutive data a ws b) (hoff : w.offset = b) (hne : w.bytes ≠ [])
    (hbytes : w.bytes = (data.drop b).take w.bytes.length) :
    Consecutive data a (ws ++ [w]) (b + w.bytes.length) := by
  induction ws generalizing a with
  | nil =>
    obtain rfl : a = b := h
    exact ⟨hoff, hne, hbytes, rfl⟩
  | cons x ws ih =>
    obtain ⟨hx, hxne, hxb, hrest⟩ := h
    exact ⟨hx, hxne, hxb, ih hrest⟩

structure WriteInv (st : OStream σ) (data : List UInt8) (w : Writing σ) : Prop where
  covers : Consecutive data 0 w.writes w.offset
  le : w.offset ≤ data.length
  /-- No write follows a failed one. -/
  stops : ∀ x ∈ w.writes.dropLast, x.ok = true
  good : st.good w.os = true → ∀ x ∈ w.writes, x.ok = true

lemma writeInv_init (st : OStream σ) (data : List UInt8) (os : σ) :
    WriteInv st data ⟨os, 0, []⟩ where
  covers := rfl
  le := Nat.zero_le _
  stops := by simp
  good := by simp

lemma writeInv_step {st : OStream σ} (p : Chunk) {data : List UInt8} {w : Writing σ}
    (h : WriteInv st data w) (hgood : st.good w.os = true) (hlt : w.offset < data.length) :
    let s := share p data.length w.offset
    let bytes := (data.drop w.offset).take s
    let os := st.write w.os bytes
    WriteInv st data ⟨os, w.offset + s, w.writes ++ [⟨w.offset, bytes, st.good os⟩]⟩ := by
  intro s bytes os
  have hpos := share_pos p hlt
  have hle := share_le p data.length w.offset
  have hlen : bytes.length = s := by
    simp only [bytes, s, List.length_take, List.length_drop]
    omega
  have hne : bytes ≠ [] := by
    intro hnil
    rw [hnil, List.length_nil] at hlen
    omega
  refine ⟨?_, ?_, ?_, ?_⟩
  · have hsnoc := h.covers.snoc (w := ⟨w.offset, bytes, st.good os⟩) rfl hne
      (by simp only [hlen]; rfl)
    simpa only [hlen] using hsnoc
  · simp only
    omega
  · intro x hx
    rw [List.dropLast_concat] at hx
    exact h.good hgood x hx
  · intro hos x hx
    rcases List.mem_append.1 hx with hx | hx
    · exact h.good hgood x hx
    · rw [List.mem_singleton.1 hx]
      exact hos

lemma writeLoop_inv {st : OStream σ} {p : Chunk} {data : List UInt8} {w : Writing σ}
    (h : WriteInv st data w) : WriteInv st data (writeLoop st p data w) := by
  fun_induction writeLoop st p data w with
  | case1 w hc s bytes os ih => exact ih (writeInv_step p h hc.1 hc.2)
  | case2 w hc => exact h

/-- The loop ends with a stream that failed or with nothing left. -/
lemma writeLoop_exit (st : OStream σ) (p : Chunk) (data : List UInt8) (w : Writing σ)
    (hgood : st.good (writeLoop st p data w).os = true) :
    data.length ≤ (writeLoop st p data w).offset := by
  fun_induction writeLoop st p data w with
  | case1 w hc s bytes os ih => exact ih hgood
  | case2 w hc =>
    by_contra hlt
    exact hc ⟨hgood, by omega⟩

def chunks (p : Chunk) (data : List UInt8) : List (List UInt8) :=
  if data = [] then [] else data.take p :: chunks p (data.drop p)
termination_by data.length
decreasing_by
  rename_i h
  have hpos := List.length_pos_iff.2 h
  rw [List.length_drop]
  exact Nat.sub_lt hpos (by omega)

/-- The stream is good before each chunk, and no longer after the last. -/
def FailsLast (st : OStream σ) : σ → List (List UInt8) → Prop
  | os, [] => st.good os = false
  | os, bytes :: rest => st.good os = true ∧ FailsLast st (st.write os bytes) rest

lemma chunks_drop (p : Chunk) {data : List UInt8} {offset : ℕ} (h : offset < data.length) :
    chunks p (data.drop offset) =
      (data.drop offset).take (share p data.length offset) ::
        chunks p (data.drop (offset + share p data.length offset)) := by
  have hne : data.drop offset ≠ [] := by
    rw [ne_eq, List.drop_eq_nil_iff]
    omega
  rw [chunks, if_neg hne, List.drop_drop]
  unfold share
  split
  · rfl
  · next hrest =>
    have htake : (data.drop offset).take p = (data.drop offset).take (data.length - offset) := by
      have hlen : (data.drop offset).length = data.length - offset := List.length_drop
      rw [List.take_of_length_le (by omega), List.take_of_length_le (by omega)]
    have hdrop : data.drop (offset + p) = data.drop (offset + (data.length - offset)) := by
      rw [List.drop_eq_nil_of_le, List.drop_eq_nil_of_le] <;> omega
    rw [htake, hdrop]

lemma writeLoop_failsLast (st : OStream σ) (p : Chunk) {data : List UInt8} {w : Writing σ}
    (hle : w.offset ≤ data.length) :
    ((writeLoop st p data w).offset = data.length ∧
      st.good (writeLoop st p data w).os = false) ↔
        FailsLast st w.os (chunks p (data.drop w.offset)) := by
  fun_induction writeLoop st p data w with
  | case1 w hc s bytes os ih =>
    have hs := share_le p data.length w.offset
    rw [ih (by simp only [s]; omega), chunks_drop p hc.2, FailsLast]
    simp only [hc.1, true_and]
    rfl
  | case2 w hc =>
    rcases Nat.lt_or_ge w.offset data.length with hlt | hge
    · -- the stream failed on the way
      have hbad : st.good w.os ≠ true := fun hg => hc ⟨hg, hlt⟩
      rw [chunks_drop p hlt, FailsLast]
      constructor
      · intro h
        omega
      · intro h
        exact absurd h.1 hbad
    · have hnil : data.drop w.offset = [] := List.drop_eq_nil_of_le hge
      rw [hnil, chunks, if_pos rfl, FailsLast]
      constructor
      · exact fun h => h.2
      · exact fun h => ⟨by omega, h⟩

/-- The writes are consecutive ranges that cover the data unless the stream fails, none follows a
failed one, and the answer is whether all of them succeeded. -/
structure WriteTruth (st : OStream σ) (p : Chunk) (data : List UInt8) (os : σ) : Prop where
  covers : Consecutive data 0 (written st p data os).writes (written st p data os).offset
  all : st.good (written st p data os).os = true → (written st p data os).offset = data.length
  stops : ∀ x ∈ (written st p data os).writes.dropLast, x.ok = true
  verdict : writeFixToStreamWithSpeed st p data os = true ↔
    st.good (written st p data os).os = true ∧
      (∀ x ∈ (written st p data os).writes, x.ok = true) ∧
      (written st p data os).offset = data.length

lemma writeTruth_iff (st : OStream σ) (p : Chunk) (data : List UInt8) (os : σ) :
    WriteTruth st p data os ↔ ¬FailsLast st os (chunks p data) := by
  have hinv : WriteInv st data (written st p data os) := writeLoop_inv (writeInv_init st data os)
  have hlast := writeLoop_failsLast st p (w := ⟨os, 0, []⟩) (Nat.zero_le data.length)
  rw [List.drop_zero] at hlast
  have hexit := writeLoop_exit st p data ⟨os, 0, []⟩
  constructor
  · intro h hf
    obtain ⟨hoff, hbad⟩ := hlast.2 hf
    have hgood := (h.verdict.1 (decide_eq_true hoff)).1
    rw [written, hbad] at hgood
    simp at hgood
  · intro hf
    refine ⟨hinv.covers, fun hgood => Nat.le_antisymm hinv.le (hexit hgood), hinv.stops, ?_⟩
    constructor
    · intro h
      have hoff : (written st p data os).offset = data.length := of_decide_eq_true h
      have hgood : st.good (written st p data os).os = true := by
        cases hg : st.good (written st p data os).os with
        | true => rfl
        | false => exact absurd (hlast.1 ⟨hoff, hg⟩) hf
      exact ⟨hgood, hinv.good hgood, hoff⟩
    · exact fun h => decide_eq_true h.2.2

/-! ### Reading -/

/-- What holds before each pass of the loop: what was read stands in order at the front of the
buffer, and behind it nothing was touched. -/
structure ReadInv (data : List UInt8) (r : Reading τ) : Prop where
  le : r.offset ≤ data.length
  length : r.reads.flatten.length = r.offset
  stored : r.data = r.reads.flatten ++ data.drop r.offset

lemma readInv_init (data : List UInt8) (is : τ) : ReadInv data ⟨is, 0, data, []⟩ where
  le := Nat.zero_le _
  length := rfl
  stored := by simp

lemma readInv_step {st : IStream τ} (p : Chunk) {data : List UInt8} {r : Reading τ}
    (h : ReadInv data r) :
    let a := st.read r.is (share p data.length r.offset)
    ReadInv data
      ⟨a.2, r.offset + a.1.length, store r.data r.offset a.1, r.reads ++ [a.1]⟩ := by
  intro a
  have hle := share_le p data.length r.offset
  have hcount := st.gcount_le r.is (share p data.length r.offset)
  have hroom := h.le
  refine ⟨?_, ?_, ?_⟩
  · simp only [a]
    omega
  · simp [h.length]
  · have hbehind : r.data.drop (r.offset + a.1.length) = data.drop (r.offset + a.1.length) := by
      rw [← List.drop_drop, h.stored, List.drop_left' h.length, List.drop_drop]
    simp only [store]
    rw [hbehind, h.stored, List.take_left' h.length]
    simp

lemma readLoop_inv {st : IStream τ} {p : Chunk} {data : List UInt8} {r : Reading τ}
    (h : ReadInv data r) : ReadInv data (readLoop st p data.length r) := by
  fun_induction readLoop st p data.length r with
  | case1 r hc a ih => exact ih (readInv_step p h)
  | case2 r hc => exact h

/-- The answer is whether all the bytes were read; what was read is stored in order, and the rest of
the buffer is left alone. -/
structure ReadTruth (st : IStream τ) (p : Chunk) (data : List UInt8) (is : τ) : Prop where
  verdict : readFixFromStreamWithSpeed st p data is = true ↔
    (readBytes st p data is).reads.flatten.length = data.length
  stored : (readBytes st p data is).data = (readBytes st p data is).reads.flatten ++
    data.drop (readBytes st p data is).reads.flatten.length

lemma readTruth (st : IStream τ) (p : Chunk) (data : List UInt8) (is : τ) :
    ReadTruth st p data is := by
  have hinv : ReadInv data (readBytes st p data is) := readLoop_inv (readInv_init data is)
  refine ⟨?_, ?_⟩
  · rw [hinv.length, readFixFromStreamWithSpeed, decide_eq_true_iff]
  · rw [hinv.length]
    exact hinv.stored

/-- **Both functions report the truth except where the last chunk is the first to fail**: the write
loop looks at the stream before each chunk and then no more. -/
theorem truthful_iff (o : OStream σ) (i : IStream τ) (p : Chunk) (data room : List UInt8)
    (os : σ) (is : τ) :
    (WriteTruth o p data os ∧ ReadTruth i p room is) ↔ ¬FailsLast o os (chunks p data) := by
  rw [writeTruth_iff]
  constructor
  · exact fun h => h.1
  · exact fun h => ⟨h, readTruth i p room is⟩

def full : OStream Bool := ⟨id, fun _ _ => false⟩

/-- One byte is reported as written to a stream that took none. -/
theorem write_reports_a_lost_byte :
    writeFixToStreamWithSpeed full (per 0) [0] true = true ∧
      full.good (written full (per 0) [0] true).os = false := by
  simp [writeFixToStreamWithSpeed, written, writeLoop, full, share, per]

end Sylar.StreamSpeed
