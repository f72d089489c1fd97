import Mathlib.Algebra.Ring.Int.Defs
import Mathlib.Algebra.Ring.Nat
import Sylar.Lib.Cut
import Sylar.SslSession

/-!
`send` and `recv` of an array of buffers on a `SSLSocket`: what the returned value says of the bytes
that went over the session.

The loop is that of `SslSession`; here each buffer comes with its places, the bytes of a `send` or
the room of a `recv`. A positive answer of the library has moved that many of the first places.
-/

namespace Sylar.SslVec

open Lib.Cut Sylar.SslSession

variable {α : Type}

/-- The `int` that the library gets for an `iov_len`. -/
def requested (length : ℕ) : Int32 := (UInt64.ofNat length).toUInt32.toInt32

/-- A buffer and the answer of the library for it. -/
structure Buffer (α : Type) where
  places : List α
  tmp : Int32
  iov_len : places.length < 2 ^ 64
  tmp_le : tmp ≤ 0 ∨ tmp ≤ requested places.length

namespace Buffer

def moved (b : Buffer α) : List α := b.places.take b.tmp.toInt.toNat

def Full (b : Buffer α) : Prop := 0 < b.tmp ∧ b.tmp = requested b.places.length

instance (b : Buffer α) : Decidable b.Full := inferInstanceAs (Decidable (_ ∧ _))

end Buffer

def iovec (bufs : List (Buffer α)) : List (UInt64 × Int32) :=
  bufs.map fun b => (UInt64.ofNat b.places.length, b.tmp)

/-- The buffers up to the first that the library did not move in full. -/
def reached (bufs : List (Buffer α)) : List (Buffer α) := upTo (fun b => ¬b.Full) bufs

/-- The places of the buffers that were handed to the library, as far as it moved them. -/
def transferred (bufs : List (Buffer α)) (r : Io) : List α :=
  (bufs.take r.calls.length).flatMap Buffer.moved

/-- The number of places moved is returned if there are any, and else the answer of the call; the
places are the first of all, and no call follows one that left some of its buffer. -/
structure Reported (bufs : List (Buffer α)) (r : Io) : Prop where
  count : transferred bufs r ≠ [] → r.ret.toInt = (transferred bufs r).length
  refused : transferred bufs r = [] → ∀ b ∈ (bufs.take r.calls.length).getLast?, r.ret = b.tmp
  start : transferred bufs r <+: bufs.flatMap Buffer.places
  stops : ∀ b ∈ (bufs.take r.calls.length).dropLast,
    0 < b.tmp ∧ b.tmp.toInt = b.places.length

def answers (bufs : List (Buffer α)) : ℤ := (bufs.map fun b => b.tmp.toInt).sum

/-- No call but the first fails, no buffer of 2 GiB or more is moved in full before another, and
the answers add up to less. -/
structure Fits (bufs : List (Buffer α)) : Prop where
  positive : ∀ b ∈ (reached bufs).tail, 0 < b.tmp
  short : ∀ b ∈ (reached bufs).dropLast, b.places.length < 2 ^ 31
  sum : answers (reached bufs) < 2 ^ 31

/-! ### The answers -/

lemma requested_toInt (n : ℕ) :
    (requested n).toInt =
      if n % 2 ^ 32 < 2 ^ 31 then (n % 2 ^ 32 : ℤ) else n % 2 ^ 32 - 2 ^ 32 := by
  have hnat : ((UInt64.ofNat n).toUInt32.toBitVec).toNat = n % 2 ^ 32 := by
    change (UInt64.ofNat n).toUInt32.toNat = n % 2 ^ 32
    rw [UInt64.toNat_toUInt32, UInt64.toNat_ofNat']
    omega
  have hint : (requested n).toInt = ((UInt64.ofNat n).toUInt32.toBitVec).toInt := rfl
  rw [hint, BitVec.toInt_eq_toNat_cond, hnat]
  split <;> split <;> omega

lemma pos_iff {a : Int32} : 0 < a ↔ 0 < a.toInt := Int32.lt_iff_toInt_lt

namespace Buffer

lemma toInt_le (b : Buffer α) (h : 0 < b.tmp) : b.tmp.toInt ≤ b.places.length := by
  have hpos := pos_iff.1 h
  have hle : b.tmp.toInt ≤ (requested b.places.length).toInt := by
    rcases b.tmp_le with hle | hle
    · exact absurd (Int32.le_iff_toInt_le.1 hle) (by simpa using hpos)
    · exact Int32.le_iff_toInt_le.1 hle
  rw [requested_toInt] at hle
  split at hle <;> omega

lemma moved_length (b : Buffer α) (h : 0 < b.tmp) : (b.moved.length : ℤ) = b.tmp.toInt := by
  have hle := b.toInt_le h
  have hpos := pos_iff.1 h
  rw [moved, List.length_take]
  omega

lemma moved_eq_nil (b : Buffer α) (h : ¬0 < b.tmp) : b.moved = [] := by
  have hneg : ¬0 < b.tmp.toInt := fun hp => h (pos_iff.2 hp)
  have hzero : b.tmp.toInt.toNat = 0 := by omega
  rw [moved, hzero, List.take_zero]

/-- A buffer of less than 2 GiB is moved in full where the answer is what was asked for. -/
lemma Full.toInt_eq {b : Buffer α} (h : b.Full) (hlen : b.places.length < 2 ^ 31) :
    b.tmp.toInt = b.places.length := by
  rw [h.2, requested_toInt, if_pos (by omega)]
  omega

lemma moved_eq_places {b : Buffer α} (h : b.tmp.toInt = b.places.length) : b.moved = b.places := by
  rw [moved, h, Int.toNat_natCast, List.take_length]

end Buffer

/-! ### The loop -/

lemma reached_of_full {b : Buffer α} (hb : b.Full) (bufs : List (Buffer α)) :
    reached (b :: bufs) = b :: reached bufs :=
  upTo_cons_of_neg (p := fun b : Buffer α => ¬b.Full) (not_not.2 hb) bufs

lemma reached_of_not_full {b : Buffer α} (hb : ¬b.Full) (bufs : List (Buffer α)) :
    reached (b :: bufs) = [b] :=
  upTo_cons_of_pos (p := fun b : Buffer α => ¬b.Full) hb bufs

lemma reached_isPrefix (bufs : List (Buffer α)) : reached bufs <+: bufs := upTo_isPrefix bufs

lemma reached_ne_nil (b : Buffer α) (bufs : List (Buffer α)) : reached (b :: bufs) ≠ [] :=
  upTo_cons_ne_nil b bufs

lemma full_of_mem_dropLast {bufs : List (Buffer α)} {b : Buffer α}
    (hb : b ∈ (reached bufs).dropLast) : b.Full :=
  not_not.1 (neg_of_mem_dropLast_upTo (p := fun b : Buffer α => ¬b.Full) hb)

/-- What the loop does: it makes one call for each buffer that is reached, and its value is decided
by the last of them. -/
lemma ioLoop_spec (call : SslCall) (ssl : Session) (total : Int32) (bufs : List (Buffer α)) :
    (SslSocket.ioLoop call ssl total (iovec bufs)).calls.length = (reached bufs).length ∧
      ∀ last ∈ (reached bufs).getLast?, (SslSocket.ioLoop call ssl total (iovec bufs)).ret =
        if last.tmp ≤ 0 then last.tmp else total + Int32.ofInt (answers (reached bufs)) := by
  induction bufs generalizing total with
  | nil => simp [iovec, SslSocket.ioLoop, reached]
  | cons b bufs ih =>
    have hcons : iovec (b :: bufs) = (UInt64.ofNat b.places.length, b.tmp) :: iovec bufs := rfl
    have hreq : (UInt64.ofNat b.places.length).toUInt32.toInt32 = requested b.places.length := rfl
    rw [hcons, SslSocket.ioLoop, hreq]
    by_cases hneg : b.tmp ≤ 0
    · have hstop := reached_of_not_full (fun hf => Int32.not_lt.2 hneg hf.1) bufs
      rw [if_pos hneg, hstop]
      refine ⟨rfl, fun last hlast => ?_⟩
      obtain rfl : b = last := by simpa using hlast
      rw [if_pos hneg]
    · rw [if_neg hneg]
      by_cases hshort : b.tmp = requested b.places.length
      · have hfull : b.Full := ⟨Int32.not_le.1 hneg, hshort⟩
        have hgo := reached_of_full hfull bufs
        obtain ⟨hcalls, hret⟩ := ih (total + b.tmp)
        rw [if_neg (not_not.2 hshort), hgo]
        refine ⟨by simp [hcalls], fun last hlast => ?_⟩
        cases bufs with
        | nil =>
          obtain rfl : b = last := by simpa [reached] using hlast
          simp [iovec, SslSocket.ioLoop, reached, answers, if_neg hneg]
        | cons c bufs =>
          have hlast' : last ∈ (reached (c :: bufs)).getLast? := by
            rwa [List.getLast?_cons_of_ne_nil (reached_ne_nil c bufs)] at hlast
          have hsum : answers (b :: reached (c :: bufs)) =
              b.tmp.toInt + answers (reached (c :: bufs)) := by simp [answers]
          simp only
          rw [hret last hlast', hsum, Int32.ofInt_add, Int32.ofInt_toInt, Int32.add_assoc]
      · have hstop := reached_of_not_full (fun hf => hshort hf.2) bufs
        rw [if_pos hshort, hstop]
        refine ⟨rfl, fun last hlast => ?_⟩
        obtain rfl : b = last := by simpa using hlast
        simp [answers, if_neg hneg]

/-! ### The bytes of several calls -/

lemma answers_cons (b : Buffer α) (bufs : List (Buffer α)) :
    answers (b :: bufs) = b.tmp.toInt + answers bufs := by
  simp [answers]

lemma answers_le (bufs : List (Buffer α)) :
    answers bufs ≤ (bufs.flatMap Buffer.moved).length := by
  induction bufs with
  | nil => simp [answers]
  | cons b bufs ih =>
    rw [answers_cons, List.flatMap_cons, List.length_append]
    by_cases hb : 0 < b.tmp
    · have := b.moved_length hb
      omega
    · have hneg : ¬0 < b.tmp.toInt := fun hp => hb (pos_iff.2 hp)
      omega

lemma answers_eq {bufs : List (Buffer α)} (h : ∀ b ∈ bufs, 0 < b.tmp) :
    answers bufs = (bufs.flatMap Buffer.moved).length := by
  induction bufs with
  | nil => simp [answers]
  | cons b bufs ih =>
    have hb := b.moved_length (h b List.mem_cons_self)
    have hrest := ih fun c hc => h c (List.mem_cons_of_mem _ hc)
    rw [answers_cons, List.flatMap_cons, List.length_append]
    omega

lemma flatMap_moved_isPrefix {bufs : List (Buffer α)}
    (h : ∀ b ∈ bufs.dropLast, b.moved = b.places) :
    bufs.flatMap Buffer.moved <+: bufs.flatMap Buffer.places := by
  induction bufs with
  | nil => exact List.prefix_rfl
  | cons b bufs ih =>
    cases bufs with
    | nil =>
      have htake := List.take_prefix b.tmp.toInt.toNat b.places
      simpa [Buffer.moved] using htake
    | cons c bufs =>
      rw [List.dropLast_cons_of_ne_nil (by simp)] at h
      rw [List.flatMap_cons, List.flatMap_cons, h b List.mem_cons_self]
      exact (List.prefix_append_right_inj _).2 (ih fun d hd => h d (List.mem_cons_of_mem _ hd))

lemma flatMap_moved_ne_nil {bufs : List (Buffer α)} {b : Buffer α} (hb : b ∈ bufs)
    (hpos : 0 < b.tmp) : bufs.flatMap Buffer.moved ≠ [] := by
  intro hnil
  have hlen := b.moved_length hpos
  have hpos' := pos_iff.1 hpos
  rw [List.flatMap_eq_nil_iff.1 hnil b hb, List.length_nil] at hlen
  omega

/-! ### What is returned -/

section Calls

variable (call : SslCall) (ssl : Session) (bufs : List (Buffer α))

/-- The buffers that were handed over are those that are reached. -/
lemma take_calls :
    bufs.take (SslSocket.ioLoop call ssl 0 (iovec bufs)).calls.length = reached bufs := by
  rw [(ioLoop_spec call ssl 0 bufs).1]
  exact (List.prefix_iff_eq_take.1 (reached_isPrefix bufs)).symm

lemma transferred_eq : transferred bufs (SslSocket.ioLoop call ssl 0 (iovec bufs)) =
    (reached bufs).flatMap Buffer.moved := by
  rw [transferred, take_calls]

end Calls

/-- A call that fails after the first is the last, and bytes have been moved before it. -/
lemma moved_of_failed {bufs : List (Buffer α)} {b : Buffer α} (hb : b ∈ (reached bufs).tail)
    (hneg : ¬0 < b.tmp) :
    (reached bufs).getLast? = some b ∧ (reached bufs).flatMap Buffer.moved ≠ [] := by
  cases hms : reached bufs with
  | nil => simp [hms] at hb
  | cons a ms =>
    rw [hms, List.tail_cons] at hb
    obtain ⟨init, last, rfl⟩ := (List.eq_nil_or_concat' ms).resolve_left (List.ne_nil_of_mem hb)
    have hdrop : (reached bufs).dropLast = a :: init := by
      rw [hms, ← List.cons_append, List.dropLast_concat]
    have ha : a.Full := full_of_mem_dropLast (by rw [hdrop]; exact List.mem_cons_self)
    refine ⟨?_, flatMap_moved_ne_nil List.mem_cons_self ha.1⟩
    rcases List.mem_append.1 hb with hinit | hlast
    · have hb' : b.Full := full_of_mem_dropLast (by rw [hdrop]; exact List.mem_cons_of_mem _ hinit)
      exact absurd hb'.1 hneg
    · rw [List.mem_singleton.1 hlast, ← List.cons_append, List.getLast?_concat]

lemma Reported.fits {call : SslCall} {ssl : Session} {bufs : List (Buffer α)}
    (h : Reported bufs (SslSocket.ioLoop call ssl 0 (iovec bufs))) : Fits bufs := by
  have hret := (ioLoop_spec call ssl 0 bufs).2
  obtain ⟨hcount, -, -, hstops⟩ := h
  rw [transferred_eq] at hcount
  rw [take_calls] at hstops
  refine ⟨?_, fun b hb => ?_, ?_⟩
  · -- a failed call after the first would hide the bytes of the first
    intro b hb
    by_contra hneg
    obtain ⟨hlast, hne⟩ := moved_of_failed hb hneg
    have hc := hcount hne
    rw [hret b hlast, if_pos (Int32.not_lt.1 hneg)] at hc
    have hbneg : ¬0 < b.tmp.toInt := fun hp => hneg (pos_iff.2 hp)
    have hpos := List.length_pos_iff.2 hne
    omega
  · obtain ⟨-, hstop⟩ := hstops b hb
    have hlt := b.tmp.toInt_lt
    omega
  · have hle := answers_le (reached bufs)
    by_cases hnil : (reached bufs).flatMap Buffer.moved = []
    · rw [hnil, List.length_nil] at hle
      omega
    · have hc := hcount hnil
      have hlt := (SslSocket.ioLoop call ssl 0 (iovec bufs)).ret.toInt_lt
      omega

lemma Fits.all_pos {bufs : List (Buffer α)} (h : Fits bufs)
    (hne : (reached bufs).flatMap Buffer.moved ≠ []) : ∀ b ∈ reached bufs, 0 < b.tmp := by
  intro b hb
  have htail := h.positive
  cases hms : reached bufs with
  | nil => simp [hms] at hb
  | cons a ms =>
    rw [hms] at hb htail
    rcases List.mem_cons.1 hb with rfl | hb
    · cases ms with
      | nil =>
        -- the only call moved something
        by_contra hneg
        simp [hms, Buffer.moved_eq_nil b hneg] at hne
      | cons c ms =>
        have hfull : b.Full := by
          apply full_of_mem_dropLast
          rw [hms, List.dropLast_cons_of_ne_nil (by simp)]
          exact List.mem_cons_self
        exact hfull.1
    · exact htail b hb

lemma Fits.reported {bufs : List (Buffer α)} (h : Fits bufs) (call : SslCall) (ssl : Session) :
    Reported bufs (SslSocket.ioLoop call ssl 0 (iovec bufs)) := by
  have hret := (ioLoop_spec call ssl 0 bufs).2
  have hwhole : ∀ b ∈ (reached bufs).dropLast, b.tmp.toInt = b.places.length := fun b hb =>
    (full_of_mem_dropLast hb).toInt_eq (h.short b hb)
  refine ⟨?_, ?_, ?_, ?_⟩
  · rw [transferred_eq]
    intro hne
    have hpos := h.all_pos hne
    obtain ⟨init, last, hms⟩ := (List.eq_nil_or_concat' (reached bufs)).resolve_left (by
      intro hnil
      simp [hnil] at hne)
    have hlast : last ∈ (reached bufs).getLast? := by simp [hms]
    have hsum := answers_eq hpos
    have hlt := h.sum
    rw [hret last hlast, if_neg (Int32.not_le.2 (hpos last (by simp [hms]))), Int32.zero_add,
      Int32.toInt_ofInt_of_le (by omega) hlt, hsum]
  · rw [transferred_eq, take_calls]
    intro hnil b hb
    have hneg : b.tmp ≤ 0 := by
      by_contra hpos
      exact flatMap_moved_ne_nil (List.mem_of_mem_getLast? hb) (Int32.not_le.1 hpos) hnil
    rw [hret b hb, if_pos hneg]
  · rw [transferred_eq]
    have hpre := flatMap_moved_isPrefix fun b hb => Buffer.moved_eq_places (hwhole b hb)
    obtain ⟨rest, hrest⟩ := reached_isPrefix bufs
    refine hpre.trans ⟨rest.flatMap Buffer.places, ?_⟩
    rw [← List.flatMap_append, hrest]
  · rw [take_calls]
    exact fun b hb => ⟨(full_of_mem_dropLast hb).1, hwhole b hb⟩

/-- **The value returned is the number of bytes moved, exactly where no call after the first fails,
no buffer of 2 GiB or more stands before another that is reached, and the whole is less.** -/
theorem reported_iff (s : SslSocket) (bufs : List (Buffer α)) :
    (Reported bufs (s.sendVec (iovec bufs)) ∧ Reported bufs (s.recvVec (iovec bufs))) ↔
      (s.ssl.isSome = true → Fits bufs) := by
  unfold SslSocket.sendVec SslSocket.recvVec SslSocket.ioVec
  cases hssl : s.ssl with
  | none =>
    have hnone : Reported bufs ⟨[], -1⟩ := by
      refine ⟨by simp [transferred], by simp, ?_, by simp⟩
      exact ⟨bufs.flatMap Buffer.places, rfl⟩
    simp [hnone]
  | some ssl =>
    simp only [Option.isSome_some, forall_const]
    constructor
    · exact fun h => h.1.fits
    · exact fun h => ⟨h.reported .write ssl, h.reported .read ssl⟩

/-- One byte was sent, and the error of the next call is returned. -/
theorem sent_byte_hidden :
    let bufs : List (Buffer ℕ) := [⟨[0], 1, by decide, .inr (by decide)⟩,
      ⟨[1], -1, by decide, .inl (by decide)⟩]
    let s : SslSocket := { family := 2, ssl := some ⟨some 7⟩ }
    transferred bufs (s.sendVec (iovec bufs)) = [0] ∧ (s.sendVec (iovec bufs)).ret = -1 := by
  decide

end Sylar.SslVec
