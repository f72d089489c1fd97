import Mathlib.Algebra.Ring.Nat
import Sylar.Lib.Memory

/-!
`UnixAddress`: the path that is stored, and how it is shown.
-/

namespace Sylar.UnixPath

open Lib.Memory

abbrev Byte := Fin 256

structure SockaddrUn where
  sun_family : Vector Byte 2
  sun_path : Vector Byte 108

structure UnixAddress where
  addr_ : SockaddrUn
  length_ : UInt32

def AF_UNIX (little : Bool) : Vector Byte 2 := if little then #v[1, 0] else #v[0, 1]

def offset : UInt32 := 2

/-- The first `n` bytes of a C string, copied over zeros. -/
def copied (path : List Byte) (n : ℕ) : List Byte :=
  ((path ++ [0]).take n ++ List.replicate 108 0).take 108

def store (path : List Byte) (n : ℕ) : Vector Byte 108 :=
  ⟨(copied path n).toArray, by simp [copied]⟩

/-- The length that the constructor computes, in 32 bits. -/
def pathLength (path : List Byte) : UInt32 :=
  let length_ := UInt32.ofNat (path.length + 1)
  if path.head? = some 0 then length_ - 1 else length_

/-- `UnixAddress(path)`, without a value where it throws. -/
def make (little : Bool) (path : List Byte) : Option UnixAddress :=
  let length_ := pathLength path
  if length_ > 108 then none
  else some ⟨⟨AF_UNIX little, store path length_.toNat⟩, length_ + offset⟩

def zero : List Byte := [0x5c, 0x30]

/-- What `getPath` and `insert` put into a stream; there is no value where they read behind
`sun_path`. -/
def text (a : UnixAddress) : Option (List Byte) :=
  let sun_path := a.addr_.sun_path.toList
  if a.length_ > offset ∧ sun_path.head? = some 0 then
    let n := (a.length_ - offset - 1).toNat
    if n ≤ 107 then some (zero ++ (sun_path.drop 1).take n) else none
  else if 0 ∈ sun_path then some (cstr 0 sun_path) else none

def getPath (a : UnixAddress) : Option (List Byte) := text a

def toString (a : UnixAddress) : Option (List Byte) := text a

/-! ### What is to be stored and shown -/

variable {path rest : List Byte} {little : Bool}

/-- The bytes that a path needs: an abstract name has no terminator. -/
def need (path : List Byte) : ℕ := if path.head? = some 0 then path.length else path.length + 1

def shown : List Byte → List Byte
  | [] => []
  | c :: rest => if c = 0 then zero ++ rest else c :: rest

/-- A path is refused if it does not fit, and otherwise shown as it is to be. -/
structure RoundTrip (little : Bool) (path : List Byte) : Prop where
  throws : make little path = none ↔ 108 < need path
  getPath : ∀ a, make little path = some a → getPath a = some (shown path)
  toString : ∀ a, make little path = some a → toString a = some (shown path)

lemma toNat_pathLength (path : List Byte) : (pathLength path).toNat = need path % 2 ^ 32 := by
  unfold pathLength need
  split
  · rw [UInt32.ofNat_add]
    simp
  · simp

lemma make_eq_none_iff : make little path = none ↔ 108 < need path % 2 ^ 32 := by
  rw [← toNat_pathLength, make]
  simp [UInt32.lt_iff_toNat_lt]

lemma make_of_le (h : need path ≤ 108) :
    ∃ a, make little path = some a ∧ a.length_.toNat = need path + 2 ∧
      a.addr_.sun_path.toList = copied path (need path) := by
  have hlen : (pathLength path).toNat = need path := by
    rw [toNat_pathLength, Nat.mod_eq_of_lt (by omega)]
  have hle : ¬pathLength path > 108 := by
    rw [gt_iff_lt, UInt32.lt_iff_toNat_lt, hlen]
    exact Nat.not_lt.2 h
  refine ⟨_, if_neg hle, ?_, ?_⟩
  · rw [UInt32.toNat_add, hlen, offset]
    exact Nat.mod_eq_of_lt (by simp; omega)
  · rw [hlen]
    simp [store]

lemma copied_eq {u v : List Byte} (h : path ++ [0] = u ++ v) (hle : u.length ≤ 108) :
    copied path u.length = u ++ List.replicate (108 - u.length) 0 := by
  rw [copied, h, List.take_left, List.take_append, List.take_of_length_le hle,
    List.take_replicate, Nat.min_eq_left (Nat.sub_le _ _)]

lemma text_abstract {a : UnixAddress} (hlen : a.length_.toNat = rest.length + 3)
    (hfit : rest.length ≤ 107) (hpath : a.addr_.sun_path.toList =
      0 :: rest ++ List.replicate (107 - rest.length) 0) : text a = some (zero ++ rest) := by
  have hoffset : a.length_ > offset := by
    rw [gt_iff_lt, UInt32.lt_iff_toNat_lt, hlen]
    exact Nat.lt_of_lt_of_le (by decide) (Nat.le_add_left 3 rest.length)
  have hn : (a.length_ - offset - 1).toNat = rest.length := by
    have hsub := UInt32.toNat_sub_of_le (a.length_ - offset) 1
    have hle : offset ≤ a.length_ := UInt32.le_iff_toNat_le.2 (Nat.le_of_lt hoffset)
    have hsub' := UInt32.toNat_sub_of_le a.length_ offset hle
    simp only [UInt32.le_iff_toNat_le, hsub', hlen] at hsub
    exact hsub (Nat.le_add_left 1 rest.length)
  rw [text, if_pos ⟨hoffset, by rw [hpath]; rfl⟩, hn, if_pos hfit, hpath]
  simp

lemma text_plain {a : UnixAddress} {v : List Byte}
    (hpath : a.addr_.sun_path.toList = path ++ 0 :: v) (hne : path ≠ []) (hnul : 0 ∉ path) :
    text a = some path := by
  have hhead : a.addr_.sun_path.toList.head? ≠ some 0 := by
    rw [hpath, List.head?_append_of_ne_nil _ hne]
    exact fun h => hnul (List.mem_of_head? h)
  have hmem : 0 ∈ a.addr_.sun_path.toList := by
    rw [hpath]
    simp
  rw [text, if_neg fun h => hhead h.2, if_pos hmem, hpath, cstr_append hnul]

lemma text_empty {a : UnixAddress} (h : make little [] = some a) : text a = some zero := by
  obtain ⟨b, hb, hlen, hpath⟩ := @make_of_le [] little (by decide)
  rw [h] at hb
  cases hb
  exact @text_abstract [] a hlen (by decide) hpath

lemma text_shown {a : UnixAddress} (hne : path ≠ []) (hnul : 0 ∉ path.tail)
    (hfit : need path ≤ 108) (h : make little path = some a) : text a = some (shown path) := by
  obtain ⟨b, hb, hlen, hpath⟩ := @make_of_le path little hfit
  rw [h] at hb
  cases hb
  cases path with
  | nil => exact absurd rfl hne
  | cons c rest =>
    by_cases hc : c = 0
    · subst hc
      have hneed : need (0 :: rest) = (0 :: rest).length := if_pos rfl
      rw [hneed] at hlen hpath hfit
      rw [copied_eq (v := [0]) rfl hfit] at hpath
      rw [shown, if_pos rfl]
      exact text_abstract hlen (Nat.le_of_succ_le_succ hfit)
        (by simpa [Nat.succ_sub_succ] using hpath)
    · have hneed : need (c :: rest) = (c :: rest ++ [0]).length := by
        rw [need, if_neg (by simpa using hc)]
        simp
      rw [hneed] at hpath hfit
      rw [copied_eq (List.append_nil _).symm hfit, List.append_assoc] at hpath
      rw [shown, if_neg hc]
      exact text_plain hpath (List.cons_ne_nil c rest)
        (List.not_mem_cons_of_ne_of_not_mem (Ne.symm hc) hnul)

lemma not_roundTrip_nil : ¬RoundTrip little [] := by
  intro h
  obtain ⟨a, ha, -, -⟩ := @make_of_le [] little (by decide)
  have hshown := h.getPath a ha
  rw [getPath, text_empty ha] at hshown
  cases hshown

/-- **A path makes the round trip if and only if it is not empty, and its length in 32 bits is too
big whenever the length itself is.** -/
theorem roundTrip_iff (hnul : 0 ∉ path.tail) (little : Bool) :
    RoundTrip little path ↔
      path ≠ [] ∧ (108 < need path → 108 < need path % 2 ^ 32) := by
  constructor
  · intro h
    refine ⟨?_, fun hlong => make_eq_none_iff.1 (h.throws.2 hlong)⟩
    rintro rfl
    exact not_roundTrip_nil h
  · rintro ⟨hne, hlong⟩
    have hthrows : make little path = none ↔ 108 < need path := by
      rw [make_eq_none_iff]
      exact ⟨fun h => Nat.lt_of_lt_of_le h (Nat.mod_le _ _), hlong⟩
    have htext : ∀ a, make little path = some a → text a = some (shown path) := by
      intro a ha
      have hfit : ¬108 < need path := fun h => by
        rw [hthrows.2 h] at ha
        cases ha
      exact text_shown hne hnul (Nat.le_of_not_lt hfit) ha
    exact ⟨hthrows, htext, htext⟩

theorem roundTrip_tmp : RoundTrip true [0x2f, 0x74, 0x6d, 0x70] :=
  (roundTrip_iff (by decide) true).2 (by decide)

/-- The empty path is shown as `\0`. -/
theorem empty_path_shown :
    (0 ∉ ([] : List Byte).tail ∧ ∀ a, make true [] = some a → getPath a = some [0x5c, 0x30]) ∧
    ¬RoundTrip true [] :=
  ⟨⟨by decide, fun _ ha => text_empty ha⟩, not_roundTrip_nil⟩

end Sylar.UnixPath
