import Sylar.SocketModel
import Mathlib.Data.Finset.Basic

/-!
Who owns the descriptors of the sockets, over any number of `Socket` objects.

The operations of `Socket` are repeated here with the calls they make to the kernel. A new
descriptor is one that is not open. A descriptor is refused when `accept` has got it and the object
made for it will not have it; the program keeps no trace of those, the model does.
-/

namespace Sylar.Descriptors

open Lib.Runs Sylar.SocketModel

/-- The open descriptors, and how often one was closed that was not open. -/
structure Kernel where
  fds : Finset ℕ := ∅
  wrong : ℕ := 0

namespace Kernel

def make (k : Kernel) (fd : ℕ) : Option Kernel :=
  if fd ∈ k.fds then none else some { k with fds := insert fd k.fds }

def close (k : Kernel) (fd : ℕ) : Kernel :=
  if fd ∈ k.fds then { k with fds := k.fds.erase fd } else { k with wrong := k.wrong + 1 }

end Kernel

/-- The answers to one operation, and what `socket` answers for the socket that `bind` tries a Unix
address with. -/
structure Answers extends Calls where
  probe : Option (ℕ × Address) := none

/-! ### The operations with their calls -/

def newSock (k : Kernel) (s : Socket) (c : Calls) : Option (Kernel × Socket) :=
  match c.socket with
  | some (fd, _) => (k.make fd).map fun k => (k, s.newSock c)
  | none => some (k, s.newSock c)

/-- `Socket::close`, and the destructor. -/
def close (k : Kernel) (s : Socket) : Kernel × Socket :=
  match s.sock with
  | some fd => (k.close fd, s.close.2)
  | none => (k, s.close.2)

/-- A descriptor for an object that may have none. -/
def ensure (k : Kernel) (s : Socket) (c : Calls) : Option (Kernel × Socket) :=
  if s.isValid then some (k, s) else newSock k s c

def connect (k : Kernel) (s : Socket) (addr : Address) (c : Calls) : Option (Kernel × Socket) :=
  (ensure k { s with remoteAddress := some addr } c).map fun (k, s) =>
    if !s.isValid then (k, s)
    else if addr.getFamily ≠ s.family then (k, s)
    else match c.connect with
      | none => close k s
      | some (name, peer) =>
        let s := { s with isConnected := true, name := some name, peer := peer }
        (k, ((s.getRemoteAddress c).2.getLocalAddress c).2)

def reconnect (k : Kernel) (s : Socket) (c : Calls) : Option (Kernel × Socket) :=
  match s.remoteAddress with
  | none => some (k, s)
  | some addr => connect k { s with localAddress := none } addr c

/-- The socket that tries the address is gone when `bind` goes on. -/
def probe (k : Kernel) (addr : Address) (c : Answers) : Option Kernel :=
  (connect k (.create Socket.UNIX) addr
    { socket := c.probe, connect := if c.listening then some (addr, none) else none }).map
      fun (k, s) => (close k s).1

def bind (k : Kernel) (s : Socket) (addr : Address) (uaddr : Bool) (c : Answers) :
    Option (Kernel × Socket) :=
  (ensure k s c.toCalls).bind fun (k, s) =>
    if !s.isValid then some (k, s)
    else if addr.getFamily ≠ s.family then some (k, s)
    else (if uaddr then probe k addr c else some k).map fun k =>
      (k, (s.bind addr uaddr c.toCalls).2)

/-- `Socket::accept`. The object is made before the call; it is dropped without a descriptor if
`init` refuses the one that is there. -/
def accept (k : Kernel) (s : Socket) (c : Calls) : Option (Kernel × Option Socket × Option ℕ) :=
  match c.accept with
  | none => some (k, none, none)
  | some (fd, _, _) => (k.make fd).map fun k =>
    match s.accept c with
    | some sock => (k, some sock, none)
    | none => (k, none, some fd)

def create (k : Kernel) (f : Factory) (c : Calls) : Option (Kernel × Socket) :=
  match c.socket with
  | some (fd, _) => if f.opens then (k.make fd).map fun k => (k, f.make c) else some (k, f.make c)
  | none => some (k, f.make c)

/-! ### Any number of objects -/

structure World where
  kernel : Kernel := {}
  sock : ℕ → Option Socket := fun _ => none
  refused : List ℕ := []

inductive Act
  | create (i : ℕ) (f : Factory)
  | bind (i : ℕ) (addr : Address) (uaddr : Bool)
  | connect (i : ℕ) (addr : Address)
  | reconnect (i : ℕ)
  | close (i : ℕ)
  /-- The object that is made is `j`. -/
  | accept (i j : ℕ)
  | getLocalAddress (i : ℕ)
  | getRemoteAddress (i : ℕ)
  | destroy (i : ℕ)

namespace World

def put (w : World) (i : ℕ) (s : Option Socket) : World :=
  { w with sock := Function.update w.sock i s }

def on (w : World) (i : ℕ) (op : Kernel → Socket → Option (Kernel × Socket)) : Option World :=
  (w.sock i).bind fun s => (op w.kernel s).map fun r => { w with kernel := r.1 }.put i (some r.2)

def step (w : World) : Act × Answers → Option World
  | (.create i f, c) =>
    if w.sock i = none then
      (Descriptors.create w.kernel f c.toCalls).map fun r =>
        { w with kernel := r.1 }.put i (some r.2)
    else none
  | (.bind i addr uaddr, c) => w.on i fun k s => Descriptors.bind k s addr uaddr c
  | (.connect i addr, c) => w.on i fun k s => Descriptors.connect k s addr c.toCalls
  | (.reconnect i, c) => w.on i fun k s => Descriptors.reconnect k s c.toCalls
  | (.close i, _) => w.on i fun k s => some (Descriptors.close k s)
  | (.accept i j, c) =>
    if w.sock j = none then
      (w.sock i).bind fun s => (Descriptors.accept w.kernel s c.toCalls).map fun (k, made, fd) =>
        { w with kernel := k, refused := w.refused ++ fd.toList }.put j made
    else none
  | (.getLocalAddress i, c) => w.on i fun k s => some (k, (s.getLocalAddress c.toCalls).2)
  | (.getRemoteAddress i, c) => w.on i fun k s => some (k, (s.getRemoteAddress c.toCalls).2)
  | (.destroy i, _) => (w.sock i).map fun s =>
    { w with kernel := (Descriptors.close w.kernel s).1 }.put i none

end World

/-! ### What an operation does to the descriptors -/

/-- From a descriptor `o` the object has come to `o'`, and nothing else has changed. -/
structure Owns (k : Kernel) (o : Option ℕ) (k' : Kernel) (o' : Option ℕ) : Prop where
  wrong : k'.wrong = k.wrong
  mem : ∀ fd, fd ∈ k'.fds ↔ fd ∈ k.fds ∧ o ≠ some fd ∨ o' = some fd
  fresh : ∀ fd, o' = some fd → o = some fd ∨ fd ∉ k.fds

section Owns

variable {k k' k'' : Kernel} {o o' o'' : Option ℕ}

lemma Owns.refl (h : ∀ fd, o = some fd → fd ∈ k.fds) : Owns k o k o where
  wrong := rfl
  mem fd := by
    constructor
    · intro hfd
      by_cases ho : o = some fd
      · exact .inr ho
      · exact .inl ⟨hfd, ho⟩
    · rintro (⟨hfd, -⟩ | ho)
      · exact hfd
      · exact h fd ho
  fresh _ ho := .inl ho

lemma Owns.trans (h : Owns k o k' o') (h' : Owns k' o' k'' o'') : Owns k o k'' o'' where
  wrong := h'.wrong.trans h.wrong
  mem fd := by
    rw [h'.mem, h.mem]
    constructor
    · rintro (⟨⟨hfd, ho⟩ | ho', hne⟩ | ho'')
      · exact .inl ⟨hfd, ho⟩
      · exact absurd ho' hne
      · exact .inr ho''
    · rintro (⟨hfd, ho⟩ | ho'')
      · refine .inl ⟨.inl ⟨hfd, ho⟩, fun ho' => ?_⟩
        obtain hold | hnew := h.fresh fd ho'
        · exact ho hold
        · exact hnew hfd
      · exact .inr ho''
  fresh fd ho'' := by
    obtain ho' | hnew := h'.fresh fd ho''
    · exact h.fresh fd ho'
    · rw [h.mem] at hnew
      by_cases ho : o = some fd
      · exact .inl ho
      · exact .inr fun hfd => hnew (.inl ⟨hfd, ho⟩)

lemma Owns.open (h : Owns k o k' o') (fd : ℕ) (ho : o' = some fd) : fd ∈ k'.fds :=
  (h.mem fd).2 (.inr ho)

lemma owns_make {fd : ℕ} (h : k.make fd = some k') : Owns k none k' (some fd) := by
  unfold Kernel.make at h
  split at h
  case isTrue => cases h
  case isFalse hfd =>
    obtain rfl := Option.some.inj h
    refine ⟨rfl, fun fd' => ?_, fun fd' h' => .inr ?_⟩
    · rw [Finset.mem_insert]
      simp only [ne_eq, reduceCtorEq, not_false_eq_true, and_true, Option.some.injEq]
      tauto
    · obtain rfl := Option.some.inj h'
      exact hfd

lemma owns_close {fd : ℕ} (h : fd ∈ k.fds) : Owns k (some fd) (k.close fd) none := by
  have hk : k.close fd = { k with fds := k.fds.erase fd } := if_pos h
  rw [hk]
  refine ⟨rfl, fun fd' => ?_, nofun⟩
  rw [Finset.mem_erase]
  simp only [ne_eq, Option.some.injEq, reduceCtorEq, or_false]
  tauto

end Owns

section Operations

variable {k k' : Kernel} {s s' : Socket}

def Has (k : Kernel) (s : Socket) : Prop := ∀ fd, s.sock = some fd → fd ∈ k.fds

lemma newSock_spec {c : Calls} (hs : s.sock = none) (h : newSock k s c = some (k', s')) :
    s' = s.newSock c ∧ Owns k s.sock k' s'.sock := by
  unfold newSock at h
  split at h
  next fd name hc =>
    obtain ⟨m, hm, hr⟩ := Option.map_eq_some_iff.1 h
    obtain ⟨rfl, rfl⟩ := Prod.mk.inj hr
    have hsock : (s.newSock c).sock = some fd := by
      unfold Socket.newSock
      rw [hc]
    rw [hs, hsock]
    exact ⟨rfl, owns_make hm⟩
  next hc =>
    obtain ⟨rfl, rfl⟩ := Prod.mk.inj (Option.some.inj h)
    have hsock : (s.newSock c).sock = none := by
      unfold Socket.newSock
      rw [hc]
    rw [hs, hsock]
    exact ⟨rfl, .refl nofun⟩

lemma close_spec (h : Has k s) :
    (close k s).2 = s.close.2 ∧ Owns k s.sock (close k s).1 none := by
  unfold close
  cases hs : s.sock with
  | some fd => exact ⟨rfl, owns_close (h fd hs)⟩
  | none => exact ⟨rfl, .refl nofun⟩

lemma close_sock (s : Socket) : s.close.2.sock = none := by
  unfold Socket.close Socket.isValid
  split
  next h =>
    simp only [Bool.and_eq_true, Bool.not_eq_true', Option.isSome_eq_false_iff,
      Option.isNone_iff_eq_none] at h
    exact h.2
  next => rfl

lemma ensure_spec {c : Calls} (hs : Has k s) (h : ensure k s c = some (k', s')) :
    s' = (if s.isValid then s else s.newSock c) ∧ Owns k s.sock k' s'.sock := by
  unfold ensure at h
  split at h
  case isTrue hv =>
    obtain ⟨rfl, rfl⟩ := Prod.mk.inj (Option.some.inj h)
    exact ⟨(if_pos hv).symm, .refl hs⟩
  case isFalse hv =>
    obtain ⟨rfl, how⟩ := newSock_spec (Option.not_isSome_iff_eq_none.1 hv) h
    exact ⟨(if_neg hv).symm, how⟩

lemma connect_spec {addr : Address} {c : Calls} (hs : Has k s)
    (h : connect k s addr c = some (k', s')) :
    s' = (s.connect addr c).2 ∧ Owns k s.sock k' s'.sock := by
  obtain ⟨⟨m, v⟩, hm, hr⟩ := Option.map_eq_some_iff.1 h
  obtain ⟨hv, how⟩ := ensure_spec (s := { s with remoteAddress := some addr }) hs hm
  unfold Socket.connect
  simp only [← hv]
  dsimp only at hr
  split at hr
  case isTrue hinv =>
    obtain ⟨rfl, rfl⟩ := Prod.mk.inj hr
    rw [if_pos hinv]
    exact ⟨rfl, how⟩
  case isFalse hinv =>
    rw [if_neg hinv]
    split at hr
    case isTrue hfam =>
      obtain ⟨rfl, rfl⟩ := Prod.mk.inj hr
      rw [if_pos hfam]
      exact ⟨rfl, how⟩
    case isFalse hfam =>
      rw [if_neg hfam]
      cases hc : c.connect with
      | none =>
        rw [hc] at hr
        have hr : close m v = (k', s') := hr
        obtain ⟨hclosed, hown⟩ := close_spec (s := v) how.open
        rw [hr] at hclosed hown
        obtain rfl : s' = v.close.2 := hclosed
        refine ⟨rfl, ?_⟩
        rw [close_sock]
        exact how.trans hown
      | some answer =>
        rw [hc] at hr
        obtain ⟨rfl, rfl⟩ := Prod.mk.inj hr
        refine ⟨rfl, ?_⟩
        simpa using how

lemma reconnect_spec {c : Calls} (hs : Has k s) (h : reconnect k s c = some (k', s')) :
    s' = (s.reconnect c).2 ∧ Owns k s.sock k' s'.sock := by
  unfold reconnect at h
  unfold Socket.reconnect
  cases hr : s.remoteAddress with
  | none =>
    rw [hr] at h
    obtain ⟨rfl, rfl⟩ := Prod.mk.inj (Option.some.inj h)
    exact ⟨rfl, .refl hs⟩
  | some addr =>
    rw [hr] at h
    exact connect_spec (s := { s with localAddress := none }) hs h

lemma Owns.none_none {k k' : Kernel} (h : Owns k none k' none) : k' = k := by
  obtain ⟨hwrong, hmem, -⟩ := h
  obtain ⟨fds, wrong⟩ := k
  obtain ⟨fds', wrong'⟩ := k'
  obtain rfl : wrong' = wrong := hwrong
  obtain rfl : fds' = fds := by
    ext fd
    simpa using hmem fd
  rfl

/-- The socket that tries an address leaves nothing behind. -/
lemma probe_spec {addr : Address} {c : Answers} (h : probe k addr c = some k') : k' = k := by
  obtain ⟨⟨m, v⟩, hm, rfl⟩ := Option.map_eq_some_iff.1 h
  have hown := (connect_spec (s := .create Socket.UNIX) nofun hm).2
  exact (hown.trans (close_spec hown.open).2).none_none

lemma bind_sock_of_valid {addr : Address} {uaddr : Bool} {c : Calls} (h : s.isValid = true) :
    (s.bind addr uaddr c).2.sock = s.sock := by
  unfold Socket.bind
  simp only [h, if_true, Bool.not_true, Bool.false_eq_true, if_false]
  split
  · rfl
  · split
    · rfl
    · split
      · rfl
      · simp

/-- `bind` goes on with the object that has got a descriptor. -/
lemma bind_ensured (s : Socket) (addr : Address) (uaddr : Bool) (c : Calls) {v : Socket}
    (hv : v = if s.isValid then s else s.newSock c) :
    (s.bind addr uaddr c).2 = if v.isValid then (v.bind addr uaddr c).2 else v := by
  unfold Socket.bind
  simp only [← hv]
  by_cases hvalid : v.isValid = true
  · simp only [hvalid, if_true]
  · simp only [hvalid, Bool.not_false, if_true, if_false, Bool.false_eq_true]

lemma bind_spec {addr : Address} {uaddr : Bool} {c : Answers} (hs : Has k s)
    (h : bind k s addr uaddr c = some (k', s')) :
    s' = (s.bind addr uaddr c.toCalls).2 ∧ Owns k s.sock k' s'.sock := by
  obtain ⟨⟨m, v⟩, hm, hr⟩ := Option.bind_eq_some_iff.1 h
  obtain ⟨hv, how⟩ := ensure_spec hs hm
  rw [bind_ensured s addr uaddr c.toCalls hv]
  dsimp only at hr
  split at hr
  case isTrue hinv =>
    obtain ⟨rfl, rfl⟩ := Prod.mk.inj (Option.some.inj hr)
    exact ⟨(if_neg (by simpa using hinv)).symm, how⟩
  case isFalse hinv =>
    have hvalid : v.isValid = true := by simpa using hinv
    rw [if_pos hvalid]
    split at hr
    case isTrue hfam =>
      obtain ⟨rfl, rfl⟩ := Prod.mk.inj (Option.some.inj hr)
      refine ⟨?_, how⟩
      unfold Socket.bind
      simp only [hvalid, if_true, Bool.not_true, Bool.false_eq_true, if_false, if_pos hfam]
    case isFalse =>
      obtain ⟨m', hm', hr⟩ := Option.map_eq_some_iff.1 hr
      obtain ⟨rfl, rfl⟩ := Prod.mk.inj hr
      have hsame : m' = m := by
        split at hm'
        · exact probe_spec hm'
        · exact (Option.some.inj hm').symm
      rw [hsame, bind_sock_of_valid hvalid]
      exact ⟨rfl, how⟩

/-- What `accept` has got is with the object that is made, or with nobody. -/
inductive Accepted (k : Kernel) (c : Calls) : Kernel → Option Socket → Option ℕ → Prop
  | failed : Accepted k c k none none
  | made (k' : Kernel) (s : Socket) (fd : ℕ) (hk : k.make fd = some k') (hs : s.sock = some fd) :
      Accepted k c k' (some s) none
  | refused (k' : Kernel) (fd : ℕ) (hk : k.make fd = some k') (hc : c.context = false) :
      Accepted k c k' none (some fd)

lemma accept_spec {c : Calls} {made : Option Socket} {fd : Option ℕ}
    (h : accept k s c = some (k', made, fd)) : Accepted k c k' made fd := by
  unfold accept at h
  split at h
  next hc =>
    obtain ⟨rfl, hr⟩ := Prod.mk.inj (Option.some.inj h)
    obtain ⟨rfl, rfl⟩ := Prod.mk.inj hr
    exact .failed
  next fd' name peer hc =>
    obtain ⟨m, hm, hr⟩ := Option.map_eq_some_iff.1 h
    unfold Socket.accept Socket.init at hr
    simp only [hc] at hr
    by_cases hcontext : c.context = true
    · simp only [hcontext, if_true] at hr
      obtain ⟨hk, hrest⟩ := Prod.mk.inj hr
      obtain ⟨rfl, rfl⟩ := Prod.mk.inj hrest
      refine .made k' _ fd' (hk ▸ hm) ?_
      rw [SocketModel.getRemoteAddress_sock, SocketModel.getLocalAddress_sock]
    · simp only [hcontext, Bool.false_eq_true, if_false] at hr
      obtain ⟨hk, hrest⟩ := Prod.mk.inj hr
      obtain ⟨rfl, rfl⟩ := Prod.mk.inj hrest
      exact .refused k' fd' (hk ▸ hm) (eq_false_of_ne_true hcontext)

lemma make_sock (f : Factory) (c : Calls) :
    (f.make c).sock = if f.opens then c.socket.map Prod.fst else none := by
  have hopen (family : ℤ) : (Socket.createOpen family c).sock = c.socket.map Prod.fst := by
    unfold Socket.createOpen Socket.newSock
    cases c.socket <;> rfl
  cases f with
  | udp | udpSocket | udpSocket6 => exact hopen _
  | tcp | tcpSocket | tcpSocket6 | unixTcpSocket | unixUdpSocket => rfl

lemma create_spec {f : Factory} {c : Calls} (h : create k f c = some (k', s')) :
    s' = f.make c ∧ Owns k none k' s'.sock := by
  unfold create at h
  split at h
  next fd name hc =>
    split at h
    case isTrue hopens =>
      obtain ⟨m, hm, hr⟩ := Option.map_eq_some_iff.1 h
      obtain ⟨rfl, rfl⟩ := Prod.mk.inj hr
      rw [make_sock, if_pos hopens, hc]
      exact ⟨rfl, owns_make hm⟩
    case isFalse hopens =>
      obtain ⟨rfl, rfl⟩ := Prod.mk.inj (Option.some.inj h)
      rw [make_sock, if_neg hopens]
      exact ⟨rfl, .refl nofun⟩
  next hc =>
    obtain ⟨rfl, rfl⟩ := Prod.mk.inj (Option.some.inj h)
    rw [make_sock, hc, Option.map_none, ite_self]
    exact ⟨rfl, .refl nofun⟩

end Operations

/-! ### The invariant -/

/-- The descriptor of the object `i`, if it exists and has one. -/
def World.fd (w : World) (i : ℕ) : Option ℕ := (w.sock i).bind Socket.sock

/-- Every open descriptor has one owner, or was refused. -/
structure Inv (w : World) : Prop where
  wrong : w.kernel.wrong = 0
  mem : ∀ fd, fd ∈ w.kernel.fds ↔ (∃ i, w.fd i = some fd) ∨ fd ∈ w.refused
  one : ∀ i j fd, w.fd i = some fd → w.fd j = some fd → i = j
  apart : ∀ i fd, w.fd i = some fd → fd ∉ w.refused

section Invariant

variable {w : World}

lemma put_fd (w : World) (i : ℕ) (s : Option Socket) :
    (w.put i s).fd = Function.update w.fd i (s.bind Socket.sock) := by
  ext j : 1
  show (Function.update w.sock i s j).bind Socket.sock = _
  by_cases hj : j = i
  · subst hj
    rw [Function.update_self, Function.update_self]
  · rw [Function.update_of_ne hj, Function.update_of_ne hj, World.fd]

lemma fd_of_sock {i : ℕ} {s : Socket} (h : w.sock i = some s) : w.fd i = s.sock := by
  rw [World.fd, h, Option.bind_some]

lemma Inv.has (h : Inv w) {i : ℕ} {s : Socket} (hs : w.sock i = some s) : Has w.kernel s := by
  intro fd hfd
  exact (h.mem fd).2 (.inl ⟨i, (fd_of_sock hs).trans hfd⟩)

lemma Inv.move (h : Inv w) {i : ℕ} {k : Kernel} {s : Option Socket}
    (hown : Owns w.kernel (w.fd i) k (s.bind Socket.sock)) :
    Inv ({ w with kernel := k }.put i s) := by
  have hfd : ({ w with kernel := k }.put i s).fd = Function.update w.fd i (s.bind Socket.sock) :=
    put_fd { w with kernel := k } i s
  -- another object has none of the new descriptors
  have hother : ∀ j fd, j ≠ i → w.fd j = some fd → s.bind Socket.sock ≠ some fd := by
    intro j fd hj hfd hs
    obtain hold | hnew := hown.fresh fd hs
    · exact hj (h.one j i fd hfd hold)
    · exact hnew ((h.mem fd).2 (.inl ⟨j, hfd⟩))
  refine ⟨hown.wrong.trans h.wrong, fun fd => ?_, fun a b fd ha hb => ?_, fun a fd ha => ?_⟩
  · show fd ∈ k.fds ↔ (∃ j, ({ w with kernel := k }.put i s).fd j = some fd) ∨ fd ∈ w.refused
    rw [hown.mem, h.mem, hfd]
    constructor
    · rintro (⟨⟨j, hj⟩ | href, hne⟩ | hs)
      · by_cases hji : j = i
        · subst hji
          exact absurd hj hne
        · exact .inl ⟨j, by rw [Function.update_of_ne hji, hj]⟩
      · exact .inr href
      · exact .inl ⟨i, by rw [Function.update_self, hs]⟩
    · rintro (⟨j, hj⟩ | href)
      · by_cases hji : j = i
        · subst hji
          rw [Function.update_self] at hj
          exact .inr hj
        · rw [Function.update_of_ne hji] at hj
          exact .inl ⟨.inl ⟨j, hj⟩, fun hi => hji (h.one j i fd hj hi)⟩
      · exact .inl ⟨.inr href, fun hi => h.apart i fd hi href⟩
  · rw [hfd] at ha hb
    by_cases hai : a = i <;> by_cases hbi : b = i
    · rw [hai, hbi]
    · subst hai
      rw [Function.update_self] at ha
      rw [Function.update_of_ne hbi] at hb
      exact absurd ha (hother b fd hbi hb)
    · subst hbi
      rw [Function.update_self] at hb
      rw [Function.update_of_ne hai] at ha
      exact absurd hb (hother a fd hai ha)
    · rw [Function.update_of_ne hai] at ha
      rw [Function.update_of_ne hbi] at hb
      exact h.one a b fd ha hb
  · rw [hfd] at ha
    by_cases hai : a = i
    · subst hai
      rw [Function.update_self] at ha
      obtain hold | hnew := hown.fresh fd ha
      · exact h.apart a fd hold
      · exact fun href => hnew ((h.mem fd).2 (.inr href))
    · rw [Function.update_of_ne hai] at ha
      exact h.apart a fd ha

lemma Inv.refuse (h : Inv w) {fd j : ℕ} {k : Kernel} (hk : w.kernel.make fd = some k)
    (hj : w.sock j = none) :
    Inv ({ w with kernel := k, refused := w.refused ++ [fd] }.put j none) := by
  have hown := owns_make hk
  have hfd : ({ w with kernel := k, refused := w.refused ++ [fd] }.put j none).fd = w.fd := by
    rw [put_fd]
    refine Function.update_eq_self_iff.2 ?_
    show none = (w.sock j).bind Socket.sock
    rw [hj, Option.bind_none]
  have hnew : fd ∉ w.kernel.fds := (hown.fresh fd rfl).resolve_left nofun
  refine ⟨hown.wrong.trans h.wrong, fun fd' => ?_, fun a b fd' ha hb => ?_, fun a fd' ha => ?_⟩
  · show fd' ∈ k.fds ↔ _ ∨ fd' ∈ w.refused ++ [fd]
    rw [hown.mem, hfd, h.mem, List.mem_append, List.mem_singleton, Option.some.injEq]
    constructor
    · rintro (⟨hown | href, -⟩ | rfl)
      · exact .inl hown
      · exact .inr (.inl href)
      · exact .inr (.inr rfl)
    · rintro (hown | href | rfl)
      · exact .inl ⟨.inl hown, nofun⟩
      · exact .inl ⟨.inr href, nofun⟩
      · exact .inr rfl
  · rw [hfd] at ha hb
    exact h.one a b fd' ha hb
  · rw [hfd] at ha
    show fd' ∉ w.refused ++ [fd]
    rw [List.mem_append, List.mem_singleton]
    rintro (href | rfl)
    · exact h.apart a fd' ha href
    · exact hnew ((h.mem fd').2 (.inl ⟨a, ha⟩))

lemma Inv.on (h : Inv w) {i : ℕ} {op : Kernel → Socket → Option (Kernel × Socket)} {w' : World}
    (hop : ∀ s k' s', Has w.kernel s → op w.kernel s = some (k', s') →
      Owns w.kernel s.sock k' s'.sock) (hw : w.on i op = some w') : Inv w' := by
  obtain ⟨s, hs, hr⟩ := Option.bind_eq_some_iff.1 hw
  obtain ⟨⟨k', s'⟩, hop', rfl⟩ := Option.map_eq_some_iff.1 hr
  have hown := hop s k' s' (h.has hs) hop'
  rw [← fd_of_sock hs] at hown
  exact h.move hown

lemma step_inv (w : World) (a : Act × Answers) (w' : World) (h : Inv w)
    (hw : w.step a = some w') : Inv w' := by
  obtain ⟨a, c⟩ := a
  cases a with
  | create i f =>
    rw [World.step] at hw
    split at hw
    case isFalse => cases hw
    case isTrue hi =>
      obtain ⟨⟨k', s'⟩, hr, rfl⟩ := Option.map_eq_some_iff.1 hw
      have hnone : w.fd i = none := by rw [World.fd, hi, Option.bind_none]
      have hown := (create_spec hr).2
      rw [← hnone] at hown
      exact h.move hown
  | bind i addr uaddr =>
    have hw : w.on i (fun k s => Descriptors.bind k s addr uaddr c) = some w' := hw
    exact h.on (fun s k' s' hs hr => (bind_spec hs hr).2) hw
  | connect i addr =>
    have hw : w.on i (fun k s => Descriptors.connect k s addr c.toCalls) = some w' := hw
    exact h.on (fun s k' s' hs hr => (connect_spec hs hr).2) hw
  | reconnect i =>
    have hw : w.on i (fun k s => Descriptors.reconnect k s c.toCalls) = some w' := hw
    exact h.on (fun s k' s' hs hr => (reconnect_spec hs hr).2) hw
  | close i =>
    have hw : w.on i (fun k s => some (Descriptors.close k s)) = some w' := hw
    refine h.on (fun s k' s' hs hr => ?_) hw
    obtain ⟨hclosed, hown⟩ := close_spec hs
    have hr := Option.some.inj hr
    rw [hr] at hclosed hown
    obtain rfl : s' = s.close.2 := hclosed
    rw [close_sock]
    exact hown
  | getLocalAddress i =>
    have hw : w.on i (fun k s => some (k, (s.getLocalAddress c.toCalls).2)) = some w' := hw
    refine h.on (fun s k' s' hs hr => ?_) hw
    obtain ⟨rfl, rfl⟩ := Prod.mk.inj (Option.some.inj hr)
    rw [SocketModel.getLocalAddress_sock]
    exact .refl hs
  | getRemoteAddress i =>
    have hw : w.on i (fun k s => some (k, (s.getRemoteAddress c.toCalls).2)) = some w' := hw
    refine h.on (fun s k' s' hs hr => ?_) hw
    obtain ⟨rfl, rfl⟩ := Prod.mk.inj (Option.some.inj hr)
    rw [SocketModel.getRemoteAddress_sock]
    exact .refl hs
  | destroy i =>
    obtain ⟨s, hs, rfl⟩ := Option.map_eq_some_iff.1 hw
    have hown := (close_spec (h.has hs)).2
    rw [← fd_of_sock hs] at hown
    exact h.move hown
  | accept i j =>
    rw [World.step] at hw
    split at hw
    case isFalse => cases hw
    case isTrue hj =>
      obtain ⟨s, hs, hr⟩ := Option.bind_eq_some_iff.1 hw
      obtain ⟨⟨k, made, fd⟩, hacc, rfl⟩ := Option.map_eq_some_iff.1 hr
      have hnone : w.fd j = none := by rw [World.fd, hj, Option.bind_none]
      cases accept_spec hacc with
      | failed =>
        have hown : Owns w.kernel (w.fd j) w.kernel none := by
          rw [hnone]
          exact .refl nofun
        have hmove := h.move (s := none) hown
        simpa using hmove
      | made _ s' fd' hk hs' =>
        have hown : Owns w.kernel (w.fd j) k ((some s').bind Socket.sock) := by
          rw [hnone, Option.bind_some, hs']
          exact owns_make hk
        have hmove := h.move hown
        simpa using hmove
      | refused _ fd' hk _ => exact h.refuse hk hj

/-- An `accept` that finds a context under its descriptor refuses none. -/
lemma refused_step {a : Act × Answers} {w' : World} (hc : a.2.context = true)
    (hw : w.step a = some w') : w'.refused = w.refused := by
  have hon : ∀ {i : ℕ} {op : Kernel → Socket → Option (Kernel × Socket)},
      w.on i op = some w' → w'.refused = w.refused := by
    intro i op hw
    obtain ⟨s, hs, hr⟩ := Option.bind_eq_some_iff.1 hw
    obtain ⟨r, -, rfl⟩ := Option.map_eq_some_iff.1 hr
    rfl
  obtain ⟨a, c⟩ := a
  cases a with
  | create i f =>
    rw [World.step] at hw
    split at hw
    · obtain ⟨r, -, rfl⟩ := Option.map_eq_some_iff.1 hw
      rfl
    · cases hw
  | destroy i =>
    obtain ⟨s, -, rfl⟩ := Option.map_eq_some_iff.1 hw
    rfl
  | accept i j =>
    rw [World.step] at hw
    split at hw
    case isFalse => cases hw
    case isTrue =>
      obtain ⟨s, hs, hr⟩ := Option.bind_eq_some_iff.1 hw
      obtain ⟨⟨k, made, fd⟩, hacc, rfl⟩ := Option.map_eq_some_iff.1 hr
      cases accept_spec hacc with
      | failed => exact List.append_nil _
      | made _ s' fd' hk hs' => exact List.append_nil _
      | refused _ fd' hk hrefuse => exact absurd hc (by rw [hrefuse]; exact nofun)
  | bind | connect | reconnect | close | getLocalAddress | getRemoteAddress =>
    rw [World.step] at hw
    exact hon hw

end Invariant

lemma init_inv : Inv {} where
  wrong := rfl
  mem fd := by
    refine iff_of_false (Finset.notMem_empty fd) ?_
    rintro (⟨i, hi⟩ | href)
    · cases hi
    · cases href
  one i j fd hi _ := by cases hi
  apart i fd hi := by cases hi

/-- **Descriptors are closed once, by their owners.** After any operations on any number of `Socket`
objects no descriptor has been closed that was not open; each open one belongs to one object, or is
one that `accept` got and no object would have, which nobody ever closes. When the objects are gone
only those are left, and there are none if every accepted descriptor has a context. -/
theorem descriptors_owned {acts : List (Act × Answers)} {w : World}
    (hr : run World.step {} acts = some w) :
    w.kernel.wrong = 0 ∧
    (∀ fd, fd ∈ w.kernel.fds ↔ (∃ i, w.fd i = some fd) ∨ fd ∈ w.refused) ∧
    (∀ i j fd, w.fd i = some fd → w.fd j = some fd → i = j ∧ fd ∉ w.refused) ∧
    ((∀ i, w.sock i = none) → ∀ fd, fd ∈ w.kernel.fds ↔ fd ∈ w.refused) ∧
    ((∀ a ∈ acts, a.2.context = true) → w.refused = []) := by
  have h : Inv w := run_inv step_inv init_inv hr
  refine ⟨h.wrong, h.mem, fun i j fd hi hj => ⟨h.one i j fd hi hj, h.apart i fd hi⟩,
    fun hnone fd => ?_, fun hc => ?_⟩
  · rw [h.mem]
    refine or_iff_right ?_
    rintro ⟨i, hi⟩
    rw [World.fd, hnone i] at hi
    cases hi
  · have hstep : ∀ (w : World) (a : Act × Answers) w', w.refused = [] → a.2.context = true →
        w.step a = some w' → w'.refused = [] := fun w a w' hw ha hs => (refused_step ha hs).trans hw
    exact run_inv_of_meets hstep rfl (meets_of_mem hc {}) hr

/-- An accepted descriptor without a context stays when the listening socket is gone. -/
theorem descriptors_owned_refused :
    ∃ w : World, run World.step {}
        [(.create 0 .tcpSocket, {}), (.bind 0 ⟨2, []⟩ false,
          { socket := some (5, ⟨2, []⟩), bind := some ⟨2, []⟩ }),
          (.accept 0 1, { accept := some (6, ⟨2, []⟩, none), context := false }),
          (.destroy 0, {})] =
        some w ∧
      w.refused = [6] ∧ w.kernel.wrong = 0 := by
  have hrun : (run World.step {}
      [(.create 0 .tcpSocket, {}), (.bind 0 ⟨2, []⟩ false,
        { socket := some (5, ⟨2, []⟩), bind := some ⟨2, []⟩ }),
        (.accept 0 1, { accept := some (6, ⟨2, []⟩, none), context := false }),
        (.destroy 0, {})]).map World.refused = some [6] := by decide
  obtain ⟨w, hw, hrefused⟩ := Option.map_eq_some_iff.1 hrun
  exact ⟨w, hw, hrefused, (descriptors_owned hw).1⟩

end Sylar.Descriptors
