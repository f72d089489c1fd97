import Sylar.Lib.Runs
import Mathlib.Data.Int.Notation
import Mathlib.Data.List.TakeDrop

/-!
The object `Socket`: a descriptor, the flag `isConnected_` and two addresses that are read once and
kept.

What the kernel knows of the descriptor stands beside the fields of the object. It changes with the
calls that are made on the descriptor; each call may fail, and its answer is a parameter of the
operation. `type_` and `protocol_` only go to `socket`, and `initSock` ignores the answers it
gets; neither has a part here.
-/

namespace Sylar.SocketModel

open Lib.Runs

/-- An address: `sa_family`, and the rest of the `sockaddr`. -/
structure Address where
  family : UInt16
  data : List UInt8
  deriving DecidableEq

def Address.getFamily (a : Address) : ℤ := a.family.toNat

def Socket.IPv4 : ℤ := 2
def Socket.IPv6 : ℤ := 10
def Socket.UNIX : ℤ := 1

/-- `getAddrLen` of the new address that a name is read into. -/
def getAddrLen (family : ℤ) : ℕ :=
  if family = Socket.IPv4 then 16
  else if family = Socket.IPv6 then 28
  else if family = Socket.UNIX then 109
  else 16

/-- What `getsockname` or `getpeername` leaves of a name in a new address. A `UnixAddress` takes the
length of the name over, so a last byte that was not copied reads as zero; of the others only the
bytes that are copied count. -/
def received (family : ℤ) (name : Address) : Address :=
  let copied := name.data.take (getAddrLen family - 2)
  if family = Socket.UNIX then
    { name with data := copied ++ List.replicate (name.data.length - copied.length) 0 }
  else { name with data := copied }

/-- The fields of a `Socket`, where `sock_` is `none` for -1, and what `getsockname` and
`getpeername` report for the descriptor. -/
structure Socket where
  sock : Option ℕ := none
  family : ℤ
  isConnected : Bool := false
  localAddress : Option Address := none
  remoteAddress : Option Address := none
  name : Option Address := none
  peer : Option Address := none
  deriving DecidableEq

/-- The answers to the system calls of one operation. `socket` gives a descriptor and its name,
`bind` the name from then on, `connect` the name and the peer, `accept` a descriptor with both.
`context` is whether `FdMgr` has an open socket under the accepted descriptor, and `listening`
whether the socket that `bind` makes for a Unix address can connect to it. -/
structure Calls where
  socket : Option (ℕ × Address) := none
  bind : Option Address := none
  connect : Option (Address × Option Address) := none
  accept : Option (ℕ × Address × Option Address) := none
  context : Bool := true
  listening : Bool := false
  getsockname : Bool := true
  getpeername : Bool := true

namespace Socket

def isValid (s : Socket) : Bool := s.sock.isSome

def newSock (s : Socket) (c : Calls) : Socket :=
  match c.socket with
  | some (fd, name) => { s with sock := some fd, name := some name, peer := none }
  | none => { s with sock := none, name := none, peer := none }

/-- `Socket::getLocalAddress`. It returns `none` for an `UnknownAddress`, which is not kept. -/
def getLocalAddress (s : Socket) (c : Calls) : Option Address × Socket :=
  match s.localAddress with
  | some a => (some a, s)
  | none =>
    if c.getsockname then
      let result := s.name.map (received s.family)
      (result, { s with localAddress := result })
    else (none, s)

def getRemoteAddress (s : Socket) (c : Calls) : Option Address × Socket :=
  match s.remoteAddress with
  | some a => (some a, s)
  | none =>
    if c.getpeername then
      let result := s.peer.map (received s.family)
      (result, { s with remoteAddress := result })
    else (none, s)

/-- `Socket::close`. The descriptor is given up whatever `::close` answers. -/
def close (s : Socket) : Bool × Socket :=
  if !s.isConnected && !s.isValid then (true, s)
  else (false, { s with isConnected := false, sock := none, name := none, peer := none })

/-- `Socket::init`, for a descriptor that `::accept` gave. -/
def init (s : Socket) (fd : ℕ) (name : Address) (peer : Option Address) (c : Calls) :
    Bool × Socket :=
  if c.context then
    let s := { s with sock := some fd, isConnected := true, name := some name, peer := peer }
    (true, ((s.getLocalAddress c).2.getRemoteAddress c).2)
  else (false, s)

def accept (s : Socket) (c : Calls) : Option Socket :=
  match c.accept with
  | none => none
  | some (fd, name, peer) =>
    let (v, sock) := init { family := s.family } fd name peer c
    if v then some sock else none

/-- `Socket::bind`. `uaddr` is whether the address is a `UnixAddress`. -/
def bind (s : Socket) (addr : Address) (uaddr : Bool) (c : Calls) : Bool × Socket :=
  let s := if s.isValid then s else s.newSock c
  if !s.isValid then (false, s)
  else if addr.getFamily ≠ s.family then (false, s)
  else if uaddr && c.listening then (false, s)
  else match c.bind with
    | none => (false, s)
    | some name => (true, (getLocalAddress { s with name := some name } c).2)

/-- `Socket::connect`. With a timeout the call is `connect_with_timeout`, and the rest the same. -/
def connect (s : Socket) (addr : Address) (c : Calls) : Bool × Socket :=
  let s := { s with remoteAddress := some addr }
  let s := if s.isValid then s else s.newSock c
  if !s.isValid then (false, s)
  else if addr.getFamily ≠ s.family then (false, s)
  else match c.connect with
    | none => (false, s.close.2)
    | some (name, peer) =>
      let s := { s with isConnected := true, name := some name, peer := peer }
      (true, ((s.getRemoteAddress c).2.getLocalAddress c).2)

def reconnect (s : Socket) (c : Calls) : Bool × Socket :=
  match s.remoteAddress with
  | none => (false, s)
  | some addr => connect { s with localAddress := none } addr c

/-! ### The factory functions -/

def create (family : ℤ) : Socket := { family := family }

/-- The datagram sockets of the Internet families get their descriptor at once. -/
def createOpen (family : ℤ) (c : Calls) : Socket :=
  { newSock { family := family } c with isConnected := true }

def createTCP (address : Address) : Socket := create address.getFamily
def createUDP (address : Address) (c : Calls) : Socket := createOpen address.getFamily c
def createTCPSocket : Socket := create IPv4
def createUDPSocket (c : Calls) : Socket := createOpen IPv4 c
def createTCPSocket6 : Socket := create IPv6
def createUDPSocket6 (c : Calls) : Socket := createOpen IPv6 c
def createUnixTCPSocket : Socket := create UNIX
def createUnixUDPSocket : Socket := create UNIX

end Socket

inductive Factory
  | tcp (address : Address)
  | udp (address : Address)
  | tcpSocket
  | udpSocket
  | tcpSocket6
  | udpSocket6
  | unixTcpSocket
  | unixUdpSocket

def Factory.make (c : Calls) : Factory → Socket
  | .tcp address => .createTCP address
  | .udp address => .createUDP address c
  | .tcpSocket => .createTCPSocket
  | .udpSocket => .createUDPSocket c
  | .tcpSocket6 => .createTCPSocket6
  | .udpSocket6 => .createUDPSocket6 c
  | .unixTcpSocket => .createUnixTCPSocket
  | .unixUdpSocket => .createUnixUDPSocket

def Factory.opens : Factory → Bool
  | .udp _ | .udpSocket | .udpSocket6 => true
  | _ => false

inductive Act
  | create (f : Factory)
  | bind (addr : Address) (uaddr : Bool)
  | connect (addr : Address)
  | reconnect
  | close
  | accept
  | getLocalAddress
  | getRemoteAddress

/-- The operations on one object. A factory function and an `accept` that returns an object begin
the life of another one; from then on that one is followed. -/
def next (s : Socket) : Act × Calls → Socket
  | (.create f, c) => f.make c
  | (.bind addr uaddr, c) => (s.bind addr uaddr c).2
  | (.connect addr, c) => (s.connect addr c).2
  | (.reconnect, c) => (s.reconnect c).2
  | (.close, _) => s.close.2
  | (.accept, c) => (s.accept c).getD s
  | (.getLocalAddress, c) => (s.getLocalAddress c).2
  | (.getRemoteAddress, c) => (s.getRemoteAddress c).2

def step (s : Socket) (a : Act × Calls) : Option Socket := some (next s a)

/-- A connected socket has a descriptor, and the addresses it keeps are those of the descriptor. -/
structure Current (s : Socket) : Prop where
  valid : s.isValid = true
  locals : ∀ a, s.localAddress = some a → s.name = some a
  remote : ∀ a, s.remoteAddress = some a → s.peer = some a

def Sound (s : Socket) : Prop := s.isConnected = true → Current s

/-- The address kept as the local one is `name`, if one is kept. -/
def Keeps (s : Socket) (name : Address) : Prop := ∀ a, s.localAddress = some a → a = name

/-- A `connect` comes as far as `::connect`. -/
def Dials (s : Socket) (addr : Address) (c : Calls) : Prop :=
  addr.getFamily = s.family ∧ (s.isValid = true ∨ c.socket.isSome = true)

instance (s : Socket) (addr : Address) (c : Calls) : Decidable (Dials s addr c) :=
  inferInstanceAs (Decidable (_ ∧ _))

/-- Nothing of the name is lost when it is read: all of it is copied, or the last byte of a Unix
name is zero. -/
def Fits (family : ℤ) (name : Address) : Prop :=
  ∀ b ∈ name.data.drop (getAddrLen family - 2), family = Socket.UNIX ∧ b = 0

/-- If the local address is read now, it fits. -/
def LocalFits (s : Socket) (c : Calls) : Prop :=
  s.localAddress = none → c.getsockname = true → ∀ name, s.name = some name → Fits s.family name

/-- If the remote address is read now, it fits. -/
def RemoteFits (s : Socket) (c : Calls) : Prop :=
  s.remoteAddress = none → c.getpeername = true → ∀ peer, s.peer = some peer → Fits s.family peer

/-- A `connect` does no harm: one that stops at the family of the address names the peer that is
there, and one that succeeds reaches a peer with the address that was given, under the local address
that is kept or one that fits. -/
structure ConnectOk (s : Socket) (addr : Address) (c : Calls) : Prop where
  stopped : addr.getFamily ≠ s.family → s.isConnected = true → s.peer = some addr
  connected : Dials s addr c →
    ∀ name peer, c.connect = some (name, peer) → peer = some addr ∧ Keeps s name ∧
      LocalFits { s with name := some name } c

/-- The condition on one operation. -/
def Cond (s : Socket) : Act × Calls → Prop
  | (.create f, c) => f.opens = true → c.socket.isSome = true
  | (.bind addr uaddr, c) => s.isConnected = true → addr.getFamily = s.family →
      (uaddr && c.listening) = false → ∀ name, c.bind = some name →
        Keeps s name ∧ LocalFits { s with name := some name } c
  | (.connect addr, c) => ConnectOk s addr c
  | (.reconnect, c) => ∀ addr, s.remoteAddress = some addr →
      ConnectOk { s with localAddress := none } addr c
  | (.accept, c) => c.context = true → ∀ fd name peer, c.accept = some (fd, name, peer) →
      (c.getsockname = true → Fits s.family name) ∧
        (c.getpeername = true → ∀ p, peer = some p → Fits s.family p)
  | (.getLocalAddress, c) => s.isConnected = true → LocalFits s c
  | (.getRemoteAddress, c) => s.isConnected = true → RemoteFits s c
  | (.close, _) => True

/-! ### The operations one by one -/

lemma sound_of_not_connected {s : Socket} (h : s.isConnected = false) : Sound s := by
  intro hc
  simp [h] at hc

lemma sound_of_connected {s : Socket} (h : s.isConnected = true) : Sound s ↔ Current s := by
  simp [Sound, h]

lemma received_eq_iff (family : ℤ) (name : Address) : received family name = name ↔
    Fits family name := by
  obtain ⟨fam, data⟩ := name
  set n := getAddrLen family - 2 with hn
  have hsplit := List.take_append_drop n data
  simp only [received, Fits, ← hn]
  by_cases hu : family = Socket.UNIX
  · have hlen : data.length - (data.take n).length = (data.drop n).length := by
      rw [List.length_take, List.length_drop]
      omega
    simp only [hu, if_true, Address.mk.injEq, true_and, hlen]
    constructor
    · intro h
      have hdrop := List.append_cancel_left (h.trans hsplit.symm)
      exact (List.eq_replicate_iff.1 hdrop.symm).2
    · intro h
      have hdrop : data.drop n = List.replicate (data.drop n).length 0 :=
        List.eq_replicate_iff.2 ⟨rfl, h⟩
      rw [← hdrop, hsplit]
  · simp only [hu, if_false, Address.mk.injEq, true_and, false_and, imp_false]
    rw [List.take_eq_self_iff, ← List.eq_nil_iff_forall_not_mem, List.drop_eq_nil_iff]

/-- Reading an address and keeping it does no harm where it fits. -/
lemma sound_getLocalAddress (s : Socket) (c : Calls) : Sound (s.getLocalAddress c).2 ↔
    Sound s ∧ (s.isConnected = true → LocalFits s c) := by
  unfold Socket.getLocalAddress LocalFits
  split
  next a hl => simp [hl]
  next hl =>
    split
    next hget =>
      constructor
      · intro h
        refine ⟨fun hc => ?_, fun hc _ _ name hname => ?_⟩
        · obtain ⟨hv, -, hr⟩ := h hc
          exact ⟨hv, by simp [hl], hr⟩
        · have hkept := (h hc).locals (received s.family name) (by simp [hname])
          exact (received_eq_iff _ _).1 (Option.some.inj (hname.symm.trans hkept)).symm
      · rintro ⟨h, hfits⟩ hc
        obtain ⟨hv, -, hr⟩ := h hc
        refine ⟨hv, fun a ha => ?_, hr⟩
        obtain ⟨name, hname, rfl⟩ := Option.map_eq_some_iff.1 ha
        exact ((received_eq_iff _ _).2 (hfits hc hl hget name hname)).symm ▸ hname
    next hget => simp [hget]

lemma sound_getRemoteAddress (s : Socket) (c : Calls) : Sound (s.getRemoteAddress c).2 ↔
    Sound s ∧ (s.isConnected = true → RemoteFits s c) := by
  unfold Socket.getRemoteAddress RemoteFits
  split
  next a hr => simp [hr]
  next hr =>
    split
    next hget =>
      constructor
      · intro h
        refine ⟨fun hc => ?_, fun hc _ _ peer hpeer => ?_⟩
        · obtain ⟨hv, hl, -⟩ := h hc
          exact ⟨hv, hl, by simp [hr]⟩
        · have hkept := (h hc).remote (received s.family peer) (by simp [hpeer])
          exact (received_eq_iff _ _).1 (Option.some.inj (hpeer.symm.trans hkept)).symm
      · rintro ⟨h, hfits⟩ hc
        obtain ⟨hv, hl, -⟩ := h hc
        refine ⟨hv, hl, fun a ha => ?_⟩
        obtain ⟨peer, hpeer, rfl⟩ := Option.map_eq_some_iff.1 ha
        exact ((received_eq_iff _ _).2 (hfits hc hr hget peer hpeer)).symm ▸ hpeer
    next hget => simp [hget]

@[simp] lemma newSock_isConnected (s : Socket) (c : Calls) :
    (s.newSock c).isConnected = s.isConnected := by
  unfold Socket.newSock
  split <;> rfl

@[simp] lemma newSock_family (s : Socket) (c : Calls) : (s.newSock c).family = s.family := by
  unfold Socket.newSock
  split <;> rfl

@[simp] lemma newSock_localAddress (s : Socket) (c : Calls) :
    (s.newSock c).localAddress = s.localAddress := by
  unfold Socket.newSock
  split <;> rfl

@[simp] lemma newSock_remoteAddress (s : Socket) (c : Calls) :
    (s.newSock c).remoteAddress = s.remoteAddress := by
  unfold Socket.newSock
  split <;> rfl

@[simp] lemma newSock_isValid (s : Socket) (c : Calls) :
    (s.newSock c).isValid = c.socket.isSome := by
  unfold Socket.newSock Socket.isValid
  split
  next h => simp [h]
  next h => simp [h]

@[simp] lemma close_isConnected (s : Socket) : s.close.2.isConnected = false := by
  unfold Socket.close
  split
  next h =>
    simp only [Bool.and_eq_true, Bool.not_eq_true'] at h
    exact h.1
  next => rfl

section Fields

variable (s : Socket) (c : Calls)

@[simp] lemma getLocalAddress_isConnected :
    (s.getLocalAddress c).2.isConnected = s.isConnected := by
  unfold Socket.getLocalAddress
  split
  next => rfl
  next => split <;> rfl

@[simp] lemma getLocalAddress_sock : (s.getLocalAddress c).2.sock = s.sock := by
  unfold Socket.getLocalAddress
  split
  next => rfl
  next => split <;> rfl

@[simp] lemma getLocalAddress_family : (s.getLocalAddress c).2.family = s.family := by
  unfold Socket.getLocalAddress
  split
  next => rfl
  next => split <;> rfl

@[simp] lemma getLocalAddress_remoteAddress :
    (s.getLocalAddress c).2.remoteAddress = s.remoteAddress := by
  unfold Socket.getLocalAddress
  split
  next => rfl
  next => split <;> rfl

@[simp] lemma getLocalAddress_peer : (s.getLocalAddress c).2.peer = s.peer := by
  unfold Socket.getLocalAddress
  split
  next => rfl
  next => split <;> rfl

@[simp] lemma getRemoteAddress_isConnected :
    (s.getRemoteAddress c).2.isConnected = s.isConnected := by
  unfold Socket.getRemoteAddress
  split
  next => rfl
  next => split <;> rfl

@[simp] lemma getRemoteAddress_sock : (s.getRemoteAddress c).2.sock = s.sock := by
  unfold Socket.getRemoteAddress
  split
  next => rfl
  next => split <;> rfl

lemma bind_isConnected (addr : Address) (uaddr : Bool) :
    (s.bind addr uaddr c).2.isConnected = s.isConnected := by
  simp only [Socket.bind]
  repeat' split
  all_goals simp

end Fields

/-- A `bind` takes a descriptor only where there is none. -/
lemma bind_sock {s : Socket} (hv : s.isValid = true) (addr : Address) (uaddr : Bool) (c : Calls) :
    (s.bind addr uaddr c).2.sock = s.sock := by
  simp only [Socket.bind, hv, if_true]
  repeat' split
  all_goals simp

lemma sound_bind {s : Socket} (hs : Sound s) (addr : Address) (uaddr : Bool) (c : Calls) :
    Sound (s.bind addr uaddr c).2 ↔ Cond s (.bind addr uaddr, c) := by
  cases hc : s.isConnected with
  | false =>
    have hb := sound_of_not_connected ((bind_isConnected s c addr uaddr).trans hc)
    simp [hb, Cond, hc]
  | true =>
    obtain ⟨hv, hl, hr⟩ := hs hc
    simp only [Socket.bind, hv, Cond, hc, if_true, Bool.not_true, Bool.false_eq_true, if_false,
      true_implies]
    by_cases hf : addr.getFamily = s.family
    · simp only [hf, ne_eq, not_true_eq_false, if_false, true_implies]
      cases hu : uaddr && c.listening with
      | true => simpa using hs
      | false =>
        simp only [Bool.false_eq_true, if_false, true_implies]
        cases hb : c.bind with
        | none => simpa using hs
        | some name =>
          simp only [sound_getLocalAddress, Option.some.injEq, forall_eq', true_implies]
          rw [sound_of_connected rfl]
          refine and_congr_left fun _ => ⟨fun h a ha => ?_, fun h => ?_⟩
          · exact (Option.some.inj (h.locals a ha)).symm
          · exact ⟨hv, fun a ha => by rw [h a ha], hr⟩
    · simpa [hf] using hs

/-- The socket `connect` calls the kernel for: it has the address and, if it can, a descriptor. -/
def dialling (s : Socket) (addr : Address) (c : Calls) : Socket :=
  let s := { s with remoteAddress := some addr }
  if s.isValid then s else s.newSock c

lemma connect_eq (s : Socket) (addr : Address) (c : Calls) : s.connect addr c =
    if !(dialling s addr c).isValid then (false, dialling s addr c)
    else if addr.getFamily ≠ (dialling s addr c).family then (false, dialling s addr c)
    else match c.connect with
      | none => (false, (dialling s addr c).close.2)
      | some (name, peer) => (true, ((Socket.getRemoteAddress { dialling s addr c with
          isConnected := true, name := some name, peer := peer } c).2.getLocalAddress c).2) := rfl

section Dialling

variable (s : Socket) (addr : Address) (c : Calls)

@[simp] lemma dialling_isValid :
    (dialling s addr c).isValid = (s.isValid || c.socket.isSome) := by
  simp only [dialling]
  split
  next h =>
    have h : s.isValid = true := h
    rw [h, Bool.true_or]
    exact h
  next h =>
    have h : ¬ s.isValid = true := h
    simp [h]

@[simp] lemma dialling_isConnected : (dialling s addr c).isConnected = s.isConnected := by
  simp only [dialling]
  split <;> simp

@[simp] lemma dialling_family : (dialling s addr c).family = s.family := by
  simp only [dialling]
  split <;> simp

@[simp] lemma dialling_localAddress : (dialling s addr c).localAddress = s.localAddress := by
  simp only [dialling]
  split <;> simp

@[simp] lemma dialling_remoteAddress : (dialling s addr c).remoteAddress = some addr := by
  simp only [dialling]
  split <;> simp

end Dialling

lemma dialling_of_isValid {s : Socket} (h : s.isValid = true) (addr : Address) (c : Calls) :
    dialling s addr c = { s with remoteAddress := some addr } :=
  if_pos h

/-- A `connect` that stops at the family leaves the address that was given beside the peer of the
connection there is. -/
lemma sound_dialling {s : Socket} (hs : Sound s) (addr : Address) (c : Calls) :
    Sound (dialling s addr c) ↔ (s.isConnected = true → s.peer = some addr) := by
  cases hc : s.isConnected with
  | false =>
    have h := sound_of_not_connected ((dialling_isConnected s addr c).trans hc)
    simp [h]
  | true =>
    obtain ⟨hv, hl, -⟩ := hs hc
    rw [dialling_of_isValid hv, sound_of_connected (s := { s with remoteAddress := some addr }) hc,
      eq_self, true_imp_iff]
    constructor
    · intro h
      exact h.remote addr rfl
    · intro h
      refine ⟨hv, hl, fun a ha => ?_⟩
      cases ha
      exact h

/-! ### How far a connect comes -/

lemma connect_of_not_dials {s : Socket} {addr : Address} {c : Calls} (h : ¬ Dials s addr c) :
    s.connect addr c = (false, dialling s addr c) := by
  rw [connect_eq, dialling_isValid, dialling_family]
  split
  next => rfl
  next hv =>
    have hv : s.isValid = true ∨ c.socket.isSome = true := by simpa only [Bool.not_eq_true',
      Bool.not_eq_false, Bool.or_eq_true] using hv
    rw [if_pos fun hf => h ⟨hf, hv⟩]

lemma connect_of_dials {s : Socket} {addr : Address} {c : Calls} (h : Dials s addr c) :
    s.connect addr c = match c.connect with
      | none => (false, (dialling s addr c).close.2)
      | some (name, peer) => (true, ((Socket.getRemoteAddress { dialling s addr c with
          isConnected := true, name := some name, peer := peer } c).2.getLocalAddress c).2) := by
  have hv : (s.isValid || c.socket.isSome) = true := by simpa using h.2
  rw [connect_eq, dialling_isValid, dialling_family, hv, if_neg (by simp),
    if_neg (not_not_intro h.1)]

lemma getRemoteAddress_of_some {s : Socket} {a : Address} (h : s.remoteAddress = some a)
    (c : Calls) : (s.getRemoteAddress c).2 = s := by
  unfold Socket.getRemoteAddress
  rw [h]

lemma sound_connect {s : Socket} (hs : Sound s) (addr : Address) (c : Calls) :
    Sound (s.connect addr c).2 ↔ ConnectOk s addr c := by
  by_cases hd : Dials s addr c
  · have hf : ¬ addr.getFamily ≠ s.family := not_not_intro hd.1
    rw [connect_of_dials hd]
    cases hcon : c.connect with
    | none =>
      refine iff_of_true (sound_of_not_connected (close_isConnected _)) ⟨fun h => absurd h hf, ?_⟩
      simp [hcon]
    | some r =>
      obtain ⟨name, peer⟩ := r
      -- the remote address is the one that was given, and only the local one is read
      set d : Socket := { dialling s addr c with
        isConnected := true, name := some name, peer := peer } with hdial
      have hremote : d.remoteAddress = some addr := dialling_remoteAddress s addr c
      show Sound ((d.getRemoteAddress c).2.getLocalAddress c).2 ↔ _
      rw [getRemoteAddress_of_some hremote, sound_getLocalAddress, sound_of_connected rfl]
      have hfits : LocalFits d c ↔ LocalFits { s with name := some name } c := by
        simp [LocalFits, hdial]
      rw [hfits]
      constructor
      · rintro ⟨h, hlocal⟩
        refine ⟨fun h => absurd h hf, fun _ name' peer' heq => ?_⟩
        obtain ⟨rfl, rfl⟩ : name = name' ∧ peer = peer' := by simpa [hcon] using heq
        refine ⟨h.remote addr (dialling_remoteAddress s addr c), fun a ha => ?_, hlocal rfl⟩
        exact (Option.some.inj (h.locals a ((dialling_localAddress s addr c).trans ha))).symm
      · intro h
        obtain ⟨hp, hk, hlocal⟩ := h.connected hd name peer hcon
        refine ⟨⟨?_, fun a ha => ?_, fun a ha => ?_⟩, fun _ => hlocal⟩
        · exact (dialling_isValid s addr c).trans (by simpa using hd.2)
        · rw [hk a ((dialling_localAddress s addr c).symm.trans ha)]
        · obtain rfl := Option.some.inj ((dialling_remoteAddress s addr c).symm.trans ha)
          exact hp
  · rw [connect_of_not_dials hd, sound_dialling hs]
    constructor
    · intro h
      exact ⟨fun _ => h, fun h => absurd h hd⟩
    · intro h hc
      -- A connected socket has a descriptor, so it was the family that stopped the call.
      exact h.stopped (fun hf => hd ⟨hf, .inl (hs hc).valid⟩) hc

lemma init_of_context (s : Socket) (fd : ℕ) (name : Address) (peer : Option Address) {c : Calls}
    (h : c.context = true) :
    ∃ b, s.init fd name peer c = (true, b) ∧ b.isConnected = true ∧ b.sock = some fd := by
  unfold Socket.init
  rw [if_pos h]
  exact ⟨_, rfl, by simp, by simp⟩

/-- An accepted socket keeps the addresses of its descriptor if they fit. -/
lemma sound_init {s s' : Socket} (hl : s.localAddress = none) (hr : s.remoteAddress = none)
    {fd : ℕ} {name : Address} {peer : Option Address} {c : Calls}
    (h : s.init fd name peer c = (true, s')) : Sound s' ↔
      (c.getsockname = true → Fits s.family name) ∧
        (c.getpeername = true → ∀ p, peer = some p → Fits s.family p) := by
  unfold Socket.init at h
  split at h
  next =>
    cases h
    rw [sound_getRemoteAddress, sound_getLocalAddress, sound_of_connected rfl]
    have hcur : Current { s with
        sock := some fd, isConnected := true, name := some name, peer := peer } :=
      ⟨rfl, by simp [hl], by simp [hr]⟩
    rw [and_iff_right hcur]
    simp [LocalFits, RemoteFits, hl, hr]
  next => simp at h

lemma accept_eq_some {s s' : Socket} {c : Calls} (h : s.accept c = some s') :
    ∃ fd name peer, c.accept = some (fd, name, peer) ∧ c.context = true ∧
      Socket.init { family := s.family } fd name peer c = (true, s') := by
  unfold Socket.accept at h
  split at h
  next => simp at h
  next fd name peer hacc =>
    dsimp only at h
    split at h
    next hv =>
      cases h
      refine ⟨fd, name, peer, hacc, ?_, Prod.ext hv rfl⟩
      by_contra hc
      simp [Socket.init, hc] at hv
    next => simp at h

lemma sound_accept {s : Socket} (hs : Sound s) (c : Calls) :
    Sound ((s.accept c).getD s) ↔ Cond s (.accept, c) := by
  cases h : s.accept c with
  | none =>
    refine iff_of_true hs fun hc fd name peer hacc => ?_
    simp [Socket.accept, hacc, Socket.init, hc] at h
  | some s' =>
    obtain ⟨fd, name, peer, hacc, hc, hinit⟩ := accept_eq_some h
    rw [Option.getD_some, sound_init rfl rfl hinit]
    constructor
    · rintro hfits - fd' name' peer' heq
      cases hacc.symm.trans heq
      exact hfits
    · intro hcond
      exact hcond hc fd name peer hacc

lemma sound_create (family : ℤ) : Sound (.create family) := sound_of_not_connected rfl

lemma sound_createOpen (family : ℤ) (c : Calls) :
    Sound (.createOpen family c) ↔ c.socket.isSome = true := by
  unfold Socket.createOpen
  rw [sound_of_connected rfl]
  constructor
  · intro h
    exact (newSock_isValid _ c).symm.trans h.valid
  · intro h
    refine ⟨(newSock_isValid _ c).trans h, fun a ha => ?_, fun a ha => ?_⟩
    · simp at ha
    · simp at ha

lemma sound_make (f : Factory) (c : Calls) :
    Sound (f.make c) ↔ (f.opens = true → c.socket.isSome = true) := by
  cases f with
  | udp address => exact (sound_createOpen address.getFamily c).trans (by simp [Factory.opens])
  | udpSocket => exact (sound_createOpen Socket.IPv4 c).trans (by simp [Factory.opens])
  | udpSocket6 => exact (sound_createOpen Socket.IPv6 c).trans (by simp [Factory.opens])
  | tcp address => exact iff_of_true (sound_create _) (by simp [Factory.opens])
  | tcpSocket => exact iff_of_true (sound_create _) (by simp [Factory.opens])
  | tcpSocket6 => exact iff_of_true (sound_create _) (by simp [Factory.opens])
  | unixTcpSocket => exact iff_of_true (sound_create _) (by simp [Factory.opens])
  | unixUdpSocket => exact iff_of_true (sound_create _) (by simp [Factory.opens])

lemma sound_reconnect {s : Socket} (hs : Sound s) (c : Calls) :
    Sound (s.reconnect c).2 ↔ Cond s (.reconnect, c) := by
  have hs' : Sound { s with localAddress := none } := fun hc =>
    ⟨(hs hc).valid, by simp, (hs hc).remote⟩
  unfold Socket.reconnect Cond
  split
  next h => simpa [h] using hs
  next addr h => simpa [h] using sound_connect hs' addr c

/-! ### Runs -/

lemma sound_next_iff {s : Socket} (hs : Sound s) (a : Act × Calls) :
    Sound (next s a) ↔ Cond s a := by
  obtain ⟨a, c⟩ := a
  cases a with
  | create f => exact sound_make f c
  | bind addr uaddr => exact sound_bind hs addr uaddr c
  | connect addr => exact sound_connect hs addr c
  | reconnect => exact sound_reconnect hs c
  | close => exact iff_of_true (sound_of_not_connected (close_isConnected s)) trivial
  | accept => exact sound_accept hs c
  | getLocalAddress => exact (sound_getLocalAddress s c).trans (and_iff_right hs)
  | getRemoteAddress => exact (sound_getRemoteAddress s c).trans (and_iff_right hs)

lemma exists_run (s : Socket) (as : List (Act × Calls)) : ∃ s', run step s as = some s' := by
  induction as generalizing s with
  | nil => exact ⟨s, rfl⟩
  | cons a as ih => exact ih (next s a)

/-- **A connected socket has a descriptor and keeps only its addresses, exactly in the runs in which
no datagram socket is made without a descriptor, no `bind` or `connect` on the way gives the
descriptor another name than the one that is kept, or another peer than the address given, and every
address that is read fits.** -/
theorem sound_iff (family : ℤ) (as : List (Act × Calls)) :
    Always step Sound (.create family) as ↔ Meets step Cond (.create family) as := by
  obtain ⟨s', hr⟩ := exists_run (.create family) as
  refine always_iff_meets (I := fun _ => True) (fun _ _ _ _ _ _ _ => trivial) ?_ trivial
    (sound_create family) hr
  rintro s a s' - hs h
  cases h
  exact sound_next_iff hs a

/-- The answers to a `connect` from `name` that succeeds. -/
def answers (fd : ℕ) (name peer : Address) : Calls where
  socket := some (fd, name)
  connect := some (name, some peer)

/-- **A connection that is closed leaves its local address to the next one.** -/
theorem stale_localAddress : ¬ Always step Sound (.create 2)
    [(.connect ⟨2, [80]⟩, answers 7 ⟨2, [1]⟩ ⟨2, [80]⟩), (.close, {}),
      (.connect ⟨2, [81]⟩, answers 7 ⟨2, [2]⟩ ⟨2, [81]⟩)] := by
  intro h
  have hs := h _ [] _ (List.append_nil _).symm rfl
  have hl := (hs rfl).locals ⟨2, [1]⟩ rfl
  exact absurd hl (by decide)

end Sylar.SocketModel
