import Sylar.SocketModel

/-!
`SSLSocket`: a `Socket` with a TLS session.

The session is made by `connect` and `accept` and gets the descriptor with `SSL_set_fd`. It is not
tied to the descriptor and the flag of the base class: `close` is the base's own, and `send` and
`recv` ask for the session only.
-/

namespace Sylar.SslSession

open Lib.Runs Sylar.SocketModel

/-- A session with the descriptor that it was given, if `SSL_set_fd` succeeded. -/
structure Session where
  fd : Option ℕ
  deriving DecidableEq

structure SslSocket extends Socket where
  ctx : Bool := false
  ssl : Option Session := none
  deriving DecidableEq

/-- The answers of the library beside those of the kernel. -/
structure SslCalls extends Calls where
  ctxNew : Bool := true
  sslNew : Bool := true
  setFd : Bool := true
  handshake : Bool := true

inductive SslCall
  | read
  | write
  deriving DecidableEq

/-- What a call of `send` or `recv` did: the calls it made on the session, each with the descriptor
of the session, and the value it returned. -/
structure Io where
  calls : List (SslCall × Option ℕ)
  ret : Int32
  deriving DecidableEq

namespace SslSocket

/-- Without a context or without memory there is no session; the library is then called with a null
pointer, and where it survives that, the handshake fails. -/
def newSession (s : SslSocket) (c : SslCalls) : Bool × SslSocket :=
  if s.ctx && c.sslNew then
    (c.handshake, { s with ssl := some ⟨if c.setFd then s.sock else none⟩ })
  else (false, { s with ssl := none })

def init (s : SslSocket) (fd : ℕ) (name : Address) (peer : Option Address) (c : SslCalls) :
    Bool × SslSocket :=
  let (v, base) := s.toSocket.init fd name peer c.toCalls
  if v then newSession { s with toSocket := base } c else (false, { s with toSocket := base })

/-- `SSLSocket::accept`. The object that is made gets the context of this one. -/
def accept (s : SslSocket) (c : SslCalls) : Option SslSocket :=
  match c.accept with
  | none => none
  | some (fd, name, peer) =>
    let (v, sock) := init { family := s.family, ctx := s.ctx } fd name peer c
    if v then some sock else none

def connect (s : SslSocket) (addr : Address) (c : SslCalls) : Bool × SslSocket :=
  let (v, base) := s.toSocket.connect addr c.toCalls
  if v then newSession { s with toSocket := base, ctx := c.ctxNew } c
  else (false, { s with toSocket := base })

/-- `Socket::reconnect`, which calls the `connect` of this class. -/
def reconnect (s : SslSocket) (c : SslCalls) : Bool × SslSocket :=
  match s.remoteAddress with
  | none => (false, s)
  | some addr => connect { s with localAddress := none } addr c

def bind (s : SslSocket) (addr : Address) (uaddr : Bool) (c : SslCalls) : Bool × SslSocket :=
  let (v, base) := s.toSocket.bind addr uaddr c.toCalls
  (v, { s with toSocket := base })

def close (s : SslSocket) : Bool × SslSocket :=
  let (v, base) := s.toSocket.close
  (v, { s with toSocket := base })

/-- The calls on the certificates come after the new context is in place. -/
def loadCertificates (s : SslSocket) (c : SslCalls) (chain key check : Bool) :
    Bool × SslSocket :=
  (chain && key && check, { s with ctx := c.ctxNew })

/-- `send` and `recv` of one buffer, where the library answers `tmp`. -/
def io (call : SslCall) (s : SslSocket) (tmp : Int32) : Io :=
  match s.ssl with
  | some ssl => ⟨[(call, ssl.fd)], tmp⟩
  | none => ⟨[], -1⟩

/-- The loop over the buffers, given with their `iov_len` and the answers of the library. -/
def ioLoop (call : SslCall) (ssl : Session) : Int32 → List (UInt64 × Int32) → Io
  | total, [] => ⟨[], total⟩
  | total, (len, tmp) :: buffers =>
    if tmp ≤ 0 then ⟨[(call, ssl.fd)], tmp⟩
    else if tmp ≠ len.toUInt32.toInt32 then ⟨[(call, ssl.fd)], total + tmp⟩
    else
      let rest := ioLoop call ssl (total + tmp) buffers
      { rest with calls := (call, ssl.fd) :: rest.calls }

def ioVec (call : SslCall) (s : SslSocket) (buffers : List (UInt64 × Int32)) : Io :=
  match s.ssl with
  | none => ⟨[], -1⟩
  | some ssl => ioLoop call ssl 0 buffers

def send (s : SslSocket) (tmp : Int32) : Io := s.io .write tmp
def sendVec (s : SslSocket) (buffers : List (UInt64 × Int32)) : Io := s.ioVec .write buffers
def recv (s : SslSocket) (tmp : Int32) : Io := s.io .read tmp
def recvVec (s : SslSocket) (buffers : List (UInt64 × Int32)) : Io := s.ioVec .read buffers

def createTCP (address : Address) : SslSocket := { family := address.getFamily }
def createTCPSocket : SslSocket := { family := Socket.IPv4 }
def createTCPSocket6 : SslSocket := { family := Socket.IPv6 }

end SslSocket

inductive Act
  | createTCP (address : Address)
  | createTCPSocket
  | createTCPSocket6
  | loadCertificates (chain key check : Bool)
  | bind (addr : Address) (uaddr : Bool)
  | connect (addr : Address)
  | reconnect
  | close
  | accept
  | getLocalAddress
  | getRemoteAddress
  | send (tmp : Int32)
  | sendVec (buffers : List (UInt64 × Int32))
  | recv (tmp : Int32)
  | recvVec (buffers : List (UInt64 × Int32))

/-- The operations on one object, as for `Socket`. -/
def next (s : SslSocket) : Act × SslCalls → SslSocket
  | (.createTCP address, _) => .createTCP address
  | (.createTCPSocket, _) => .createTCPSocket
  | (.createTCPSocket6, _) => .createTCPSocket6
  | (.loadCertificates chain key check, c) => (s.loadCertificates c chain key check).2
  | (.bind addr uaddr, c) => (s.bind addr uaddr c).2
  | (.connect addr, c) => (s.connect addr c).2
  | (.reconnect, c) => (s.reconnect c).2
  | (.close, _) => s.close.2
  | (.accept, c) => (s.accept c).getD s
  | (.getLocalAddress, c) => { s with toSocket := (s.toSocket.getLocalAddress c.toCalls).2 }
  | (.getRemoteAddress, c) => { s with toSocket := (s.toSocket.getRemoteAddress c.toCalls).2 }
  | _ => s

/-- What an operation does on the session, if it sends or receives. -/
def ioOf (s : SslSocket) : Act → Option Io
  | .send tmp => some (s.send tmp)
  | .sendVec buffers => some (s.sendVec buffers)
  | .recv tmp => some (s.recv tmp)
  | .recvVec buffers => some (s.recvVec buffers)
  | _ => none

/-! ### What the caller knows of the session -/

/-- What became of the session as far as the operations and their answers tell: there is none, it
has the descriptor of the connection, or the connection is gone or was never given to it. -/
inductive Phase
  | unused
  | live
  | lost
  deriving DecidableEq

namespace Phase

def lose : Phase → Phase
  | .unused => .unused
  | _ => .lost

def start (ctx : Bool) (c : SslCalls) : Phase :=
  if ctx && c.sslNew then if c.setFd then .live else .lost else .unused

/-- A `connect` gives the connection up, or begins another one, if it comes as far as `::connect`;
where it has no descriptor or the address is of another family, it does neither. -/
def dial (s : Socket) (addr : Address) (c : SslCalls) (p : Phase) : Phase :=
  if Dials s addr c.toCalls then
    if c.connect.isSome then start c.ctxNew c else p.lose
  else p

def next (s : SslSocket) (p : Phase) : Act × SslCalls → Phase
  | (.createTCP _, _) | (.createTCPSocket, _) | (.createTCPSocket6, _) => .unused
  | (.connect addr, c) => p.dial s.toSocket addr c
  | (.reconnect, c) => (s.remoteAddress.map fun addr => p.dial s.toSocket addr c).getD p
  | (.close, _) => p.lose
  | (.accept, c) =>
    if c.accept.isSome && c.context && s.ctx && c.sslNew && c.handshake then start s.ctx c else p
  | _ => p

end Phase

structure Watched where
  o : SslSocket
  phase : Phase

/-- The object goes its way whatever is known of the session. -/
def step (w : Watched) (a : Act × SslCalls) : Option Watched :=
  some ⟨next w.o a, w.phase.next w.o a⟩

/-- Each call on the session is made while the socket is connected, and by a session that has the
descriptor of the socket; where none is made, -1 is returned. -/
structure IoOk (s : SslSocket) (r : Io) : Prop where
  own : ∀ x ∈ r.calls, s.isConnected = true ∧ ∃ fd, x.2 = some fd ∧ s.sock = some fd
  refused : r.calls = [] → r.ret = -1

def Own (w : Watched) (a : Act × SslCalls) : Prop := ∀ r, ioOf w.o a.1 = some r → IoOk w.o r

/-- Whether the operation has something to send or a place to receive. -/
def Act.empty : Act → Bool
  | .sendVec [] | .recvVec [] => true
  | _ => false

/-- Nothing is sent or received on a session that has lost its connection, and no empty array of
buffers on one that has not. -/
def Cond (w : Watched) (a : Act × SslCalls) : Prop :=
  (ioOf w.o a.1).isSome = true → w.phase ≠ .lost ∧ (w.phase = .live → a.1.empty = false)

/-! ### The session and the connection -/

/-- The fields of the object say what became of the session. -/
structure Linked (s : SslSocket) (p : Phase) : Prop where
  valid : s.isConnected = true → s.isValid = true
  unused : p = .unused → s.ssl = none
  live : p = .live → s.isConnected = true ∧ s.ssl = some ⟨s.sock⟩
  lost : p = .lost → ∃ x, s.ssl = some x ∧ (s.isConnected = true → x.fd = none)

variable {s : SslSocket} {p : Phase}

lemma linked_create (family : ℤ) : Linked { family := family } .unused :=
  ⟨by simp, fun _ => rfl, by simp, by simp⟩

/-- An operation of the base class that leaves flag and descriptor of a connection alone. -/
lemma Linked.of_base (h : Linked s p) {base : Socket} (hc : base.isConnected = s.isConnected)
    (hs : s.isConnected = true → base.sock = s.sock) :
    Linked { s with toSocket := base } p := by
  refine ⟨fun hb => ?_, h.unused, fun hp => ?_, fun hp => ?_⟩
  · have hb : s.isConnected = true := hc.symm.trans hb
    have hv := h.valid hb
    unfold Socket.isValid at hv ⊢
    rw [hs hb]
    exact hv
  · obtain ⟨hcon, hssl⟩ := h.live hp
    refine ⟨hc.trans hcon, ?_⟩
    change s.ssl = some ⟨base.sock⟩
    rw [hssl, hs hcon]
  · obtain ⟨x, hx, hn⟩ := h.lost hp
    exact ⟨x, hx, fun hb => hn (hc.symm.trans hb)⟩

/-- The session stays behind when the connection is given up. -/
lemma Linked.lose (h : Linked s p) {base : Socket} (hc : base.isConnected = false) :
    Linked { s with toSocket := base } p.lose := by
  have hne : ¬ base.isConnected = true := by simp [hc]
  refine ⟨fun hb => absurd hb hne, fun hp => ?_, fun hp => ?_, fun hp => ?_⟩
  · cases p with
    | unused => exact h.unused rfl
    | live => cases hp
    | lost => cases hp
  · cases p <;> cases hp
  · cases p with
    | unused => cases hp
    | live => exact ⟨_, (h.live rfl).2, fun hb => absurd hb hne⟩
    | lost =>
      obtain ⟨x, hx, -⟩ := h.lost rfl
      exact ⟨x, hx, fun hb => absurd hb hne⟩

lemma linked_newSession (hc : s.isConnected = true) (hv : s.isValid = true) (c : SslCalls) :
    Linked (s.newSession c).2 (.start s.ctx c) := by
  unfold SslSocket.newSession Phase.start
  split
  next =>
    cases hfd : c.setFd with
    | true => exact ⟨fun _ => hv, by simp, fun _ => ⟨hc, rfl⟩, by simp⟩
    | false => exact ⟨fun _ => hv, by simp, by simp, fun _ => ⟨_, rfl, fun _ => rfl⟩⟩
  next => exact ⟨fun _ => hv, fun _ => rfl, by simp, by simp⟩

lemma linked_connect (h : Linked s p) (addr : Address) (c : SslCalls) :
    Linked (s.connect addr c).2 (p.dial s.toSocket addr c) := by
  unfold SslSocket.connect Phase.dial
  by_cases hd : Dials s.toSocket addr c.toCalls
  · rw [if_pos hd, connect_of_dials hd]
    cases hcon : c.connect with
    | none => exact h.lose (close_isConnected _)
    | some r =>
      refine linked_newSession ?_ ?_ c
      · simp
      · have hv : (dialling s.toSocket addr c.toCalls).isValid = true := by simpa using hd.2
        simpa [Socket.isValid] using hv
  · rw [if_neg hd, connect_of_not_dials hd]
    refine h.of_base (dialling_isConnected _ _ _) fun hc => ?_
    rw [dialling_of_isValid (h.valid hc)]

/-- The object that `accept` makes has a session of its own, made with the descriptor. -/
lemma init_spec (fd : ℕ) (name : Address) (peer : Option Address) (c : SslCalls) :
    (s.init fd name peer c).1 = (c.context && s.ctx && c.sslNew && c.handshake) ∧
      (c.context = true → Linked (s.init fd name peer c).2 (.start s.ctx c)) := by
  unfold SslSocket.init
  cases hc : c.context with
  | false =>
    simp [Socket.init, hc]
  | true =>
    obtain ⟨b, hb, hcon, hsock⟩ := init_of_context s.toSocket fd name peer hc
    rw [hb]
    refine ⟨?_, fun _ => linked_newSession hcon (by simp [Socket.isValid, hsock]) c⟩
    unfold SslSocket.newSession
    cases hn : s.ctx && c.sslNew with
    | false => simp [hn]
    | true => simp [hn]

lemma linked_accept (h : Linked s p) (c : SslCalls) :
    Linked ((s.accept c).getD s) (p.next s (.accept, c)) := by
  unfold SslSocket.accept
  simp only [Phase.next]
  cases hacc : c.accept with
  | none => simpa [hacc] using h
  | some r =>
    obtain ⟨fd, name, peer⟩ := r
    obtain ⟨hv, hl⟩ := init_spec (s := { family := s.family, ctx := s.ctx }) fd name peer c
    dsimp only at hv ⊢
    rw [hv, Option.isSome_some, Bool.true_and]
    split
    next ht =>
      simp only [Bool.and_eq_true] at ht
      exact hl ht.1.1.1
    next => exact h

/-- **Every operation keeps the fields in step with what became of the session.** -/
theorem linked_next (h : Linked s p) (a : Act × SslCalls) :
    Linked (next s a) (p.next s a) := by
  obtain ⟨a, c⟩ := a
  cases a with
  | createTCP address => exact linked_create _
  | createTCPSocket => exact linked_create _
  | createTCPSocket6 => exact linked_create _
  | loadCertificates chain key check => exact ⟨h.valid, h.unused, h.live, h.lost⟩
  | bind addr uaddr =>
    refine h.of_base (bind_isConnected _ _ _ _) fun hc => ?_
    exact bind_sock (h.valid hc) addr uaddr c.toCalls
  | connect addr => exact linked_connect h addr c
  | reconnect =>
    simp only [next, SslSocket.reconnect, Phase.next]
    cases hr : s.remoteAddress with
    | none => exact h
    | some addr =>
      have hb : Linked { s with localAddress := none } p := h.of_base rfl fun _ => rfl
      exact linked_connect hb addr c
  | close => exact h.lose (close_isConnected _)
  | accept => exact linked_accept h c
  | getLocalAddress =>
    exact h.of_base (getLocalAddress_isConnected _ _) fun _ => getLocalAddress_sock _ _
  | getRemoteAddress =>
    exact h.of_base (getRemoteAddress_isConnected _ _) fun _ => getRemoteAddress_sock _ _
  | send tmp => exact h
  | sendVec buffers => exact h
  | recv tmp => exact h
  | recvVec buffers => exact h

/-! ### Sending and receiving -/

lemma ioLoop_calls (call : SslCall) (ssl : Session) (total : Int32)
    (buffers : List (UInt64 × Int32)) {x : SslCall × Option ℕ}
    (hx : x ∈ (SslSocket.ioLoop call ssl total buffers).calls) : x = (call, ssl.fd) := by
  induction buffers generalizing total with
  | nil => simp [SslSocket.ioLoop] at hx
  | cons b buffers ih =>
    obtain ⟨len, tmp⟩ := b
    unfold SslSocket.ioLoop at hx
    split at hx
    next => simpa using hx
    next =>
      split at hx
      next => simpa using hx
      next =>
        rcases List.mem_cons.mp hx with rfl | hx
        · rfl
        · exact ih _ hx

lemma mem_ioLoop_calls (call : SslCall) (ssl : Session) (total : Int32) (b : UInt64 × Int32)
    (buffers : List (UInt64 × Int32)) :
    (call, ssl.fd) ∈ (SslSocket.ioLoop call ssl total (b :: buffers)).calls := by
  unfold SslSocket.ioLoop
  split
  next => simp
  next => split <;> simp

lemma ioOf_of_none (hs : s.ssl = none) {a : Act} {r : Io} (hr : ioOf s a = some r) :
    r = ⟨[], -1⟩ := by
  cases a <;> simp_all [ioOf, SslSocket.send, SslSocket.sendVec, SslSocket.recv, SslSocket.recvVec,
    SslSocket.io, SslSocket.ioVec]

/-- The calls that are made are made with the session's descriptor, and at least one is made unless
there are no buffers. -/
structure Uses (x : Session) (a : Act) (r : Io) : Prop where
  fd : ∀ y ∈ r.calls, y.2 = x.fd
  some : a.empty = false → r.calls ≠ []
  empty : a.empty = true → r.calls = [] ∧ r.ret = 0

lemma uses_io (call : SslCall) {x : Session} (hs : s.ssl = some x) (tmp : Int32) {a : Act}
    (ha : a.empty = false) : Uses x a (s.io call tmp) := by
  unfold SslSocket.io
  rw [hs]
  exact ⟨by simp, by simp, by simp [ha]⟩

lemma uses_ioVec (call : SslCall) {x : Session} (hs : s.ssl = some x)
    (buffers : List (UInt64 × Int32)) {a : Act} (ha : a.empty = buffers.isEmpty) :
    Uses x a (s.ioVec call buffers) := by
  unfold SslSocket.ioVec
  rw [hs]
  refine ⟨fun y hy => by rw [ioLoop_calls call x 0 buffers hy], fun he => ?_, fun he => ?_⟩
  · obtain ⟨b, rest, rfl⟩ := List.exists_cons_of_ne_nil (by simpa [ha] using he)
    exact List.ne_nil_of_mem (mem_ioLoop_calls call x 0 b rest)
  · obtain rfl : buffers = [] := by simpa [ha] using he
    exact ⟨rfl, rfl⟩

lemma uses_ioOf {x : Session} (hs : s.ssl = some x) {a : Act} {r : Io} (hr : ioOf s a = some r) :
    Uses x a r := by
  cases a with
  | send tmp =>
    cases hr
    exact uses_io .write hs tmp rfl
  | recv tmp =>
    cases hr
    exact uses_io .read hs tmp rfl
  | sendVec buffers =>
    cases hr
    exact uses_ioVec .write hs buffers (by cases buffers <;> rfl)
  | recvVec buffers =>
    cases hr
    exact uses_ioVec .read hs buffers (by cases buffers <;> rfl)
  | _ => simp [ioOf] at hr

/-- A session that has lost its connection is used all the same. -/
lemma not_ioOk_of_lost (h : Linked s .lost) {a : Act} {r : Io} (hr : ioOf s a = some r) :
    ¬ IoOk s r := by
  intro hok
  obtain ⟨x, hx, hn⟩ := h.lost rfl
  have hu := uses_ioOf hx hr
  cases he : a.empty with
  | true =>
    obtain ⟨hc, h0⟩ := hu.empty he
    have := hok.refused hc
    simp [h0] at this
  | false =>
    obtain ⟨y, hy⟩ := List.exists_mem_of_ne_nil _ (hu.some he)
    obtain ⟨hcon, fd, hfd, -⟩ := hok.own y hy
    rw [hu.fd y hy, hn hcon] at hfd
    cases hfd

lemma ioOk_iff_of_live (h : Linked s .live) {a : Act} {r : Io} (hr : ioOf s a = some r) :
    IoOk s r ↔ a.empty = false := by
  obtain ⟨hcon, hx⟩ := h.live rfl
  have hu := uses_ioOf hx hr
  cases he : a.empty with
  | true =>
    obtain ⟨hc, h0⟩ := hu.empty he
    refine iff_of_false (fun hok => ?_) (by simp)
    have := hok.refused hc
    simp [h0] at this
  | false =>
    obtain ⟨fd, hfd⟩ := Option.isSome_iff_exists.mp (h.valid hcon)
    refine iff_of_true ⟨fun y hy => ?_, fun hc => absurd hc (hu.some he)⟩ rfl
    exact ⟨hcon, fd, (hu.fd y hy).trans hfd, hfd⟩

lemma own_iff_cond {w : Watched} (h : Linked w.o w.phase) (a : Act × SslCalls) :
    Own w a ↔ Cond w a := by
  obtain ⟨o, p⟩ := w
  unfold Own Cond
  cases hr : ioOf o a.1 with
  | none => simp
  | some r =>
    simp only [Option.some.injEq, forall_eq', Option.isSome_some, true_imp_iff]
    cases p with
    | unused =>
      obtain rfl := ioOf_of_none (h.unused rfl) hr
      exact iff_of_true ⟨by simp, fun _ => rfl⟩ ⟨by simp, by simp⟩
    | live => simpa using ioOk_iff_of_live h hr
    | lost => simpa using not_ioOk_of_lost h hr

/-! ### Runs -/

/-- **Each call on the session is made with the descriptor of the open connection, exactly in the
runs in which nothing is sent or received between the loss of a connection and the next handshake,
nor on a session whose `SSL_set_fd` failed, and no empty array of buffers on a live one.** -/
theorem own_iff (family : ℤ) (as : List (Act × SslCalls)) :
    Meets step Own ⟨{ family := family }, .unused⟩ as ↔
      Meets step Cond ⟨{ family := family }, .unused⟩ as := by
  refine meets_congr (I := fun w => Linked w.o w.phase) ?_ (fun w a h => own_iff_cond h a)
    (linked_create family)
  rintro w a w' h hs
  cases hs
  exact linked_next h a

/-- **A `send` after `close` goes to the descriptor that was closed.** -/
theorem send_after_close : ¬ Meets step Own ⟨{ family := 2 }, .unused⟩
    [(.connect ⟨2, [80]⟩, { toCalls := answers 7 ⟨2, [1]⟩ ⟨2, [80]⟩ }), (.close, {}),
      (.send 5, {})] := by
  intro h
  have hs := (((h.2 _ rfl).2 _ rfl).1 ⟨[(.write, some 7)], 5⟩ rfl).own _ List.mem_cons_self
  exact absurd hs.1 (by decide)

end Sylar.SslSession
