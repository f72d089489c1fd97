import Sylar.FiberModel
import Mathlib.Algebra.Ring.Int.Defs

/-!
The descriptor contexts and the hooked functions.

`FdManager` keeps one `FdCtx` for a descriptor, made when the hooks first hand the descriptor
out. A hooked function is the source's function with the original one as an argument: a
`Libc` says what a call of the original returns and what it makes of the kernel's side, which
here is the table of open descriptors with their status flags. The calls that the contexts
make themselves, `fstat` and `fcntl` for the flags, may fail when the environment says so.

`datas_` is a function of the descriptor here; the vector and the two locks are modelled
apart. What `do_io` and `connect_with_timeout` do once they have to wait is modelled apart
too.
-/

namespace Sylar.HookModel

abbrev Flags := BitVec 32

def O_NONBLOCK : Flags := 0x800

/-- `O_APPEND`, `O_NONBLOCK`, `O_ASYNC`, `O_DIRECT` and `O_NOATIME`: what `F_SETFL` changes. -/
def settable : Flags := 0x46c00

def nonblock (flags : Flags) : Bool := flags &&& O_NONBLOCK ≠ 0

/-! ### The kernel's side -/

structure Desc where
  flags : Flags
  /-- `S_ISSOCK`. -/
  sock : Bool
  deriving DecidableEq

structure Kernel where
  /-- The open descriptors. -/
  descs : ℤ → Option Desc

/-- What an original function returns, and what it makes of the kernel. -/
abbrev Libc := Kernel → ℤ × Kernel

namespace Kernel

def setDesc (k : Kernel) (fd : ℤ) (d : Option Desc) : Kernel := ⟨Function.update k.descs fd d⟩

/-- `fstat`, as far as it tells a socket; nothing when it fails. -/
def fstat (ok : Bool) (fd : ℤ) (k : Kernel) : Option Bool :=
  if ok then (k.descs fd).map Desc.sock else none

/-- `fcntl_f(fd, F_GETFL)`: the flags, or `-1`. -/
def getfl (ok : Bool) (fd : ℤ) (k : Kernel) : Flags :=
  match ok, k.descs fd with
  | true, some d => d.flags
  | _, _ => -1

def setfl (ok : Bool) (fd : ℤ) (arg : Flags) : Libc := fun k =>
  match ok, k.descs fd with
  | true, some d =>
    (0, k.setDesc fd (some { d with flags := d.flags &&& ~~~settable ||| arg &&& settable }))
  | _, _ => (-1, k)

/-- `ioctl_f(d, FIONBIO, arg)`, where `arg` points to the given `int`, or to nothing that can be
read: that is `EFAULT`. -/
def fionbio (ok : Bool) (fd : ℤ) (arg : Option ℤ) : Libc := fun k =>
  match ok, k.descs fd, arg with
  | true, some d, some v =>
    (0, k.setDesc fd (some { d with
      flags := if v ≠ 0 then d.flags ||| O_NONBLOCK else d.flags &&& ~~~O_NONBLOCK }))
  | _, _, _ => (-1, k)

end Kernel

/-! ### Contexts -/

structure FdCtx where
  isInit : Bool := false
  isSocket : Bool := false
  sysNonblock : Bool := false
  userNonblock : Bool := false
  isClosed : Bool := false
  fd : ℤ
  recvTimeout : UInt64 := -1
  sendTimeout : UInt64 := -1
  deriving DecidableEq

/-- Which of the calls made by `FdCtx::init` succeed. -/
structure InitCalls where
  fstat : Bool := true
  getfl : Bool := true
  setfl : Bool := true

inductive TimeoutSo
  | rcv | snd
  deriving DecidableEq

namespace FdCtx

/-- The flags are read and written in `init` with the original `fcntl`. -/
def initFlags (fd : ℤ) (o : InitCalls) (k : Kernel) : Kernel :=
  let flags := k.getfl o.getfl fd
  if flags &&& O_NONBLOCK = 0 then (Kernel.setfl o.setfl fd (flags ||| O_NONBLOCK) k).2 else k

def new (fd : ℤ) (o : InitCalls) (k : Kernel) : FdCtx × Kernel :=
  match k.fstat o.fstat fd with
  | none => ({ fd := fd }, k)
  | some false => ({ fd := fd, isInit := true }, k)
  | some true =>
    ({ fd := fd, isInit := true, isSocket := true, sysNonblock := true }, initFlags fd o k)

def setTimeout (c : FdCtx) (type : TimeoutSo) (v : UInt64) : FdCtx :=
  match type with
  | .rcv => { c with recvTimeout := v }
  | .snd => { c with sendTimeout := v }

def getTimeout (c : FdCtx) : TimeoutSo → UInt64
  | .rcv => c.recvTimeout
  | .snd => c.sendTimeout

end FdCtx

/-- `datas_` is read outside its range, or an argument that points nowhere is read. -/
inductive Fault
  | datas
  | arg
  deriving DecidableEq

structure World where
  /-- `datas_` of the `FdManager`. -/
  datas : ℤ → Option FdCtx
  kernel : Kernel

namespace World

def setData (w : World) (fd : ℤ) (c : Option FdCtx) : World :=
  { w with datas := Function.update w.datas fd c }

/-- `FdManager::get(fd)`. Only `-1` is kept from being an index. -/
def get (w : World) (fd : ℤ) : Except Fault (Option FdCtx) :=
  if fd = -1 then .ok none else if fd < 0 then .error .datas else .ok (w.datas fd)

def create (w : World) (fd : ℤ) (o : InitCalls) : Except Fault World :=
  match w.get fd with
  | .error e => .error e
  | .ok (some _) => .ok w
  | .ok none =>
    if fd = -1 then .ok w
    else
      let r := FdCtx.new fd o w.kernel
      .ok { (w.setData fd (some r.1)) with kernel := r.2 }

def del (w : World) (fd : ℤ) : World := w.setData fd none

def orig (w : World) (f : Libc) : ℤ × World := ((f w.kernel).1, { w with kernel := (f w.kernel).2 })

end World

/-! ### The hooked functions -/

/-- What `do_io` does with a call: hand it through, fail with `EBADF`, or wait for it with the
given timeout. -/
inductive Path
  | pass
  | ebadf
  | wait (timeout : UInt64)
  deriving DecidableEq

def doIoPath (hook : Bool) (ctx : Option FdCtx) (timeout_so : TimeoutSo) : Path :=
  if hook = false then .pass
  else match ctx with
    | none => .pass
    | some ctx =>
      if ctx.isClosed then .ebadf
      else if ctx.isSocket = false ∨ ctx.userNonblock = true then .pass
      else .wait (ctx.getTimeout timeout_so)

def socket (hook : Bool) (w : World) (socket_f : Libc) (o : InitCalls) : Except Fault (ℤ × World) :=
  let r := w.orig socket_f
  if hook = false ∨ r.1 = -1 then .ok r
  else match r.2.create r.1 o with
    | .error e => .error e
    | .ok w => .ok (r.1, w)

/-- `do_io`, where `waits` is what becomes of a call that has to wait with the given timeout. -/
def doIo (hook : Bool) (w : World) (fd : ℤ) (timeout_so : TimeoutSo) (f : Libc)
    (waits : UInt64 → World → ℤ × World) : Except Fault (ℤ × World) :=
  if hook = false then .ok (w.orig f)
  else match w.get fd with
    | .error e => .error e
    | .ok ctx =>
      match doIoPath hook ctx timeout_so with
      | .pass => .ok (w.orig f)
      | .ebadf => .ok (-1, w)
      | .wait timeout => .ok (waits timeout w)

def accept (hook : Bool) (w : World) (s : ℤ) (accept_f : Libc)
    (waits : UInt64 → World → ℤ × World) (o : InitCalls) : Except Fault (ℤ × World) :=
  match doIo hook w s .rcv accept_f waits with
  | .error e => .error e
  | .ok r =>
    if r.1 ≥ 0 then
      match r.2.create r.1 o with
      | .error e => .error e
      | .ok w => .ok (r.1, w)
    else .ok r

/-- `connect_with_timeout`, where `waits` is what becomes of a call on a managed socket. -/
def connectWithTimeout (hook : Bool) (w : World) (fd : ℤ) (connect_f : Libc)
    (waits : World → ℤ × World) : Except Fault (ℤ × World) :=
  if hook = false then .ok (w.orig connect_f)
  else match w.get fd with
    | .error e => .error e
    | .ok none => .ok (-1, w)
    | .ok (some ctx) =>
      if ctx.isClosed then .ok (-1, w)
      else if ctx.isSocket = false ∨ ctx.userNonblock = true then .ok (w.orig connect_f)
      else .ok (waits w)

/-- `close`, without the calls of `cancelAll`, which touches neither the contexts nor the
flags. -/
def close (hook : Bool) (w : World) (fd : ℤ) (close_f : Libc) : Except Fault (ℤ × World) :=
  if hook = false then .ok (w.orig close_f)
  else match w.get fd with
    | .error e => .error e
    | .ok none => .ok (w.orig close_f)
    | .ok (some _) => .ok ((w.del fd).orig close_f)

/-- The context of an open socket, which is the only one `fcntl` and `ioctl` look at. -/
def managed (ctx : Option FdCtx) : Option FdCtx :=
  ctx.filter fun c => !c.isClosed && c.isSocket

def fcntlSetfl (w : World) (fd : ℤ) (arg : Flags) (ok : Bool) : Except Fault (ℤ × World) :=
  match w.get fd with
  | .error e => .error e
  | .ok ctx =>
    match managed ctx with
    | none => .ok (w.orig (Kernel.setfl ok fd arg))
    | some c =>
      let w := w.setData fd (some { c with userNonblock := nonblock arg })
      let arg := if c.sysNonblock then arg ||| O_NONBLOCK else arg &&& ~~~O_NONBLOCK
      .ok (w.orig (Kernel.setfl ok fd arg))

def fcntlGetfl (w : World) (fd : ℤ) (ok : Bool) : Except Fault ℤ :=
  let arg := w.kernel.getfl ok fd
  match w.get fd with
  | .error e => .error e
  | .ok ctx =>
    match managed ctx with
    | none => .ok arg.toInt
    | some c =>
      .ok (if c.userNonblock then arg ||| O_NONBLOCK else arg &&& ~~~O_NONBLOCK).toInt

/-- The other commands that `fcntl` knows, and those it does not know. -/
inductive FcntlCmd
  | dupfd | dupfdCloexec | setfd | setown | setsig | setlease | notify | setpipeSz
  | getfd | getown | getsig | getlease | getpipeSz
  | setlk | setlkw | getlk
  | getownEx | setownEx
  | other (cmd : ℤ)
  deriving DecidableEq

def FcntlCmd.passes : FcntlCmd → Bool
  | .dupfd | .dupfdCloexec | .setfd | .setown | .setsig | .setlease | .notify | .setpipeSz => true
  | .setlk | .setlkw | .getlk | .getownEx | .setownEx => true
  | .getfd | .getown | .getsig | .getlease | .getpipeSz | .other _ => false

/-- `fcntl` with any other command; `fcntl_f` is what the original does with the third argument
it is given, if it is given one. -/
def fcntl (w : World) (cmd : FcntlCmd) (arg : Option ℤ) (fcntl_f : Option ℤ → Libc) : ℤ × World :=
  w.orig (fcntl_f (if cmd.passes then arg else none))

/-- `ioctl(d, FIONBIO, arg)`. The `int` is read before anything is asked. -/
def ioctlFionbio (w : World) (d : ℤ) (arg : Option ℤ) (ok : Bool) : Except Fault (ℤ × World) :=
  match arg with
  | none => .error .arg
  | some v =>
    match w.get d with
    | .error e => .error e
    | .ok ctx =>
      match managed ctx with
      | none => .ok (w.orig (Kernel.fionbio ok d arg))
      | some c =>
        let w := w.setData d (some { c with userNonblock := v ≠ 0 })
        .ok (w.orig (Kernel.fionbio ok d arg))

/-- `ioctl` with any other request. -/
def ioctl (w : World) (ioctl_f : Libc) : ℤ × World := w.orig ioctl_f

def IsLong (x : ℤ) : Prop := -2 ^ 63 ≤ x ∧ x < 2 ^ 63

instance (x : ℤ) : Decidable (IsLong x) := inferInstanceAs (Decidable (_ ∧ _))

/-- `v->tv_sec * 1000 + v->tv_usec / 1000`, which is undefined when it overflows. -/
def timevalMs (tv_sec tv_usec : ℤ) : Option UInt64 :=
  let ms := tv_sec * 1000 + tv_usec.tdiv 1000
  if IsLong (tv_sec * 1000) ∧ IsLong ms then some (UInt64.ofInt ms) else none

/-- `setsockopt(sockfd, SOL_SOCKET, optname, &v, sizeof(v))` for a timeout. No world follows an
overflow. -/
def setsockoptTimeout (hook : Bool) (w : World) (sockfd : ℤ) (optname : TimeoutSo)
    (tv_sec tv_usec : ℤ) (setsockopt_f : Libc) : Except Fault (Option (ℤ × World)) :=
  if hook = false then .ok (some (w.orig setsockopt_f))
  else match w.get sockfd with
    | .error e => .error e
    | .ok none => .ok (some (w.orig setsockopt_f))
    | .ok (some c) =>
      .ok ((timevalMs tv_sec tv_usec).map fun v =>
        (w.setData sockfd (some (c.setTimeout optname v))).orig setsockopt_f)

/-- `setsockopt` with any other level or option. -/
def setsockopt (w : World) (setsockopt_f : Libc) : ℤ × World := w.orig setsockopt_f

/-! ### The bit, and the contexts of descriptors -/

lemma nonblock_eq (f : Flags) : nonblock f = f.getLsbD 11 := by
  have h : O_NONBLOCK = BitVec.twoPow 32 11 := by decide
  have hne : BitVec.twoPow 32 11 ≠ 0 := by decide
  rw [nonblock, h, BitVec.and_twoPow]
  cases f.getLsbD 11 with
  | false => simp
  | true => simpa using hne

lemma nonblock_or (f : Flags) : nonblock (f ||| O_NONBLOCK) = true := by
  rw [nonblock_eq, BitVec.getLsbD_or, show O_NONBLOCK.getLsbD 11 = true by decide, Bool.or_true]

lemma nonblock_and_not (f : Flags) : nonblock (f &&& ~~~O_NONBLOCK) = false := by
  rw [nonblock_eq, BitVec.getLsbD_and, show (~~~O_NONBLOCK).getLsbD 11 = false by decide,
    Bool.and_false]

lemma nonblock_settable (f arg : Flags) :
    nonblock (f &&& ~~~settable ||| arg &&& settable) = nonblock arg := by
  rw [nonblock_eq, nonblock_eq, BitVec.getLsbD_or, BitVec.getLsbD_and, BitVec.getLsbD_and,
    show (~~~settable).getLsbD 11 = false by decide, show settable.getLsbD 11 = true by decide]
  simp

lemma get_natCast (w : World) (fd : ℕ) : w.get fd = .ok (w.datas fd) := by
  unfold World.get
  rw [if_neg (by omega), if_neg (by omega)]

end Sylar.HookModel
