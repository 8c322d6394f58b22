import Rlibhv.Library.Bytes
import Rlibhv.Library.Queue
import Rlibhv.Library.Relay

-- The objects of libhv's event loop as far as the TCP echo server reaches them, and the part of the
-- operating system that it uses.
namespace Rlibhv

abbrev Fd := Nat

-- The identity of an open file. In contrast to descriptor numbers these are never reused, so that
-- the number of an accepted socket identifies the connection.
abbrev Serial := Nat

abbrev Payload := List UInt8

-- `error : Option Errno` stands for C's `int error`, where 0 is `none`.
inductive Errno
  | again
  | intr
  | msgsize
  | timedout
  | overLimit -- libhv's own ERR_OVER_LIMIT
  | other (code : Nat)
  deriving DecidableEq

-- The conditions EAGAIN and EINTR, on which libhv tries again later.
def Errno.retry : Errno → Bool
  | again | intr => true
  | _            => false

-- Sets of HV_READ and HV_WRITE.
@[ext]
structure Events where
  rd : Bool := false
  wr : Bool := false
  deriving DecidableEq

namespace Events

def read : Events := { rd := true }

def write : Events := { wr := true }

def rdwr : Events := { rd := true, wr := true }

def isEmpty (e : Events) : Bool :=
  !e.rd && !e.wr

def union (e₁ e₂ : Events) : Events where
  rd := e₁.rd || e₂.rd
  wr := e₁.wr || e₂.wr

def inter (e₁ e₂ : Events) : Events where
  rd := e₁.rd && e₂.rd
  wr := e₁.wr && e₂.wr

def diff (e₁ e₂ : Events) : Events where
  rd := e₁.rd && !e₂.rd
  wr := e₁.wr && !e₂.wr

end Events

inductive Priority
  | lowest
  | low
  | normal
  | high
  | highest
  deriving DecidableEq

inductive IoType
  | unknown
  | stdin
  | stdout
  | stderr
  | file
  | tcp
  deriving DecidableEq

-- The mask HIO_TYPE_SOCKET. Among the types that occur here, HIO_TYPE_SOCK_STREAM selects the same.
def IoType.isSocket : IoType → Bool
  | tcp => true
  | _   => false

-- The read callbacks in use, `on_recv` of the echo server and `eventfd_read_cb` of the loop.
inductive ReadCb
  | onRecv
  | eventfd
  deriving DecidableEq

-- base/hbuf.h: the length of the buffer is the length of `base`.
structure OffsetBuf where
  base   : Payload
  offset : Nat

def OffsetBuf.remain (b : OffsetBuf) : Payload :=
  b.base.drop b.offset

-- base/hbuf.h: `fifo_buf_t` without its bytes, which belong to the loop or to the io.
structure FifoBuf where
  len  : Nat := 0
  head : Nat := 0
  tail : Nat := 0
  deriving DecidableEq

structure Hbuf where
  base : Payload := []
  len  : Nat := 0

def hloopReadBufsize : Nat := 8192

def readBufsizeHighWater : Nat := 65536

def maxReadBufsize : Nat := 2 ^ 24

def maxWriteBufsize : Nat := 2 ^ 24

def hioDefaultCloseTimeout : Nat := 60000

-- event/hevent.h: `struct hio_s`. The fields that the echo server never sets (read flags, unpacking,
-- TLS, upstreams, the other timers) are left out.
structure Hio where
  destroy           : Bool := false
  active            : Bool := false
  pending           : Bool := false
  priority          : Priority := .normal
  cb                : Bool := false -- is `hio_handle_events` installed
  ready             : Bool := false
  closed            : Bool := false
  accept            : Bool := false
  close             : Bool := false
  allocedReadbuf    : Bool := false
  ioType            : IoType := .unknown
  id                : Nat := 0
  error             : Option Errno := none
  events            : Events := {}
  revents           : Events := {}
  readbuf           : FifoBuf := {}
  ownReadbuf        : Payload := [] -- the bytes of the buffer if `allocedReadbuf`
  smallReadbytesCnt : Nat := 0
  writeQueue        : Queue OffsetBuf := .empty
  writeBufsize      : Nat := 0
  readCb            : Option ReadCb := none
  closeCb           : Bool := false -- is `on_close` installed
  acceptCb          : Bool := false -- is `on_accept` installed
  closeTimeout      : Nat := 0
  closeTimer        : Option Nat := none

-- The bytes that are queued and not yet sent, in the order in which they are going to be sent.
def Hio.backlog (io : Hio) : Payload :=
  io.writeQueue.toList.flatMap OffsetBuf.remain

-- A one-shot timer whose `privdata` is the io at `io` and whose callback is `__close_timeout_cb`.
structure Htimer where
  id          : Nat
  io          : Fd
  nextTimeout : Nat
  destroy     : Bool := false
  active      : Bool := true
  pending     : Bool := false
  deriving DecidableEq

-- Members of the lists of pending events.
inductive Pending
  | io (fd : Fd)
  | timer (id : Nat)
  deriving DecidableEq

-- A custom event with callback `hio_close_event_cb`: `io` is its `userdata`, `id` its `privdata`.
-- The connection that posted the event is a ghost.
structure CloseEvent where
  io     : Fd
  id     : Nat
  poster : Option Serial
  deriving DecidableEq

-- event/hevent.h: `struct hloop_s` without its status, which the code that runs inside of a loop
-- iteration neither reads nor writes. The heap of timers is a list ordered by timeout, those with the
-- same timeout in any order. A descriptor of -1 and a watcher of NULL are `none`.
structure Loop where
  ios           : Fd → Option Hio := fun _ => none
  iosMaxsize    : Nat := 0
  nios          : Nat := 0
  timers        : List Htimer := []
  timerCount    : Nat := 0 -- the number of timers allocated so far
  pendings      : Priority → List Pending := fun _ => []
  npendings     : Nat := 0
  readbuf       : Hbuf := {}
  iowatcher     : Option Fd := none
  eventfds      : Option Fd := none
  internNevents : Nat := 0
  customEvents  : Queue CloseEvent := .empty
  curHrtime     : Nat := 0

inductive Kind
  | listen
  | conn
  | epoll
  | eventfd
  deriving DecidableEq

structure Desc where
  serial : Serial
  kind   : Kind
  deriving DecidableEq

-- The open descriptors of the process, the interest list of the epoll instance, and the counter of
-- the eventfd.
structure Kernel where
  fds          : Fd → Option Desc := fun _ => none
  next         : Serial := 0
  interest     : Fd → Events := fun _ => {}
  eventfdCount : Nat := 0

-- What can be observed of a run: system calls on descriptors and calls of the echo server's
-- callbacks. `send c bs` records that the kernel accepted `bs`. `closeEvent p c` records that a close
-- posted by `p` is carried out on `c`.
inductive Event
  | opened (d : Serial) (k : Kind)
  | closed (d : Serial)
  | closeFailed (fd : Fd)
  | recv (c : Serial) (bs : Payload)
  | send (c : Serial) (bs : Payload)
  | onAccept (c : Serial)
  | onRecv (c : Serial) (bs : Payload)
  | onClose (c : Serial) (error : Option Errno) (destroy : Bool)
  | closeEvent (poster : Option Serial) (target : Option Serial)
  deriving DecidableEq

def Event.received (c : Serial) : Event → Payload
  | recv c' bs => if c' = c then bs else []
  | _          => []

def Event.accepted (c : Serial) : Event → Payload
  | send c' bs => if c' = c then bs else []
  | _          => []

-- The bytes that `recv` returned on `c`.
def recvd (c : Serial) (t : List Event) : Payload :=
  Relay.flow (Event.received c) t

-- The bytes that `send` accepted on `c`.
def sent (c : Serial) (t : List Event) : Payload :=
  Relay.flow (Event.accepted c) t

inductive AcceptResult
  | fd (f : Fd)
  | fail (e : Errno)
  deriving DecidableEq

-- End of file is `data []`.
inductive RecvResult
  | data (bs : Payload)
  | fail (e : Errno)
  deriving DecidableEq

inductive SendResult
  | accepted (n : Nat)
  | fail (e : Errno)
  deriving DecidableEq

-- The answers of the operating system to the calls made in one step: of `accept` and `send` in order,
-- of the `recv`, of the creation of an epoll instance and of an eventfd, of writing to the eventfd, and
-- of the clock. For a new timer, `ties` says after how many of those with the same timeout it comes.
structure Answers where
  accepts : List AcceptResult := []
  recv    : RecvResult := .fail .again
  sends   : List SendResult := []
  epoll   : Option Fd := none
  eventfd : Option Fd := none
  post    : Bool := true
  now     : Nat := 0
  ties    : List (Nat × Nat) := []
  deriving DecidableEq

-- The state that the code running on the loop's thread reads and writes. The counter `sId` is the
-- static variable of `hio_next_id`.
structure World where
  loop   : Loop
  kernel : Kernel
  sId    : Nat
  trace  : List Event
  ans    : Answers

namespace World

-- Dereferencing a `hio_t*`.
def io (w : World) (f : Fd) : Hio :=
  (w.loop.ios f).getD {}

def setLoop (w : World) (g : Loop → Loop) : World :=
  { w with loop := g w.loop }

def modifyIo (w : World) (f : Fd) (g : Hio → Hio) : World :=
  w.setLoop fun l => { l with ios := Function.update l.ios f ((l.ios f).map g) }

def log (w : World) (e : Event) : World :=
  { w with trace := w.trace ++ [e] }

def serial (w : World) (f : Fd) : Option Serial :=
  (w.kernel.fds f).map (·.serial)

end World
end Rlibhv
