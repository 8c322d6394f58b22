import Rlibhv.Event.Hloop
import Rlibhv.Event.Life
import Mathlib.Logic.Relation

-- The effects that the code running on the loop's thread can have on the world.
namespace Rlibhv

def World.kind (w : World) (f : Fd) : Option Kind :=
  (w.kernel.fds f).map (·.kind)

namespace Hio

-- The fields of an io that stay as they are while its connection is open.
def hard (io : Hio) : Hio :=
  { io with
    close        := false
    error        := none
    events       := { io.events with wr := false }
    revents      := {}
    writeQueue   := .empty
    writeBufsize := 0
    closeTimeout := 0
    closeTimer   := none }

-- The fields of an io that polling and dispatching leave alone.
def core (io : Hio) : Hio :=
  { io with pending := false, revents := {} }

-- The fields of an io that neither changes.
def solid (io : Hio) : Hio :=
  io.hard.core

-- There are no empty chunks in the queue.
def Full (io : Hio) : Prop :=
  ∀ b ∈ io.writeQueue.toList, b.remain ≠ []

structure Ready (io : Hio) : Prop where
  ready   : io.ready = true
  closed  : io.closed = false
  active  : io.active = true
  cb      : io.cb = true
  alloced : io.allocedReadbuf = false
  small   : io.smallReadbytesCnt = 0
  readbuf : io.readbuf = { len := hloopReadBufsize, head := 0, tail := 0 }

-- The io of an open connection.
structure Live (io : Hio) : Prop extends io.Ready where
  accept   : io.accept = false
  tcp      : io.ioType = .tcp
  closeCb  : io.closeCb = true
  readCb   : io.readCb = some .onRecv
  priority : io.priority = .normal
  rd       : io.events.rd = true

-- The io of the server's socket.
structure Listening (io : Hio) : Prop extends io.Ready where
  accept   : io.accept = true
  tcp      : io.ioType = .tcp
  closeCb  : io.closeCb = false
  acceptCb : io.acceptCb = true
  priority : io.priority = .high
  events   : io.events = .read
  queue    : io.writeQueue.toList = []
  timer    : io.closeTimer = none

-- The io of the loop's eventfd.
structure Waking (io : Hio) : Prop extends io.Ready where
  accept   : io.accept = false
  file     : io.ioType.isSocket = false
  closeCb  : io.closeCb = false
  readCb   : io.readCb = some .eventfd
  priority : io.priority = .high
  events   : io.events = .read
  queue    : io.writeQueue.toList = []
  timer    : io.closeTimer = none

-- The io of a closed connection, which waits for its descriptor to be used again.
structure Dead (io : Hio) : Prop where
  ready    : io.ready = false
  closed   : io.closed = true
  active   : io.active = false
  events   : io.events = {}
  queue    : io.writeQueue.toList = []
  priority : io.priority = .normal

-- The condition under which `hio_close` does not close at once.
def Defers (io : Hio) : Prop :=
  io.writeQueue.toList ≠ [] ∧ io.error = none ∧ io.close = false ∧ io.destroy = false

end Hio

-- The io at a descriptor is one for what is open there. While a loop is torn down, the eventfd stays
-- open when its io is gone.
def Fits : Option Kind → Option Hio → Prop
  | some .conn,    some io => io.Live
  | some .listen,  some io => io.Listening
  | some .eventfd, some io => io.Waking
  | none,          some io => io.Dead
  | some .conn,    none    => False
  | some .listen,  none    => False
  | some .epoll,   some _  => False
  | _,             none    => True

-- The connection `c` is open at descriptor `f`, whose io is `io`.
structure Conn (f : Fd) (c : Serial) (io : Hio) (w : World) : Prop where
  fds       : w.kernel.fds f = some ⟨c, .conn⟩
  ios       : w.loop.ios f = some io
  live      : io.Live
  iowatcher : w.loop.iowatcher.isSome
  eventfds  : w.loop.eventfds.isSome

-- What all code that works on a single io leaves alone.
structure Outside (f : Fd) (w w' : World) : Prop where
  ios       : ∀ g ≠ f, w'.loop.ios g = w.loop.ios g
  iowatcher : w'.loop.iowatcher = w.loop.iowatcher
  eventfds  : w'.loop.eventfds = w.loop.eventfds
  intern    : w'.loop.internNevents = w.loop.internNevents
  timers    : ∀ t ∈ w'.loop.timers, (∃ t' ∈ w.loop.timers, t'.io = t.io) ∨ t.io = f
  fds       : ∀ g ≠ f, w'.kernel.fds g = w.kernel.fds g
  interest  : ∀ g ≠ f, w'.kernel.interest g = w.kernel.interest g

-- What code that works on the io of an existing descriptor leaves alone.
structure Frame (f : Fd) (w w' : World) : Prop extends Outside f w w' where
  maxsize : w'.loop.iosMaxsize = w.loop.iosMaxsize
  readbuf : w'.loop.readbuf.len = w.loop.readbuf.len
  next    : w'.kernel.next = w.kernel.next
  sId     : w'.sId = w.sId
  post    : w'.ans.post = w.ans.post
  sends   : w'.ans.sends ⊆ w.ans.sends

-- The effect of code that changes the io at `f` to `io` and does nothing that can be observed.
structure Edit (f : Fd) (w w' : World) (io : Hio) : Prop extends Frame f w w' where
  timers' : ∀ t ∈ w'.loop.timers, ∃ t' ∈ w.loop.timers, t'.io = t.io
  fdsSelf : w'.kernel.fds f = w.kernel.fds f
  iosSelf : w'.loop.ios f = some io
  trace   : w'.trace = w.trace
  events  : w'.loop.customEvents = w.loop.customEvents
  count   : w'.kernel.eventfdCount = w.kernel.eventfdCount
  ans     : w'.ans = w.ans

-- The effect of code that works on an open connection and does not close it.
structure Touch (f : Fd) (c : Serial) (io io' : Hio) (t : List Event) (w w' : World) : Prop
    extends Frame f w w' where
  fdsSelf : w'.kernel.fds f = w.kernel.fds f
  iosSelf : w'.loop.ios f = some io'
  hard    : io'.hard = io.hard
  error   : io.error ≠ none → io'.error ≠ none
  trace   : w'.trace = w.trace ++ t
  data    : ∀ e ∈ t, e.Data c
  posts   : ∃ n, w'.loop.customEvents.toList =
    w.loop.customEvents.toList ++ .replicate n { io := f, id := io.id, poster := some c } ∧
    w'.kernel.eventfdCount = w.kernel.eventfdCount + n
  count   : w.kernel.eventfdCount < 2 ^ 64 → w'.kernel.eventfdCount < 2 ^ 64

-- The effect of closing the connection `c`.
structure Shut (f : Fd) (c : Serial) (io : Hio) (w w' : World) : Prop extends Frame f w w' where
  timers' : ∀ t ∈ w'.loop.timers, ∃ t' ∈ w.loop.timers, t'.io = t.io
  fdsSelf : w'.kernel.fds f = none
  iosSelf : ∃ io', w'.loop.ios f = some io' ∧ io'.Dead ∧
    io'.pending = io.pending ∧ io'.destroy = io.destroy
  trace   : w'.trace = w.trace ++ [.onClose c io.error io.destroy, .closed c]
  events  : w'.loop.customEvents = w.loop.customEvents
  count   : w'.kernel.eventfdCount = w.kernel.eventfdCount

-- The effect of accepting a connection at `f`.
structure Birth (f : Fd) (w w' : World) : Prop extends Outside f w w' where
  fresh   : w.kernel.fds f = none
  fdsSelf : w'.kernel.fds f = some ⟨w.kernel.next, .conn⟩
  iosSelf : ∃ io, w'.loop.ios f = some io ∧ io.Live ∧ io.id = (w.sId + 1) % 2 ^ 32 ∧
    io.error = none ∧ io.writeQueue.toList = [] ∧ io.destroy = false ∧
    io.pending = (w.io f).pending
  maxsize : w.loop.iosMaxsize ≤ w'.loop.iosMaxsize ∧ f < w'.loop.iosMaxsize
  readbuf : w'.loop.readbuf.len = hloopReadBufsize
  next    : w'.kernel.next = w.kernel.next + 1
  sId     : w'.sId = w.sId + 1
  trace   : w'.trace = w.trace ++ [.opened w.kernel.next .conn, .onAccept w.kernel.next]
  events  : w'.loop.customEvents = w.loop.customEvents
  count   : w'.kernel.eventfdCount = w.kernel.eventfdCount

-- The effect of code that works on an io that belongs to no open connection.
structure Aside (f : Fd) (w w' : World) : Prop extends Frame f w w' where
  kind    : w.kind f ≠ some .conn
  timers' : ∀ t ∈ w'.loop.timers, ∃ t' ∈ w.loop.timers, t'.io = t.io
  fdsSelf : w'.kernel.fds f = w.kernel.fds f
  fits    : Fits (w.kind f) (w.loop.ios f) → Fits (w.kind f) (w'.loop.ios f)
  isSome  : (w'.loop.ios f).isSome → (w.loop.ios f).isSome
  destroy : (w.io f).destroy = false → (w'.io f).destroy = false
  pending : (w'.io f).pending → (w.io f).pending
  trace   : w'.trace = w.trace
  events  : w'.loop.customEvents = w.loop.customEvents
  count   : w'.kernel.eventfdCount ≤ w.kernel.eventfdCount

-- The effect of polling, of the bookkeeping of timers, and of the like.
structure Rest (w w' : World) : Prop where
  ios       : ∀ f, (w'.loop.ios f).map Hio.core = (w.loop.ios f).map Hio.core
  maxsize   : w'.loop.iosMaxsize = w.loop.iosMaxsize
  iowatcher : w'.loop.iowatcher = w.loop.iowatcher
  eventfds  : w'.loop.eventfds = w.loop.eventfds
  readbuf   : w'.loop.readbuf.len = w.loop.readbuf.len
  timers    : ∀ t ∈ w'.loop.timers, ∃ t' ∈ w.loop.timers, t'.io = t.io
  kernel    : w'.kernel = w.kernel
  sId       : w'.sId = w.sId
  trace     : w'.trace = w.trace
  events    : w'.loop.customEvents = w.loop.customEvents

-- The effect of taking the event `ev` from the queue. Whether it is carried out depends on the id of
-- the io.
structure Pop (ev : CloseEvent) (w w' : World) : Prop where
  loop   : w'.loop = { w.loop with customEvents := w.loop.customEvents.popFront }
  front  : w.loop.customEvents.toList.head? = some ev
  kernel : w'.kernel = w.kernel
  sId    : w'.sId = w.sId
  trace  : w'.trace = w.trace ∨
    ((w.io ev.io).id = ev.id ∧ w'.trace = w.trace ++ [.closeEvent ev.poster (w.serial ev.io)])

-- What is known of the bytes of a connection `c` when its io has gone from `io` to `io'` and the
-- events `t` have occurred: the bytes that have been queued before and that have been received are
-- sent, queued or, in the case of a failure, lost from the end.
structure Relayed (c : Serial) (io io' : Hio) (t : List Event) (lost : Payload) : Prop where
  order : ∃ tin tout, t = tin ++ tout ∧
    (∀ e ∈ tin, e.accepted c = []) ∧ (∀ e ∈ tout, e.received c = [])
  flow  : io.backlog ++ recvd c t = sent c t ++ io'.backlog ++ lost
  loss  : lost ≠ [] → io'.error ≠ none ∨ (.send c [] ∈ t ∧ io'.writeQueue.toList = [])
  drain : recvd c t = [] → io.writeQueue.toList = [] → io'.writeQueue.toList = []
  full  : io.Full → io'.Full

-- A close is in the queue `es` for the io at `f` while its id is `id`.
def Posted (f : Fd) (id : Nat) (es : List CloseEvent) : Prop :=
  ∃ ev ∈ es, ev.io = f ∧ ev.id = id

-- Writing to the eventfd succeeds.
def CanPost (w : World) : Prop :=
  w.ans.post = true ∧ w.kernel.eventfdCount + 2 < 2 ^ 64

-- Nothing is posted.
structure Quiet (w w' : World) : Prop where
  events : w'.loop.customEvents = w.loop.customEvents
  count  : w'.kernel.eventfdCount = w.kernel.eventfdCount

-- When bytes are lost a close is posted, and neither happens without an error or a `send` that
-- accepted nothing.
structure Losing (f : Fd) (id : Nat) (io : Hio) (w w' : World) (lost : Payload) : Prop where
  posted : lost ≠ [] → CanPost w → Posted f id w'.loop.customEvents.toList
  reason : lost ≠ [] ∨ ¬Quiet w w' → io.error ≠ none ∨ .accepted 0 ∈ w.ans.sends

-- The effect of code that works on an open connection without reading from it. `K` holds of the io if
-- the connection gets closed.
def Flush (K : Hio → Prop) (f : Fd) (c : Serial) (io : Hio) (w w' : World) : Prop :=
  ∃ io' t w₁, Touch f c io io' t w w₁ ∧ Quiet w w₁ ∧ Relayed c io io' t [] ∧
    (∀ e ∈ t, e.received c = []) ∧ (w' = w₁ ∨ Shut f c io' w₁ w' ∧ K io')

-- The effect of code that works on an open connection. What `recv` answers with EMSGSIZE is not a
-- chunk of received bytes.
def Visit (K : Hio → Prop) (f : Fd) (c : Serial) (io : Hio) (w w' : World) : Prop :=
  ∃ io' t lost w₁, Touch f c io io' t w w₁ ∧
    (w.ans.recv ≠ .fail .msgsize → Relayed c io io' t lost) ∧
    Losing f io.id io' w w₁ lost ∧
    (w' = w₁ ∨ Shut f c io' w₁ w' ∧ K io')

-- The effect of carrying out a close that has been taken from the queue.
structure Carried (K : Hio → Prop) (ev : CloseEvent) (w w' : World) : Prop where
  effect : w' = w ∨ ∃ c io, Conn ev.io c io w ∧ Flush K ev.io c io w w'
  closes : ∀ c io, Conn ev.io c io w → io.id = ev.id → ¬io.Defers → w'.kernel.fds ev.io = none

-- The steps that callbacks consist of, apart from visits of connections and the handling of the
-- eventfd.
inductive Move (K : Hio → Prop) : World → World → Prop
  | flush {f c io w w'} : Conn f c io w → Flush K f c io w w' → Move K w w'
  | birth {f w w'} : w.loop.iowatcher.isSome ∧ w.loop.eventfds.isSome → Birth f w w' → Move K w w'
  | aside {f w w'} : w.kind f ≠ some .eventfd → Quiet w w' → Aside f w w' → Move K w w'
  | event {ev w w₁ w'} : Pop ev w w₁ → Carried K ev w₁ w' → Move K w w'

-- All that happens in callbacks and between them. `R` is what is known when a connection is visited.
inductive Effect (K : Hio → Prop) (R : Fd → Hio → World → Prop) : World → World → Prop
  | move {w w'} : Move K w w' → Effect K R w w'
  | aside {f w w'} : Aside f w w' → Effect K R w w'
  | rest {w w'} : Rest w w' → Effect K R w w'
  | visit {f c io w w'} : R f io w → Conn f c io w → Visit K f c io w w' → Effect K R w w'

abbrev Moves (K : Hio → Prop) : World → World → Prop :=
  Relation.ReflTransGen (Move K)

abbrev Effects (K : Hio → Prop) (R : Fd → Hio → World → Prop) : World → World → Prop :=
  Relation.ReflTransGen (Effect K R)

end Rlibhv
