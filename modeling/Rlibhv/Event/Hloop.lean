import Rlibhv.Event.Nio

-- The phases of a loop iteration, the creation of the server and the teardown in event/hloop.c.
namespace Rlibhv

structure EpollEvents where
  in' : Bool := false
  out : Bool := false
  err : Bool := false
  hup : Bool := false
  deriving DecidableEq

-- The result of `epoll_wait`, which is the list of reported descriptors or a failure.
inductive PollResult
  | ready (rs : List (Fd × EpollEvents))
  | fail (e : Errno)
  deriving DecidableEq

def EpollEvents.revents (e : EpollEvents) : Events where
  rd := e.in' || e.hup || e.err
  wr := e.out || e.hup || e.err

-- EVENT_PENDING for ios.
def eventPending (f : Fd) (w : World) : World :=
  if (w.io f).pending then w else
    let w := w.modifyIo f fun io => { io with pending := true }
    let p := (w.io f).priority
    w.setLoop fun l => { l with
      npendings := l.npendings + 1
      pendings  := Function.update l.pendings p (.io f :: l.pendings p) }

def pollEvent (w : World) (r : Fd × EpollEvents) : World :=
  if r.2.revents.isEmpty ∨ (w.loop.ios r.1).isNone then w else
    eventPending r.1 <|
      w.modifyIo r.1 fun io => { io with revents := io.revents.union r.2.revents }

def iowatcherPollEvents (r : PollResult) (w : World) : World :=
  match w.loop.iowatcher, r with
  | some _, .ready rs => rs.foldl pollEvent w
  | _, _              => w

def hloopProcessIos (r : PollResult) (w : World) : World :=
  iowatcherPollEvents r w

def ntimers (w : World) : Nat :=
  (w.loop.timers.filter (!·.destroy)).length

-- One round of `__hloop_process_timers`: all timers here run once, so an expired one is taken from
-- the heap and becomes pending.
def expireTimer (w : World) (t : Htimer) : World :=
  w.setLoop fun l => { l with
    timers    := l.timers.map fun u => if u.id = t.id then { u with destroy := true, pending := true } else u
    npendings := l.npendings + 1
    pendings  := Function.update l.pendings .highest (.timer t.id :: l.pendings .highest) }

def hloopProcessTimers (w : World) : World :=
  (w.loop.timers.filter fun t => !t.destroy && t.nextTimeout ≤ w.loop.curHrtime).foldl expireTimer w

-- The order in which `hloop_process_pendings` goes through the lists.
def pendingOrder (l : Loop) : List Pending :=
  l.pendings .highest ++ l.pendings .high ++ l.pendings .normal ++ l.pendings .low ++ l.pendings .lowest

-- The call of `hio_handle_events` for a pending io.
def callIo (f : Fd) (w : World) : World :=
  if (w.io f).active && (w.io f).cb then hioHandleEvents f w else w

-- One round of `hloop_process_pendings`.
def dispatchIo (f : Fd) (w : World) : World :=
  if !(w.io f).pending then w else
    let w := (callIo f w).modifyIo f fun io => { io with pending := false }
    if (w.io f).destroy then
      w.setLoop fun l => { l with ios := Function.update l.ios f none }
    else
      w

-- A timer that has been called is no longer pending, and freed if it is destroyed.
def freeTimer (id : Nat) (w : World) : World :=
  w.setLoop fun l => { l with timers := l.timers.filterMap fun t =>
    if t.id = id then if t.destroy then none else some { t with pending := false } else some t }

def dispatchTimer (id : Nat) (w : World) : World :=
  match w.loop.timers.find? (·.id = id) with
  | none   => w
  | some t =>
    if !t.pending then w else freeTimer id (if t.active then closeTimeoutCb t.io w else w)

def dispatch : Pending → World → World
  | .io f     => dispatchIo f
  | .timer id => dispatchTimer id

def clearPendings (w : World) : World :=
  w.setLoop fun l => { l with pendings := fun _ => [], npendings := 0 }

-- The result of creating, binding and listening on the server's socket.
inductive SocketResult
  | socketFail
  | bindFail (f : Fd)
  | listenFail (f : Fd)
  | ok (f : Fd)
  deriving DecidableEq

-- `hio_create_socket` for a TCP server.
def hioCreateSocket (r : SocketResult) (w : World) : Option Fd × World :=
  match r with
  | .socketFail               => (none, w)
  | .bindFail f | .listenFail f => (none, sysClose f (openFd f .listen w))
  | .ok f =>
    let w := hioGet f (openFd f .listen w)
    (some f, w.modifyIo f fun io => { io with ioType := .tcp, priority := .high })

def hloopCreateTcpServer (r : SocketResult) (w : World) : Option Fd × World :=
  match hioCreateSocket r w with
  | (none, w)   => (none, w)
  | (some f, w) => (some f, hioAccept f <| w.modifyIo f fun io => { io with acceptCb := true })

def hioFree (f : Fd) (w : World) : World :=
  if (w.loop.ios f).isNone ∨ (w.io f).destroy then w else
    let w := hioClose f <| w.modifyIo f fun io => { io with destroy := true }
    w.setLoop fun l => { l with ios := Function.update l.ios f none }

-- The last part of the loop over the ios in `hloop_cleanup` and what follows up to the read buffer.
def cleanupTimers (w : World) : World :=
  w.setLoop fun l => { l with iosMaxsize := 0, timers := [], readbuf := {} }

def iowatcherCleanup (w : World) : World :=
  match w.loop.iowatcher with
  | none   => w
  | some e => (sysClose e w).setLoop fun l => { l with iowatcher := none }

def hloopDestroyEventfds (w : World) : World :=
  match w.loop.eventfds with
  | none   => w
  | some e => (sysClose e w).setLoop fun l => { l with eventfds := none }

def cleanupCustomEvents (w : World) : World :=
  (hloopDestroyEventfds w).setLoop fun l => { l with customEvents := .empty }

end Rlibhv
