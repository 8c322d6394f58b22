import Rlibhv.Event.Hloop
import Rlibhv.Library.Run

-- RC_libhv.c: the process that calls `RC_tcp_echo_server` any number of times, one step for each
-- assignment, library call or loop callback, with SIGINT delivered between any two steps.
namespace Rlibhv

abbrev Ptr := Nat

inductive Status
  | stop
  | running
  | pause
  | destroy
  deriving DecidableEq

structure Hloop where
  status : Status := .stop
  data   : Loop := {}

-- The action taken on a signal. `other` stands for the handlers of R and of other packages.
inductive Disposition
  | dfl
  | ign
  | handleSigint
  | other (n : Nat)
  deriving DecidableEq

-- The argument of `RC_tcp_echo_server`. A real is given by what `Rf_asInteger` makes of it, where
-- `none` is NA.
inductive Sexp
  | integer (n : Option Int)
  | real (n : Option Int)
  | other
  deriving DecidableEq

-- How a call ended: by returning or by one of the calls of `Rf_error`.
inductive Outcome
  | nil
  | portNotInteger
  | portOutOfRange
  | createServerFailed (port : Int)
  deriving DecidableEq

-- `Rf_asInteger`, for which NA is the least int.
def asInteger : Sexp → Int
  | .integer (some n) | .real (some n) => n
  | _                                  => -2 ^ 31

def checkPort (sexp : Sexp) : Except Outcome Int :=
  match sexp with
  | .other => .error .portNotInteger
  | _      =>
    if asInteger sexp ≤ 0 ∨ asInteger sexp > 65535 then .error .portOutOfRange
    else .ok (asInteger sexp)

-- The steps of `hloop_free`, each named by what is done next.
inductive FreePc
  | enter
  | setDestroy
  | pendings
  | ios (i : Nat)
  | timers
  | iowatcher
  | customEvents
  | free
  | clear
  deriving DecidableEq

-- The steps of `hloop_run`, each named by what is done next.
inductive RunPc
  | enter
  | setRunning
  | eventfds
  | loop -- the condition of the while loop
  | body -- the start of its body
  | ios
  | checkStop
  | timers
  | pendings (todo : List Pending)
  | setStop
  deriving DecidableEq

-- The steps of `RC_tcp_echo_server`, each named by what is done next. `p` is the loop that the call
-- has created and `port` the port it was called with.
inductive Pc
  | idle
  | entered (sexp : Sexp)
  | hloopNew (port : Int)
  | initSigpipe (port : Int) (p : Ptr)
  | initLoop (port : Int) (p : Ptr)
  | setGLoop (port : Int) (p : Ptr)
  | createServer (port : Int) (p : Ptr)
  | setContinue (p : Ptr)
  | setSigint (p : Ptr)
  | run (p : Ptr) (r : RunPc)
  | free (p : Ptr) (r : FreePc) (o : Outcome)
  | clearGLoop
  deriving DecidableEq

structure State where
  pc              : Pc := .idle
  gLoop           : Option Ptr := none
  continueRunning : Bool := true
  heap            : Ptr → Option Hloop := fun _ => none
  nextPtr         : Ptr := 0
  kernel          : Kernel := {}
  sId             : Nat := 0
  trace           : List Event := []
  sigint          : Disposition
  sigpipe         : Disposition
  -- Ghosts: the outcomes of the calls so far, the handlers that received SIGINT, and whether a freed
  -- loop has been accessed.
  outcomes        : List Outcome := []
  received        : List Disposition := []
  useAfterFree    : Bool := false

-- The state of the process before the first call.
def State.init (sigint sigpipe : Disposition) : State :=
  { sigint, sigpipe }

inductive Act
  | call (sexp : Sexp)
  | tau
  | socket (r : SocketResult) (epoll : Fd)
  | eventfd (f : Fd)
  | clock (now : Nat)
  | poll (r : PollResult) (now : Nat)
  | callback (ans : Answers)
  | sigint
  deriving DecidableEq

-- event/hloop.c: `hloop_stop`, called by the thread of the loop.
def hloopStop (l : Hloop) : Hloop :=
  if l.status = .stop then l else { l with status := .stop }

def handleSigint (s : State) : State :=
  match s.gLoop with
  | none   => s
  | some p =>
    match s.heap p with
    | none   => { s with useAfterFree := true, continueRunning := false }
    | some l =>
      { s with heap := Function.update s.heap p (some (hloopStop l)), continueRunning := false }

-- The default action on SIGINT ends the process.
def deliverSigint (s : State) : Option State :=
  let s := { s with received := s.received ++ [s.sigint] }
  match s.sigint with
  | .dfl          => none
  | .ign          => some s
  | .handleSigint => some (handleSigint s)
  | .other _      => some s

namespace State

def world (s : State) (l : Hloop) (ans : Answers) : World where
  loop   := l.data
  kernel := s.kernel
  sId    := s.sId
  trace  := s.trace
  ans    := ans

def setLoop (s : State) (p : Ptr) (l : Hloop) : State :=
  { s with heap := Function.update s.heap p (some l) }

def setWorld (s : State) (p : Ptr) (l : Hloop) (w : World) : State :=
  { s.setLoop p { l with data := w.loop } with
    kernel := w.kernel
    sId    := w.sId
    trace  := w.trace }

-- Runs code of the loop at `p`, which is not possible if there is none.
def onLoop (s : State) (p : Ptr) (ans : Answers) (g : World → World) : Option State :=
  (s.heap p).map fun l => s.setWorld p l (g (s.world l ans))

def setStatus (s : State) (p : Ptr) (st : Status) : Option State :=
  (s.heap p).map fun l => s.setLoop p { l with status := st }

def goto (s : State) (pc : Pc) : State :=
  { s with pc := pc }

-- Leaves `RC_tcp_echo_server`.
def exit (s : State) (o : Outcome) : State :=
  { s with pc := .idle, outcomes := s.outcomes ++ [o] }

end State

-- What follows on `hloop_free(&g_loop)`.
def afterFree (s : State) : Outcome → State
  | .nil => s.goto .clearGLoop
  | o    => s.exit o

-- One step of `hloop_free(&g_loop)`, which was called with outcome `o` to come.
def stepFree (s : State) (p : Ptr) (o : Outcome) : FreePc → Option State
  | .enter      =>
    match s.gLoop with
    | none   => afterFree s o
    | some p => do
      let l ← s.heap p
      if l.status = .destroy then afterFree s o else s.goto (.free p .setDestroy o)
  | .setDestroy => (·.goto (.free p .pendings o)) <$> s.setStatus p .destroy
  | .pendings   => (·.goto (.free p (.ios 0) o)) <$> s.onLoop p {} clearPendings
  | .ios i      => do
    let l ← s.heap p
    if i < l.data.iosMaxsize then
      (·.goto (.free p (.ios (i + 1)) o)) <$> s.onLoop p {} (hioFree i)
    else
      s.goto (.free p .timers o)
  | .timers       => (·.goto (.free p .iowatcher o)) <$> s.onLoop p {} cleanupTimers
  | .iowatcher    => (·.goto (.free p .customEvents o)) <$> s.onLoop p {} iowatcherCleanup
  | .customEvents => (·.goto (.free p .free o)) <$> s.onLoop p {} cleanupCustomEvents
  | .free         => some { s with heap := Function.update s.heap p none, pc := .free p .clear o }
  | .clear        => afterFree { s with gLoop := none } o

-- One step of `hloop_run(g_loop)`. All flags of the loop are 0.
def stepRun (s : State) (p : Ptr) : RunPc → Act → Option State
  | .enter, .tau =>
    match s.gLoop with
    | none   => s.goto (.free p .enter .nil)
    | some p => do
      let l ← s.heap p
      if l.status = .running then s.goto (.free p .enter .nil) else s.goto (.run p .setRunning)
  | .setRunning, .tau => (·.goto (.run p .eventfds)) <$> s.setStatus p .running
  | .eventfds, .eventfd f => do
    if (s.kernel.fds f).isSome then none
    let l ← s.heap p
    (·.goto (.run p .loop)) <$> s.onLoop p { eventfd := some f } fun w =>
      if l.data.internNevents = 0 ∧ l.data.eventfds.isNone then hloopCreateEventfds w else w
  | .loop, .tau => do
    let l ← s.heap p
    if l.status = .stop then s.goto (.run p .setStop) else s.goto (.run p .body)
  | .body, .clock now => do
    let l ← s.heap p
    if l.status = .pause then
      (·.goto (.run p .loop)) <$> s.onLoop p { now } hloopUpdateTime
    else
      let timers := l.data.timers.filter (!·.destroy)
      if timers = [] then s.goto (.run p .ios)
      else
        let next := if timers.any (·.nextTimeout < now) then .timers else .ios
        (·.goto (.run p next)) <$> s.onLoop p { now } hloopUpdateTime
  | .ios, .poll r now => do
    let l ← s.heap p
    (·.goto (.run p .checkStop)) <$> s.onLoop p { now } fun w =>
      hloopUpdateTime (if l.data.nios = 0 then w else hloopProcessIos r w)
  | .checkStop, .tau => do
    let l ← s.heap p
    if l.status = .stop then s.goto (.run p .loop) else s.goto (.run p .timers)
  | .timers, .tau => do
    let s ← s.onLoop p {} fun w => if ntimers w = 0 then w else hloopProcessTimers w
    let l ← s.heap p
    if l.data.npendings = 0 then s.goto (.run p .loop)
    else s.goto (.run p (.pendings (pendingOrder l.data)))
  | .pendings (e :: todo), .callback ans =>
    (·.goto (.run p (.pendings todo))) <$> s.onLoop p ans (dispatch e)
  | .pendings [], .tau => (·.goto (.run p .loop)) <$> s.onLoop p {} clearPendings
  | .setStop, .tau => (·.goto (.free p .enter .nil)) <$> s.setStatus p .stop
  | _, _ => none

-- The descriptors of the socket and of the epoll instance `e` are not in use.
def isFresh (k : Kernel) (r : SocketResult) (e : Fd) : Bool :=
  match r with
  | .socketFail                 => true
  | .bindFail f | .listenFail f => (k.fds f).isNone
  | .ok f                       => (k.fds f).isNone && (k.fds e).isNone && f != e

-- One step of `RC_tcp_echo_server`.
def stepMain (s : State) : Pc → Act → Option State
  | .idle, .call sexp => s.goto (.entered sexp)
  | .entered sexp, .tau =>
    match checkPort sexp with
    | .error o => s.exit o
    | .ok port => s.goto (.hloopNew port)
  | .hloopNew port, .tau =>
    let p := s.nextPtr
    some { s with
      heap    := Function.update s.heap p (some {})
      nextPtr := p + 1
      pc      := .initSigpipe port p }
  | .initSigpipe port p, .tau => some { s with sigpipe := .ign, pc := .initLoop port p }
  | .initLoop port p, .tau => (·.goto (.setGLoop port p)) <$> s.setStatus p .stop
  | .setGLoop port p, .tau => some { s with gLoop := some p, pc := .createServer port p }
  | .createServer port _, .socket r e => do
    let p ← s.gLoop
    let l ← s.heap p
    if !isFresh s.kernel r e then none else
      let (listenio, w) := hloopCreateTcpServer r (s.world l { epoll := some e })
      let s := s.setWorld p l w
      match listenio with
      | none   => s.goto (.free p .enter (.createServerFailed port))
      | some _ => s.goto (.setContinue p)
  | .setContinue p, .tau => some { s with continueRunning := true, pc := .setSigint p }
  | .setSigint p, .tau => some { s with sigint := .handleSigint, pc := .run p .enter }
  | .run p r, a => stepRun s p r a
  | .free p r o, .tau => stepFree s p o r
  | .clearGLoop, .tau => some { s.exit .nil with gLoop := none }
  | _, _ => none

def step (s : State) : Act → Option State
  | .sigint => deliverSigint s
  | a       => stepMain s s.pc a

end Rlibhv
