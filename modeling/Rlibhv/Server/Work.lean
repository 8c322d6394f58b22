import Rlibhv.Server.Process
import Rlibhv.Event.Theorems.Setup

-- What the program counter tells about the rest of the state, and what the steps do to the loop of
-- the call in progress.
namespace Rlibhv

namespace Pc

-- The loop that is allocated.
def loop : Pc → Option Ptr
  | initSigpipe _ p | initLoop _ p | setGLoop _ p | createServer _ p => some p
  | setContinue p | setSigint p | run p _                            => some p
  | free _ .clear _                                                  => none
  | free p _ _                                                       => some p
  | idle | entered _ | hloopNew _ | clearGLoop                       => none

-- What `g_loop` points to.
def gLoop : Pc → Option Ptr
  | createServer _ p | setContinue p | setSigint p | run p _ | free p _ _ => some p
  | _                                                                     => none

-- The values that the status of the loop may have.
def Allows : Pc → Status → Prop
  | run _ .enter, st | run _ .setRunning, st | run _ .setStop, st => st = .stop
  | run _ _, st                                                   => st = .stop ∨ st = .running
  | free _ .enter _, st | free _ .setDestroy _, st                => st = .stop
  | free _ _ _, st                                                => st = .stop ∨ st = .destroy
  | _, st                                                         => st = .stop

end Pc

structure Control (s : State) : Prop where
  gLoop  : s.gLoop = s.pc.gLoop
  heap   : ∀ q, (s.heap q).isSome ↔ s.pc.loop = some q
  status : ∀ {q l}, s.heap q = some l → s.pc.Allows l.status
  fresh  : ∀ {q}, s.pc.loop = some q ∨ s.pc.gLoop = some q → q < s.nextPtr

-- The world of the loop that is allocated. If there is none, it is the one of a new loop.
def State.cur (s : State) : World :=
  s.world ((s.pc.loop.bind s.heap).getD {}) {}

inductive Stage
  | fresh
  | serving
  | running
  | stopped
  | removing (i : Nat)
  | removed
  | unwatched
  | released
  deriving DecidableEq

def Pc.stage : Pc → Stage
  | setContinue _ | setSigint _                             => .serving
  | run _ .enter | run _ .setRunning | run _ .eventfds      => .serving
  | run _ _                                                 => .running
  | free _ .enter _ | free _ .setDestroy _ | free _ .pendings _ => .stopped
  | free _ (.ios i) _                                       => .removing i
  | free _ .timers _ | free _ .iowatcher _                  => .removed
  | free _ .customEvents _                                  => .unwatched
  | free _ .free _                                          => .released
  | _                                                       => .fresh

-- How much of the loop there is at each stage.
def Phase : Stage → World → Prop
  | .fresh, w      => w.loop = {}
  | .serving, w    => Serving w
  | .running, w    => w.loop.iowatcher.isSome ∧ w.loop.eventfds.isSome
  | .stopped, _    => True
  | .removing i, w => ∀ f < i, w.loop.ios f = none
  | .removed, w    => ∀ f, w.loop.ios f = none
  | .unwatched, w  => (∀ f, w.loop.ios f = none) ∧ w.loop.iowatcher = none
  | .released, w   => (∀ f, w.loop.ios f = none) ∧ w.loop.iowatcher = none ∧ w.loop.eventfds = none

-- Between the steps there are no answers of the operating system.
def World.settle (w : World) : World :=
  { w with ans := {} }

-- The steps that run code of the loop.
inductive Job : Act → Pc → World → Pc → World → Prop
  | server {r e port p w pc} : (∀ f, r = .ok f → e ≠ f) →
    pc = (if (hloopCreateTcpServer r { w with ans := { epoll := some e } }).1 = none then
      .free p .enter (.createServerFailed port) else .setContinue p) →
    Job (.socket r e) (.createServer port p) w pc
      (hloopCreateTcpServer r { w with ans := { epoll := some e } }).2
  | eventfds {f p w} : w.kernel.fds f = none →
    Job (.eventfd f) (.run p .eventfds) w (.run p .loop)
      (if w.loop.internNevents = 0 ∧ w.loop.eventfds.isNone then
        hloopCreateEventfds { w with ans := { eventfd := some f } } else
          { w with ans := { eventfd := some f } })
  | clock {now p r w} : r = .ios ∨ r = .timers →
    Job (.clock now) (.run p .body) w (.run p r) (hloopUpdateTime { w with ans := { now } })
  | poll {r now p w} :
    Job (.poll r now) (.run p .ios) w (.run p .checkStop)
      (hloopUpdateTime (if w.loop.nios = 0 then { w with ans := { now } } else
        hloopProcessIos r { w with ans := { now } }))
  | timers {p w w'} : w' = (if ntimers w = 0 then w else hloopProcessTimers w) →
    Job .tau (.run p .timers) w
      (.run p (if w'.loop.npendings = 0 then .loop else .pendings (pendingOrder w'.loop))) w'
  | dispatch {ans p e todo w} :
    Job (.callback ans) (.run p (.pendings (e :: todo))) w (.run p (.pendings todo))
      (dispatch e { w with ans })
  | finish {p w} : Job .tau (.run p (.pendings [])) w (.run p .loop) (clearPendings w)
  | clear {p o w} : Job .tau (.free p .pendings o) w (.free p (.ios 0) o) (clearPendings w)
  | free {p i o w} : i < w.loop.iosMaxsize →
    Job .tau (.free p (.ios i) o) w (.free p (.ios (i + 1)) o) (hioFree i w)
  | timersFree {p o w} : Job .tau (.free p .timers o) w (.free p .iowatcher o) (cleanupTimers w)
  | iowatcher {p o w} :
    Job .tau (.free p .iowatcher o) w (.free p .customEvents o) (iowatcherCleanup w)
  | customEvents {p o w} :
    Job .tau (.free p .customEvents o) w (.free p .free o) (cleanupCustomEvents w)

-- The steps that do no more than go on.
inductive Jump (s : State) : Act → Pc → Pc → Prop
  | call {sexp} : Jump s (.call sexp) .idle (.entered sexp)
  | port {sexp port} : checkPort sexp = .ok port → Jump s .tau (.entered sexp) (.hloopNew port)
  | enter {p} : Jump s .tau (.run p .enter) (.run p .setRunning)
  | stop {p l} : s.heap p = some l → l.status = .stop → Jump s .tau (.run p .loop) (.run p .setStop)
  | iterate {p l} : s.heap p = some l → l.status ≠ .stop → Jump s .tau (.run p .loop) (.run p .body)
  | body {p now} : Jump s (.clock now) (.run p .body) (.run p .ios)
  | abort {p l} : s.heap p = some l → l.status = .stop →
    Jump s .tau (.run p .checkStop) (.run p .loop)
  | goOn {p l} : s.heap p = some l → l.status ≠ .stop →
    Jump s .tau (.run p .checkStop) (.run p .timers)
  | free {p o} : Jump s .tau (.free p .enter o) (.free p .setDestroy o)
  | freed {p i o l} : s.heap p = some l → ¬i < l.data.iosMaxsize →
    Jump s .tau (.free p (.ios i) o) (.free p .timers o)

-- The steps that assign to the status of the loop.
inductive Assign : Pc → Status → Pc → Prop
  | init {port p} : Assign (.initLoop port p) .stop (.setGLoop port p)
  | running {p} : Assign (.run p .setRunning) .running (.run p .eventfds)
  | stop {p} : Assign (.run p .setStop) .stop (.free p .enter .nil)
  | destroy {p o} : Assign (.free p .setDestroy o) .destroy (.free p .pendings o)

-- The effect of a delivery of SIGINT.
structure Signalled (s s' : State) : Prop where
  pc       : s'.pc = s.pc
  gLoop    : s'.gLoop = s.gLoop
  nextPtr  : s'.nextPtr = s.nextPtr
  kernel   : s'.kernel = s.kernel
  sId      : s'.sId = s.sId
  trace    : s'.trace = s.trace
  sigint   : s'.sigint = s.sigint
  sigpipe  : s'.sigpipe = s.sigpipe
  outcomes : s'.outcomes = s.outcomes
  heap     : ∀ q, s'.heap q = s.heap q ∨
    ∃ l, s.heap q = some l ∧ s'.heap q = some { l with status := .stop }
  stop     : s.sigint = .handleSigint → ∀ {p l}, s.gLoop = some p → s'.heap p = some l →
    l.status = .stop

-- All steps that can be taken in a state that the code can reach.
inductive Turn (s : State) : Act → State → Prop
  | sigint {s'} : deliverSigint s = some s' → Turn s .sigint s'
  | jump {a pc} : Jump s a s.pc pc → Turn s a (s.goto pc)
  | reject {sexp o} : s.pc = .entered sexp → checkPort sexp = .error o → Turn s .tau (s.exit o)
  | new {port} : s.pc = .hloopNew port → Turn s .tau { s with
      heap    := Function.update s.heap s.nextPtr (some {})
      nextPtr := s.nextPtr + 1
      pc      := .initSigpipe port s.nextPtr }
  | sigpipe {port p} : s.pc = .initSigpipe port p →
    Turn s .tau { s with sigpipe := .ign, pc := .initLoop port p }
  | setGLoop {port p} : s.pc = .setGLoop port p →
    Turn s .tau { s with gLoop := some p, pc := .createServer port p }
  | setContinue {p} : s.pc = .setContinue p →
    Turn s .tau { s with continueRunning := true, pc := .setSigint p }
  | setSigint {p} : s.pc = .setSigint p →
    Turn s .tau { s with sigint := .handleSigint, pc := .run p .enter }
  | assign {p l st pc} : s.pc.loop = some p → s.heap p = some l → Assign s.pc st pc →
    Turn s .tau ((s.setLoop p { l with status := st }).goto pc)
  | job {a p l pc w} : s.pc.loop = some p → s.heap p = some l → Job a s.pc (s.world l {}) pc w →
    Turn s a ((s.setWorld p l w).goto pc)
  | free {p o} : s.pc = .free p .free o →
    Turn s .tau { s with heap := Function.update s.heap p none, pc := .free p .clear o }
  | clear {p} : s.pc = .free p .clear .nil → Turn s .tau (State.goto { s with gLoop := none } .clearGLoop)
  | fail {p o} : s.pc = .free p .clear o → o ≠ .nil →
    Turn s .tau (State.exit { s with gLoop := none } o)
  | leave : s.pc = .clearGLoop → Turn s .tau { s.exit .nil with gLoop := none }

-- The steps as far as they concern the loop.
inductive Work : Act → Pc → World → Pc → World → Prop
  | skip {a pc w pc'} : pc'.stage = pc.stage ∨ pc'.stage = .stopped → Work a pc w pc' w
  | freed {p i o w} : ¬i < w.loop.iosMaxsize → Work .tau (.free p (.ios i) o) w (.free p .timers o) w
  | job {a pc w pc' w'} : Job a pc w pc' w' → Work a pc w pc' w'.settle
  | release {p o w} : Work .tau (.free p .free o) w (.free p .clear o) { w with loop := {} }

end Rlibhv
