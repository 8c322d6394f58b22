import Rlibhv.Base.Heap
import Rlibhv.Base.Time
import Rlibhv.Event.Hevent

-- The timers of event/hloop.c in full: repeated timers, periodic timers, and resets. A pointer to a
-- timer is its number in the order of allocation. The result of a function is `none` if it
-- dereferences NULL, fails an assertion, or does not return. A function that gets a list `times` asks
-- for the time of day as often as it needs to, gets the answers in this order, and returns the rest of
-- them. If there are not enough, it has not returned yet.
namespace Rlibhv.Timers

abbrev Id := Nat

inductive Clock
  | monotonic
  | real
  deriving DecidableEq

-- `HEVENT_TYPE_TIMEOUT` and `HEVENT_TYPE_PERIOD`, with the fields that only such a timer has.
inductive EventType
  | timeout (timeout : Nat)
  | period (minute hour day week month : Int)
  deriving DecidableEq

def EventType.clock : EventType → Clock
  | timeout _ => .monotonic
  | period .. => .real

def Clock.priority : Clock → Priority
  | monotonic => .highest
  | real      => .high

def EventType.priority (e : EventType) : Priority :=
  e.clock.priority

-- event/hevent.h: `struct htimer_s`, `struct htimeout_s` and `struct hperiod_s`. All timers have a
-- callback.
structure Htimer where
  eventType   : EventType
  repeat'     : Nat
  nextTimeout : Nat
  destroy     : Bool := false
  active      : Bool := false
  pending     : Bool := false
  deriving DecidableEq

-- The part of `struct hloop_s` that belongs to the timers. The heaps are `timers` and `realtimers`,
-- the lists of pending events and their number are restricted to timers.
structure Hloop where
  memory    : Id → Option Htimer := fun _ => none -- the timers that are allocated
  allocs    : Nat := 0 -- the number of timers allocated so far
  heaps     : Clock → Heap Id := fun _ => .init fun _ => {}
  ntimers   : Nat := 0
  nactives  : Nat := 0
  npendings : Nat := 0
  pendings  : Priority → List Id := fun _ => []
  curHrtime : Nat := 0

-- base/hdef.h: `(uint32_t)-1`
def infinite : Nat := 2 ^ 32 - 1

namespace Hloop

-- Dereferencing a `htimer_t*`.
def timer (l : Hloop) (i : Id) : Htimer :=
  (l.memory i).getD { eventType := .timeout 0, repeat' := 0, nextTimeout := 0 }

def deadline (l : Hloop) (i : Id) : Nat :=
  (l.timer i).nextTimeout

def clock (l : Hloop) (i : Id) : Clock :=
  (l.timer i).eventType.clock

def modify (l : Hloop) (i : Id) (g : Htimer → Htimer) : Hloop :=
  { l with memory := Function.update l.memory i ((l.memory i).map g) }

def timersCompare (l : Hloop) (i j : Id) : Bool :=
  (l.timer i).nextTimeout < (l.timer j).nextTimeout

def onHeap (l : Hloop) (c : Clock) (g : Heap Id → Option (Heap Id)) : Option Hloop :=
  (g (l.heaps c)).map fun h => { l with heaps := Function.update l.heaps c h }

end Hloop

-- The macros of event/hevent.h.
def eventActive (i : Id) (l : Hloop) : Hloop :=
  if (l.timer i).active then l else
    { l.modify i ({ · with active := true }) with nactives := l.nactives + 1 }

def eventInactive (i : Id) (l : Hloop) : Hloop :=
  if (l.timer i).active then
    { l.modify i ({ · with active := false }) with nactives := l.nactives - 1 }
  else
    l

def eventPending (i : Id) (l : Hloop) : Hloop :=
  if (l.timer i).pending then l else
    let p := (l.timer i).eventType.priority
    { l.modify i ({ · with pending := true }) with
      npendings := l.npendings + 1
      pendings  := Function.update l.pendings p (i :: l.pendings p) }

-- Freed memory is not allocated.
def eventDel (i : Id) (l : Hloop) : Hloop :=
  let l := eventInactive i l
  if (l.timer i).pending then l else { l with memory := Function.update l.memory i none }

def eventReset (i : Id) (l : Hloop) : Hloop :=
  let l := l.modify i ({ · with destroy := false })
  let l := eventActive i l
  l.modify i ({ · with pending := false })

-- A new timer in zeroed memory, and the rest of `htimer_add` and `htimer_add_period`.
def addTimer (t : Htimer) (l : Hloop) : Option (Id × Hloop) := do
  let i := l.allocs
  let l := { l with memory := Function.update l.memory i (some t), allocs := i + 1 }
  let l ← l.onHeap t.eventType.clock (heapInsert (some l.timersCompare) i)
  let l := eventActive i l
  return (i, { l with ntimers := l.ntimers + 1 })

-- `now` is the answer of the clock to `hloop_update_time`.
def htimerAdd (timeoutMs repeat' now : Nat) (l : Hloop) : Option (Option Id × Hloop) :=
  if timeoutMs = 0 then some (none, l) else do
    let l := { l with curHrtime := now }
    let (i, l) ← addTimer
      { eventType   := .timeout timeoutMs
        repeat'     := repeat'
        nextTimeout := nextTimeout l.curHrtime timeoutMs } l
    return (some i, l)

-- `(uint64_t)cron_next_timeout(minute, hour, day, week, month) * 1000000`
def cronDeadline (cal : Calendar) (tt minute hour day week month : Int) : Nat :=
  (cronNextTimeout cal tt minute hour day week month * 1000000 % 2 ^ 64).toNat

variable (cal : Calendar)

-- `tt` is the answer of `time` to `cron_next_timeout`.
def htimerAddPeriod (minute hour day week month : Int) (repeat' : Nat) (tt : Int) (l : Hloop) :
    Option (Option Id × Hloop) :=
  if minute > 59 ∨ hour > 23 ∨ day > 31 ∨ week > 6 ∨ month > 12 then some (none, l) else do
    let (i, l) ← addTimer
      { eventType   := .period minute hour day week month
        repeat'     := repeat'
        nextTimeout := cronDeadline cal tt minute hour day week month } l
    return (some i, l)

-- The first part of `htimer_reset`: a timer that is not destroyed leaves the heap.
def disarm (i : Id) (l : Hloop) : Option Hloop :=
  if (l.timer i).destroy then some { l with ntimers := l.ntimers + 1 }
  else l.onHeap .monotonic (heapRemove (some l.timersCompare) i)

def htimerReset (i : Id) (timeoutMs : Nat) (l : Hloop) : Option Hloop :=
  match (l.timer i).eventType with
  | .period ..       => some l
  | .timeout timeout => do
    let l ← disarm i l
    let timeout := if timeoutMs > 0 then timeoutMs else timeout
    let l := l.modify i fun t => { t with
      repeat'     := if t.repeat' = 0 then 1 else t.repeat'
      eventType   := .timeout timeout
      nextTimeout := nextTimeout l.curHrtime timeout }
    let l ← l.onHeap .monotonic (heapInsert (some l.timersCompare) i)
    return eventReset i l

-- `__htimer_del`
def htimerDel' (i : Id) (l : Hloop) : Option Hloop :=
  if (l.timer i).destroy then some l else do
    let l ← l.onHeap (l.clock i) (heapRemove (some l.timersCompare) i)
    let l := { l with ntimers := l.ntimers - 1 }
    return l.modify i ({ · with destroy := true })

def htimerDel (i : Id) (l : Hloop) : Option Hloop :=
  if (l.timer i).active then (htimerDel' i l).map (eventDel i) else some l

-- `--timer->repeat`, except for `INFINITE`
def countDown (repeat' : Nat) : Nat :=
  if repeat' = infinite then repeat' else (repeat' + infinite) % 2 ^ 32

-- `while (next <= limit) next += period`
def advance (period limit next : Nat) : Option Nat :=
  if next ≤ limit then
    if period = 0 then none else advance period limit (next + period)
  else
    some next
termination_by limit + 1 - next

-- The next deadline of a timer that expires.
def reschedule (limit : Nat) (times : List Int) (t : Htimer) : Option (Nat × List Int) :=
  match t.eventType, times with
  | .timeout timeout, times => (advance (timeout * 1000) limit t.nextTimeout).map (·, times)
  | .period minute hour day week month, tt :: times =>
    some (cronDeadline cal tt minute hour day week month, times)
  | .period .., [] => none

-- One round of `__hloop_process_timers` for the timer at the root.
def expireTimer (c : Clock) (limit : Nat) (i : Id) (times : List Int) (l : Hloop) :
    Option (List Int × Hloop) := do
  let l := l.modify i fun t => { t with repeat' := countDown t.repeat' }
  if (l.timer i).repeat' = 0 then
    let l ← htimerDel' i l
    return (times, eventPending i l)
  else
    let l ← l.onHeap c (heapDequeue (some l.timersCompare))
    let (next, times) ← reschedule cal limit times (l.timer i)
    let l := l.modify i ({ · with nextTimeout := next })
    let l ← l.onHeap c (heapInsert (some l.timersCompare) i)
    return (times, eventPending i l)

def processTimers (c : Clock) (limit : Nat) :
    (fuel : Nat) → List Int → Hloop → Option (Nat × List Int × Hloop)
  | 0, _, _            => none
  | fuel + 1, times, l =>
    match (l.heaps c).root with
    | none   => some (0, times, l)
    | some i =>
      if (l.timer i).nextTimeout > limit then some (0, times, l) else do
        let (times, l) ← expireTimer cal c limit i times l
        let (n, times, l) ← processTimers c limit fuel times l
        return (n + 1, times, l)

-- `__hloop_process_timers`: in each round fewer timers are due, or the time of day is asked for.
def hloopProcessTimers' (c : Clock) (limit : Nat) (times : List Int) (l : Hloop) :
    Option (Nat × List Int × Hloop) :=
  processTimers cal c limit ((l.heaps c).nelts + times.length + 1) times l

-- `now` is the result of `hloop_now_us`.
def hloopProcessTimers (now : Nat) (times : List Int) (l : Hloop) :
    Option (Nat × List Int × Hloop) := do
  let (n, times, l) ← hloopProcessTimers' cal .monotonic l.curHrtime times l
  let (m, times, l) ← hloopProcessTimers' cal .real now times l
  return (n + m, times, l)

-- What the application may call, also from inside of callbacks. It may only pass pointers to timers
-- that are allocated.
inductive Op
  | add (timeoutMs repeat' now : Nat)
  | addPeriod (minute hour day week month : Int) (repeat' : Nat) (tt : Int)
  | reset (i : Id) (timeoutMs : Nat)
  | del (i : Id)

def Op.apply : Op → Hloop → Option Hloop
  | add timeoutMs repeat' now, l => (htimerAdd timeoutMs repeat' now l).map (·.2)
  | addPeriod minute hour day week month repeat' tt, l =>
    (htimerAddPeriod cal minute hour day week month repeat' tt l).map (·.2)
  | reset i timeoutMs, l => if (l.memory i).isNone then none else htimerReset i timeoutMs l
  | del i, l             => if (l.memory i).isNone then none else htimerDel i l

-- Where the loop's thread is: outside of `hloop_process_pendings`, before the next round of its
-- loop, or in the callback of a timer. The timers in `todo` are those still to be visited.
inductive Phase
  | idle
  | visit (todo : List Id)
  | call (i : Id) (todo : List Id)
  deriving DecidableEq

-- `calls` lists the timers whose callbacks have been called.
structure State where
  loop  : Hloop := {}
  phase : Phase := .idle
  calls : List Id := []

inductive Act
  | op (o : Op)
  | events (now realNow : Nat) (times : List Int)
  | next
  | return

-- The part of `hloop_process_events` from the update of the time on, without ios and idles.
def hloopProcessEvents (now realNow : Nat) (times : List Int) (l : Hloop) : Option Hloop :=
  let l := { l with curHrtime := now }
  if l.ntimers = 0 then some l else (hloopProcessTimers cal realNow times l).map (·.2.2)

-- What follows the callback in a round of `hloop_process_pendings`.
def finish (i : Id) (l : Hloop) : Hloop :=
  let l := l.modify i ({ · with pending := false })
  if (l.timer i).destroy then eventDel i l else l

-- Steps of the loop's thread. A round for a timer that has been freed is not possible.
def step (s : State) : Act → Option State
  | .op o => (o.apply cal s.loop).map ({ s with loop := · })
  | .events now realNow times =>
    match s.phase with
    | .idle => (hloopProcessEvents cal now realNow times s.loop).map fun l => { s with
      loop  := l
      phase := if l.npendings = 0 then .idle else .visit (l.pendings .highest ++ l.pendings .high) }
    | _ => none
  | .next =>
    match s.phase with
    | .visit [] => some { s with
      loop  := { s.loop with pendings := fun _ => [], npendings := 0 }
      phase := .idle }
    | .visit (i :: todo) =>
      match s.loop.memory i with
      | none   => none
      | some t =>
        if !t.pending then some { s with phase := .visit todo }
        else if t.active then some { s with phase := .call i todo, calls := s.calls ++ [i] }
        else some { s with loop := finish i s.loop, phase := .visit todo }
    | _ => none
  | .return =>
    match s.phase with
    | .call i todo =>
      if (s.loop.memory i).isNone then none
      else some { s with loop := finish i s.loop, phase := .visit todo }
    | _ => none

end Rlibhv.Timers
