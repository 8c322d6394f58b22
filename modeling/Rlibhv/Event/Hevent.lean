import Rlibhv.Event.Syscall

-- event/hevent.c, event/epoll.c and the operations on single ios and timers of event/hloop.c. All of
-- this runs on the thread that runs the loop, so the branches of `hio_close` and `hloop_stop` for
-- other threads are not taken and are left out.
namespace Rlibhv

-- event/epoll.c

def iowatcherInit (w : World) : World :=
  match w.loop.iowatcher, w.ans.epoll with
  | none, some e =>
    if (w.kernel.fds e).isSome then w else
      (openFd e .epoll w).setLoop fun l => { l with iowatcher := some e }
  | _, _ => w

def epollCtl (f : Fd) (ev : Events) (w : World) : World :=
  { w with kernel := { w.kernel with interest := Function.update w.kernel.interest f ev } }

def iowatcherAddEvent (f : Fd) (ev : Events) (w : World) : World :=
  let w := iowatcherInit w
  epollCtl f ((w.io f).events.union ev) w

def iowatcherDelEvent (f : Fd) (ev : Events) (w : World) : World :=
  if w.loop.iowatcher.isNone then w else epollCtl f ((w.io f).events.diff ev) w

-- event/hevent.c

def hioNextId (w : World) : Nat × World :=
  ((w.sId + 1) % 2 ^ 32, { w with sId := w.sId + 1 })

def fillIoType (f : Fd) (w : World) : World :=
  let type :=
    match (w.kernel.fds f).map (·.kind) with
    | some .listen | some .conn => .tcp
    | some .epoll | some .eventfd =>
      match f with
      | 0 => .stdin
      | 1 => .stdout
      | 2 => .stderr
      | _ => .file
    | none => .tcp
  w.modifyIo f fun io => { io with ioType := type }

def hioUseLoopReadbuf (f : Fd) (w : World) : World :=
  let w := w.setLoop fun l =>
    if l.readbuf.len = 0 then
      { l with readbuf := ⟨.replicate hloopReadBufsize 0, hloopReadBufsize⟩ }
    else
      l
  w.modifyIo f fun io => { io with readbuf := { io.readbuf with len := w.loop.readbuf.len } }

def hioReady (f : Fd) (w : World) : World :=
  if (w.io f).ready then w else
    let (id, w) := hioNextId w
    let w := w.modifyIo f fun io => { io with
      ready             := true
      closed            := false
      accept            := false
      close             := false
      id                := id
      ioType            := .unknown
      error             := none
      events            := {}
      revents           := {}
      allocedReadbuf    := false
      smallReadbytesCnt := 0
      writeBufsize      := 0
      readCb            := none
      closeCb           := false
      acceptCb          := false
      closeTimeout      := 0
      closeTimer        := none }
    let w := hioUseLoopReadbuf f w
    let w := w.modifyIo f fun io => { io with readbuf := { io.readbuf with head := 0, tail := 0 } }
    fillIoType f w

def hioFreeReadbuf (f : Fd) (w : World) : World :=
  if (w.io f).allocedReadbuf then
    w.modifyIo f fun io => { io with
      ownReadbuf     := []
      allocedReadbuf := false
      readbuf        := { io.readbuf with len := w.loop.readbuf.len } }
  else
    w

-- event/hloop.c

def ceil2e (num : Nat) : Nat :=
  if num = 0 ∨ num = 1 then 1 else 2 ^ (Nat.log2 (num - 1) + 1)

def ioArrayInitSize : Nat := 1024

-- `__hio_get` up to its result.
def ioArrayReserve (f : Fd) (w : World) : World :=
  if f ≥ w.loop.iosMaxsize then
    let newsize := max (ceil2e f) ioArrayInitSize
    w.setLoop fun l => { l with iosMaxsize := if newsize > f then newsize else 2 * f }
  else
    w

def hioGet (f : Fd) (w : World) : World :=
  let w := ioArrayReserve f w
  let w :=
    if (w.loop.ios f).isNone then
      w.setLoop fun l => { l with ios := Function.update l.ios f (some {}) }
    else
      w
  if (w.io f).ready then w else hioReady f w

def hioAdd (f : Fd) (ev : Events) (w : World) : World :=
  let w :=
    if (w.io f).active then w else
      (w.setLoop fun l => { l with nios := l.nios + 1 }).modifyIo f fun io =>
        { io with cb := true, active := true }
  let w := if (w.io f).ready then w else hioReady f w
  let w := w.modifyIo f fun io => { io with cb := true }
  if ((w.io f).events.inter ev).isEmpty then
    (iowatcherAddEvent f ev w).modifyIo f fun io => { io with events := io.events.union ev }
  else
    w

def hioDel (f : Fd) (ev : Events) (w : World) : World :=
  if !(w.io f).active then w else
    let w :=
      if ((w.io f).events.inter ev).isEmpty then w else
        (iowatcherDelEvent f ev w).modifyIo f fun io => { io with events := io.events.diff ev }
    if (w.io f).events.isEmpty then
      (w.setLoop fun l => { l with nios := l.nios - 1 }).modifyIo f fun io =>
        { io with active := false }
    else
      w

def hioDone (f : Fd) (w : World) : World :=
  if !(w.io f).ready then w else
    let w := w.modifyIo f fun io => { io with ready := false }
    let w := hioDel f .rdwr w
    let w := hioFreeReadbuf f w
    w.modifyIo f fun io => { io with writeQueue := .empty }

def hloopUpdateTime (w : World) : World :=
  w.setLoop fun l => { l with curHrtime := w.ans.now }

-- Timers of a second and more have a granularity of 100 ms.
def nextTimeout (cur timeout : Nat) : Nat :=
  let next := cur + timeout * 1000
  if timeout ≥ 1000 ∧ timeout % 100 = 0 then next / 100000 * 100000 else next

-- The new timer comes after `behind` of those with the same timeout, which the shape of the heap
-- decides.
def insertTimer (t : Htimer) : (behind : Nat) → List Htimer → List Htimer
  | _, []           => [t]
  | behind, u :: us =>
    if t.nextTimeout < u.nextTimeout then t :: u :: us
    else if u.nextTimeout < t.nextTimeout then u :: insertTimer t behind us
    else match behind with
      | 0          => t :: u :: us
      | behind + 1 => u :: insertTimer t behind us

-- `htimer_add(loop, __close_timeout_cb, timeout, 1)` with the io at `f` as `privdata`.
def htimerAdd (f : Fd) (timeout : Nat) (w : World) : Option Nat × World :=
  if timeout = 0 then (none, w) else
    let w := hloopUpdateTime w
    let id := w.loop.timerCount
    let t : Htimer := { id, io := f, nextTimeout := nextTimeout w.loop.curHrtime timeout }
    (some id, w.setLoop fun l => { l with
      timers     := insertTimer t ((w.ans.ties.lookup id).getD 0) l.timers
      timerCount := id + 1 })

-- Marks the timer as destroyed, takes it from the heap, and frees it unless it is pending.
def htimerDel (id : Nat) (w : World) : World :=
  w.setLoop fun l => { l with
    timers := l.timers.filterMap fun t =>
      if t.id ≠ id ∨ !t.active then some t
      else if t.pending then some { t with destroy := true, active := false }
      else none }

def hioDelCloseTimer (f : Fd) (w : World) : World :=
  match (w.io f).closeTimer with
  | none    => w
  | some id =>
    (htimerDel id w).modifyIo f fun io => { io with closeTimer := none, closeTimeout := 0 }

-- Reading the new eventfd (`hread`) only adds the event, because there is nothing in its read buffer.
def hloopCreateEventfds (w : World) : World :=
  match w.ans.eventfd with
  | none   => w
  | some e =>
    if (w.kernel.fds e).isSome then w else
      let w := (sysEventfd e w).setLoop fun l => { l with eventfds := some e }
      let w := hioGet e w
      let w := w.modifyIo e fun io => { io with readCb := some .eventfd }
      let w := hioAdd e .read w
      let w := w.modifyIo e fun io => { io with priority := .high }
      w.setLoop fun l => { l with internNevents := l.internNevents + 1 }

def customEventQueueInitSize : Nat := 16

def hloopPostEvent (ev : CloseEvent) (w : World) : World :=
  let w := if w.loop.eventfds.isNone then hloopCreateEventfds w else w
  if w.loop.eventfds.isNone then w else
    match sysEventfdWrite w with
    | (false, w) => w
    | (true, w)  =>
      w.setLoop fun l =>
        let q :=
          if l.customEvents.maxsize = 0 then .init customEventQueueInitSize else l.customEvents
        { l with customEvents := q.pushBack ev }

def hioCloseAsync (f : Fd) (w : World) : World :=
  hloopPostEvent { io := f, id := (w.io f).id, poster := w.serial f } w

end Rlibhv
