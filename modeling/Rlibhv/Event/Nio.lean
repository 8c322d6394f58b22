import Rlibhv.Event.Hevent

-- event/nio.c together with the callbacks of the echo server in RC_libhv.c, which it calls.
namespace Rlibhv

-- RC_libhv.c: `on_close`. It prints the error of the io.
def onClose (f : Fd) (w : World) : World :=
  match w.serial f with
  | none   => w
  | some c => w.log (.onClose c (w.io f).error (w.io f).destroy)

-- `__close_cb` and `hio_close_cb`.
def hioCloseCb (f : Fd) (w : World) : World :=
  let w := hioDelCloseTimer f w
  let w := w.modifyIo f fun io => { io with closed := true }
  if (w.io f).closeCb then onClose f w else w

def hioClose (f : Fd) (w : World) : World :=
  let io := w.io f
  if io.closed then w
  else if !io.writeQueue.isEmpty && io.error.isNone && !io.close && !io.destroy then
    -- The queue is not empty, close later.
    let w := w.modifyIo f fun io => { io with close := true }
    let timeout := if io.closeTimeout = 0 then hioDefaultCloseTimeout else io.closeTimeout
    let (timer, w) := htimerAdd f timeout w
    w.modifyIo f fun io => { io with closeTimer := timer }
  else
    let w := w.modifyIo f fun io => { io with closed := true }
    let w := hioDone f w
    let w := hioCloseCb f w
    if (w.io f).ioType.isSocket then sysClose f w else w

def closeTimeoutCb (f : Fd) (w : World) : World :=
  hioClose f <| w.modifyIo f fun io => { io with error := some .timedout }

def hioCloseEventCb (ev : CloseEvent) (w : World) : World :=
  if (w.io ev.io).id ≠ ev.id then w else
    hioClose ev.io <| w.log (.closeEvent ev.poster (w.serial ev.io))

def eventQueuePopFront (w : World) : World :=
  w.setLoop fun l => { l with customEvents := l.customEvents.popFront }

-- `count` is the number of events that have been posted since the eventfd was last read.
def eventfdReadCb : Nat → World → World
  | 0,         w => w
  | count + 1, w =>
    match w.loop.customEvents.front? with
    | none    => w
    | some ev => eventfdReadCb count (hioCloseEventCb ev (eventQueuePopFront w))

-- The exits of `hio_write` that give up on the io.
def hioWriteError (f : Fd) (w : World) : World :=
  if (w.io f).ioType.isSocket then hioCloseAsync f w else w

-- The part of `hio_write` after trying to write directly, `nwrite` bytes of `buf` have been accepted.
def hioWriteEnqueue (f : Fd) (buf : Payload) (nwrite : Nat) (w : World) : Int × World :=
  if nwrite < buf.length then
    if (w.io f).writeBufsize + buf.length - nwrite > maxWriteBufsize then
      (-1, hioWriteError f <| w.modifyIo f fun io => { io with error := some .overLimit })
    else
      let remain : OffsetBuf := { base := buf.drop nwrite, offset := 0 }
      (nwrite, w.modifyIo f fun io =>
        let q := if io.writeQueue.maxsize = 0 then .init 4 else io.writeQueue
        { io with
          writeQueue   := q.pushBack remain
          writeBufsize := io.writeBufsize + remain.base.length })
  else
    (nwrite, w)

def hioWrite (f : Fd) (buf : Payload) (w : World) : Int × World :=
  if (w.io f).closed then (-1, w)
  else if (w.io f).writeQueue.isEmpty then
    match sysSend f buf w with
    | (.fail e, w) =>
      if e.retry then
        hioWriteEnqueue f buf 0 (hioAdd f .write w)
      else
        (-1, hioWriteError f <| w.modifyIo f fun io => { io with error := some e })
    | (.accepted n, w) =>
      if n = buf.length then (n, w)
      else if n = 0 ∧ (w.io f).ioType.isSocket then (-1, hioWriteError f w)
      else hioWriteEnqueue f buf n (hioAdd f .write w)
  else
    hioWriteEnqueue f buf 0 w

-- RC_libhv.c: `on_recv`. The result of `hio_write` is ignored.
def onRecv (f : Fd) (buf : Payload) (w : World) : World :=
  let w :=
    match w.serial f with
    | none   => w
    | some c => w.log (.onRecv c buf)
  (hioWrite f buf w).2

def hioReadCb (f : Fd) (buf : Payload) (w : World) : World :=
  let w :=
    if (w.io f).closed then w else
      match (w.io f).readCb with
      | none          => w
      | some .onRecv  => onRecv f buf w
      | some .eventfd => eventfdReadCb (Bytes.decode buf) w
  -- for readbuf autosize
  if (w.io f).allocedReadbuf ∧ (w.io f).readbuf.len > readBufsizeHighWater then
    w.modifyIo f fun io => { io with
      smallReadbytesCnt := if buf.length < io.readbuf.len / 2 then io.smallReadbytesCnt + 1 else 0 }
  else
    w

-- The bytes that `io->readbuf.base` points to.
def readbufBase (f : Fd) (w : World) : Payload :=
  if (w.io f).allocedReadbuf then (w.io f).ownReadbuf else w.loop.readbuf.base

def setReadbufBase (f : Fd) (bs : Payload) (w : World) : World :=
  if (w.io f).allocedReadbuf then
    w.modifyIo f fun io => { io with ownReadbuf := bs }
  else
    w.setLoop fun l => { l with readbuf := { l.readbuf with base := bs } }

def hioAllocReadbuf (f : Fd) (len : Nat) (w : World) : World :=
  if len > maxReadBufsize then
    hioCloseAsync f <| w.modifyIo f fun io => { io with error := some .overLimit }
  else
    w.modifyIo f fun io => { io with
      ownReadbuf        := (io.ownReadbuf ++ .replicate len 0).take len
      readbuf           := { io.readbuf with len := len }
      allocedReadbuf    := true
      smallReadbytesCnt := 0 }

def hioMemmoveReadbuf (f : Fd) (w : World) : World :=
  let ⟨_, head, tail⟩ := (w.io f).readbuf
  let w := setReadbufBase f (Bytes.write 0 (((readbufBase f w).take tail).drop head) (readbufBase f w)) w
  w.modifyIo f fun io => { io with readbuf := { io.readbuf with head := 0, tail := tail - head } }

-- The end of `hio_handle_read`, which adjusts the size of the buffer.
def hioReadbufAutosize (f : Fd) (w : World) : World :=
  let w := w.modifyIo f fun io =>
    if io.readbuf.head = io.readbuf.tail then
      { io with readbuf := { io.readbuf with head := 0, tail := 0 } }
    else
      io
  let io := w.io f
  if io.readbuf.tail = io.readbuf.len then
    if io.readbuf.head = 0 then hioAllocReadbuf f (io.readbuf.len * 2) w else hioMemmoveReadbuf f w
  else if io.readbuf.tail < io.readbuf.len / 2 ∧ io.smallReadbytesCnt ≥ 3 then
    hioAllocReadbuf f (io.readbuf.len / 2) w
  else
    w

-- The branch of `hio_handle_read` for ios without unpacking and read flags. `off` is the position of
-- the bytes that were read in the buffer.
def hioHandleRead (f : Fd) (off readbytes : Nat) (w : World) : World :=
  let head := (w.io f).readbuf.head
  let buf := ((readbufBase f w).drop head).take (off + readbytes - head)
  let w := w.modifyIo f fun io => { io with readbuf := { io.readbuf with head := 0, tail := 0 } }
  hioReadbufAutosize f (hioReadCb f buf w)

def hioReadRemain (f : Fd) (w : World) : World :=
  let ⟨_, head, tail⟩ := (w.io f).readbuf
  if tail > head then
    let buf := ((readbufBase f w).drop head).take (tail - head)
    hioReadCb f buf <|
      w.modifyIo f fun io => { io with readbuf := { io.readbuf with head := 0, tail := 0 } }
  else
    w

def hioRead (f : Fd) (w : World) : World :=
  if (w.io f).closed then w else
    let w := hioAdd f .read w
    if (w.io f).readbuf.tail > (w.io f).readbuf.head then hioReadRemain f w else w

-- RC_libhv.c: `on_accept`.
def onAccept (f : Fd) (w : World) : World :=
  let w :=
    match w.serial f with
    | none   => w
    | some c => w.log (.onAccept c)
  hioRead f <| w.modifyIo f fun io => { io with closeCb := true, readCb := some .onRecv }

def hioAcceptCb (f : Fd) (w : World) : World :=
  if (w.io f).acceptCb then onAccept f w else w

-- Accepts up to `n` connections on the listening io at `l`.
def nioAccept : Nat → Fd → World → World
  | 0,     _, w => w
  | n + 1, l, w =>
    match sysAccept w with
    | (.fail e, w) =>
      if e.retry then w else w.modifyIo l fun io => { io with error := some e }
    | (.fd f, w) =>
      let w := hioGet f w
      let w := w.modifyIo f fun io => { io with acceptCb := (w.io l).acceptCb }
      nioAccept n l (hioAcceptCb f w)

-- The end of `nio_read` after `nread` bytes have been put into the buffer at `off`.
def nioReadDone (f : Fd) (off nread : Nat) (w : World) : World :=
  let w := w.modifyIo f fun io => { io with readbuf := { io.readbuf with tail := off + nread } }
  hioHandleRead f off nread w

def nioRead (f : Fd) (w : World) : World :=
  let io := w.io f
  let off := io.readbuf.tail
  let len := io.readbuf.len - off
  match (if io.ioType = .tcp then sysRecv f len w else sysRead f w) with
  | (.fail e, w) =>
    if e.retry then w
    else if e = .msgsize then nioReadDone f off len w
    else
      let w := w.modifyIo f fun io => { io with error := some e }
      if io.ioType.isSocket then hioClose f w else w
  | (.data bs, w) =>
    if bs = [] ∧ io.ioType.isSocket then hioClose f w
    else
      -- The bytes are terminated by a zero if there is space.
      let bs' := if bs.length < len then bs ++ [0] else bs
      nioReadDone f off bs.length <| setReadbufBase f (Bytes.write off bs' (readbufBase f w)) w

-- One round of `nio_write`, which sends the front of the queue. The result says whether to write on.
def nioWriteFront (f : Fd) (pbuf : OffsetBuf) (w : World) : Bool × World :=
  match sysSend f pbuf.remain w with
  | (.fail e, w) =>
    if e.retry then (false, w) else
      let w := w.modifyIo f fun io => { io with error := some e }
      (false, if (w.io f).ioType.isSocket then hioClose f w else w)
  | (.accepted k, w) =>
    if k = 0 ∧ (w.io f).ioType.isSocket then (false, hioClose f w)
    else
      let w := w.modifyIo f fun io => { io with
        writeQueue   := io.writeQueue.setFront { pbuf with offset := pbuf.offset + k }
        writeBufsize := io.writeBufsize - k }
      if k = pbuf.remain.length then
        let w := w.modifyIo f fun io => { io with writeQueue := io.writeQueue.popFront }
        (!(w.io f).closed, w)
      else
        (false, w)

-- Each round of `nio_write` but the last removes an element of the queue.
def nioWriteLoop : Nat → Fd → World → World
  | 0,     _, w => w
  | n + 1, f, w =>
    match (w.io f).writeQueue.front? with
    | none      =>
      if (w.io f).close then
        hioClose f <| w.modifyIo f fun io => { io with close := false }
      else
        w
    | some pbuf =>
      match nioWriteFront f pbuf w with
      | (true, w)  => nioWriteLoop n f w
      | (false, w) => w

def nioWrite (f : Fd) (w : World) : World :=
  nioWriteLoop ((w.io f).writeQueue.size + 1) f w

def hioHandleEvents (f : Fd) (w : World) : World :=
  let w :=
    if (w.io f).events.rd && (w.io f).revents.rd then
      if (w.io f).accept then nioAccept 3 f w else nioRead f w
    else
      w
  let w :=
    if (w.io f).events.wr && (w.io f).revents.wr then
      let w := if (w.io f).writeQueue.isEmpty then hioDel f .write w else w
      nioWrite f w
    else
      w
  w.modifyIo f fun io => { io with revents := {} }

def hioAccept (f : Fd) (w : World) : World :=
  hioAdd f .read <| w.modifyIo f fun io => { io with accept := true }

end Rlibhv
