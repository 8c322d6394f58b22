import Rlibhv.Event.State

-- The system calls of the echo server. Each takes the next fitting answer of the operating system. An
-- answer that the kernel cannot give is adjusted to one that it can: no more bytes are received or
-- accepted than asked for, and a new descriptor is never one that is open.
namespace Rlibhv

def openFd (f : Fd) (k : Kind) (w : World) : World :=
  let w := w.log (.opened w.kernel.next k)
  { w with kernel := { w.kernel with
      fds  := Function.update w.kernel.fds f (some ⟨w.kernel.next, k⟩)
      next := w.kernel.next + 1 } }

-- The counter of a new eventfd is 0.
def sysEventfd (f : Fd) (w : World) : World :=
  let w := openFd f .eventfd w
  { w with kernel := { w.kernel with eventfdCount := 0 } }

-- A closed descriptor leaves the interest list of the epoll instance.
def sysClose (f : Fd) (w : World) : World :=
  match w.kernel.fds f with
  | none   => w.log (.closeFailed f)
  | some d =>
    let w := w.log (.closed d.serial)
    { w with kernel := { w.kernel with
        fds      := Function.update w.kernel.fds f none
        interest := Function.update w.kernel.interest f {} } }

def sysAccept (w : World) : AcceptResult × World :=
  match w.ans.accepts with
  | []             => (.fail .again, w)
  | .fail e :: as  => (.fail e, { w with ans := { w.ans with accepts := as } })
  | .fd f :: as    =>
    let w := { w with ans := { w.ans with accepts := as } }
    if (w.kernel.fds f).isSome then (.fail .again, w) else (.fd f, openFd f .conn w)

def ebadf : Errno :=
  .other 9

def sysRecv (f : Fd) (len : Nat) (w : World) : RecvResult × World :=
  match w.kernel.fds f with
  | some ⟨c, .conn⟩ =>
    match w.ans.recv with
    | .data bs => (.data (bs.take len), w.log (.recv c (bs.take len)))
    | .fail e  => (.fail e, w)
  | _ => (.fail ebadf, w)

-- The only descriptor that is read by read(2) is the eventfd. Reading it returns and resets its
-- counter. It would block at 0, but it is only read after epoll has reported it.
def sysRead (f : Fd) (w : World) : RecvResult × World :=
  match w.kernel.fds f with
  | some ⟨_, .eventfd⟩ =>
    if w.kernel.eventfdCount = 0 then (.fail .again, w) else
      (.data (Bytes.encode 8 w.kernel.eventfdCount),
        { w with kernel := { w.kernel with eventfdCount := 0 } })
  | _ => (.fail ebadf, w)

def sysSend (f : Fd) (buf : Payload) (w : World) : SendResult × World :=
  let r := w.ans.sends.headD (.fail .again)
  let w := { w with ans := { w.ans with sends := w.ans.sends.tail } }
  match w.kernel.fds f with
  | some ⟨c, .conn⟩ =>
    match r with
    | .accepted n => (.accepted (min n buf.length), w.log (.send c (buf.take n)))
    | .fail e     => (.fail e, w)
  | _ => (.fail ebadf, w)

-- The counter of an eventfd is at most 2^64 - 2.
def sysEventfdWrite (w : World) : Bool × World :=
  if w.ans.post && w.kernel.eventfdCount + 2 < 2 ^ 64 then
    (true, { w with kernel := { w.kernel with eventfdCount := w.kernel.eventfdCount + 1 } })
  else
    (false, w)

end Rlibhv
