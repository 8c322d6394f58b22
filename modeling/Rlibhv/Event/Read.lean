import Rlibhv.Event.Unpack

-- Reading from an io into its buffer, and the function by which the application asks for a number
-- of bytes.
namespace Rlibhv.Reading

namespace Io

-- `readbuf.tail - readbuf.head`, both of type size_t.
def size (io : Io) : Nat :=
  (io.tail + (2 ^ 64 - io.head)) % 2 ^ 64

-- `readbuf.head += len`
def consume (len : Nat) (io : Io) : Io :=
  let io := { io with head := io.head + len }
  if io.head = io.tail then { io with head := 0, tail := 0 } else io

end Io

-- The last part of `hio_handle_read`.
def resizeReadbuf (io : Io) : Io :=
  let io := if io.head = io.tail then { io with head := 0, tail := 0 } else io
  if io.tail = io.base.length then
    if io.head = 0 then hioAllocReadbuf (io.base.length * 2) io else hioMemmoveReadbuf io
  else if io.tail < io.base.length / 2 ∧ io.smallReadbytesCnt ≥ 3 then
    hioAllocReadbuf (io.base.length / 2) io
  else
    io

variable (cb : Io → Option Io)

-- The bytes from `buf` on have been read last.
def hioHandleRead (buf : Nat) (io : Io) : Option Io :=
  let sp := io.between io.head io.tail
  match io.unpackSetting, io.readUntil with
  | some setting, _ => (hioUnpack cb setting buf io).map resizeReadbuf
  | none, some (.length n) =>
    if sp.length ≥ n then
      (hioReadCb cb (sp.take n) { io.consume n with readUntil := none }).map resizeReadbuf
    else
      some (resizeReadbuf io)
  | none, some (.delim b) =>
    match (io.between buf io.tail).idxOf? b with
    | none   => some (resizeReadbuf io)
    | some i =>
      let len := buf + i - io.head + 1
      hioReadCb cb (sp.take len) { io.consume len with readUntil := none }
  | none, none => (hioReadCb cb sp { io with head := 0, tail := 0 }).map resizeReadbuf

-- `nio_read` on a stream socket, with `bytes` as the answer of recv. What follows when `head` is
-- behind `tail` is not modelled.
def nioRead (bytes : Payload) (io : Io) : Option Io :=
  let len :=
    match io.readUntil with
    | some (.length n) => n - (io.tail - io.head)
    | _                => io.base.length - io.tail
  if 0 < len ∧ io.tail + len ≤ io.base.length ∧ io.head ≤ io.tail ∧ 0 < bytes.length ∧
      bytes.length ≤ len then
    let terminated := if bytes.length < len then bytes ++ [0] else bytes
    hioHandleRead cb io.tail { io with
      base := Bytes.write io.tail terminated io.base
      tail := io.tail + bytes.length }
  else
    none

-- `hio_read_once`, which calls `hio_read`.
def hioReadOnce (io : Io) : Io :=
  if io.closed then { io with readOnce := true } else { io with readOnce := true, reading := true }

def hioReadUntilLength (n : Nat) (io : Io) : Option Io :=
  if n = 0 then some io
  else if io.size ≥ n then hioReadCb cb (io.between io.head (io.head + n)) (io.consume n)
  else
    let io := { io with readUntil := some (.length n), readOnce := false }
    let io := if io.head > 1024 ∨ io.size < 1024 then hioMemmoveReadbuf io else io
    let needLen := io.head + n
    let io :=
      if !io.allocedReadbuf ∨ io.base.length < needLen then hioAllocReadbuf needLen io else io
    some (hioReadOnce io)

-- An application that asks for the next bytes of the stream in the callback, depending on what it
-- has read before. What is in the buffer already is given to it at once, in a nested call.
def askLength (ask : List Payload → Nat) : (fuel : Nat) → Io → Option Io
  | 0, _         => none
  | fuel + 1, io => hioReadUntilLength (askLength ask fuel) (ask io.reads) io

-- What an application has done when its read callback hangs up or returns.
structure Turn where
  unsent  : Bool := false -- the write queue is not empty
  failed  : Option Errno := none -- what a failed write has set `error` to
  hangsUp : Bool := false

-- An application that writes and hangs up in its read callback, depending on what it has read.
def takeTurn (app : List Payload → Turn) (io : Io) : Option Io :=
  let turn := app io.reads
  let io := { io with
    unsent := turn.unsent
    error  := turn.failed.or io.error
    posted := io.posted || turn.failed.isSome }
  some (if turn.hangsUp then hioClose io else io)

end Rlibhv.Reading
