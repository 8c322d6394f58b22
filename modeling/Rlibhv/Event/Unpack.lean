import Rlibhv.Event.State

-- event/unpack.c: the packages of a stream are put together in the read buffer of an io. The result
-- of a function is `none` if it uses memory that has been freed or is not part of the stream, fails
-- an assertion, or does not return.
namespace Rlibhv.Reading

-- base/hmath.h: what `varint_decode` returns, with the new value of `*len`. It is 0 if the number
-- is not complete and -1 if it does not end.
inductive Varint
  | short
  | tooBig
  | value (ret len : Nat)
  deriving DecidableEq

-- From the byte number `bytes` on. The check for the end of the buffer is skipped if `*len` is 0.
-- What the 10th byte shifts out of the result is not cut off here.
def varintDecode (bytes ret : Nat) : (buf : Payload) → Option Varint
  | []     => if bytes = 0 then none else some .short
  | b :: p =>
    let ret := ret ||| (b.toNat &&& 0x7F) <<< (7 * bytes)
    if b.toNat &&& 0x80 = 0 then some (.value ret (bytes + 1))
    else if bytes + 1 < 10 then varintDecode (bytes + 1) ret p
    else some .tooBig

-- The loop of `varint_encode` does not end for negative numbers.
def varintEncode (value : Nat) : Payload :=
  if value >>> 7 = 0 then [.ofNat (value &&& 0x7F)]
  else .ofNat (value &&& 0x7F ||| 0x80) :: varintEncode (value >>> 7)
termination_by value
decreasing_by rw [Nat.shiftRight_eq_div_pow] at *; omega

inductive Coding
  | varint
  | littleEndian
  | bigEndian
  deriving DecidableEq

-- event/hloop.h: the parts of `struct unpack_setting_s` that belong to `UNPACK_BY_LENGTH_FIELD`.
structure LengthField where
  bodyOffset        : Nat
  lengthFieldOffset : Nat
  lengthFieldBytes  : Nat
  lengthAdjustment  : Int
  lengthFieldCoding : Coding

inductive Mode
  | none
  | fixedLength (fixedLength : Nat)
  | delimiter (delimiter : Payload) (delimiterBytes : Nat)
  | lengthField (field : LengthField)

structure UnpackSetting where
  mode             : Mode
  packageMaxLength : Nat

-- For `hio_read_until_length` and `hio_read_until_delim`.
inductive Until
  | length (n : Nat)
  | delim (b : UInt8)
  deriving DecidableEq

def defaultPackageMaxLength : Nat := 2 ^ 21

-- The part of `struct hio_s` that belongs to the read buffer. The memory at `readbuf.base` is
-- `base`, so `readbuf.len` is its length. `reads` lists what the read callback has been called
-- with.
structure Io where
  base              : Payload
  head              : Nat := 0
  tail              : Nat := 0
  loopReadbuf       : Payload -- the buffer that all ios of the loop share
  allocedReadbuf    : Bool := false
  maxReadBufsize    : Nat := 2 ^ 24
  smallReadbytesCnt : Nat := 0
  readOnce          : Bool := false
  readUntil         : Option Until := none
  reading           : Bool := true -- `HV_READ` is one of the events
  unpackSetting     : Option UnpackSetting := none
  error             : Option Errno := none
  posted            : Bool := false -- `hio_close_async` has been called
  unsent            : Bool := false -- the write queue is not empty
  close             : Bool := false
  closed            : Bool := false
  reads             : List Payload := []

namespace Io

-- The bytes of the buffer from one pointer to another. A pointer into the stream is modelled as the
-- bytes from it to the end of the stream.
def between (io : Io) (sp ep : Nat) : Payload :=
  (io.base.take ep).drop sp

end Io

-- The part of `hio_ready` that belongs to the read buffer.
def hioReady (loopReadbuf : Payload) : Io where
  base        := loopReadbuf
  loopReadbuf := loopReadbuf

def hioAllocReadbuf (len : Nat) (io : Io) : Io :=
  if len > io.maxReadBufsize then { io with error := some .overLimit, posted := true } else { io with
    base :=
      if io.allocedReadbuf then io.base.take len ++ List.replicate (len - io.base.length) 0
      else List.replicate len 0
    allocedReadbuf    := true
    smallReadbytesCnt := 0 }

def hioFreeReadbuf (io : Io) : Io :=
  if io.allocedReadbuf then { io with allocedReadbuf := false, base := io.loopReadbuf } else io

def hioMemmoveReadbuf (io : Io) : Io :=
  if io.tail = io.head then { io with head := 0, tail := 0 }
  else if io.head < io.tail then { io with
    base := Bytes.write 0 (io.between io.head io.tail) io.base
    head := 0
    tail := io.tail - io.head }
  else io

-- The part of `hio_close` that belongs to the read buffer.
def hioClose (io : Io) : Io :=
  if io.closed then io
  else if io.unsent ∧ io.error = none ∧ io.close = false then { io with close := true }
  else hioFreeReadbuf { io with closed := true }

def hioUnsetUnpack (io : Io) : Io :=
  match io.unpackSetting with
  | none   => io
  | some _ => hioFreeReadbuf { io with unpackSetting := none }

-- The changes that `hio_set_unpack` makes to its argument.
def UnpackSetting.complete (s : UnpackSetting) : UnpackSetting where
  mode :=
    match s.mode with
    | .delimiter d 0 => .delimiter d (d.takeWhile (· ≠ 0)).length
    | m              => m
  packageMaxLength := if s.packageMaxLength = 0 then defaultPackageMaxLength else s.packageMaxLength

-- The assertions of `hio_set_unpack`.
def Mode.Accepted (packageMaxLength : Nat) : Mode → Prop
  | fixedLength n      => n ≠ 0 ∧ n ≤ packageMaxLength
  | lengthField f      => f.lengthFieldOffset + f.lengthFieldBytes ≤ f.bodyOffset
  | none | delimiter .. => True

instance {n : Nat} : (m : Mode) → Decidable (m.Accepted n)
  | .fixedLength k       => inferInstanceAs <| Decidable (k ≠ 0 ∧ k ≤ n)
  | .lengthField f       =>
    inferInstanceAs <| Decidable (f.lengthFieldOffset + f.lengthFieldBytes ≤ f.bodyOffset)
  | .none | .delimiter .. => inferInstanceAs <| Decidable True

-- The size that `hio_set_unpack` gives to the buffer.
def UnpackSetting.bufsize (s : UnpackSetting) : Nat :=
  match s.mode with
  | .fixedLength n => n
  | _              => min hloopReadBufsize s.packageMaxLength

def hioSetUnpack (setting : UnpackSetting) (io : Io) : Option Io :=
  let io := hioUnsetUnpack io
  let setting := setting.complete
  if setting.mode.Accepted setting.packageMaxLength then
    some <| hioAllocReadbuf setting.bufsize { io with
      unpackSetting  := some setting
      maxReadBufsize := setting.packageMaxLength }
  else
    none

-- The callback that the application has set is a parameter.
variable (cb : Io → Option Io)

def hioReadCb (buf : Payload) (io : Io) : Option Io := do
  let io := if io.readOnce then { io with readOnce := false, reading := false } else io
  let io ← if io.closed then some io else cb { io with reads := io.reads ++ [buf] }
  if io.allocedReadbuf ∧ io.base.length > readBufsizeHighWater then
    if buf.length < io.base.length / 2 then
      return { io with smallReadbytesCnt := io.smallReadbytesCnt + 1 }
    else
      return { io with smallReadbytesCnt := 0 }
  else
    return io

-- What the functions below do in the end with the bytes from `p` on. They are part of a buffer that
-- is freed when the io is closed.
def keepRemain (p : Payload) (io : Io) : Option Io :=
  let io := { io with head := 0, tail := p.length }
  if p.length = 0 then some io
  else if io.closed then none
  else some { io with base := Bytes.write 0 p io.base }

-- `hio_close` because of `ERR_OVER_LIMIT`
def closeOverLimit (io : Io) : Io :=
  hioClose { io with error := some .overLimit }

-- The loop of `hio_unpack_by_fixed_length`. In this loop and the following ones, every round that
-- does not make `p` shorter is repeated for ever.
def fixedLengthLoop (fixedLength : Nat) :
    (fuel : Nat) → (p : Payload) → Io → Option (Payload × Io)
  | 0, _, _         => none
  | fuel + 1, p, io =>
    if p.length ≥ fixedLength then do
      let io ← hioReadCb cb (p.take fixedLength) io
      fixedLengthLoop fixedLength fuel (p.drop fixedLength) io
    else
      some (p, io)

def hioUnpackByFixedLength (fixedLength : Nat) (io : Io) : Option Io :=
  if io.base.length ≥ fixedLength then do
    let sp := io.between io.head io.tail
    let (p, io) ← fixedLengthLoop cb fixedLength (sp.length + 1) sp io
    keepRemain p io
  else
    none

def delimiterLoop (delimiter : Payload) :
    (fuel : Nat) → (sp p : Payload) → Io → Option (Payload × Io)
  | 0, _, _, _          => none
  | fuel + 1, sp, p, io =>
    if p.length ≥ delimiter.length then
      if io.closed then none
      else if delimiter.isPrefixOf p then do
        let p := p.drop delimiter.length
        let io ← hioReadCb cb (sp.take (sp.length - p.length)) io
        delimiterLoop delimiter fuel p p io
      else
        delimiterLoop delimiter fuel sp (p.drop 1) io
    else
      some (sp, io)

-- The search starts behind the bytes that have been searched before.
def hioUnpackByDelimiter (delimiter : Payload) (packageMaxLength buf : Nat) (io : Io) :
    Option Io := do
  let sp := io.between io.head io.tail
  let p  := io.between (max io.head (buf + 1 - delimiter.length)) io.tail
  let (sp, io) ← delimiterLoop cb delimiter (p.length + 1) sp p io
  let io ← keepRemain sp io
  if io.tail ≠ 0 ∧ io.tail = io.base.length then
    if io.base.length ≥ packageMaxLength then return closeOverLimit io
    else return hioAllocReadbuf (min (io.base.length * 2) packageMaxLength) io
  else
    return io

-- `head_len + body_len + length_adjustment` as an unsigned int
def LengthField.total (f : LengthField) (headLen : Int) (bodyLen : Nat) : Nat :=
  ((headLen + bodyLen + f.lengthAdjustment) % 2 ^ 32).toNat

inductive PackageLen
  | short
  | tooBig
  | value (n : Nat)
  deriving DecidableEq

-- The length of the package at `p`, whose head is complete.
def LengthField.packageLen (f : LengthField) (p : Payload) : Option PackageLen :=
  let lp := p.drop f.lengthFieldOffset
  let field := lp.take f.lengthFieldBytes
  match f.lengthFieldCoding with
  | .bigEndian =>
    let bodyLen := field.foldl (fun n b => (n <<< 8 ||| b.toNat) % 2 ^ 32) 0
    some (.value (f.total f.bodyOffset bodyLen))
  | .littleEndian =>
    let bodyLen := field.zipIdx.foldl (fun n (b, i) => n ||| (b.toNat <<< (i * 8)) % 2 ^ 32) 0
    some (.value (f.total f.bodyOffset bodyLen))
  | .varint =>
    (varintDecode 0 0 lp).map fun
      | .short         => .short
      | .tooBig        => .tooBig
      | .value ret len =>
        .value (f.total ((f.bodyOffset : Int) + len - f.lengthFieldBytes) (ret % 2 ^ 32))

-- `none` in the result means that the io has been closed because a number is too big.
def lengthFieldLoop (f : LengthField) :
    (fuel : Nat) → (p : Payload) → (packageLen : Nat) → Io → Option (Option (Payload × Nat) × Io)
  | 0, _, _, _                  => none
  | fuel + 1, p, packageLen, io =>
    if p.length ≥ f.bodyOffset then
      if io.closed then none else do
        match ← f.packageLen p with
        | .short   => return (some (p, packageLen), io)
        | .tooBig  => return (none, closeOverLimit io)
        | .value n =>
          if p.length ≥ n then
            let io ← hioReadCb cb (p.take n) io
            lengthFieldLoop f fuel (p.drop n) n io
          else
            return (some (p, n), io)
    else
      some (some (p, packageLen), io)

-- base/hdef.h: `LIMIT`
def limit (lower v upper : Nat) : Nat :=
  if v < lower then lower else if v > upper then upper else v

def hioUnpackByLengthField (f : LengthField) (packageMaxLength : Nat) (io : Io) : Option Io := do
  let sp := io.between io.head io.tail
  match ← lengthFieldLoop cb f (sp.length + 1) sp f.bodyOffset io with
  | (none, io)                 => return io
  | (some (p, packageLen), io) =>
    let io ← keepRemain p io
    if io.tail ≠ 0 ∧ packageLen > io.base.length then
      if packageLen > packageMaxLength then return closeOverLimit io
      else return hioAllocReadbuf (limit packageLen (io.base.length * 2) packageMaxLength) io
    else
      return io

-- The bytes from `buf` on have been read last.
def hioUnpack (setting : UnpackSetting) (buf : Nat) (io : Io) : Option Io :=
  match setting.mode with
  | .fixedLength n => hioUnpackByFixedLength cb n io
  | .delimiter d n => hioUnpackByDelimiter cb (d.take n) setting.packageMaxLength buf io
  | .lengthField f => hioUnpackByLengthField cb f setting.packageMaxLength io
  | .none          => hioReadCb cb (io.between buf io.tail) io

end Rlibhv.Reading
