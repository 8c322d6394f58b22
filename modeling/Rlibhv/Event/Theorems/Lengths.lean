import Rlibhv.Event.Theorems.Delivery

-- What an io does whose application reads by length: it always asks for the next number of bytes.
namespace Rlibhv.Reading

open Framing (Next Outcome Stable deframe deframe_more deframe_bad deframe_stop deframe_package
  deframe_append)

-- The size of a read buffer, and the number of small reads that have been counted since the size
-- was changed.
structure Bufsize where
  len : Nat
  cnt : Nat

namespace Bufsize

-- The buffer is empty, and the application asks for `n` bytes.
def prepare (n : Nat) (b : Bufsize) : Bufsize :=
  if b.len < n then ⟨n, 0⟩ else b

-- The callback has been called for `n` bytes.
def count (n : Nat) (b : Bufsize) : Bufsize :=
  if b.len > readBufsizeHighWater then ⟨b.len, if n < b.len / 2 then b.cnt + 1 else 0⟩ else b

def shrink (b : Bufsize) : Bufsize :=
  if b.cnt ≥ 3 then ⟨b.len / 2, 0⟩ else b

-- In the callback for `n` bytes, the application asks for `n'` bytes.
def next (n n' : Nat) (b : Bufsize) : Bufsize :=
  ((b.prepare n').count n).shrink

-- The application has read `ps`, and then it reads the packages in the list.
def after (ask : List Payload → Nat) (ps : List Payload) (b : Bufsize) : List Payload → Bufsize
  | []      => b
  | q :: qs => after ask (ps ++ [q]) (b.next q.length (ask (ps ++ [q]))) qs

theorem after_concat (ask : List Payload → Nat) (ps qs : List Payload) (q : Payload)
    (b : Bufsize) : b.after ask ps (qs ++ [q]) =
      (b.after ask ps qs).next q.length (ask (ps ++ (qs ++ [q]))) := by
  induction qs generalizing ps b
  case nil           => simp [after]
  case cons q' qs hi => simp [after, hi]

-- Small reads are only counted in a large buffer, and three of them are answered at once.
def Sane (b : Bufsize) : Prop :=
  b.cnt = 0 ∨ b.cnt < 3 ∧ readBufsizeHighWater < b.len

variable {b : Bufsize} {n n' : Nat}

theorem Sane.prepare (hb : b.Sane) (n : Nat) : (b.prepare n).Sane := by
  rw [Bufsize.prepare]
  split
  case isTrue  => exact .inl rfl
  case isFalse => exact hb

theorem Sane.next (hb : b.Sane) (n n' : Nat) : (b.next n n').Sane := by
  have hb := hb.prepare n'
  simp only [Bufsize.next, count, shrink, Sane] at hb ⊢
  grind

theorem len_count (b : Bufsize) (n : Nat) : (b.count n).len = b.len := by
  rw [count]
  split <;> rfl

theorem Sane.count (hb : b.Sane) (n : Nat) (h : (b.count n).cnt ≥ 3) :
    readBufsizeHighWater < b.len := by
  simp only [Bufsize.count, Sane] at hb h
  grind

theorem le_prepare (b : Bufsize) (n : Nat) : n ≤ (b.prepare n).len := by
  rw [prepare]
  split
  case isTrue    => exact le_rfl
  case isFalse h => exact not_lt.mp h

end Bufsize

-- The buffer when the application has read `ps`.
def bufsize (ask : List Payload → Nat) (ps : List Payload) : Bufsize :=
  Bufsize.after ask [] ⟨ask [], 0⟩ ps

theorem bufsize_concat (ask : List Payload → Nat) (ps : List Payload) (c : Payload) :
    bufsize ask (ps ++ [c]) = (bufsize ask ps).next c.length (ask (ps ++ [c])) := by
  rw [bufsize, Bufsize.after_concat, List.nil_append]
  rfl

theorem bufsize_sane (ask : List Payload → Nat) (ps : List Payload) : (bufsize ask ps).Sane := by
  induction ps using List.reverseRecOn
  case nil                      => exact .inl rfl
  case append_singleton ps c hi => exact bufsize_concat ask ps c ▸ hi.next _ _

-- A buffer of at most 64 kilobytes is never made smaller.
theorem small_lengths_fit {ask : List Payload → Nat}
    (hs : ∀ ps, ask ps ≤ readBufsizeHighWater) (ps : List Payload) :
    ask ps ≤ (bufsize ask ps).len := by
  suffices h : ask ps ≤ (bufsize ask ps).len ∧ (bufsize ask ps).len ≤ readBufsizeHighWater from h.1
  induction ps using List.reverseRecOn
  case nil => exact ⟨le_rfl, hs []⟩
  case append_singleton ps c hi =>
    have hs' := hs (ps ++ [c])
    have hb := bufsize_sane ask ps
    rw [bufsize_concat]
    simp only [Bufsize.next, Bufsize.prepare, Bufsize.count, Bufsize.shrink, Bufsize.Sane] at hb ⊢
    grind

-- How an application that reads by length cuts the stream. It reads no more when it asks for 0
-- bytes, and it cannot read more than the buffer may hold.
def nextLength (ask : List Payload → Nat) (ps : List Payload) (s : Payload) : Next :=
  if ask ps = 0 then .stop
  else if ask ps > 2 ^ 24 then .bad
  else if ask ps ≤ s.length then .package (ask ps)
  else .more

theorem nextLength_stable (ask : List Payload → Nat) : Stable (nextLength ask) := by
  constructor
  case package =>
    intro ps s t n h
    simp only [nextLength] at h ⊢
    split_ifs at h with h0 hm hle
    cases h
    exact ⟨hle, by rw [if_neg h0, if_neg hm, if_pos (by rw [List.length_append]; omega)]⟩
  case bad =>
    intro ps s t h
    simp only [nextLength] at h ⊢
    split_ifs at h with h0 hm
    rw [if_neg h0, if_pos hm]
  case stop =>
    intro ps s t h
    simp only [nextLength] at h ⊢
    split_ifs at h with h0
    rw [if_pos h0]

theorem deframe_nil (ask : List Payload → Nat) (ps : List Payload) :
    deframe (nextLength ask) ps [] =
      if ask ps = 0 then .stopped ps []
      else if ask ps > 2 ^ 24 then .bad ps []
      else .more ps [] := by
  by_cases h0 : ask ps = 0
  case pos => rw [if_pos h0, deframe_stop (by rw [nextLength, if_pos h0])]
  case neg =>
    rw [if_neg h0]
    by_cases hm : ask ps > 2 ^ 24
    case pos => rw [if_pos hm, deframe_bad (by rw [nextLength, if_neg h0, if_pos hm])]
    case neg =>
      rw [if_neg hm, deframe_more]
      rw [nextLength, if_neg h0, if_neg hm, if_neg (by simpa using h0)]

-- The application waits for `n` bytes, of which the buffer holds `c`.
structure Asking (b : Bufsize) (n : Nat) (ps : List Payload) (c : Payload) (io : Io) : Prop where
  closed  : io.closed = false
  posted  : io.posted = false
  reading : io.reading = true
  once    : io.readOnce = true
  until'  : io.readUntil = some (.length n)
  unpack  : io.unpackSetting = none
  alloced : io.allocedReadbuf = true
  max     : io.maxReadBufsize = 2 ^ 24
  reads   : io.reads = ps
  head    : io.head = 0
  tail    : io.tail = c.length
  content : io.base.take c.length = c
  len     : io.base.length = b.len
  le      : b.len ≤ 2 ^ 24
  cnt     : io.smallReadbytesCnt = b.cnt

-- The application has got all that it has asked for. Before it asks for the first time, the io
-- does not have a buffer of its own.
structure Idle (b : Bufsize) (ps : List Payload) (io : Io) : Prop where
  closed  : io.closed = false
  posted  : io.posted = false
  reading : io.reading = false
  once    : io.readOnce = false
  until'  : io.readUntil = none
  unpack  : io.unpackSetting = none
  max     : io.maxReadBufsize = 2 ^ 24
  reads   : io.reads = ps
  head    : io.head = 0
  tail    : io.tail = 0
  buf     : io.allocedReadbuf = true ∧ io.base.length = b.len ∧ io.smallReadbytesCnt = b.cnt ∨
    io.allocedReadbuf = false ∧ b = ⟨0, 0⟩

-- What becomes of an io, depending on what has been received.
def Delivered (ask : List Payload → Nat) (io : Io) (b : List Payload → Bufsize) :
    Outcome UInt8 → Prop
  | .more ps r    => Asking (b ps) (ask ps) ps r io
  | .bad ps r     => io.posted = true ∧ io.error = some .overLimit ∧ io.reads = ps ∧ r = []
  | .stopped ps r => io.reading = false ∧ io.reads = ps ∧ r = []
  | .stuck        => False

variable {ask : List Payload → Nat} {b : Bufsize} {n : Nat} {ps : List Payload}
variable {io io' : Io} {c r s bs buf : Payload} {bss : List Payload} {fuel : Nat}

theorem hioReadOnce_open (hc : io.closed = false) :
    hioReadOnce io = { io with readOnce := true, reading := true } := by
  rw [hioReadOnce, if_neg (by simp [hc])]

-- The buffer is empty, so that nothing has to be moved.
theorem Idle.request (hi : Idle b ps io) (h0 : n ≠ 0) (cb : Io → Option Io) :
    hioReadUntilLength cb n io = some (hioReadOnce <|
      if !io.allocedReadbuf ∨ io.base.length < n then
        hioAllocReadbuf n { io with readUntil := some (.length n) }
      else
        { io with readUntil := some (.length n) }) := by
  have hro := hi.once
  have hh := hi.head
  have ht := hi.tail
  cases io
  dsimp only at hro hh ht
  subst hro hh ht
  rw [hioReadUntilLength, if_neg h0, if_neg (by simp [Io.size]; omega)]
  simp [Io.size, hioMemmoveReadbuf]

theorem Idle.asks (hi : Idle b ps io) (hb : b.len ≤ 2 ^ 24) (h0 : n ≠ 0) (hn : n ≤ 2 ^ 24)
    (cb : Io → Option Io) :
    ∃ io', hioReadUntilLength cb n io = some io' ∧ Asking (b.prepare n) n ps [] io' := by
  refine ⟨_, hi.request h0 cb, ?_⟩
  obtain ⟨hc, hp, -, -, -, hu, hm, hr, hh, ht, hbuf⟩ := hi
  rcases hbuf with ⟨ha, hl, hk⟩ | ⟨ha, rfl⟩
  case inl =>
    by_cases hlt : io.base.length < n
    case pos =>
      rw [if_pos (.inr hlt), hioAllocReadbuf, if_neg (by rw [hm]; omega), hioReadOnce_open,
        Bufsize.prepare, if_pos (by omega)]
      · exact ⟨hc, hp, rfl, rfl, rfl, hu, rfl, hm, hr, hh, ht, rfl, by simp [ha]; omega, hn, rfl⟩
      · exact hc
    case neg =>
      rw [if_neg (by simp [ha]; omega), hioReadOnce_open, Bufsize.prepare, if_neg (by omega)]
      · exact ⟨hc, hp, rfl, rfl, rfl, hu, ha, hm, hr, hh, ht, rfl, hl, hb, hk⟩
      · exact hc
  case inr =>
    rw [if_pos (.inl (by simp [ha])), hioAllocReadbuf, if_neg (by rw [hm]; omega), hioReadOnce_open,
      Bufsize.prepare, if_pos (Nat.pos_of_ne_zero h0)]
    · exact ⟨hc, hp, rfl, rfl, rfl, hu, rfl, hm, hr, hh, ht, rfl, by simp [ha], hn, rfl⟩
    · exact hc

theorem Idle.overLimit (hi : Idle b ps io) (hb : b.len ≤ 2 ^ 24) (hn : n > 2 ^ 24)
    (cb : Io → Option Io) : ∃ io', hioReadUntilLength cb n io = some io' ∧ io'.posted = true ∧
      io'.error = some .overLimit ∧ io'.reads = ps ∧ io'.tail = 0 := by
  have ha : !io.allocedReadbuf ∨ io.base.length < n := by
    rcases hi.buf with ⟨-, hl, -⟩ | ⟨ha, -⟩
    · exact .inr (by omega)
    · exact .inl (by simp [ha])
  refine ⟨_, hi.request (by omega) cb, ?_⟩
  rw [if_pos ha, hioAllocReadbuf, if_pos (by rw [hi.max]; exact hn), hioReadOnce_open]
  · exact ⟨rfl, rfl, hi.reads, hi.tail⟩
  · exact hi.closed

-- The buffer is empty after `resizeReadbuf`, too.
theorem Asking.resize (ha : Asking b n ps [] io) (h0 : n ≠ 0) (hn : n ≤ b.len)
    (hr : b.cnt ≥ 3 → 1 < b.len) : Asking b.shrink n ps [] (resizeReadbuf io) := by
  have hh := ha.head
  have ht := ha.tail
  have hl := ha.len
  have hle := ha.le
  rw [resizeReadbuf, if_pos (hh.trans ht.symm)]
  simp only [List.length_nil] at ht
  rw [if_neg (by dsimp only; omega)]
  by_cases hk : b.cnt ≥ 3
  case pos =>
    have hlt := hr hk
    rw [if_pos ⟨by dsimp only; omega, by dsimp only; rw [ha.cnt]; exact hk⟩, Bufsize.shrink,
      if_pos hk, hioAllocReadbuf, if_neg (by dsimp only; rw [ha.max]; omega)]
    refine ⟨ha.closed, ha.posted, ha.reading, ha.once, ha.until', ha.unpack, rfl, ha.max, ha.reads,
      rfl, rfl, rfl, ?_, ?_, rfl⟩
    · simp [ha.alloced, hl]
      omega
    · dsimp only
      omega
  case neg =>
    rw [if_neg (by dsimp only; rw [ha.cnt]; omega), Bufsize.shrink, if_neg hk]
    exact ⟨ha.closed, ha.posted, ha.reading, ha.once, ha.until', ha.unpack, ha.alloced, ha.max,
      ha.reads, rfl, rfl, rfl, hl, hle, ha.cnt⟩

-- Less has arrived than the application has asked for.
theorem Asking.resize_more (ha : Asking b n ps c io) (hc : c.length < n) (hn : n ≤ b.len)
    (hb : b.cnt < 3) (hne : c ≠ []) : Asking b n ps c (resizeReadbuf io) := by
  have hl := ha.len
  have hpos := List.length_pos_iff.mpr hne
  have hht : ¬io.head = io.tail := by rw [ha.head, ha.tail]; omega
  simp only [resizeReadbuf, if_neg hht]
  rw [if_neg (by rw [ha.tail]; omega), if_neg (by rw [ha.cnt]; omega)]
  exact ha

theorem resizeReadbuf_frame (io : Io) : (resizeReadbuf io).reading = io.reading ∧
    (resizeReadbuf io).reads = io.reads ∧ (io.posted = true ∧ io.error = some .overLimit →
      (resizeReadbuf io).posted = true ∧ (resizeReadbuf io).error = some .overLimit) := by
  simp only [resizeReadbuf, hioAllocReadbuf, hioMemmoveReadbuf]
  repeat' split
  all_goals exact ⟨rfl, rfl, fun h => by first | exact h | exact ⟨rfl, rfl⟩⟩

theorem hioReadCb_once (hc : io.closed = false) (ho : io.readOnce = true) (cb : Io → Option Io)
    (buf : Payload) : hioReadCb cb buf io =
      (cb { io with readOnce := false, reading := false, reads := io.reads ++ [buf] }).map
        (tally buf) := by
  rw [hioReadCb_eq hc, if_pos ho]

theorem tally_frame (buf : Payload) (io : Io) : (tally buf io).reading = io.reading ∧
    (tally buf io).reads = io.reads ∧ (tally buf io).posted = io.posted ∧
    (tally buf io).error = io.error := by
  rw [tally]
  split <;> exact ⟨rfl, rfl, rfl, rfl⟩

theorem Asking.tally (ha : Asking b n ps c io) (buf : Payload) :
    Asking (b.count buf.length) n ps c (tally buf io) := by
  obtain ⟨hc, hp, hr, ho, hu, hs, hal, hm, hrs, hh, ht, hcn, hl, hle, hk⟩ := ha
  by_cases hw : b.len > readBufsizeHighWater
  case pos =>
    have hw' : io.allocedReadbuf = true ∧ io.base.length > readBufsizeHighWater := ⟨hal, hl ▸ hw⟩
    rw [Reading.tally, Bufsize.count, if_pos hw, if_pos hw']
    exact ⟨hc, hp, hr, ho, hu, hs, hal, hm, hrs, hh, ht, hcn, hl, hle, by simp only [hl, hk]⟩
  case neg =>
    rw [Reading.tally, Bufsize.count, if_neg hw, if_neg fun h => hw (hl ▸ h.2)]
    exact ⟨hc, hp, hr, ho, hu, hs, hal, hm, hrs, hh, ht, hcn, hl, hle, hk⟩

-- What the application asks for after it has got `ps`, in a callback or before the first one.
theorem Idle.asked (hi : Idle b ps io) (hb : b.len ≤ 2 ^ 24) (ask : List Payload → Nat)
    (fuel : Nat) :
    ∃ io', askLength ask (fuel + 1) io = some io' ∧
      Delivered ask io' (fun qs => b.prepare (ask qs)) (deframe (nextLength ask) ps []) := by
  rw [askLength, hi.reads, deframe_nil]
  split_ifs with h0 hm
  · rw [h0, hioReadUntilLength, if_pos rfl]
    exact ⟨_, rfl, hi.reading, hi.reads, rfl⟩
  · obtain ⟨io', he, hp, he', hr, -⟩ := hi.overLimit hb hm (askLength ask fuel)
    exact ⟨io', he, hp, he', hr, rfl⟩
  · exact hi.asks hb h0 (by omega) _

-- What `hio_handle_read` does after the callback.
theorem Delivered.finish (hd : Delivered ask io (fun qs => (bufsize ask ps).prepare (ask qs))
      (deframe (nextLength ask) (ps ++ [c]) [])) :
    Delivered ask (resizeReadbuf (tally c io)) (bufsize ask)
      (deframe (nextLength ask) (ps ++ [c]) []) := by
  obtain ⟨hr, hrs, hp⟩ := resizeReadbuf_frame (tally c io)
  obtain ⟨hr', hrs', hp', he'⟩ := tally_frame c io
  rw [deframe_nil] at hd ⊢
  split_ifs at hd ⊢ with h0 hm
  · exact ⟨hr.trans (hr'.trans hd.1), hrs.trans (hrs'.trans hd.2.1), rfl⟩
  · obtain ⟨hp, he⟩ := hp ⟨hp'.trans hd.1, he'.trans hd.2.1⟩
    exact ⟨hp, he, hrs.trans (hrs'.trans hd.2.2.1), rfl⟩
  · have hs := (bufsize_sane ask ps).prepare (ask (ps ++ [c]))
    have hle := (bufsize ask ps).le_prepare (ask (ps ++ [c]))
    rw [Delivered, bufsize_concat]
    refine (Asking.tally hd c).resize h0 (by rwa [Bufsize.len_count]) fun h => ?_
    have hw : 1 < readBufsizeHighWater := by decide
    rw [Bufsize.len_count]
    exact hw.trans (hs.count _ h)

-- The callback is called when all that the application has asked for has arrived.
theorem Asking.finish (ha : Asking (bufsize ask ps) (ask ps) ps c io) (hc : c.length = ask ps)
    (fuel : Nat) :
    ∃ io', (hioReadCb (askLength ask (fuel + 1)) c
        { io.consume (ask ps) with readUntil := none }).map resizeReadbuf = some io' ∧
      Delivered ask io' (bufsize ask) (deframe (nextLength ask) (ps ++ [c]) []) := by
  have hcons : ({ io.consume (ask ps) with readUntil := none } : Io) =
      { io with head := 0, tail := 0, readUntil := none } := by
    simp [Io.consume, ha.head, ha.tail, hc]
  rw [hcons]
  have hi : Idle (bufsize ask ps) (ps ++ [c]) { io with
      head      := 0
      tail      := 0
      readUntil := none
      readOnce  := false
      reading   := false
      reads     := io.reads ++ [c] } :=
    ⟨ha.closed, ha.posted, rfl, rfl, rfl, ha.unpack, ha.max, by rw [ha.reads], rfl, rfl,
      .inl ⟨ha.alloced, ha.len, ha.cnt⟩⟩
  obtain ⟨io', he, hd⟩ := hi.asked ha.le ask fuel
  rw [hioReadCb_once, he]
  · exact ⟨_, rfl, hd.finish⟩
  · exact ha.closed
  · exact ha.once

-- A read from an io whose application waits for more.
def readLength (ask : List Payload → Nat) (fuel : Nat) (io : Io) (bs : Payload) : Option Io :=
  if io.reading ∧ !io.posted then nioRead (askLength ask (fuel + 1)) bs io else none

theorem Asking.received (ha : Asking b n ps c io) (hn : n ≤ b.len) (hpos : 0 < bs.length)
    (hle : c.length + bs.length ≤ n) (cb : Io → Option Io) :
    ∃ io', Asking b n ps (c ++ bs) io' ∧ nioRead cb bs io = hioHandleRead cb c.length io' := by
  have hl := ha.len
  have ht := ha.tail
  have hh := ha.head
  have hwrite := take_write (k := n - c.length) ha.content (show bs.length ≤ _ by omega) (by omega)
  refine ⟨{ io with
    base := Bytes.write c.length (if bs.length < n - c.length then bs ++ [0] else bs) io.base
    tail := c.length + bs.length }, ?_, ?_⟩
  · exact ⟨ha.closed, ha.posted, ha.reading, ha.once, ha.until', ha.unpack, ha.alloced, ha.max,
      ha.reads, hh, by rw [List.length_append], hwrite.2, hwrite.1.trans hl, ha.le, ha.cnt⟩
  · simp only [nioRead, ha.until', ht, hh, Nat.sub_zero]
    rw [if_pos ⟨by omega, by omega, by omega, hpos, by omega⟩]

-- `recv` is told that there is room for `n` bytes.
theorem Asking.overrun (ha : Asking b n ps c io) (hn : b.len < n)
    (cb : Io → Option Io) : nioRead cb bs io = none := by
  have hl := ha.len
  have ht := ha.tail
  have hh := ha.head
  simp only [nioRead, ha.until']
  exact if_neg fun h => by omega

theorem Asking.read (ha : Asking (bufsize ask ps) (ask ps) ps c io) (fuel : Nat)
    (hx : nextLength ask ps c = .more) (hpos : 0 < bs.length)
    (hle : c.length + bs.length ≤ ask ps)
    (hn : ask ps ≤ (bufsize ask ps).len) :
    ∃ io', readLength ask fuel io bs = some io' ∧
      Delivered ask io' (bufsize ask) (deframe (nextLength ask) ps (c ++ bs)) := by
  obtain ⟨io', ha', he⟩ := ha.received hn hpos hle (askLength ask (fuel + 1))
  rw [readLength, if_pos (by simp [ha.reading, ha.posted]), he, hioHandleRead, ha'.unpack,
    ha'.until']
  simp only
  have hsp : io'.between io'.head io'.tail = c ++ bs := by
    rw [Io.between, ha'.head, ha'.tail, ha'.content, List.drop_zero]
  simp only [nextLength] at hx
  split_ifs at hx with h0 hm hlt
  rw [hsp]
  by_cases hf : (c ++ bs).length = ask ps
  case pos =>
    rw [if_pos hf.ge]
    have hp : nextLength ask ps (c ++ bs) = .package (ask ps) := by
      rw [nextLength, if_neg h0, if_neg hm, if_pos hf.ge]
    rw [deframe_package hp (Nat.pos_of_ne_zero h0) hf.ge, ← hf, List.take_length, List.drop_length]
    rw [hf]
    exact ha'.finish hf fuel
  case neg =>
    have hlen : (c ++ bs).length = c.length + bs.length := List.length_append
    rw [if_neg (by omega)]
    have hp : nextLength ask ps (c ++ bs) = .more := by
      rw [nextLength, if_neg h0, if_neg hm, if_neg (by omega)]
    rw [deframe_more hp]
    have hk : (bufsize ask ps).cnt < 3 := by
      rcases bufsize_sane ask ps with h | h <;> omega
    exact ⟨_, rfl, ha'.resize_more (by omega) hn hk (by rw [← List.length_pos_iff]; omega)⟩

theorem Asking.read_package (ha : Asking (bufsize ask ps) (ask ps) ps [] io) (fuel : Nat)
    (h0 : ask ps ≠ 0) (hm : ask ps ≤ 2 ^ 24) (hn : ask ps ≤ (bufsize ask ps).len)
    (hc : c.length = ask ps) (h0' : ask (ps ++ [c]) ≠ 0) (hm' : ask (ps ++ [c]) ≤ 2 ^ 24) :
    ∃ io', readLength ask fuel io c = some io' ∧
      Asking (bufsize ask (ps ++ [c])) (ask (ps ++ [c])) (ps ++ [c]) [] io' := by
  have hx : nextLength ask ps [] = .more := by
    rw [nextLength, if_neg h0, if_neg (by omega), if_neg (by simpa using h0)]
  have hpos : 0 < c.length := by omega
  obtain ⟨io', he, hd⟩ := ha.read fuel hx hpos (by simp [hc]) hn
  have hp : nextLength ask ps c = .package c.length := by
    rw [nextLength, if_neg h0, if_neg (by omega), if_pos hc.ge, hc]
  rw [List.nil_append, deframe_package hp (by omega) le_rfl, List.take_length, List.drop_length,
    deframe_nil, if_neg h0', if_neg (by omega)] at hd
  exact ⟨io', he, hd⟩

theorem answer_of_readLength (h : readLength ask fuel io bs = some io') :
    io.reading = true ∧ io.posted = false ∧
      nioRead (askLength ask (fuel + 1)) bs io = some io' := by
  rw [readLength] at h
  split at h
  case isTrue hg  => exact ⟨hg.1, by simpa using hg.2, h⟩
  case isFalse hg => contradiction

-- One more piece of the stream arrives.
theorem Delivered.read
    (h : Delivered ask io (bufsize ask) (deframe (nextLength ask) [] s))
    (hr : readLength ask fuel io bs = some io') :
    Delivered ask io' (bufsize ask) (deframe (nextLength ask) [] (s ++ bs)) := by
  obtain ⟨hrd, hp, hn⟩ := answer_of_readLength hr
  rw [deframe_append (nextLength_stable ask)]
  have hrest := Framing.next_rest (nextLength ask) [] s
  cases ho : deframe (nextLength ask) [] s
  all_goals rw [ho] at h hrest
  case more ps r =>
    have ha : Asking (bufsize ask ps) (ask ps) ps r io := h
    simp only [nioRead, ha.until', Option.ite_none_right_eq_some] at hn
    obtain ⟨⟨-, hle, -, hpos, hlen⟩, -⟩ := hn
    rw [ha.tail, ha.head] at hle hlen
    rw [ha.len] at hle
    obtain ⟨io'', he, hd⟩ := ha.read fuel hrest.1 hpos (by omega) (by omega)
    exact Option.some.inj (he.symm.trans hr) ▸ hd
  case bad ps r     => simp [h.1] at hp
  case stopped ps r => simp [h.1] at hrd
  case stuck        => exact h.elim

theorem Delivered.init
    (h : askLength ask (fuel + 1) { hioReady buf with reading := false } = some io) :
    Delivered ask io (bufsize ask) (deframe (nextLength ask) [] []) := by
  have hi : Idle ⟨0, 0⟩ [] { hioReady buf with reading := false } :=
    ⟨rfl, rfl, rfl, rfl, rfl, rfl, rfl, rfl, rfl, rfl, .inr ⟨rfl, rfl⟩⟩
  obtain ⟨io', he, hd⟩ := hi.asked (Nat.zero_le _) ask fuel
  obtain rfl := Option.some.inj (he.symm.trans h)
  rw [deframe_nil] at hd ⊢
  split_ifs at hd ⊢ with h0 hm
  · exact hd
  · exact hd
  · have hb : (⟨0, 0⟩ : Bufsize).prepare (ask []) = bufsize ask [] :=
      if_pos (Nat.pos_of_ne_zero h0)
    rw [Delivered, ← hb]
    exact hd

-- The application gets the bytes for which it has asked, in whatever pieces they arrive.
theorem lengths_delivered
    (h : askLength ask (fuel + 1) { hioReady buf with reading := false } = some io)
    (hr : Machine.run (readLength ask fuel) io bss = some io') :
    Delivered ask io' (bufsize ask) (deframe (nextLength ask) [] bss.flatten) := by
  have hd := Delivered.init h
  suffices hs : ∀ s io, Delivered ask io (bufsize ask) (deframe (nextLength ask) [] s) →
      Machine.run (readLength ask fuel) io bss = some io' →
      Delivered ask io' (bufsize ask) (deframe (nextLength ask) [] (s ++ bss.flatten)) from
    hs [] io hd hr
  clear h hr hd
  induction bss
  case nil =>
    intro s io hd hr
    rw [Machine.run_nil, Option.some.injEq] at hr
    simpa [← hr] using hd
  case cons bs bss hi =>
    intro s io hd hr
    obtain ⟨io₁, he, hr⟩ := Machine.run_cons_iff.mp hr
    rw [List.flatten_cons, ← List.append_assoc]
    exact hi _ io₁ (hd.read he) hr

-- One byte, two bytes, three bytes, and the third package arrives in two pieces.
theorem growing_delivered : ∃ io io',
    askLength (·.length + 1) 1 { hioReady [] with reading := false } = some io ∧
      Machine.run (readLength (·.length + 1) 0) io [[1], [2, 3], [4], [5, 6]] = some io' ∧
      Delivered (·.length + 1) io' (bufsize (·.length + 1))
        (deframe (nextLength (·.length + 1)) [] [1, 2, 3, 4, 5, 6]) := by
  have hr : ((askLength (·.length + 1) 1 { hioReady [] with reading := false }).bind fun io =>
      Machine.run (readLength (·.length + 1) 0) io [[1], [2, 3], [4], [5, 6]]).isSome := by
    decide +kernel
  obtain ⟨io', hr⟩ := Option.isSome_iff_exists.mp hr
  obtain ⟨io, h, hr⟩ := Option.bind_eq_some_iff.mp hr
  exact ⟨io, io', h, hr, lengths_delivered h hr⟩

-- When the buffer has been made smaller after three small reads, although the application has just
-- asked for more than half of it, `recv` writes behind its end.
theorem readLength_fails_iff
    (h : askLength ask (fuel + 1) { hioReady buf with reading := false } = some io)
    (hr : Machine.run (readLength ask fuel) io bss = some io')
    (ho : deframe (nextLength ask) [] bss.flatten = .more ps r) (hpos : 0 < bs.length)
    (hle : r.length + bs.length ≤ ask ps) :
    readLength ask fuel io' bs = none ↔ (bufsize ask ps).len < ask ps := by
  have hd := lengths_delivered h hr
  have hrest := Framing.next_rest (nextLength ask) [] bss.flatten
  rw [ho] at hd hrest
  have ha : Asking (bufsize ask ps) (ask ps) ps r io' := hd
  constructor
  case mp =>
    intro hf
    by_contra hn
    obtain ⟨io'', he, -⟩ := ha.read fuel hrest.1 hpos hle (by omega)
    simp [he] at hf
  case mpr =>
    intro hn
    rw [readLength, ha.overrun hn]
    exact ite_self none

def smallThenLarge (ps : List Payload) : Nat :=
  match ps.length with
  | 0 => 70000
  | 4 => 40000
  | _ => 1

theorem smallThenLarge_ne (ps : List Payload) : smallThenLarge ps ≠ 0 := by
  rw [smallThenLarge]
  split <;> decide

theorem smallThenLarge_le (ps : List Payload) : smallThenLarge ps ≤ 2 ^ 24 := by
  rw [smallThenLarge]
  split <;> decide

def smallReads (q : Payload) : List Payload :=
  [q, [1], [1], [1]]

theorem deframe_smallReads (hc : c.length = 70000) :
    deframe (nextLength smallThenLarge) [] (smallReads c).flatten = .more (smallReads c) [] := by
  have hl : (smallReads c).flatten = c ++ [1, 1, 1] := rfl
  have hp : nextLength smallThenLarge [] (smallReads c).flatten = .package c.length := by
    simp [nextLength, smallThenLarge, hl, hc]
  rw [deframe_package hp (by omega) (by simp [hl]), hl, List.take_left, List.drop_left]
  iterate 3 rw [deframe_package (n := 1) rfl (by decide) (by decide)]
  exact deframe_more rfl

theorem bufsize_smallReads (hc : c.length = 70000) :
    (∀ n < 4, smallThenLarge ((smallReads c).take n) ≤
      (bufsize smallThenLarge ((smallReads c).take n)).len) ∧
    (bufsize smallThenLarge (smallReads c)).len = 35000 := by
  refine ⟨fun n hn => ?_, ?_⟩
  · obtain rfl | rfl | rfl | rfl : n = 0 ∨ n = 1 ∨ n = 2 ∨ n = 3 := by omega
    all_goals simp [bufsize, smallReads, Bufsize.after, Bufsize.next, Bufsize.prepare,
      Bufsize.count, Bufsize.shrink, smallThenLarge, readBufsizeHighWater, hc]
  · simp [bufsize, smallReads, Bufsize.after, Bufsize.next, Bufsize.prepare, Bufsize.count,
      Bufsize.shrink, smallThenLarge, readBufsizeHighWater, hc]

theorem smallReads_run (hc : c.length = 70000)
    (h : askLength smallThenLarge 1 { hioReady buf with reading := false } = some io) :
    ∃ io', Machine.run (readLength smallThenLarge 0) io (smallReads c) = some io' := by
  have hn := smallThenLarge_ne
  have hm := smallThenLarge_le
  have hb := (bufsize_smallReads hc).1
  have ha := Delivered.init h
  rw [deframe_nil, if_neg (hn _), if_neg (hm _).not_gt] at ha
  obtain ⟨io₁, h₁, ha⟩ := Asking.read_package ha 0 (hn _) (hm _) (hb 0 (by decide)) hc (hn _) (hm _)
  obtain ⟨io₂, h₂, ha⟩ := ha.read_package (c := [1]) 0 (hn _) (hm _) (hb 1 (by decide)) rfl
    (hn _) (hm _)
  obtain ⟨io₃, h₃, ha⟩ := ha.read_package (c := [1]) 0 (hn _) (hm _) (hb 2 (by decide)) rfl
    (hn _) (hm _)
  obtain ⟨io₄, h₄, -⟩ := ha.read_package (c := [1]) 0 (hn _) (hm _) (hb 3 (by decide)) rfl
    (hn _) (hm _)
  refine ⟨io₄, ?_⟩
  simp only [smallReads, Machine.run_cons_iff]
  exact ⟨io₁, h₁, io₂, h₂, io₃, h₃, io₄, h₄, rfl⟩

-- The buffer has 35000 bytes.
theorem overrun_after_smallReads : ∃ io io',
    askLength smallThenLarge 1 { hioReady [] with reading := false } = some io ∧
      Machine.run (readLength smallThenLarge 0) io (smallReads (.replicate 70000 0)) = some io' ∧
      readLength smallThenLarge 0 io' [1] = none := by
  have hc : (List.replicate 70000 (0 : UInt8)).length = 70000 := List.length_replicate
  have h : ∃ io, askLength smallThenLarge 1 { hioReady [] with reading := false } = some io :=
    ⟨_, rfl⟩
  obtain ⟨io, h⟩ := h
  obtain ⟨io', hr⟩ := smallReads_run hc h
  have hpos : 0 < [(1 : UInt8)].length := by decide
  have hle : ([] : Payload).length + 1 ≤ smallThenLarge (smallReads (.replicate 70000 0)) :=
    smallThenLarge_ne _ |> Nat.pos_of_ne_zero
  have hf := readLength_fails_iff h hr (deframe_smallReads hc) hpos hle
  refine ⟨io, io', h, hr, hf.mpr ?_⟩
  rw [(bufsize_smallReads hc).2]
  exact (by decide : 35000 < 40000)

end Rlibhv.Reading
