import Rlibhv.Event.Theorems.Unpack

-- What an io with an unpack setting does in every sequence of reads.
namespace Rlibhv.Reading

open Framing (Outcome deframe deframe_more)

variable {setting : UnpackSetting} {app : List Payload → Turn} {ps ps' : List Payload}
variable {io io' : Io} {c d q r s bs : Payload} {f : LengthField} {n : Nat} {o : Outcome UInt8}

-- The buffer of an open io holds the bytes `c` at its beginning. The callback has been called for
-- `ps`.
structure Buffered (setting : UnpackSetting) (app : List Payload → Turn) (ps : List Payload)
    (c : Payload) (io : Io) : Prop extends Open app io where
  until'  : io.readUntil = none
  unpack  : io.unpackSetting = some setting
  alloced : io.allocedReadbuf = true
  max     : io.maxReadBufsize = setting.packageMaxLength
  reads   : io.reads = ps
  head    : io.head = 0
  tail    : io.tail = c.length
  content : io.base.take c.length = c
  le      : io.base.length ≤ setting.packageMaxLength
  fixed   : ∀ n, setting.mode = .fixedLength n → io.base.length = n
  ge      : (∀ n, setting.mode ≠ .fixedLength n) →
    min hloopReadBufsize setting.packageMaxLength ≤ io.base.length
  count   : io.smallReadbytesCnt = 0 ∨
    readBufsizeHighWater < io.base.length ∧ ∀ n, setting.mode ≠ .fixedLength n

-- Between two reads there is room for more.
structure Waiting (setting : UnpackSetting) (app : List Payload → Turn) (ps : List Payload)
    (c : Payload) (io : Io) : Prop extends Buffered setting app ps c io where
  room : c.length < io.base.length

theorem keepRemain_nil : keepRemain [] io = some { io with head := 0, tail := 0 } :=
  rfl

namespace Buffered

theorem length_le (hb : Buffered setting app ps c io) : c.length ≤ io.base.length := by
  have h := congrArg List.length hb.content
  rw [List.length_take] at h
  omega

theorem between_eq (hb : Buffered setting app ps c io) (n : Nat) : io.between n io.tail = c.drop n := by
  rw [Io.between, hb.tail, hb.content]

theorem base_pos (hb : Buffered setting app ps c io) (hv : setting.Valid) : 0 < io.base.length := by
  by_cases hm : ∃ n, setting.mode = .fixedLength n
  case pos =>
    obtain ⟨n, hm⟩ := hm
    have ha := hv.accepted
    rw [hm] at ha
    rw [hb.fixed n hm]
    exact Nat.pos_of_ne_zero ha.1
  case neg =>
    have h := hb.ge fun n hn => hm ⟨n, hn⟩
    have := hv.pos
    have : hloopReadBufsize = 8192 := rfl
    omega

-- The callback has been called, and `q` is left.
theorem keepRemain (hb : Buffered setting app ps c io) (ht : Took app ps' io io') (hq : q.length ≤ c.length)
    (hk : ∀ n, setting.mode = .fixedLength n → io'.smallReadbytesCnt = 0) :
    ∃ io'', keepRemain q io' = some io'' ∧ Buffered setting app ps' q io'' ∧
      io''.base.length = io.base.length := by
  have ho := ht.open' hb.toOpen
  obtain ⟨⟨k, u, e, err, o, rfl⟩, hkc, -⟩ := ht
  have hopen (base : Payload) (tail : Nat) : Open app { io with
      base := base, head := 0, tail := tail, reads := ps', smallReadbytesCnt := k, unsent := u,
      close := e, error := err, posted := o } := ⟨ho.closed, ho.once, ho.close, ho.error⟩
  have hlen := hq.trans hb.length_le
  have hw : (Bytes.write 0 q io.base).length = io.base.length := by
    simp [Bytes.write]
    omega
  have hcount : k = 0 ∨
      readBufsizeHighWater < io.base.length ∧ ∀ n, setting.mode ≠ .fixedLength n := by
    by_cases hm : ∃ n, setting.mode = .fixedLength n
    case pos =>
      obtain ⟨n, hm⟩ := hm
      exact .inl (hk n hm)
    case neg =>
      rw [not_exists] at hm
      rcases hkc with rfl | hkc
      · exact hb.count
      · exact .inr ⟨hkc, hm⟩
  by_cases h0 : q.length = 0
  case pos =>
    obtain rfl := List.length_eq_zero_iff.mp h0
    exact ⟨_, keepRemain_nil, ⟨hopen .., hb.until', hb.unpack, hb.alloced, hb.max, rfl, rfl,
      rfl, rfl, hb.le, hb.fixed, hb.ge, hcount⟩, rfl⟩
  case neg =>
    refine ⟨_, (if_neg h0).trans (if_neg (by simp [hb.closed])), ⟨hopen .., hb.until', hb.unpack,
      hb.alloced, hb.max, rfl, rfl, rfl, ?_, ?_, ?_, ?_, ?_⟩, hw⟩
    · simp [Bytes.write]
    all_goals simp only [hw]
    · exact hb.le
    · exact hb.fixed
    · exact hb.ge
    · exact hcount

-- The buffer gets another size.
theorem alloc (hb : Buffered setting app ps c io) (hm : ∀ n, setting.mode ≠ .fixedLength n)
    (hc : c.length ≤ n) (hn : n ≤ setting.packageMaxLength)
    (hg : min hloopReadBufsize setting.packageMaxLength ≤ n) :
    Buffered setting app ps c (hioAllocReadbuf n io) ∧ (hioAllocReadbuf n io).base.length = n := by
  have hlen : (io.base.take n ++ List.replicate (n - io.base.length) (0 : UInt8)).length = n := by
    simp
    omega
  rw [hioAllocReadbuf, if_neg (by rw [hb.max]; omega), if_pos hb.alloced]
  have ho : Open app io := hb.toOpen
  refine ⟨⟨⟨ho.closed, ho.once, ho.close, ho.error⟩, hb.until', hb.unpack, rfl, hb.max, hb.reads, hb.head, hb.tail, ?_, ?_,
    fun n hn => absurd hn (hm n), fun _ => ?_, .inl rfl⟩, hlen⟩
  · have hle := hb.length_le
    rw [List.take_append_of_le_length (by rw [List.length_take]; omega), List.take_take,
      Nat.min_eq_left hc]
    exact hb.content
  · simpa only [hlen] using hn
  · simpa only [hlen] using hg

end Buffered

-- What becomes of the io, depending on what is in its buffer.
def Unpacked (setting : UnpackSetting) (app : List Payload → Turn) (res : Option Io) : Outcome UInt8 → Prop
  | .more ps q    => ∃ io, res = some io ∧ Waiting setting app ps q io
  | .bad ps _     =>
    ∃ io, res = some io ∧ io.closed = true ∧ io.error = some .overLimit ∧ io.reads = ps
  | .stopped ps q => (q = [] → ∃ io, res = some io ∧ io.closed = true ∧ io.reads = ps) ∧
    (q ≠ [] → res = none)
  | .stuck        => res = none

theorem keepRemain_hungUp (hh : HungUp ps io) (hq : q ≠ []) : keepRemain q io = none := by
  rw [keepRemain]
  simp [hq, hh.closed]

theorem closeOverLimit_spec (ho : Open app io) : (closeOverLimit io).closed = true ∧
    (closeOverLimit io).error = some .overLimit ∧ (closeOverLimit io).reads = io.reads := by
  rw [closeOverLimit, hioClose, if_neg (by simp [ho.closed]), if_neg (by simp), hioFreeReadbuf]
  split <;> exact ⟨rfl, rfl, rfl⟩

theorem Buffered.wanted (hb : Buffered setting app ps c io) (hw : Wanted (closing app) ps) :
    Wanted (closing app) io.reads :=
  hb.reads ▸ hw

theorem fixedLength_spec (hb : Buffered setting app ps c io) (hv : setting.Valid)
    (hm : setting.mode = .fixedLength n) (hw : Wanted (closing app) ps) :
    Unpacked setting app (hioUnpackByFixedLength (takeTurn app) n io)
      (deframe (setting.next (closing app)) ps c) := by
  have hlen := hb.fixed n hm
  have hn0 : n ≠ 0 := by
    have ha := hv.accepted
    rw [hm] at ha
    exact ha.1
  have hle := hb.length_le
  have hbt := hb.between_eq io.head
  rw [hb.head, List.drop_zero] at hbt
  have hnext {ps : List Payload} (hw : Wanted (closing app) ps) (q : Payload) :
      setting.next (closing app) ps q = if n ≤ q.length then .package n else .more := by
    rw [next_wanted setting q hw, hm, Mode.first]
  have hcount : io.smallReadbytesCnt = 0 := hb.count.resolve_right fun h => h.2 n hm
  rw [hioUnpackByFixedLength, if_pos hlen.ge]
  simp only [hb.head, hbt, fixedLengthLoop, ge_iff_le, Option.bind_eq_bind]
  have hx := hnext hw c
  rw [← hb.reads] at hx
  by_cases hcn : n ≤ c.length
  case neg =>
    rw [if_neg hcn] at hx ⊢
    rw [← hb.reads, deframe_more hx, Option.bind_some]
    obtain ⟨io', he, hb', hl⟩ := hb.keepRemain .refl le_rfl fun _ _ => hcount
    exact ⟨io', he, hb', by omega⟩
  case pos =>
    rw [if_pos hcn] at hx ⊢
    obtain ⟨io', hcb, h⟩ := hioReadCb_package hb.toOpen hx (by omega) hcn
    have hdrop : c.drop n = [] := List.drop_eq_nil_iff.mpr (by omega)
    obtain ⟨l, hl⟩ := Nat.exists_eq_add_of_le' (by omega : 1 ≤ c.length)
    rw [hdrop] at h
    simp only [hcb, Option.bind_some, hdrop, hl, fixedLengthLoop, ge_iff_le, List.length_nil,
      Nat.le_zero_eq, hn0, if_false]
    rw [← hb.reads]
    rcases h with ⟨hc, hx⟩ | ⟨ht, hw', hk, hx⟩
    case inl =>
      rw [hx]
      exact ⟨fun _ => ⟨_, keepRemain_nil, hc.closed, hc.reads⟩, fun hq => absurd rfl hq⟩
    case inr =>
      have hx' := hnext hw' []
      rw [if_neg (by simpa using hn0)] at hx'
      rw [hx, deframe_more hx']
      obtain ⟨io'', he, hb', hl⟩ := hb.keepRemain (q := []) ht (by simp) fun _ _ =>
        hk (by omega) hcount
      exact ⟨io'', he, hb', by simp; omega⟩

theorem Buffered.overLimit (hb : Buffered setting app ps c io) (res : Option Io)
    (he : res = some (closeOverLimit io)) : Unpacked setting app res (.bad ps q) := by
  obtain ⟨hc, herr, hr⟩ := closeOverLimit_spec hb.toOpen
  exact ⟨_, he, hc, herr, hr.trans hb.reads⟩

-- The bytes `r` have been searched before, so the search starts behind them.
theorem delimiter_spec (hb : Buffered setting app ps (r ++ bs) io) (hv : setting.Valid) {d : Payload}
    (hm : setting.mode = .delimiter d n) (hw : Wanted (closing app) ps)
    (hr : setting.next (closing app) ps r = .more) :
    Unpacked setting app (hioUnpackByDelimiter (takeTurn app) (d.take n) setting.packageMaxLength
      r.length io) (deframe (setting.next (closing app)) ps (r ++ bs)) := by
  have hd0 := hv.delimiter d n hm
  have hne (k : Nat) : setting.mode ≠ .fixedLength k := by simp [hm]
  have hle := hb.length_le
  have hbase := hb.le
  have hpos := hb.base_pos hv
  have hge := hb.ge hne
  have hfirst {ps : List Payload} (hw : Wanted (closing app) ps) (q : Payload) :
      setting.next (closing app) ps q =
        (Mode.delimiter d n).first setting.packageMaxLength q := by
    rw [next_wanted setting q hw, hm]
  let j := r.length + 1 - (d.take n).length
  let u := (r ++ bs).take j
  let p := (r ++ bs).drop j
  have hup : u ++ p = r ++ bs := List.take_append_drop _ _
  have hdpos := List.length_pos_iff.mpr hd0
  have hulen : u.length = j := by
    rw [List.length_take, List.length_append]
    omega
  have hnone : endOf (d.take n) r = none := by
    rw [hfirst hw, Mode.first] at hr
    cases he : endOf (d.take n) r
    case none   => rfl
    case some e =>
      simp only [he] at hr
      split at hr <;> contradiction
  have hu : endOf (d.take n) (u ++ p) = (endOf (d.take n) p).map (· + u.length) := by
    rw [hup, hulen]
    by_cases hj : j = 0
    case pos => simp [p, hj]
    case neg => exact endOf_resume hnone (by omega)
  have hs := delimiterLoop_spec (p := p) hm rfl hd0 hb.toOpen (hb.wanted hw) hu
    (Nat.lt_succ_self _) (hup ▸ hle.trans hbase)
  rw [hup, hb.reads] at hs
  have hsp := hb.between_eq 0
  have hpp := hb.between_eq j
  rw [List.drop_zero] at hsp
  simp only [hioUnpackByDelimiter, hb.head, Nat.zero_max, hsp]
  rw [show io.between (r.length + 1 - (d.take n).length) io.tail = p from hpp]
  have hrest := Framing.next_rest (setting.next (closing app)) ps (r ++ bs)
  cases ho : deframe (setting.next (closing app)) ps (r ++ bs)
  all_goals rw [ho] at hs hrest
  case more ps' q =>
    obtain ⟨io', ht, he⟩ := hs
    have hq := hrest.2.length_le
    have hqm : q.length < setting.packageMaxLength := by
      have hx := hrest.1
      by_cases hw' : Wanted (closing app) ps'
      case neg => rw [UnpackSetting.next, if_pos (not_not.mp hw')] at hx; contradiction
      case pos =>
        rw [hfirst hw', Mode.first] at hx
        split at hx
        case h_1 => split at hx <;> contradiction
        case h_2 =>
          split at hx
          · contradiction
          · omega
    obtain ⟨io'', he', hb', hl⟩ := hb.keepRemain ht hq fun k hk => absurd hk (hne k)
    simp only [he, he', Option.bind_eq_bind, Option.bind_some, hb'.tail, hl]
    split
    case isFalse h =>
      refine ⟨io'', rfl, hb', ?_⟩
      rw [hl]
      omega
    case isTrue h =>
      rw [if_neg (by omega)]
      obtain ⟨hb'', hl'⟩ := hb'.alloc (n := min (io.base.length * 2) setting.packageMaxLength) hne
        (by omega) (by omega) (by omega)
      exact ⟨_, rfl, hb'', by omega⟩
  case bad ps' q =>
    obtain ⟨io', ht, he⟩ := hs
    have hq := hrest.2.length_le
    have hqm : setting.packageMaxLength ≤ q.length := by
      have hx := hrest.1
      by_cases hw' : Wanted (closing app) ps'
      case neg => rw [UnpackSetting.next, if_pos (not_not.mp hw')] at hx; contradiction
      case pos =>
        rw [hfirst hw', Mode.first] at hx
        split at hx
        case h_1 e hend =>
          have := (endOf_bounds hend).2
          split at hx
          · contradiction
          · omega
        case h_2 =>
          split at hx
          · assumption
          · contradiction
    obtain ⟨io'', he', hb', hl⟩ := hb.keepRemain ht hq fun k hk => absurd hk (hne k)
    refine hb'.overLimit _ ?_
    simp only [he, he', Option.bind_eq_bind, Option.bind_some, hb'.tail, hl]
    rw [if_pos (by omega), if_pos (by omega)]
    rfl
  case stopped ps' q =>
    obtain ⟨io', hh, he⟩ := hs
    constructor
    case left =>
      rintro rfl
      rw [if_neg (by simpa using hd0)] at he
      simp only [he, keepRemain_nil, Option.bind_eq_bind, Option.bind_some]
      exact ⟨_, if_neg (by simp), hh.closed, hh.reads⟩
    case right =>
      intro hq
      rw [he]
      split
      case isTrue  => rfl
      case isFalse =>
        rw [Option.bind_eq_bind, Option.bind_some]
        simp only [keepRemain_hungUp hh hq]
        rfl
  case stuck => exact hs.elim

theorem lengthField_spec (hb : Buffered setting app ps c io) (hv : setting.Valid)
    (hm : setting.mode = .lengthField f) (hw : Wanted (closing app) ps) :
    Unpacked setting app (hioUnpackByLengthField (takeTurn app) f setting.packageMaxLength io)
      (deframe (setting.next (closing app)) ps c) := by
  obtain ⟨h0, hbm, -, hvar⟩ := hv.lengthField f hm
  have ha : f.lengthFieldOffset + f.lengthFieldBytes ≤ f.bodyOffset := by
    have ha := hv.accepted
    rwa [hm] at ha
  have hne (k : Nat) : setting.mode ≠ .fixedLength k := by simp [hm]
  have hle := hb.length_le
  have hbase := hb.le
  have hpos := hb.base_pos hv
  have hge := hb.ge hne
  have hs := lengthFieldLoop_spec hv hm hb.toOpen (hb.wanted hw) hbm (fun h => .inl h) le_rfl
    (Nat.lt_succ_self c.length) (hle.trans hbase)
  rw [hb.reads] at hs
  have hsp := hb.between_eq 0
  rw [List.drop_zero] at hsp
  simp only [hioUnpackByLengthField, hb.head, hsp]
  have hrest := Framing.next_rest (setting.next (closing app)) ps c
  cases ho : deframe (setting.next (closing app)) ps c
  all_goals rw [ho] at hs hrest
  case more ps' q =>
    obtain ⟨io', k, ht, he, hk, hlt⟩ := hs
    have hq := hrest.2.length_le
    obtain ⟨io'', he', hb', hl⟩ := hb.keepRemain ht hq fun k hk => absurd hk (hne k)
    simp only [he, he', Option.bind_eq_bind, Option.bind_some, hb'.tail, hl]
    split
    case isFalse h =>
      refine ⟨io'', rfl, hb', ?_⟩
      rw [hl]
      rcases hlt with hlt | hlt | hlt
      · omega
      · omega
      · have := hvar hlt.1
        omega
    case isTrue h =>
      rw [if_neg (by omega)]
      have hlim : k ≤ limit k (io.base.length * 2) setting.packageMaxLength ∧
          limit k (io.base.length * 2) setting.packageMaxLength ≤ setting.packageMaxLength := by
        rw [limit]
        split_ifs <;> omega
      obtain ⟨hb'', hl'⟩ := hb'.alloc hne (by omega) hlim.2 (by omega)
      exact ⟨_, rfl, hb'', by omega⟩
  case bad ps' q =>
    obtain ⟨io', ht, he⟩ := hs
    have hq := hrest.2.length_le
    rcases he with he | ⟨k, he, hk, hq0⟩
    case inl =>
      obtain ⟨hc, herr, hr⟩ := closeOverLimit_spec (ht.open' hb.toOpen)
      exact ⟨_, by rw [he]; rfl, hc, herr, hr.trans ht.reads⟩
    case inr =>
      obtain ⟨io'', he', hb', hl⟩ := hb.keepRemain ht hq fun k hk => absurd hk (hne k)
      have hq' := List.length_pos_iff.mpr hq0
      refine hb'.overLimit _ ?_
      simp only [he, he', Option.bind_eq_bind, Option.bind_some, hb'.tail, hl]
      rw [if_pos (by omega), if_pos hk]
      rfl
  case stopped ps' q =>
    obtain ⟨io', k, hh, he⟩ := hs
    constructor
    case left =>
      rintro rfl
      rw [if_neg (by simp; omega)] at he
      simp only [he, keepRemain_nil, Option.bind_eq_bind, Option.bind_some]
      exact ⟨_, if_neg (by simp), hh.closed, hh.reads⟩
    case right =>
      intro hq
      rw [he]
      split
      case isTrue  => rfl
      case isFalse =>
        rw [Option.bind_eq_bind, Option.bind_some]
        simp only [keepRemain_hungUp hh hq]
        rfl
  case stuck => rw [show lengthFieldLoop _ _ _ _ _ _ = none from hs]; rfl

theorem Waiting.resize (hw : Waiting setting app ps c io) : Waiting setting app ps c (resizeReadbuf io) := by
  have hb := hw.toBuffered
  have hroom := hw.room
  have hio : (if io.head = io.tail then { io with head := 0, tail := 0 } else io) = io := by
    split
    case isTrue h =>
      have ht : io.tail = 0 := by rw [← h, hb.head]
      cases io
      simp only at ht hb
      have hh := hb.head
      simp only at hh
      rw [ht, hh]
    case isFalse => rfl
  rw [resizeReadbuf]
  simp only [hio]
  rw [if_neg (by rw [hb.tail]; omega)]
  split
  case isFalse => exact hw
  case isTrue h =>
    obtain ⟨hlt, hne⟩ := hb.count.resolve_left (by omega)
    have hh : readBufsizeHighWater = 65536 := rfl
    have hr : hloopReadBufsize = 8192 := rfl
    have hle := hb.le
    rw [hb.tail] at h
    obtain ⟨hb', hl⟩ := hb.alloc (n := io.base.length / 2) hne (by omega) (by omega) (by omega)
    exact ⟨hb', by omega⟩

theorem resize_closed (hc : io.closed = true) : (resizeReadbuf io).closed = true ∧
    (resizeReadbuf io).reads = io.reads ∧
    (io.error = some .overLimit → (resizeReadbuf io).error = some .overLimit) := by
  have halloc (n : Nat) (io : Io) : (hioAllocReadbuf n io).closed = io.closed ∧
      (hioAllocReadbuf n io).reads = io.reads ∧
      (io.error = some .overLimit → (hioAllocReadbuf n io).error = some .overLimit) := by
    rw [hioAllocReadbuf]
    split
    · exact ⟨rfl, rfl, fun _ => rfl⟩
    · exact ⟨rfl, rfl, id⟩
  have hmove (io : Io) : (hioMemmoveReadbuf io).closed = io.closed ∧
      (hioMemmoveReadbuf io).reads = io.reads ∧ (hioMemmoveReadbuf io).error = io.error := by
    rw [hioMemmoveReadbuf]
    split_ifs <;> exact ⟨rfl, rfl, rfl⟩
  have hio : (if io.head = io.tail then { io with head := 0, tail := 0 } else io).closed = true ∧
      (if io.head = io.tail then { io with head := 0, tail := 0 } else io).reads = io.reads ∧
      (if io.head = io.tail then { io with head := 0, tail := 0 } else io).error = io.error := by
    split_ifs <;> exact ⟨hc, rfl, rfl⟩
  rw [resizeReadbuf]
  generalize (if io.head = io.tail then { io with head := 0, tail := 0 } else io) = io₁ at hio ⊢
  obtain ⟨hc₁, hr₁, he₁⟩ := hio
  split_ifs
  · obtain ⟨h₁, h₂, h₃⟩ := halloc (io₁.base.length * 2) io₁
    exact ⟨h₁.trans hc₁, h₂.trans hr₁, fun h => h₃ (he₁.trans h)⟩
  · obtain ⟨h₁, h₂, h₃⟩ := hmove io₁
    exact ⟨h₁.trans hc₁, h₂.trans hr₁, fun h => h₃.trans (he₁.trans h)⟩
  · obtain ⟨h₁, h₂, h₃⟩ := halloc (io₁.base.length / 2) io₁
    exact ⟨h₁.trans hc₁, h₂.trans hr₁, fun h => h₃ (he₁.trans h)⟩
  · exact ⟨hc₁, hr₁, fun h => he₁.trans h⟩

theorem Unpacked.resize {res : Option Io} (h : Unpacked setting app res o) :
    Unpacked setting app (res.map resizeReadbuf) o := by
  cases o
  case more ps q =>
    obtain ⟨io, rfl, hw⟩ := h
    exact ⟨_, rfl, hw.resize⟩
  case bad ps q =>
    obtain ⟨io, rfl, hc, he, hr⟩ := h
    obtain ⟨hc', hr', he'⟩ := resize_closed hc
    exact ⟨_, rfl, hc', he' he, hr'.trans hr⟩
  case stopped ps q =>
    refine ⟨fun hq => ?_, fun hq => by rw [h.2 hq]; rfl⟩
    obtain ⟨io, rfl, hc, hr⟩ := h.1 hq
    obtain ⟨hc', hr', -⟩ := resize_closed hc
    exact ⟨_, rfl, hc', hr'.trans hr⟩
  case stuck => rw [show res = none from h]; rfl

-- The answers that recv may give.
def Answer (io : Io) (bs : Payload) : Prop :=
  0 < bs.length ∧ io.tail + bs.length ≤ io.base.length

-- `recv` has written `bs` behind `c`, and a byte 0 may follow if there is room for it.
theorem take_write {base : Payload} {k : Nat} (hc : base.take c.length = c) (hb : bs.length ≤ k)
    (hk : c.length + k ≤ base.length) :
    (Bytes.write c.length (if bs.length < k then bs ++ [0] else bs) base).length = base.length ∧
    (Bytes.write c.length (if bs.length < k then bs ++ [0] else bs) base).take (c ++ bs).length =
      c ++ bs := by
  have hsplit : ∃ z, (if bs.length < k then bs ++ [0] else bs) = bs ++ z ∧
      c.length + (bs ++ z).length ≤ base.length := by
    by_cases hz : bs.length < k
    · exact ⟨[0], if_pos hz, by simp; omega⟩
    · exact ⟨[], by rw [List.append_nil]; exact if_neg hz, by simp; omega⟩
  obtain ⟨z, hz, hle⟩ := hsplit
  rw [hz, Bytes.write, hc]
  constructor
  · simp only [List.length_append, List.length_drop] at hle ⊢
    omega
  · rw [← List.append_assoc, List.append_assoc _ z, List.take_left]

theorem Waiting.received (hw : Waiting setting app ps r io)
    (ha : Answer io bs) :
    ∃ io', Buffered setting app ps (r ++ bs) io' ∧
      nioRead (takeTurn app) bs io = hioHandleRead (takeTurn app) r.length io' := by
  have hb := hw.toBuffered
  obtain ⟨hpos, hlen⟩ := ha
  have ht := hb.tail
  rw [ht] at hlen
  have hr := hb.length_le
  have hwrite := take_write (k := io.base.length - r.length) hb.content
    (show bs.length ≤ _ by omega) (by omega)
  rw [← ht] at hwrite
  refine ⟨{ io with
    base :=
      Bytes.write io.tail (if bs.length < io.base.length - io.tail then bs ++ [0] else bs) io.base
    tail := io.tail + bs.length }, ?_, ?_⟩
  · have hle := hb.le
    refine ⟨⟨hb.closed, hb.once, hb.close, hb.error⟩, hb.until', hb.unpack, hb.alloced, hb.max,
      hb.reads, hb.head, ?_,
      hwrite.2, ?_, ?_, ?_, ?_⟩
    · rw [ht, List.length_append]
    all_goals simp only [hwrite.1]
    · exact hle
    · exact hb.fixed
    · exact hb.ge
    · exact hb.count
  · simp only [nioRead, hb.until']
    rw [if_pos ⟨by omega, by omega, by rw [hb.head]; omega, hpos, by omega⟩, ← ht]

theorem Waiting.read (hw : Waiting setting app ps r io) (hv : setting.Valid) (hs : Wanted (closing app) ps)
    (hr : setting.next (closing app) ps r = .more) (ha : Answer io bs) :
    Unpacked setting app (nioRead (takeTurn app) bs io)
      (deframe (setting.next (closing app)) ps (r ++ bs)) := by
  obtain ⟨io', hb, he⟩ := hw.received ha
  rw [he, hioHandleRead, hb.unpack]
  simp only
  refine Unpacked.resize ?_
  rw [hioUnpack]
  split
  case h_1 n hm   => exact fixedLength_spec hb hv hm hs
  case h_2 d n hm => exact delimiter_spec hb hv hm hs hr
  case h_3 f hm   => exact lengthField_spec hb hv hm hs
  case h_4 hm     => exact absurd hm hv.mode

end Rlibhv.Reading
