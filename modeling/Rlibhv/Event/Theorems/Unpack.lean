import Rlibhv.Event.Read
import Rlibhv.Event.Theorems.Package
import Rlibhv.Library.Run

-- `hio_unpack` delivers the packages of a stream, however the stream is cut into pieces.
namespace Rlibhv.Reading

open Framing
  (Outcome deframe deframe_package deframe_more deframe_bad deframe_stop deframe_stuck)

variable {setting : UnpackSetting} {app : List Payload → Turn} {closes : List Payload → Bool}
variable {ps : List Payload} {io io' io'' : Io} {buf c d p q u : Payload} {f : LengthField}
variable {fuel n : Nat}

-- A write of the application has failed in a callback for one of `ps`.
def failed (app : List Payload → Turn) (ps : List Payload) : Bool :=
  ps.inits.any fun qs => qs ≠ [] && (app qs).failed.isSome

-- The application has called `hio_close` in a callback for one of `ps`.
def hungUp (app : List Payload → Turn) (ps : List Payload) : Bool :=
  ps.inits.any fun qs => qs ≠ [] && (app qs).hangsUp

-- The callback for the last one of `ps` closes the io. If there is unsent output, that takes a write
-- that has failed, or a close that has been put off before.
def closing (app : List Payload → Turn) (ps : List Payload) : Bool :=
  (app ps).hangsUp && (!(app ps).unsent || failed app ps || hungUp app ps.dropLast)

theorem any_inits_concat (g : List Payload → Bool) (ps : List Payload) (p : Payload) :
    ((ps ++ [p]).inits.any fun qs => qs ≠ [] && g qs) =
      ((ps.inits.any fun qs => qs ≠ [] && g qs) || g (ps ++ [p])) := by
  rw [Bool.eq_iff_iff, Bool.or_eq_true, List.any_eq_true, List.any_eq_true]
  simp only [List.mem_inits, List.prefix_concat_iff]
  constructor
  case mp =>
    rintro ⟨qs, rfl | hq, hg⟩
    · exact .inr (by simpa using hg)
    · exact .inl ⟨qs, hq, hg⟩
  case mpr =>
    rintro (⟨qs, hq, hg⟩ | hg)
    · exact ⟨qs, .inr hq, hg⟩
    · exact ⟨_, .inl rfl, by simpa using hg⟩

theorem failed_concat (app : List Payload → Turn) (ps : List Payload) (p : Payload) :
    failed app (ps ++ [p]) = (failed app ps || (app (ps ++ [p])).failed.isSome) :=
  any_inits_concat _ ps p

theorem hungUp_concat (app : List Payload → Turn) (ps : List Payload) (p : Payload) :
    hungUp app (ps ++ [p]) = (hungUp app ps || (app (ps ++ [p])).hangsUp) :=
  any_inits_concat _ ps p

-- The io is open, so that the callback is called.
structure Open (app : List Payload → Turn) (io : Io) : Prop where
  closed : io.closed = false
  once   : io.readOnce = false
  close  : io.close = hungUp app io.reads
  error  : io.error.isSome = failed app io.reads

-- The io has called back for some packages, the last of which are in `ps`, and is still open.
structure Took (app : List Payload → Turn) (ps : List Payload) (io io' : Io) : Prop where
  eq    : ∃ k u c e o, io' = { io with
    reads := ps, smallReadbytesCnt := k, unsent := u, close := c, error := e, posted := o }
  count : io'.smallReadbytesCnt = io.smallReadbytesCnt ∨ readBufsizeHighWater < io.base.length
  open' : Open app io → Open app io'

-- The application has hung up after the last package in `ps`.
structure HungUp (ps : List Payload) (io : Io) : Prop where
  closed  : io.closed = true
  reads   : io.reads = ps
  once    : io.readOnce = false
  alloced : io.allocedReadbuf = false

theorem Took.refl : Took app io.reads io io :=
  ⟨⟨_, _, _, _, _, rfl⟩, .inl rfl, id⟩

theorem Took.reads (h : Took app ps io io') : io'.reads = ps := by
  obtain ⟨_, _, _, _, _, rfl⟩ := h.eq
  rfl

theorem Took.base (h : Took app ps io io') : io'.base = io.base := by
  obtain ⟨_, _, _, _, _, rfl⟩ := h.eq
  rfl

theorem Took.trans {ps' : List Payload} (h : Took app ps io io') (h' : Took app ps' io' io'') :
    Took app ps' io io'' where
  eq := by
    obtain ⟨_, _, _, _, _, rfl⟩ := h.eq
    obtain ⟨_, _, _, _, _, rfl⟩ := h'.eq
    exact ⟨_, _, _, _, _, rfl⟩
  count := by
    rcases h'.count with hk | hk
    · rw [hk]; exact h.count
    · rw [h.base] at hk; exact .inr hk
  open' := h'.open' ∘ h.open'

-- What `hio_read_cb` does after the callback.
def tally (buf : Payload) (io : Io) : Io :=
  if io.allocedReadbuf ∧ io.base.length > readBufsizeHighWater then
    { io with
      smallReadbytesCnt := if buf.length < io.base.length / 2 then io.smallReadbytesCnt + 1 else 0 }
  else
    io

theorem hioReadCb_eq (hc : io.closed = false) (cb : Io → Option Io) (buf : Payload) :
    hioReadCb cb buf io =
      (cb { (if io.readOnce then { io with readOnce := false, reading := false } else io) with
        reads := io.reads ++ [buf] }).map (tally buf) := by
  rw [Option.map_eq_bind]
  cases ho : io.readOnce
  all_goals
    simp only [hioReadCb, ho, hc, Bool.false_eq_true, if_false, if_true]
    refine congrArg _ (funext fun io' => ?_)
    simp only [tally, Function.comp_apply]
    split
    case isTrue  => split <;> rfl
    case isFalse => rfl

-- After a callback that has not closed the io.
theorem Took.tally (h : Took app ps io io') (hk : io'.smallReadbytesCnt = io.smallReadbytesCnt)
    (buf : Payload) : Took app ps io (Reading.tally buf io') ∧
      (io.base.length / 2 ≤ buf.length → io.smallReadbytesCnt = 0 →
        (Reading.tally buf io').smallReadbytesCnt = 0) := by
  have hb := h.base
  obtain ⟨⟨k, u, c, e, o, rfl⟩, -, ho⟩ := h
  rw [Reading.tally]
  split
  case isTrue hw =>
    refine ⟨⟨⟨_, _, _, _, _, rfl⟩, .inr hw.2, fun h => ?_⟩, fun hle _ => if_neg (by simp only; omega)⟩
    exact ⟨(ho h).closed, (ho h).once, (ho h).close, (ho h).error⟩
  case isFalse => exact ⟨⟨⟨_, _, _, _, _, rfl⟩, .inl hk, ho⟩, fun _ h => hk.trans h⟩

theorem HungUp.tally (h : HungUp ps io) (buf : Payload) : HungUp ps (Reading.tally buf io) := by
  rw [Reading.tally, if_neg (by simp [h.alloced])]
  exact h

theorem hioReadCb_open (buf : Payload) (ho : Open app io) :
    if closing app (io.reads ++ [buf]) then
      ∃ io', hioReadCb (takeTurn app) buf io = some io' ∧ HungUp (io.reads ++ [buf]) io'
    else
      ∃ io', hioReadCb (takeTurn app) buf io = some io' ∧ Took app (io.reads ++ [buf]) io io' ∧
        (io.base.length / 2 ≤ buf.length → io.smallReadbytesCnt = 0 → io'.smallReadbytesCnt = 0) := by
  let turn := app (io.reads ++ [buf])
  let io₁ : Io := { io with
    reads  := io.reads ++ [buf]
    unsent := turn.unsent
    error  := turn.failed.or io.error
    posted := io.posted || turn.failed.isSome }
  have hcb : hioReadCb (takeTurn app) buf io =
      some (tally buf (if turn.hangsUp then hioClose io₁ else io₁)) := by
    rw [hioReadCb_eq ho.closed, if_neg (by simp [ho.once])]
    rfl
  have herror : io₁.error.isSome = failed app (io.reads ++ [buf]) := by
    rw [failed_concat, ← ho.error, Bool.or_comm]
    exact Option.isSome_or
  have hclosing : closing app (io.reads ++ [buf]) = (turn.hangsUp &&
      !decide (turn.unsent = true ∧ io₁.error = none ∧ io.close = false)) := by
    rw [closing, List.dropLast_concat, ← herror, ← ho.close]
    cases turn.unsent <;> cases io₁.error <;> cases io.close <;> simp [turn]
  have htook {c : Bool} (hc : c = hungUp app (io.reads ++ [buf])) :
      Took app (io.reads ++ [buf]) io { io₁ with close := c } :=
    ⟨⟨_, _, _, _, _, rfl⟩, .inl rfl, fun _ => ⟨ho.closed, ho.once, hc, herror⟩⟩
  have hconcat := hungUp_concat app io.reads buf
  rw [← ho.close] at hconcat
  rw [hcb, hclosing]
  cases hh : turn.hangsUp
  case false =>
    rw [show (app (io.reads ++ [buf])).hangsUp = false from hh, Bool.or_false] at hconcat
    exact ⟨_, rfl, (htook hconcat.symm).tally rfl buf⟩
  case true =>
    rw [show (app (io.reads ++ [buf])).hangsUp = true from hh, Bool.or_true] at hconcat
    simp only [Bool.true_and, if_true]
    rw [hioClose, if_neg (show ¬io₁.closed = true by simp [io₁, ho.closed])]
    by_cases hc : turn.unsent = true ∧ io₁.error = none ∧ io.close = false
    case pos =>
      rw [if_pos hc, decide_eq_true hc]
      exact ⟨_, rfl, (htook hconcat.symm).tally rfl buf⟩
    case neg =>
      rw [if_neg hc, decide_eq_false hc]
      refine ⟨_, rfl, HungUp.tally ?_ buf⟩
      rw [hioFreeReadbuf]
      split
      case isTrue    => exact ⟨rfl, rfl, ho.once, rfl⟩
      case isFalse h => exact ⟨rfl, rfl, ho.once, Bool.eq_false_of_not_eq_true h⟩

-- Whether the io has been closed is asked after each package.
def Wanted (closes : List Payload → Bool) (ps : List Payload) : Prop :=
  ¬(ps ≠ [] ∧ closes ps)

theorem next_wanted (setting : UnpackSetting) (c : Payload) (hw : Wanted closes ps) :
    setting.next closes ps c = setting.mode.first setting.packageMaxLength c :=
  if_neg hw

theorem next_stop (h : closes (ps ++ [p])) : setting.next closes (ps ++ [p]) c = .stop :=
  if_pos ⟨by simp, h⟩

-- The callback is called with the next package.
theorem hioReadCb_package (ho : Open app io) (hn : setting.next (closing app) io.reads c = .package n)
    (h0 : 0 < n) (hle : n ≤ c.length) :
    ∃ io', hioReadCb (takeTurn app) (c.take n) io = some io' ∧
      (HungUp (io.reads ++ [c.take n]) io' ∧
        deframe (setting.next (closing app)) io.reads c = .stopped (io.reads ++ [c.take n]) (c.drop n) ∨
      Took app io'.reads io io' ∧ Wanted (closing app) io'.reads ∧
        (io.base.length / 2 ≤ n → io.smallReadbytesCnt = 0 → io'.smallReadbytesCnt = 0) ∧
        deframe (setting.next (closing app)) io.reads c =
          deframe (setting.next (closing app)) io'.reads (c.drop n)) := by
  have hcb := hioReadCb_open (c.take n) ho
  rw [deframe_package hn h0 hle]
  split at hcb
  case isTrue hh =>
    obtain ⟨io', hcb, hc⟩ := hcb
    exact ⟨io', hcb, .inl ⟨hc, deframe_stop (next_stop hh)⟩⟩
  case isFalse hh =>
    obtain ⟨io', hcb, ht, hk⟩ := hcb
    have hr := ht.reads
    rw [List.length_take, Nat.min_eq_left hle] at hk
    refine ⟨io', hcb, .inr ⟨hr ▸ ht, ?_, hk, by rw [hr]⟩⟩
    rw [hr]
    exact fun h => hh h.2

-- What the loop of `hio_unpack_by_delimiter` does.
def Searched (app : List Payload → Turn) (d : Payload) (io : Io) (res : Option (Payload × Io)) : Outcome UInt8 → Prop
  | .more ps q | .bad ps q => ∃ io', Took app ps io io' ∧ res = some (q, io')
  | .stopped ps q          =>
    ∃ io', HungUp ps io' ∧ res = if q.length ≥ d.length then none else some (q, io')
  | .stuck                 => False

theorem Searched.of_took {res : Option (Payload × Io)} {o : Outcome UInt8} (ht : Took app ps io io')
    (h : Searched app d io' res o) : Searched app d io res o := by
  cases o
  case more | bad =>
    obtain ⟨io'', ht', hr⟩ := h
    exact ⟨io'', ht.trans ht', hr⟩
  case stopped => exact h
  case stuck   => exact h

-- The search for delimiters in `u ++ p` has got to `p`.
theorem delimiterLoop_spec {d₀ : Payload} {k : Nat} (hm : setting.mode = .delimiter d₀ k)
    (hd : d₀.take k = d) (hd0 : d ≠ []) (ho : Open app io) (hw : Wanted (closing app) io.reads)
    (hu : endOf d (u ++ p) = (endOf d p).map (· + u.length)) (hf : p.length < fuel)
    (hle : (u ++ p).length ≤ setting.packageMaxLength) :
    Searched app d io (delimiterLoop (takeTurn app) d fuel (u ++ p) p io)
      (deframe (setting.next (closing app)) io.reads (u ++ p)) := by
  have hdpos := List.length_pos_iff.mpr hd0
  induction fuel generalizing u p io
  case zero => omega
  case succ fuel hi =>
    have hn := next_wanted setting (u ++ p) hw
    rw [hm, Mode.first, hd, hu] at hn
    rw [delimiterLoop]
    by_cases hdp : p.length ≥ d.length
    case neg =>
      have he : endOf d p = none := by
        cases he : endOf d p
        case none => rfl
        case some e => have := endOf_bounds he; omega
      simp only [he, Option.map_none] at hn
      rw [if_neg hdp]
      split at hn
      case isTrue  => rw [deframe_bad hn]; exact ⟨io, .refl, rfl⟩
      case isFalse => rw [deframe_more hn]; exact ⟨io, .refl, rfl⟩
    case pos =>
      simp only [if_pos hdp, ho.closed, Bool.false_eq_true, if_false]
      by_cases hp : d.isPrefixOf p
      case pos =>
        have he : endOf d p = some d.length := by
          cases p
          case nil  => exact absurd (by simpa using hdp) hd0
          case cons => rw [endOf, if_pos hp]
        have hlen : d.length + u.length ≤ (u ++ p).length := by rw [List.length_append]; omega
        simp only [he, Option.map_some, if_pos (hlen.trans hle)] at hn
        have hdrop : (u ++ p).drop (d.length + u.length) = p.drop d.length := by
          rw [Nat.add_comm, List.drop_append]
          simp
        have htake : (u ++ p).length - (p.drop d.length).length = d.length + u.length := by
          rw [List.length_append, List.length_drop]
          omega
        obtain ⟨io', hcb, h⟩ := hioReadCb_package ho hn (by omega) hlen
        rw [hdrop] at h
        rw [if_pos hp, htake, hcb, Option.bind_eq_bind, Option.bind_some]
        rcases h with ⟨hc, hx⟩ | ⟨ht, hw', -, hx⟩
        case inl =>
          obtain ⟨fuel, rfl⟩ := Nat.exists_eq_add_of_le' (by omega : 1 ≤ fuel)
          rw [hx, delimiterLoop, hc.closed]
          exact ⟨io', hc, by split <;> rfl⟩
        case inr =>
          have hlt : (p.drop d.length).length < fuel := by rw [List.length_drop]; omega
          have hle' : (p.drop d.length).length ≤ setting.packageMaxLength := by
            rw [List.length_append] at hle
            rw [List.length_drop]
            omega
          rw [hx]
          exact (hi (u := []) (ht.open' ho) hw' (by simp) hlt hle').of_took ht
      case neg =>
        rw [if_neg hp]
        cases p
        case nil => exact absurd (by simpa using hdp) hd0
        case cons b p =>
          have hsplit : u ++ b :: p = (u ++ [b]) ++ p := by simp
          have hu' : endOf d ((u ++ [b]) ++ p) = (endOf d p).map (· + (u ++ [b]).length) := by
            rw [← hsplit, hu, endOf, if_neg hp, Option.map_map]
            congr 1
            funext e
            simp only [Function.comp_apply, List.length_append, List.length_singleton]
            omega
          rw [List.drop_one, List.tail_cons, hsplit]
          exact hi ho hw hu' (by simp at hf; omega) (hsplit ▸ hle)

-- What the loop of `hio_unpack_by_length_field` does with the bytes `c`.
def Parsed (app : List Payload → Turn) (f : LengthField) (packageMaxLength : Nat) (c : Payload) (io : Io)
    (res : Option (Option (Payload × Nat) × Io)) : Outcome UInt8 → Prop
  | .more ps q    => ∃ io' n, Took app ps io io' ∧ res = some (some (q, n), io') ∧
    n ≤ packageMaxLength ∧ (q.length < n ∨ q.length < c.length ∨
      f.lengthFieldCoding = .varint ∧ q.length < f.lengthFieldOffset + 10)
  | .bad ps q     => ∃ io', Took app ps io io' ∧ (res = some (none, closeOverLimit io') ∨
    ∃ n, res = some (some (q, n), io') ∧ packageMaxLength < n ∧ q ≠ [])
  | .stopped ps q => ∃ io' n, HungUp ps io' ∧
    res = if q.length ≥ f.bodyOffset then none else some (some (q, n), io')
  | .stuck        => res = none

theorem Parsed.of_took {res : Option (Option (Payload × Nat) × Io)} {o : Outcome UInt8} {m : Nat}
    (ht : Took app ps io io') (h : Parsed app f m c io' res o) : Parsed app f m c io res o := by
  cases o
  case more =>
    obtain ⟨io'', n, ht', hr⟩ := h
    exact ⟨io'', n, ht.trans ht', hr⟩
  case bad =>
    obtain ⟨io'', ht', hr⟩ := h
    exact ⟨io'', ht.trans ht', hr⟩
  case stopped => exact h
  case stuck   => exact h

theorem LengthField.short_length (hp : f.packageLen p = some .short) :
    f.lengthFieldCoding = .varint ∧ p.length < f.lengthFieldOffset + 10 := by
  simp only [packageLen] at hp
  cases hc : f.lengthFieldCoding
  case bigEndian    => simp [hc] at hp
  case littleEndian => simp [hc] at hp
  case varint =>
    rw [hc] at hp
    obtain ⟨v, hv, hs⟩ := Option.map_eq_some_iff.mp hp
    cases v
    case short =>
      have := length_of_short hv (by omega)
      rw [List.length_drop] at this
      exact ⟨rfl, by omega⟩
    case tooBig => simp at hs
    case value  => simp at hs

-- An empty package is delivered over and over again.
theorem lengthFieldLoop_stuck (fuel n : Nat)
    (hb : f.bodyOffset ≤ p.length) (hp : f.packageLen p = some (.value 0)) (ho : Open app io) :
    lengthFieldLoop (takeTurn app) f fuel p n io = none := by
  induction fuel generalizing n io
  case zero => rfl
  case succ fuel hi =>
    simp only [lengthFieldLoop, ge_iff_le, hb, if_true, ho.closed, Bool.false_eq_true, if_false, hp,
      Option.bind_eq_bind, Option.bind_some, Nat.zero_le, List.drop_zero]
    have hcb := hioReadCb_open (p.take 0) ho
    split at hcb
    case isTrue =>
      obtain ⟨io', hcb, hc⟩ := hcb
      rw [hcb, Option.bind_some]
      cases fuel
      case zero => rfl
      case succ => simp [lengthFieldLoop, hb, hc.closed]
    case isFalse =>
      obtain ⟨io', hcb, ht, -⟩ := hcb
      rw [hcb, Option.bind_some]
      exact hi _ (ht.open' ho)

theorem lengthFieldLoop_spec (hv : setting.Valid) (hm : setting.mode = .lengthField f) (ho : Open app io)
    (hw : Wanted (closing app) io.reads) (hn : n ≤ setting.packageMaxLength)
    (hs : p.length < f.bodyOffset → p.length < n ∨ p.length < c.length) (hpc : p.length ≤ c.length)
    (hf : p.length < fuel) (hc : c.length ≤ setting.packageMaxLength) :
    Parsed app f setting.packageMaxLength c io (lengthFieldLoop (takeTurn app) f fuel p n io)
      (deframe (setting.next (closing app)) io.reads p) := by
  obtain ⟨h0, hbm, -⟩ := hv.lengthField f hm
  have ha := hv.accepted
  rw [hm] at ha
  induction fuel generalizing p n io
  case zero => omega
  case succ fuel hi =>
    have hx := next_wanted setting p hw
    rw [hm, Mode.first] at hx
    by_cases hb : f.bodyOffset ≤ p.length
    case neg =>
      rw [if_pos (by omega)] at hx
      rw [lengthFieldLoop, if_neg hb, deframe_more hx]
      exact ⟨io, n, .refl, rfl, hn, (hs (by omega)).imp_right .inl⟩
    case pos =>
      rw [if_neg (by omega)] at hx
      cases hp : f.packageLen p
      case none => exact absurd hp (LengthField.packageLen_ne_none h0 ha hb)
      case some l =>
        simp only [lengthFieldLoop, ge_iff_le, hb, if_true, ho.closed, Bool.false_eq_true, if_false,
          hp, Option.bind_eq_bind, Option.bind_some]
        simp only [hp] at hx
        cases l
        case short =>
          rw [deframe_more hx]
          exact ⟨io, n, .refl, rfl, hn, .inr <| .inr <| LengthField.short_length hp⟩
        case tooBig =>
          rw [deframe_bad hx]
          exact ⟨io, .refl, .inl rfl⟩
        case value k =>
          simp only at hx ⊢
          by_cases hkm : k > setting.packageMaxLength
          case pos =>
            rw [if_pos hkm] at hx
            rw [deframe_bad hx, if_neg (by omega)]
            refine ⟨io, .refl, .inr ⟨k, rfl, hkm, ?_⟩⟩
            rintro rfl
            have : f.lengthFieldOffset + f.lengthFieldBytes ≤ f.bodyOffset := ha
            simp at hb
            omega
          case neg =>
            rw [if_neg hkm] at hx
            by_cases hkp : k ≤ p.length
            case neg =>
              rw [if_neg hkp] at hx ⊢
              rw [deframe_more hx]
              exact ⟨io, k, .refl, rfl, by omega, .inl (by omega)⟩
            case pos =>
              rw [if_pos hkp] at hx ⊢
              by_cases hk0 : k = 0
              case pos =>
                subst hk0
                have hl := lengthFieldLoop_stuck (fuel + 1) n hb hp ho
                simp only [lengthFieldLoop, ge_iff_le, hb, if_true, ho.closed, Bool.false_eq_true,
                  if_false, hp, Option.bind_eq_bind, Option.bind_some, hkp] at hl
                rw [deframe_stuck hx]
                exact hl
              case neg =>
                obtain ⟨io', hcb, h⟩ := hioReadCb_package ho hx (by omega) hkp
                rw [hcb, Option.bind_some]
                have hlt : (p.drop k).length < p.length := by rw [List.length_drop]; omega
                rcases h with ⟨hc, hx⟩ | ⟨ht, hw', -, hx⟩
                case inl =>
                  obtain ⟨fuel, rfl⟩ := Nat.exists_eq_add_of_le' (by omega : 1 ≤ fuel)
                  rw [hx, lengthFieldLoop, hc.closed]
                  exact ⟨io', k, hc, by split <;> rfl⟩
                case inr =>
                  rw [hx]
                  exact (hi (ht.open' ho) hw' (by omega) (fun _ => .inr (by omega)) (by omega)
                    (by omega)).of_took ht

end Rlibhv.Reading
