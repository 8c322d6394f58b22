import Rlibhv.Event.Effect

namespace Rlibhv

namespace World

variable {w : World} {f g : Fd} {io : Hio} {h : Hio → Hio}

theorem io_eq (hf : w.loop.ios f = some io) : w.io f = io := by
  simp [World.io, hf]

theorem ios_modifyIo_self (hf : w.loop.ios f = some io) :
    (w.modifyIo f h).loop.ios f = some (h io) := by
  simp [modifyIo, setLoop, hf]

theorem ios_modifyIo_of_ne (hg : g ≠ f) : (w.modifyIo f h).loop.ios g = w.loop.ios g := by
  simp [modifyIo, setLoop, hg]

theorem modifyIo_of_none (hf : w.loop.ios f = none) : w.modifyIo f h = w := by
  have : Function.update w.loop.ios f none = w.loop.ios := hf ▸ Function.update_eq_self _ _
  simp [modifyIo, setLoop, hf, this]

end World

namespace Hio

variable {io io' : Hio}

theorem solid_of_hard (he : io'.hard = io.hard) : io'.solid = io.solid :=
  congrArg Hio.core he

theorem solid_of_core (he : io'.core = io.core) : io'.solid = io.solid :=
  congrArg Hio.hard he

theorem hard_of_core (he : io'.core = io.core) (hp : io'.pending = io.pending) :
    io'.hard = io.hard := by
  cases io
  cases io'
  simp_all [core, hard]

theorem error_of_core (he : io'.core = io.core) : io'.error = io.error := by
  have := congrArg Hio.error he
  exact this

theorem Ready.of_solid (h : io.Ready) (he : io'.solid = io.solid) : io'.Ready where
  ready   := (congrArg Hio.ready he).trans h.ready
  closed  := (congrArg Hio.closed he).trans h.closed
  active  := (congrArg Hio.active he).trans h.active
  cb      := (congrArg Hio.cb he).trans h.cb
  alloced := (congrArg Hio.allocedReadbuf he).trans h.alloced
  small   := (congrArg Hio.smallReadbytesCnt he).trans h.small
  readbuf := (congrArg Hio.readbuf he).trans h.readbuf

theorem Live.of_solid (h : io.Live) (he : io'.solid = io.solid) : io'.Live where
  toReady  := h.toReady.of_solid he
  accept   := (congrArg Hio.accept he).trans h.accept
  tcp      := (congrArg Hio.ioType he).trans h.tcp
  closeCb  := (congrArg Hio.closeCb he).trans h.closeCb
  readCb   := (congrArg Hio.readCb he).trans h.readCb
  priority := (congrArg Hio.priority he).trans h.priority
  rd       := (congrArg (·.events.rd) he).trans h.rd

theorem Listening.of_core (h : io.Listening) (he : io'.core = io.core) : io'.Listening where
  toReady  := h.toReady.of_solid <| solid_of_core he
  accept   := (congrArg Hio.accept he).trans h.accept
  tcp      := (congrArg Hio.ioType he).trans h.tcp
  closeCb  := (congrArg Hio.closeCb he).trans h.closeCb
  acceptCb := (congrArg Hio.acceptCb he).trans h.acceptCb
  priority := (congrArg Hio.priority he).trans h.priority
  events   := (congrArg Hio.events he).trans h.events
  queue    := (congrArg (·.writeQueue.toList) he).trans h.queue
  timer    := (congrArg Hio.closeTimer he).trans h.timer

theorem Waking.of_core (h : io.Waking) (he : io'.core = io.core) : io'.Waking where
  toReady  := h.toReady.of_solid <| solid_of_core he
  accept   := (congrArg Hio.accept he).trans h.accept
  file     := (congrArg (·.ioType.isSocket) he).trans h.file
  closeCb  := (congrArg Hio.closeCb he).trans h.closeCb
  readCb   := (congrArg Hio.readCb he).trans h.readCb
  priority := (congrArg Hio.priority he).trans h.priority
  events   := (congrArg Hio.events he).trans h.events
  queue    := (congrArg (·.writeQueue.toList) he).trans h.queue
  timer    := (congrArg Hio.closeTimer he).trans h.timer

theorem Dead.of_core (h : io.Dead) (he : io'.core = io.core) : io'.Dead where
  ready    := (congrArg Hio.ready he).trans h.ready
  closed   := (congrArg Hio.closed he).trans h.closed
  active   := (congrArg Hio.active he).trans h.active
  events   := (congrArg Hio.events he).trans h.events
  queue    := (congrArg (·.writeQueue.toList) he).trans h.queue
  priority := (congrArg Hio.priority he).trans h.priority

end Hio

theorem Fits.of_core {k : Option Kind} {o o' : Option Hio} (h : Fits k o)
    (he : o'.map Hio.core = o.map Hio.core) : Fits k o' := by
  cases o <;> cases o'
  case none.none => exact h
  case none.some | some.none => simp at he
  case some.some =>
    have he := Option.some.inj he
    cases k
    case none => exact Hio.Dead.of_core h he
    case some k =>
      cases k
      case conn    => exact Hio.Live.of_solid h <| Hio.solid_of_core he
      case listen  => exact Hio.Listening.of_core h he
      case eventfd => exact Hio.Waking.of_core h he
      case epoll   => exact h

namespace Conn

variable {f : Fd} {c : Serial} {io : Hio} {w : World}

theorem io_eq (h : Conn f c io w) : w.io f = io :=
  World.io_eq h.ios

theorem serial_eq (h : Conn f c io w) : w.serial f = some c := by
  simp [World.serial, h.fds]

theorem kind_eq (h : Conn f c io w) : w.kind f = some .conn := by
  simp [World.kind, h.fds]

end Conn

namespace Outside

variable {f : Fd} {w w₁ w₂ : World}

theorem refl : Outside f w w where
  ios _ _      := rfl
  iowatcher    := rfl
  eventfds     := rfl
  intern       := rfl
  timers t ht  := .inl ⟨t, ht, rfl⟩
  fds _ _      := rfl
  interest _ _ := rfl

theorem trans (h₁ : Outside f w w₁) (h₂ : Outside f w₁ w₂) : Outside f w w₂ where
  ios g hg      := (h₂.ios g hg).trans (h₁.ios g hg)
  iowatcher     := h₂.iowatcher.trans h₁.iowatcher
  eventfds      := h₂.eventfds.trans h₁.eventfds
  intern        := h₂.intern.trans h₁.intern
  fds g hg      := (h₂.fds g hg).trans (h₁.fds g hg)
  interest g hg := (h₂.interest g hg).trans (h₁.interest g hg)
  timers t ht   := by
    cases h₂.timers t ht
    case inr h => exact .inr h
    case inl h =>
      obtain ⟨t', ht', he⟩ := h
      exact he ▸ h₁.timers t' ht'

theorem modifyIo {g : Hio → Hio} : Outside f w (w.modifyIo f g) :=
  { refl with ios := fun _ hg => World.ios_modifyIo_of_ne hg }

end Outside

namespace Frame

variable {f : Fd} {w w₁ w₂ : World}

theorem refl : Frame f w w where
  toOutside := .refl
  maxsize   := rfl
  readbuf   := rfl
  next      := rfl
  sId       := rfl
  post      := rfl
  sends     := List.Subset.refl _

theorem trans (h₁ : Frame f w w₁) (h₂ : Frame f w₁ w₂) : Frame f w w₂ where
  toOutside := h₁.toOutside.trans h₂.toOutside
  maxsize   := h₂.maxsize.trans h₁.maxsize
  readbuf   := h₂.readbuf.trans h₁.readbuf
  next      := h₂.next.trans h₁.next
  sId       := h₂.sId.trans h₁.sId
  post      := h₂.post.trans h₁.post
  sends     := List.Subset.trans h₂.sends h₁.sends

theorem modifyIo {g : Hio → Hio} : Frame f w (w.modifyIo f g) :=
  { refl with ios := Outside.modifyIo.ios }

theorem log {e : Event} : Frame f w (w.log e) :=
  { refl with }

end Frame

theorem Pop.mem {ev : CloseEvent} {w w' : World} (h : Pop ev w w') : ev ∈ w.loop.customEvents.toList :=
  List.mem_of_mem_head? h.front

theorem Quiet.refl {w : World} : Quiet w w :=
  ⟨rfl, rfl⟩

theorem Quiet.trans {w w₁ w₂ : World} (h₁ : Quiet w w₁) (h₂ : Quiet w₁ w₂) : Quiet w w₂ :=
  ⟨h₂.events.trans h₁.events, h₂.count.trans h₁.count⟩

namespace Edit

variable {f : Fd} {io io₁ io₂ : Hio} {w w₁ w₂ : World}

theorem refl (h : w.loop.ios f = some io) : Edit f w w io :=
  { Frame.refl with
    timers' := fun t ht => ⟨t, ht, rfl⟩
    fdsSelf := rfl
    iosSelf := h
    trace   := rfl
    events  := rfl
    count   := rfl
    ans     := rfl }

theorem trans (h₁ : Edit f w w₁ io₁) (h₂ : Edit f w₁ w₂ io₂) : Edit f w w₂ io₂ :=
  { h₁.toFrame.trans h₂.toFrame with
    fdsSelf := h₂.fdsSelf.trans h₁.fdsSelf
    iosSelf := h₂.iosSelf
    trace   := h₂.trace.trans h₁.trace
    events  := h₂.events.trans h₁.events
    count   := h₂.count.trans h₁.count
    ans     := h₂.ans.trans h₁.ans
    timers' := fun t ht => by
      obtain ⟨t', ht', he⟩ := h₂.timers' t ht
      exact he ▸ h₁.timers' t' ht' }

theorem modifyIo {g : Hio → Hio} (h : w.loop.ios f = some io) : Edit f w (w.modifyIo f g) (g io) :=
  { Frame.modifyIo with
    timers' := fun t ht => ⟨t, ht, rfl⟩
    fdsSelf := rfl
    iosSelf := World.ios_modifyIo_self h
    trace   := rfl
    events  := rfl
    count   := rfl
    ans     := rfl }

theorem of_eq (h : Edit f w w₁ io) (he : io = io₁) : Edit f w w₁ io₁ :=
  he ▸ h

theorem io_eq (h : Edit f w w₁ io) : w₁.io f = io :=
  World.io_eq h.iosSelf

theorem quiet (h : Edit f w w₁ io) : Quiet w w₁ :=
  ⟨h.events, h.count⟩

theorem modify {g : Hio → Hio} (h : Edit f w w₁ io) : Edit f w (w₁.modifyIo f g) (g io) :=
  h.trans <| modifyIo h.iosSelf

end Edit

namespace Touch

variable {f : Fd} {c : Serial} {io io₁ io₂ : Hio} {t t₁ t₂ : List Event} {w w₁ w₂ : World}

theorem id_eq (h : Touch f c io io₁ t w w₁) : io₁.id = io.id :=
  (congrArg Hio.id h.hard).trans rfl

theorem trans (h₁ : Touch f c io io₁ t₁ w w₁) (h₂ : Touch f c io₁ io₂ t₂ w₁ w₂) :
    Touch f c io io₂ (t₁ ++ t₂) w w₂ :=
  { h₁.toFrame.trans h₂.toFrame with
    fdsSelf := h₂.fdsSelf.trans h₁.fdsSelf
    iosSelf := h₂.iosSelf
    hard    := h₂.hard.trans h₁.hard
    error   := h₂.error ∘ h₁.error
    trace   := by rw [h₂.trace, h₁.trace, List.append_assoc]
    data    := fun e he => (List.mem_append.mp he).elim (h₁.data e) (h₂.data e)
    count   := h₂.count ∘ h₁.count
    posts   := by
      obtain ⟨n₁, hn₁, hc₁⟩ := h₁.posts
      obtain ⟨n₂, hn₂, hc₂⟩ := h₂.posts
      exists n₁ + n₂
      rw [hn₂, hn₁, hc₂, hc₁, h₁.id_eq, List.append_assoc, List.replicate_add]
      simp [Nat.add_assoc] }

theorem conn (h : Touch f c io io₁ t w w₁) (hc : Conn f c io w) : Conn f c io₁ w₁ where
  fds       := h.fdsSelf.trans hc.fds
  ios       := h.iosSelf
  live      := hc.live.of_solid <| Hio.solid_of_hard h.hard
  iowatcher := h.iowatcher ▸ hc.iowatcher
  eventfds  := h.eventfds ▸ hc.eventfds

-- Changes of the fields that are not hard.
theorem of_edit (h : Edit f w w₁ io₁) (hh : io₁.hard = io.hard)
    (he : io.error ≠ none → io₁.error ≠ none) : Touch f c io io₁ [] w w₁ :=
  { h.toFrame with
    fdsSelf := h.fdsSelf
    iosSelf := h.iosSelf
    hard    := hh
    error   := he
    trace   := by simp [h.trace]
    data    := by simp
    posts   := ⟨0, by simp [h.events, h.count]⟩
    count   := fun hc => h.count ▸ hc }

theorem refl (h : w.loop.ios f = some io) : Touch f c io io [] w w :=
  of_edit (.refl h) rfl id

theorem log {e : Event} (h : w.loop.ios f = some io) (he : e.Data c) :
    Touch f c io io [e] w (w.log e) :=
  { Frame.log with
    fdsSelf := rfl
    iosSelf := h
    hard    := rfl
    error   := id
    trace   := rfl
    data    := by simpa using he
    posts   := ⟨0, by simp [World.log]⟩
    count   := id }

-- What has been posted stays posted.
theorem posted {g : Fd} {id : Nat} (h : Touch f c io io₁ t w w₁)
    (hp : Posted g id w.loop.customEvents.toList) : Posted g id w₁.loop.customEvents.toList := by
  obtain ⟨ev, he, hf⟩ := hp
  obtain ⟨_, hn, _⟩ := h.posts
  exact ⟨ev, hn ▸ List.mem_append_left _ he, hf⟩

-- As long as nothing has been posted, there is still room to post.
theorem canPost (h : Touch f c io io₁ t w w₁) (hp : CanPost w) :
    CanPost w₁ ∨ Posted f io.id w₁.loop.customEvents.toList := by
  obtain ⟨n, hn, hc⟩ := h.posts
  cases n
  case zero   => exact .inl ⟨h.post ▸ hp.left, by simpa [hc] using hp.right⟩
  case succ n => exact .inr ⟨{ io := f, id := io.id, poster := some c }, by simp [hn], rfl, rfl⟩

end Touch

theorem Conn.edit {f : Fd} {c : Serial} {io io₁ : Hio} {w w₁ : World} (h : Conn f c io w)
    (he : Edit f w w₁ io₁) (hh : io₁.hard = io.hard) : Conn f c io₁ w₁ where
  fds       := he.fdsSelf.trans h.fds
  ios       := he.iosSelf
  live      := h.live.of_solid <| Hio.solid_of_hard hh
  iowatcher := he.iowatcher ▸ h.iowatcher
  eventfds  := he.eventfds ▸ h.eventfds

@[simp]
theorem recvd_nil {c : Serial} : recvd c [] = [] :=
  rfl

@[simp]
theorem sent_nil {c : Serial} : sent c [] = [] :=
  rfl

@[simp]
theorem recvd_append {c : Serial} {t₁ t₂ : List Event} :
    recvd c (t₁ ++ t₂) = recvd c t₁ ++ recvd c t₂ :=
  Relay.flow_append

@[simp]
theorem sent_append {c : Serial} {t₁ t₂ : List Event} :
    sent c (t₁ ++ t₂) = sent c t₁ ++ sent c t₂ :=
  Relay.flow_append

namespace Relayed

variable {c : Serial} {io io₁ io₂ : Hio} {t t₁ t₂ : List Event} {lost : Payload}

-- Nothing happens to the bytes.
theorem keep' (hq : io₁.writeQueue.toList = io.writeQueue.toList)
    (ht : ∀ e ∈ t, e.accepted c = [] ∧ e.received c = []) : Relayed c io io₁ t [] where
  order     := ⟨t, [], by simp, fun e he => (ht e he).left, by simp⟩
  loss h    := absurd rfl h
  drain _ h := hq.trans h
  full h    := by simpa [Hio.Full, hq] using h
  flow      := by
    have hr : recvd c t = [] := Relay.flow_eq_nil fun e he => (ht e he).right
    have hs : sent c t = [] := Relay.flow_eq_nil fun e he => (ht e he).left
    simp [Hio.backlog, hq, hr, hs]

theorem keep (hq : io₁.writeQueue.toList = io.writeQueue.toList) : Relayed c io io₁ [] [] :=
  .keep' hq (by simp)

-- After receiving, the io may go on sending.
theorem trans (h₁ : Relayed c io io₁ t₁ lost) (h₂ : Relayed c io₁ io₂ t₂ [])
    (hr : ∀ e ∈ t₂, e.received c = []) (he : io₁.error ≠ none → io₂.error ≠ none) :
    Relayed c io io₂ (t₁ ++ t₂) lost := by
  have hr' : recvd c t₂ = [] := Relay.flow_eq_nil hr
  have hf : io₁.backlog = sent c t₂ ++ io₂.backlog := by simpa [hr'] using h₂.flow
  constructor
  case order =>
    obtain ⟨tin, tout, ht, hi, ho⟩ := h₁.order
    refine ⟨tin, tout ++ t₂, by simp [ht], hi, fun e he => ?_⟩
    exact (List.mem_append.mp he).elim (ho e) (hr e)
  case flow  => simpa [hr', hf] using h₁.flow
  case drain => exact fun h hq => h₂.drain hr' <| h₁.drain (by simpa [hr'] using h) hq
  case full  => exact h₂.full ∘ h₁.full
  case loss =>
    intro hl
    cases h₁.loss hl
    case inl h => exact .inl <| he h
    case inr h => exact .inr ⟨List.mem_append_left _ h.left, h₂.drain hr' h.right⟩

end Relayed

-- The connections after an effect, in terms of those before.
namespace Conn

variable {f g : Fd} {c c' : Serial} {io io₁ io' : Hio} {t : List Event} {w w' : World} {ev : CloseEvent}

theorem of_outside (hc : Conn g c' io' w') (h : Outside f w w') (hg : g ≠ f) : Conn g c' io' w where
  fds       := h.fds g hg ▸ hc.fds
  ios       := h.ios g hg ▸ hc.ios
  live      := hc.live
  iowatcher := h.iowatcher ▸ hc.iowatcher
  eventfds  := h.eventfds ▸ hc.eventfds

theorem of_touch (hc : Conn g c' io' w') (h : Touch f c io io₁ t w w') (hf : Conn f c io w) :
    (g ≠ f ∧ Conn g c' io' w) ∨ (g = f ∧ c' = c ∧ io' = io₁) := by
  by_cases hg : g = f
  case neg => exact .inl ⟨hg, hc.of_outside h.toOutside hg⟩
  case pos =>
    subst hg
    cases (h.conn hf).fds.symm.trans hc.fds
    cases h.iosSelf.symm.trans hc.ios
    exact .inr ⟨rfl, rfl, rfl⟩

theorem of_shut (hc : Conn g c' io' w') (h : Shut f c io w w') : g ≠ f ∧ Conn g c' io' w := by
  have hg : g ≠ f := by
    intro hg
    have := hc.fds
    simp [hg, h.fdsSelf] at this
  exact ⟨hg, hc.of_outside h.toOutside hg⟩

theorem of_birth (hc : Conn g c' io' w') (h : Birth f w w') :
    (g ≠ f ∧ Conn g c' io' w) ∨ (g = f ∧ c' = w.kernel.next ∧ io'.id = (w.sId + 1) % 2 ^ 32 ∧
      io'.error = none ∧ io'.writeQueue.toList = []) := by
  by_cases hg : g = f
  case neg => exact .inl ⟨hg, hc.of_outside h.toOutside hg⟩
  case pos =>
    subst hg
    obtain ⟨io, hi, _, hid, he, hq, _⟩ := h.iosSelf
    cases h.fdsSelf.symm.trans hc.fds
    cases hi.symm.trans hc.ios
    exact .inr ⟨rfl, rfl, hid, he, hq⟩

theorem of_aside (hc : Conn g c' io' w') (h : Aside f w w') : g ≠ f ∧ Conn g c' io' w := by
  have hg : g ≠ f := by
    intro hg
    have hk := hc.kind_eq
    rw [hg, World.kind, h.fdsSelf] at hk
    exact h.kind hk
  exact ⟨hg, hc.of_outside h.toOutside hg⟩

theorem of_rest (hc : Conn g c' io' w') (h : Rest w w') :
    ∃ io, Conn g c' io w ∧ io'.core = io.core := by
  have hi := h.ios g
  rw [hc.ios] at hi
  obtain ⟨io, hio, he⟩ := Option.map_eq_some_iff.mp hi.symm
  refine ⟨io, ⟨h.kernel ▸ hc.fds, hio, ?_, h.iowatcher ▸ hc.iowatcher, h.eventfds ▸ hc.eventfds⟩, he.symm⟩
  exact hc.live.of_solid <| Hio.solid_of_core he

theorem of_pop (hc : Conn g c' io' w') (h : Pop ev w w') : Conn g c' io' w := by
  obtain ⟨hf, hi, hl, hw, he⟩ := hc
  rw [h.loop] at hi hw he
  exact ⟨h.kernel ▸ hf, hi, hl, hw, he⟩

end Conn

namespace Losing

variable {f : Fd} {c : Serial} {id : Nat} {io io₁ : Hio} {w w₁ w₂ : World} {t : List Event}
  {lost : Payload}

theorem quiet (h : Quiet w w₁) : Losing f id io w w₁ [] where
  posted hl := absurd rfl hl
  reason hr := hr.elim (absurd rfl) (absurd h)

theorem of_eq_nil (hl : lost = []) (h : Quiet w w₁) : Losing f id io w w₁ lost :=
  hl ▸ quiet h

theorem trans (h : Losing f id io w w₁ lost) (ht : Touch f c io io₁ t w₁ w₂) (hq : Quiet w₁ w₂) :
    Losing f id io₁ w w₂ lost where
  posted hl hc := ht.posted <| h.posted hl hc
  reason hr    := h.reason (hr.imp_right fun hn hq' => hn <| hq'.trans hq) |>.imp_left ht.error

theorem of_touch (h : Losing f id io₁ w₁ w₂ lost) (ht : Touch f c io io t w w₁) (hq : Quiet w w₁) :
    Losing f id io₁ w w₂ lost where
  posted hl hc := h.posted hl ⟨ht.post ▸ hc.left, hq.count ▸ hc.right⟩
  reason hr    := h.reason (hr.imp_right fun hn hq' => hn <| hq.trans hq')
    |>.imp_right fun hs => ht.sends hs

end Losing

namespace Flush

variable {K : Hio → Prop} {f : Fd} {c : Serial} {io io₁ : Hio} {w w₁ w₂ : World} {t : List Event}
  {lost : Payload}

theorem edit (h : Edit f w w₁ io₁) (hh : io₁.hard = io.hard)
    (he : io.error ≠ none → io₁.error ≠ none)
    (hq : io₁.writeQueue.toList = io.writeQueue.toList) : Flush K f c io w w₁ :=
  ⟨io₁, [], w₁, .of_edit h hh he, h.quiet, .keep hq, by simp, .inl rfl⟩

theorem shut (h : Edit f w w₁ io₁) (hh : io₁.hard = io.hard)
    (he : io.error ≠ none → io₁.error ≠ none)
    (hq : io₁.writeQueue.toList = io.writeQueue.toList) (hs : Shut f c io₁ w₁ w₂) (hk : K io₁) :
    Flush K f c io w w₂ :=
  ⟨io₁, [], w₁, .of_edit h hh he, h.quiet, .keep hq, by simp, .inr ⟨hs, hk⟩⟩

theorem refl (h : w.loop.ios f = some io) : Flush K f c io w w :=
  edit (.refl h) rfl id rfl

theorem trans (h : Touch f c io io₁ t w w₁) (hq : Quiet w w₁) (hr : Relayed c io io₁ t [])
    (ht : ∀ e ∈ t, e.received c = []) (hf : Flush K f c io₁ w₁ w₂) : Flush K f c io w w₂ := by
  obtain ⟨io', t', w', h', hq', hr', ht', hs⟩ := hf
  refine ⟨io', t ++ t', w', h.trans h', hq.trans hq', hr.trans hr' ht' h'.error, fun e he => ?_, hs⟩
  exact (List.mem_append.mp he).elim (ht e) (ht' e)

theorem quiet (h : Flush K f c io w w₁) : Quiet w w₁ := by
  obtain ⟨_, _, w', _, hq, _, _, hs⟩ := h
  cases hs
  case inl hs => exact hs ▸ hq
  case inr hs => exact hq.trans ⟨hs.left.events, hs.left.count⟩

theorem frame (h : Flush K f c io w w₁) : Frame f w w₁ := by
  obtain ⟨_, _, w', ht, _, _, _, hs⟩ := h
  cases hs
  case inl hs => exact hs ▸ ht.toFrame
  case inr hs => exact ht.toFrame.trans hs.left.toFrame

-- After reading, the connection may be flushed.
theorem visit (h : Touch f c io io₁ t w w₁)
    (hr : w.ans.recv ≠ .fail .msgsize → Relayed c io io₁ t lost)
    (hl : Losing f io.id io₁ w w₁ lost)
    (hf : Flush K f c io₁ w₁ w₂) : Visit K f c io w w₂ := by
  obtain ⟨io', t', w', h', hq', hr', ht', hs⟩ := hf
  exact ⟨io', t ++ t', lost, w', h.trans h', fun hm => (hr hm).trans hr' ht' h'.error,
    hl.trans h' hq', hs⟩

end Flush

theorem Visit.frame {K : Hio → Prop} {f : Fd} {c : Serial} {io : Hio} {w w₁ : World}
    (h : Visit K f c io w w₁) : Frame f w w₁ := by
  obtain ⟨_, _, _, w', ht, _, _, hs⟩ := h
  cases hs
  case inl hs => exact hs ▸ ht.toFrame
  case inr hs => exact ht.toFrame.trans hs.left.toFrame

theorem Visit.of_flush {K : Hio → Prop} {f : Fd} {c : Serial} {io : Hio} {w w₁ : World}
    (hi : w.loop.ios f = some io) (h : Flush K f c io w w₁) : Visit K f c io w w₁ :=
  h.visit (.refl hi) (fun _ => .keep rfl) <| .quiet .refl

-- What no effect changes.
structure Outline (w w' : World) : Prop where
  iowatcher : w'.loop.iowatcher = w.loop.iowatcher
  eventfds  : w'.loop.eventfds = w.loop.eventfds
  sId       : w.sId ≤ w'.sId

theorem Outline.refl {w : World} : Outline w w :=
  ⟨rfl, rfl, Nat.le_refl _⟩

theorem Outline.trans {w w₁ w₂ : World} (h₁ : Outline w w₁) (h₂ : Outline w₁ w₂) : Outline w w₂ :=
  ⟨h₂.iowatcher.trans h₁.iowatcher, h₂.eventfds.trans h₁.eventfds, Nat.le_trans h₁.sId h₂.sId⟩

theorem Frame.outline {f : Fd} {w w' : World} (h : Frame f w w') : Outline w w' :=
  ⟨h.iowatcher, h.eventfds, Nat.le_of_eq h.sId.symm⟩

theorem Effect.outline {K : Hio → Prop} {R : Fd → Hio → World → Prop} {w w' : World}
    (h : Effect K R w w') : Outline w w' := by
  cases h
  case aside h     => exact h.toFrame.outline
  case rest h      => exact ⟨h.iowatcher, h.eventfds, Nat.le_of_eq h.sId.symm⟩
  case visit _ _ h => exact h.frame.outline
  case move h =>
    cases h
    case flush h     => exact h.frame.outline
    case birth h     => exact ⟨h.iowatcher, h.eventfds, by simp [h.sId]⟩
    case aside h     => exact h.toFrame.outline
    case event hp hc =>
      refine Outline.trans ⟨hp.loop ▸ rfl, hp.loop ▸ rfl, Nat.le_of_eq hp.sId.symm⟩ ?_
      cases hc.effect
      case inl h => exact h ▸ .refl
      case inr h =>
        obtain ⟨_, _, _, h⟩ := h
        exact h.frame.outline

theorem Effects.outline {K : Hio → Prop} {R : Fd → Hio → World → Prop} {w w' : World}
    (h : Effects K R w w') : Outline w w' := by
  induction h
  case refl       => exact .refl
  case tail he hi => exact hi.trans he.outline

end Rlibhv
