import Rlibhv.Event.Theorems.Conn
import Rlibhv.Event.Theorems.Chronicle

-- Tearing the loop down.
namespace Rlibhv

-- The events that occur when the server is started or torn down.
def Event.Admin : Event → Prop
  | opened _ k         => k ≠ .conn
  | closed _           => True
  | onClose _ _ destroy => destroy = true
  | _                  => False

theorem Event.Admin.silent {e : Event} (h : e.Admin) (c : Serial) :
    e.received c = [] ∧ e.accepted c = [] := by
  cases e
  case recv | send => cases h
  all_goals exact ⟨rfl, rfl⟩

-- What starting the server and tearing the loop down have in common.
structure Admin (w w' : World) : Prop where
  conns  : ∀ {f c io}, Conn f c io w' → Conn f c io w
  events : w'.loop.customEvents.toList ⊆ w.loop.customEvents.toList
  sId    : w.sId ≤ w'.sId
  trace  : ∃ t, w'.trace = w.trace ++ t ∧ ∀ e ∈ t, e.Admin

theorem Admin.refl {w : World} : Admin w w where
  conns     := id
  events    := List.Subset.refl _
  sId       := Nat.le_refl _
  trace     := ⟨[], by simp⟩

-- The loop is in order and the trace tells how it got there.
structure Sane (w : World) : Prop where
  wf        : Wf w
  chronicle : Chronicle w

theorem Sane.effect {K : Hio → Prop} {R : Fd → Hio → World → Prop} {w w' : World} (h : Sane w)
    (he : Effect K R w w') : Sane w' :=
  ⟨h.wf.effect he, h.chronicle.effect h.wf he⟩

-- The descriptors that may have no io.
theorem Fits.none_iff {k : Option Kind} : Fits k none ↔ k ≠ some .conn ∧ k ≠ some .listen := by
  cases k
  case none   => simp [Fits]
  case some k => cases k <;> simp [Fits]

theorem Owned.admin {w w' : World} (h : Owned w) (ha : Admin w w') : Owned w' where
  ids f c io hc           := Nat.le_trans (h.ids f c io <| ha.conns hc) ha.sId
  events ev he            := Nat.le_trans (h.events ev <| ha.events he) ha.sId
  owner ev he c io hc hid := h.owner ev (ha.events he) c io (ha.conns hc) hid
  done p q hm := by
    obtain ⟨t, ht, hn⟩ := ha.trace
    rw [ht] at hm
    cases List.mem_append.mp hm
    case inl hm => exact h.done p q hm
    case inr hm => exact (hn _ hm).elim

-- Descriptors are closed and ios are removed.
structure Shrink (w w' : World) : Prop where
  fds       : ∀ g, w'.kernel.fds g = w.kernel.fds g ∨ w'.kernel.fds g = none
  ios       : ∀ g, w'.loop.ios g = w.loop.ios g ∨ w'.loop.ios g = none
  iowatcher : w'.loop.iowatcher = w.loop.iowatcher ∨ w'.loop.iowatcher = none
  eventfds  : w'.loop.eventfds = w.loop.eventfds ∨ w'.loop.eventfds = none
  timers    : ∀ t ∈ w'.loop.timers, ∃ t' ∈ w.loop.timers, t'.io = t.io
  events    : w'.loop.customEvents.toList ⊆ w.loop.customEvents.toList
  readbuf   : w'.loop.readbuf.len = w.loop.readbuf.len ∨ w'.loop.readbuf.len = 0
  next      : w'.kernel.next = w.kernel.next
  count     : w'.kernel.eventfdCount = w.kernel.eventfdCount
  sId       : w'.sId = w.sId
  trace     : ∃ t, w'.trace = w.trace ++ t ∧ ∀ e ∈ t, e.Admin

namespace Shrink

variable {f : Fd} {w w' : World}

theorem fds_eq {d : Desc} (h : Shrink w w') (hd : w'.kernel.fds f = some d) :
    w.kernel.fds f = some d := by
  cases h.fds f
  case inl he => exact he ▸ hd
  case inr he => simp [he] at hd

theorem ios_eq {io : Hio} (h : Shrink w w') (hi : w'.loop.ios f = some io) :
    w.loop.ios f = some io := by
  cases h.ios f
  case inl he => exact he ▸ hi
  case inr he => simp [he] at hi

theorem kind_eq {k : Kind} (h : Shrink w w') (hk : w'.kind f = some k) : w.kind f = some k := by
  obtain ⟨d, hd, he⟩ := Option.map_eq_some_iff.mp hk
  simp [World.kind, h.fds_eq hd, he]

theorem client (h : Shrink w w') (hc : w.Client f) : w'.Client f := by
  cases h.fds f
  case inl he => exact client_congr he hc
  case inr he => exact .inl (by simp [World.kind, he])

theorem admin (h : Shrink w w') : Admin w w' where
  events := h.events
  sId    := Nat.le_of_eq h.sId.symm
  trace  := h.trace
  conns hc := by
    refine ⟨h.fds_eq hc.fds, h.ios_eq hc.ios, hc.live, ?_, ?_⟩
    case refine_1 =>
      cases h.iowatcher
      case inl he => exact he ▸ hc.iowatcher
      case inr he => simpa [he] using hc.iowatcher
    case refine_2 =>
      cases h.eventfds
      case inl he => exact he ▸ hc.eventfds
      case inr he => simpa [he] using hc.eventfds

end Shrink

theorem Wf.shrink {w w' : World} (hw : Wf w) (h : Shrink w w')
    (hfits : ∀ f, Fits (w'.kind f) (w'.loop.ios f))
    (hbound : ∀ {f io}, w'.loop.ios f = some io → f < w'.loop.iosMaxsize)
    (hepoll : ∀ f, w'.kind f = some .epoll ↔ w'.loop.iowatcher = some f)
    (heventfd : ∀ f, w'.kind f = some .eventfd ↔ w'.loop.eventfds = some f)
    (hwatched : ∀ {f}, w'.kind f = some .conn →
      w'.loop.iowatcher.isSome ∧ w'.loop.eventfds.isSome) : Wf w' where
  fits          := hfits
  bound         := hbound
  epoll         := hepoll
  eventfd       := heventfd
  watched       := hwatched
  serial hd     := h.next ▸ hw.serial (h.fds_eq hd)
  unique hd hd' := hw.unique (h.fds_eq hd) (h.fds_eq hd')
  destroy hi    := hw.destroy (h.ios_eq hi)
  events ev he  := h.client <| hw.events ev <| h.events he
  count         := h.count ▸ hw.count
  timers t ht   := by
    obtain ⟨t', ht', he⟩ := h.timers t ht
    exact h.client <| he ▸ hw.timers t' ht'
  readbuf := by
    cases h.readbuf
    case inl hr => exact hr ▸ hw.readbuf
    case inr hr => exact .inl hr

-- The effect of `hio_free`. `t` is what the trace tells about it.
structure Removed (f : Fd) (t : List Event) (w w' : World) : Prop extends Outside f w w' where
  timers' : ∀ t ∈ w'.loop.timers, ∃ t' ∈ w.loop.timers, t'.io = t.io
  iosSelf : w'.loop.ios f = none
  maxsize : w'.loop.iosMaxsize = w.loop.iosMaxsize
  readbuf : w'.loop.readbuf.len = w.loop.readbuf.len
  next    : w'.kernel.next = w.kernel.next
  sId     : w'.sId = w.sId
  trace   : w'.trace = w.trace ++ t
  events  : w'.loop.customEvents = w.loop.customEvents
  count   : w'.kernel.eventfdCount = w.kernel.eventfdCount
  self    : (w'.kernel.fds f = w.kernel.fds f ∧ t = [] ∧ w.kind f ≠ some .conn ∧
      w.kind f ≠ some .listen) ∨
    (w'.kernel.fds f = none ∧ ∃ d, w.kernel.fds f = some ⟨d, .listen⟩ ∧ t = [.closed d]) ∨
    (w'.kernel.fds f = none ∧ ∃ c e, w.kernel.fds f = some ⟨c, .conn⟩ ∧
      t = [.onClose c e true, .closed c])

namespace Removed

variable {f : Fd} {t : List Event} {w w' : World}

theorem shrink (h : Removed f t w w') : Shrink w w' where
  iowatcher := .inl h.iowatcher
  eventfds  := .inl h.eventfds
  timers    := h.timers'
  events    := h.events ▸ List.Subset.refl _
  readbuf   := .inl h.readbuf
  next      := h.next
  count     := h.count
  sId       := h.sId
  ios g := by
    by_cases hg : g = f
    case pos => exact .inr (hg ▸ h.iosSelf)
    case neg => exact .inl (h.ios g hg)
  fds g := by
    by_cases hg : g = f
    case neg => exact .inl (h.fds g hg)
    case pos =>
      subst hg
      obtain hs | hs | hs := h.self
      case inl          => exact .inl hs.left
      case inr.inl      => exact .inr hs.left
      case inr.inr      => exact .inr hs.left
  trace := by
    refine ⟨t, h.trace, ?_⟩
    obtain ⟨_, ht, _⟩ | ⟨_, _, _, ht⟩ | ⟨_, _, _, _, ht⟩ := h.self
    all_goals simp [ht, Event.Admin]

theorem wf (h : Removed f t w w') (hw : Wf w) : Wf w' := by
  have hk {g k} (hk : k ≠ .conn ∧ k ≠ .listen) : w'.kind g = some k ↔ w.kind g = some k := by
    by_cases hg : g = f
    case neg => rw [kind_congr <| h.fds g hg]
    case pos =>
      subst hg
      obtain ⟨hs, _⟩ | ⟨hs, d, hd, _⟩ | ⟨hs, c, _, hd, _⟩ := h.self
      case inl     => rw [kind_congr hs]
      case inr.inl => simp [World.kind, hs, hd, hk.right.symm]
      case inr.inr => simp [World.kind, hs, hd, hk.left.symm]
  refine hw.shrink h.shrink ?hfits ?hbound ?hepoll ?heventfd ?hwatched
  case hepoll   => exact fun g => by rw [hk (by simp), h.iowatcher, hw.epoll]
  case heventfd => exact fun g => by rw [hk (by simp), h.eventfds, hw.eventfd]
  case hbound   => exact fun hi => h.maxsize ▸ hw.bound (h.shrink.ios_eq hi)
  case hwatched =>
    intro g hg
    rw [h.iowatcher, h.eventfds]
    exact hw.watched (h.shrink.kind_eq hg)
  case hfits =>
    intro g
    by_cases hg : g = f
    case neg => exact kind_congr (h.fds g hg) ▸ h.ios g hg ▸ hw.fits g
    case pos =>
      subst hg
      rw [h.iosSelf]
      obtain ⟨hs, _, hk⟩ | ⟨hs, _⟩ | ⟨hs, _⟩ := h.self
      case inl => exact kind_congr hs ▸ Fits.none_iff.mpr hk
      all_goals simp [World.kind, hs, Fits]

theorem chronicle (h : Removed f t w w') (hw : Wf w) (hc : Chronicle w) : Chronicle w' := by
  obtain ⟨hs, ht, _⟩ | ⟨hs, d, hd, ht⟩ | ⟨hs, c, e, hd, ht⟩ := h.self
  case inl =>
    refine hc.of_fds_eq (fun g => ?_) h.next fun d => by simp [h.trace, ht]
    by_cases hg : g = f
    case pos => exact hg ▸ hs
    case neg => exact h.fds g hg
  case inr.inl =>
    refine hc.of_close hw.coherent hd h.fds hs h.next h.trace ?_ ?_
    case refine_1 => simp [ht, Event.subject, Event.isCloseFailed]
    case refine_2 =>
      have hl : life d w.trace = some (.opened .listen) := hc.alive hd
      simp [ht, life_append, hl, Life.step, Life.next, Event.subject, Event.isCloseFailed]
  case inr.inr =>
    refine hc.of_close hw.coherent hd h.fds hs h.next h.trace ?_ ?_
    case refine_1 => simp [ht, Event.subject, Event.isCloseFailed]
    case refine_2 =>
      have hl : life c w.trace = some .accepted := hc.alive hd
      simp [ht, life_append, hl, Life.step, Life.next, Event.subject, Event.isCloseFailed]

end Removed

section

variable {f : Fd} {io : Hio} {w : World}

-- Closing an io that has no `on_close` and nothing to send.
theorem hioClose_own (h : w.loop.ios f = some io) (hr : io.Ready) (hq : io.writeQueue.toList = [])
    (hcb : io.closeCb = false) : ∃ io' w₁, Edit f w w₁ io' ∧
      hioClose f w = if io.ioType.isSocket then sysClose f w₁ else w₁ := by
  have hc : ¬io.closed = true := by simp [hr.closed]
  have hd : ¬io.Defers := by simp [Hio.Defers, hq]
  have hn : ¬io.closeCb = true := by simp [hcb]
  obtain ⟨n, tm, h₁⟩ := hioClose_edit h hr
  refine ⟨_, _, h₁, ?_⟩
  unfold hioClose hioCloseCb
  simp only [World.io_eq h, if_neg hc, if_neg (Hio.defers_iff.not.mpr hd), h₁.io_eq, if_neg hn]

-- The last part of `hio_free`.
theorem removed_of_edit {io' : Hio} {w₁ : World} (h : Edit f w w₁ io')
    (hk : w.kind f ≠ some .conn ∧ w.kind f ≠ some .listen) :
    Removed f [] w (w₁.setLoop fun l => { l with ios := Function.update l.ios f none }) :=
  { h.toFrame with
    ios     := fun g hg => by simp [World.setLoop, hg, h.ios g hg]
    timers' := h.timers'
    iosSelf := by simp [World.setLoop]
    trace   := by simp [World.setLoop, h.trace]
    events  := h.events
    count   := h.count
    self    := .inl ⟨h.fdsSelf, rfl, hk⟩ }

theorem hioFree_removed (hw : Wf w) : ∃ t, Removed f t w (hioFree f w) := by
  have hfit := hw.fits f
  cases hi : w.loop.ios f
  case none =>
    have hn : (w.loop.ios f).isNone ∨ (w.io f).destroy := .inl (by simp [hi])
    have hk := Fits.none_iff.mp (hi ▸ hfit)
    simp only [hioFree, if_pos hn]
    exact ⟨[], { Frame.refl (f := f) (w := w) with
      timers' := fun t ht => ⟨t, ht, rfl⟩
      iosSelf := hi
      trace   := by simp
      events  := rfl
      count   := rfl
      self    := .inl ⟨rfl, rfl, hk⟩ }⟩
  case some io =>
    have hn : ¬((w.loop.ios f).isNone ∨ (w.io f).destroy) := by
      simp [hi, World.io_eq hi, hw.destroy hi]
    have h₁ := Edit.modifyIo (g := fun io => { io with destroy := true }) hi
    rw [hi] at hfit
    simp only [hioFree, if_neg hn]
    cases hf : w.kernel.fds f
    case none =>
      have hk : w.kind f = none := by simp [World.kind, hf]
      have hd : io.Dead := by simpa [hk, Fits] using hfit
      rw [hioClose_dead (h₁.iosSelf ▸ ({ hd with } : Hio.Dead { io with destroy := true }))]
      exact ⟨[], removed_of_edit h₁ (by simp [hk])⟩
    case some d =>
      obtain ⟨c, k⟩ := d
      have hk : w.kind f = some k := by simp [World.kind, hf]
      rw [hk] at hfit
      cases k
      case epoll => exact hfit.elim
      case eventfd =>
        have hwk : io.Waking := hfit
        obtain ⟨io', w₂, h₂, hcl⟩ := hioClose_own h₁.iosSelf { hwk.toReady with } hwk.queue hwk.closeCb
        rw [hcl, if_neg (by simp [hwk.file])]
        exact ⟨[], removed_of_edit (h₁.trans h₂) (by simp [hk])⟩
      case listen =>
        have hls : io.Listening := hfit
        obtain ⟨io', w₂, h₂, hcl⟩ := hioClose_own h₁.iosSelf { hls.toReady with } hls.queue hls.closeCb
        have h₂ := h₁.trans h₂
        rw [hcl, if_pos (by simp [hls.tcp, IoType.isSocket]), sysClose_eq (h₂.fdsSelf.trans hf)]
        exact ⟨[.closed c], { h₂.toFrame with
          ios      := fun g hg => by simp [World.setLoop, World.log, hg, h₂.ios g hg]
          fds      := fun g hg => by simp [World.setLoop, World.log, hg, h₂.fds g hg]
          interest := fun g hg => by simp [World.setLoop, World.log, hg, h₂.interest g hg]
          timers'  := h₂.timers'
          iosSelf  := by simp [World.setLoop]
          trace    := by simp [World.setLoop, World.log, h₂.trace]
          events   := h₂.events
          count    := h₂.count
          self     := .inr <| .inl ⟨by simp [World.setLoop], c, hf, rfl⟩ }⟩
      case conn =>
        have hlv : io.Live := hfit
        have hwt := hw.watched hk
        have hc : Conn f c { io with destroy := true } (w.modifyIo f fun io => { io with destroy := true }) :=
          ⟨hf, h₁.iosSelf, { hlv with }, hwt.left, hwt.right⟩
        have h₂ := hioClose_shut hc (by simp [Hio.Defers])
        generalize hioClose f _ = w₂ at h₂
        exact ⟨_, { h₁.toFrame.trans h₂.toFrame with
          ios     := fun g hg => by simp [World.setLoop, hg, h₂.ios g hg, h₁.ios g hg]
          timers' := h₂.timers'
          iosSelf := by simp [World.setLoop]
          trace   := h₂.trace
          events  := h₂.events
          count   := h₂.count
          self    := .inr <| .inr ⟨h₂.fdsSelf, c, _, hf, rfl⟩ }⟩

-- Nothing is open without an io, an epoll instance or an eventfd.
theorem Wf.closed (hw : Wf w) (hi : ∀ f, w.loop.ios f = none) (hp : w.loop.iowatcher = none)
    (he : w.loop.eventfds = none) : w.kernel.fds f = none := by
  cases hf : w.kernel.fds f
  case none   => rfl
  case some d =>
    obtain ⟨_, k⟩ := d
    have hk : w.kind f = some k := by simp [World.kind, hf]
    have hfit := hw.fits f
    rw [hk, hi f] at hfit
    cases k
    case conn | listen => exact hfit.elim
    case epoll         => simpa [hp] using (hw.epoll f).mp hk
    case eventfd       => simpa [he] using (hw.eventfd f).mp hk

theorem cleanupTimers_shrink : Shrink w (cleanupTimers w) where
  fds _     := .inl rfl
  ios _     := .inl rfl
  iowatcher := .inl rfl
  eventfds  := .inl rfl
  timers    := by simp [cleanupTimers, World.setLoop]
  events    := List.Subset.refl _
  readbuf   := .inr rfl
  next      := rfl
  count     := rfl
  sId       := rfl
  trace     := ⟨[], by simp [cleanupTimers, World.setLoop]⟩

theorem sysClose_shrink {d : Desc} (hd : w.kernel.fds f = some d) : Shrink w (sysClose f w) := by
  rw [sysClose_eq hd]
  refine ⟨fun g => ?_, fun _ => .inl rfl, .inl rfl, .inl rfl, fun t ht => ⟨t, ht, rfl⟩,
    List.Subset.refl _, .inl rfl, rfl, rfl, rfl, [.closed d.serial], rfl, by simp [Event.Admin]⟩
  by_cases hg : g = f
  case pos => exact .inr (by simp [hg])
  case neg => exact .inl (by simp [hg])

theorem Chronicle.sysClose {d : Desc} (h : Chronicle w) (hw : w.kernel.Coherent)
    (hd : w.kernel.fds f = some d) (hk : d.kind ≠ .conn) : Chronicle (sysClose f w) := by
  rw [sysClose_eq hd]
  refine h.of_close (t := [.closed d.serial]) hw hd ?_ (by simp) rfl rfl ?_ ?_
  case refine_1 => exact fun g hg => by simp [hg]
  case refine_2 => simp [Event.subject, Event.isCloseFailed]
  case refine_3 =>
    obtain ⟨_, k⟩ := d
    have hl := h.alive hd
    cases k
    case conn => exact absurd rfl hk
    all_goals
      simp [Desc.life] at hl
      simp [life_concat, hl, Life.step, Life.next, Event.subject, Event.isCloseFailed]

theorem sysClose_kind {d : Desc} {g : Fd} {k : Kind} (hd : w.kernel.fds f = some d) :
    (sysClose f w).kind g = some k ↔ g ≠ f ∧ w.kind g = some k := by
  rw [sysClose_eq hd]
  by_cases hg : g = f
  case pos => simp [hg, World.kind]
  case neg => simp [hg, World.kind]

-- When there are no ios left, the loop closes and forgets its own descriptors.
theorem Wf.forget {w' : World} (hw : Wf w) (hi : ∀ f, w.loop.ios f = none) (h : Shrink w w')
    (hk : ∀ g k, w'.kind g = some k ↔ g ≠ f ∧ w.kind g = some k)
    (hp : ∀ g, w'.loop.iowatcher = some g ↔ g ≠ f ∧ w.loop.iowatcher = some g)
    (he : ∀ g, w'.loop.eventfds = some g ↔ g ≠ f ∧ w.loop.eventfds = some g) : Wf w' := by
  have hi' g : w'.loop.ios g = none := (h.ios g).elim (·.trans <| hi g) id
  have hn g := Fits.none_iff.mp (hi g ▸ hw.fits g)
  refine hw.shrink h ?hfits ?hbound ?hepoll ?heventfd ?hwatched
  case hfits =>
    intro g
    rw [hi' g]
    exact Fits.none_iff.mpr ⟨fun h => (hn g).left ((hk g _).mp h).right,
      fun h => (hn g).right ((hk g _).mp h).right⟩
  case hbound   => exact fun h => absurd h (by simp [hi'])
  case hepoll   => exact fun g => by rw [hk, hp, hw.epoll]
  case heventfd => exact fun g => by rw [hk, he, hw.eventfd]
  case hwatched => exact fun h => absurd ((hk _ _).mp h).right (hn _).left

theorem iowatcherCleanup_eq (hw : Wf w) : (w.loop.iowatcher = none ∧ iowatcherCleanup w = w) ∨
    ∃ e d, w.loop.iowatcher = some e ∧ w.kernel.fds e = some d ∧ d.kind = .epoll ∧
      iowatcherCleanup w = (sysClose e w).setLoop fun l => { l with iowatcher := none } := by
  cases hp : w.loop.iowatcher
  case none   => exact .inl ⟨rfl, by simp [iowatcherCleanup, hp]⟩
  case some e =>
    obtain ⟨d, hd, hk⟩ := Option.map_eq_some_iff.mp <| (hw.epoll e).mpr hp
    exact .inr ⟨e, d, rfl, hd, hk, by simp [iowatcherCleanup, hp]⟩

theorem hloopDestroyEventfds_eq (hw : Wf w) :
    (w.loop.eventfds = none ∧ hloopDestroyEventfds w = w) ∨
    ∃ e d, w.loop.eventfds = some e ∧ w.kernel.fds e = some d ∧ d.kind = .eventfd ∧
      hloopDestroyEventfds w = (sysClose e w).setLoop fun l => { l with eventfds := none } := by
  cases hp : w.loop.eventfds
  case none   => exact .inl ⟨rfl, by simp [hloopDestroyEventfds, hp]⟩
  case some e =>
    obtain ⟨d, hd, hk⟩ := Option.map_eq_some_iff.mp <| (hw.eventfd e).mpr hp
    exact .inr ⟨e, d, rfl, hd, hk, by simp [hloopDestroyEventfds, hp]⟩

theorem hioFree_sane (h : Sane w) : Sane (hioFree f w) ∧ Admin w (hioFree f w) := by
  obtain ⟨_, hr⟩ := hioFree_removed (f := f) h.wf
  exact ⟨⟨hr.wf h.wf, hr.chronicle h.wf h.chronicle⟩, hr.shrink.admin⟩

theorem cleanupTimers_sane (h : Sane w) (hi : ∀ f, w.loop.ios f = none) :
    Sane (cleanupTimers w) ∧ Admin w (cleanupTimers w) := by
  refine ⟨⟨?_, h.chronicle.of_fds_eq (fun _ => rfl) rfl fun _ => rfl⟩, cleanupTimers_shrink.admin⟩
  refine h.wf.shrink cleanupTimers_shrink h.wf.fits ?_ h.wf.epoll h.wf.eventfd h.wf.watched
  intro f io h
  exact absurd h (by simp [cleanupTimers, World.setLoop, hi f])

theorem iowatcherCleanup_sane (h : Sane w) (hi : ∀ f, w.loop.ios f = none) :
    Sane (iowatcherCleanup w) ∧ Admin w (iowatcherCleanup w) ∧
      (∀ f, (iowatcherCleanup w).loop.ios f = none) ∧ (iowatcherCleanup w).loop.iowatcher = none := by
  obtain ⟨hp, he⟩ | ⟨e, d, hp, hd, hk, he⟩ := iowatcherCleanup_eq h.wf
  case inl =>
    rw [he]
    exact ⟨h, .refl, hi, hp⟩
  case inr =>
    have hs : Shrink w ((sysClose e w).setLoop fun l => { l with iowatcher := none }) :=
      { sysClose_shrink hd with iowatcher := .inr rfl }
    have hke : w.kind e = some .epoll := (h.wf.epoll e).mpr hp
    rw [he]
    refine ⟨⟨?_, ?_⟩, hs.admin, fun f => ?_, rfl⟩
    case refine_3 => exact (hs.ios f).elim (·.trans <| hi f) id
    case refine_2 =>
      exact h.chronicle.sysClose h.wf.coherent hd (by simp [hk]) |>.of_fds_eq (fun _ => rfl) rfl
        fun _ => rfl
    case refine_1 =>
      refine h.wf.forget (f := e) hi hs (fun g k => sysClose_kind hd) (fun g => ?_) fun g => ?_
      case refine_1 =>
        simp only [World.setLoop, hp]
        simpa using Ne.symm
      case refine_2 =>
        rw [show ((sysClose e w).setLoop _).loop.eventfds = w.loop.eventfds by
          simp [sysClose_eq hd, World.setLoop, World.log]]
        refine (and_iff_right_of_imp fun hg => ?_).symm
        rintro rfl
        simpa [hke] using (h.wf.eventfd g).mpr hg

theorem cleanupCustomEvents_sane (h : Sane w) (hi : ∀ f, w.loop.ios f = none)
    (hp : w.loop.iowatcher = none) :
    Sane (cleanupCustomEvents w) ∧ Admin w (cleanupCustomEvents w) ∧
      (∀ f, (cleanupCustomEvents w).loop.ios f = none) ∧
      (cleanupCustomEvents w).loop.iowatcher = none ∧
      (cleanupCustomEvents w).loop.eventfds = none := by
  have hemp : (Queue.empty : Queue CloseEvent).toList ⊆ w.loop.customEvents.toList := by simp
  unfold cleanupCustomEvents
  obtain ⟨he, hw'⟩ | ⟨e, d, he, hd, hk, hw'⟩ := hloopDestroyEventfds_eq h.wf
  case inl =>
    rw [hw']
    have hc : Chronicle (w.setLoop fun l => { l with customEvents := .empty }) :=
      h.chronicle.of_fds_eq (fun _ => rfl) rfl fun _ => rfl
    have hw : Wf (w.setLoop fun l => { l with customEvents := .empty }) :=
      { h.wf with events := fun ev hev => h.wf.events ev (hemp hev) }
    exact ⟨⟨hw, hc⟩, { Admin.refl with events := hemp, conns := fun ⟨a, b, c, d, e⟩ => ⟨a, b, c, d, e⟩ },
      hi, hp, he⟩
  case inr =>
    have hs : Shrink w (((sysClose e w).setLoop fun l => { l with eventfds := none }).setLoop
        fun l => { l with customEvents := .empty }) :=
      { sysClose_shrink hd with eventfds := .inr rfl, events := hemp }
    have hp' : (sysClose e w).loop.iowatcher = none := by simp [sysClose_eq hd, World.log, hp]
    rw [hw']
    refine ⟨⟨?_, ?_⟩, hs.admin, fun f => ?_, hp', rfl⟩
    case refine_3 => exact (hs.ios f).elim (·.trans <| hi f) id
    case refine_2 =>
      exact h.chronicle.sysClose h.wf.coherent hd (by simp [hk]) |>.of_fds_eq (fun _ => rfl) rfl
        fun _ => rfl
    case refine_1 =>
      refine h.wf.forget (f := e) hi hs (fun g k => sysClose_kind hd) (fun g => ?_) fun g => ?_
      case refine_1 => simp [World.setLoop, hp', hp]
      case refine_2 =>
        simp only [World.setLoop, he]
        simpa using Ne.symm

-- A new loop while nothing is open.
theorem Wf.of_closed (hl : w.loop = {}) (hn : ∀ g, w.kernel.fds g = none)
    (hc : w.kernel.eventfdCount < 2 ^ 64) : Wf w := by
  have hk g : w.kind g = none := by simp [World.kind, hn]
  constructor
  case count => exact hc
  all_goals simp [hn, hk, hl, Fits]

-- Nothing is left of a loop that has been torn down.
theorem Sane.release (h : Sane w) (hi : ∀ f, w.loop.ios f = none) (hp : w.loop.iowatcher = none)
    (he : w.loop.eventfds = none) :
    Sane { w with loop := {} } ∧ Admin w { w with loop := {} } := by
  have hs : Shrink w { w with loop := {} } :=
    ⟨fun _ => .inl rfl, fun _ => .inr rfl, .inr rfl, .inr rfl, by simp, by simp, .inr rfl, rfl, rfl,
      rfl, [], by simp⟩
  refine ⟨⟨?_, h.chronicle.of_fds_eq (fun _ => rfl) rfl fun _ => rfl⟩, hs.admin⟩
  exact .of_closed rfl (fun _ => h.wf.closed hi hp he) h.wf.count

end

end Rlibhv
