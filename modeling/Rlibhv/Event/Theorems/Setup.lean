import Rlibhv.Event.Theorems.Accept
import Rlibhv.Event.Theorems.Teardown

-- Starting the server.
namespace Rlibhv

section

variable {f : Fd} {k : Kind} {w : World}

theorem Kernel.Coherent.openFd (h : w.kernel.Coherent) : (openFd f k w).kernel.Coherent := by
  have hlt {g d} (hd : w.kernel.fds g = some d) : d.serial ≠ w.kernel.next := Nat.ne_of_lt (h.serial hd)
  constructor
  case serial =>
    intro g d hd
    by_cases hg : g = f
    case pos =>
      have : d = ⟨w.kernel.next, k⟩ := by simpa [hg, Rlibhv.openFd, World.log, eq_comm] using hd
      exact this ▸ Nat.lt_succ_self _
    case neg => exact Nat.lt_succ_of_lt <| h.serial (by simpa [hg, Rlibhv.openFd, World.log] using hd)
  case unique =>
    intro g g' d d' hd hd' he
    by_cases hg : g = f <;> by_cases hg' : g' = f
    case pos => rw [hg, hg']
    all_goals
      simp [hg, hg', Rlibhv.openFd, World.log] at hd hd'
    case neg => exact absurd (he.symm.trans (hd ▸ rfl)) (hlt hd')
    case pos => exact absurd (he.trans (hd' ▸ rfl)) (hlt hd)
    case neg => exact h.unique hd hd' he

theorem Chronicle.openFd (h : Chronicle w) (hw : w.kernel.Coherent) (hf : w.kernel.fds f = none)
    (hk : k ≠ .conn) : Chronicle (openFd f k w) := by
  refine h.of_open (f := f) (k := k) (t := [.opened w.kernel.next k]) ?_ (by simp [Rlibhv.openFd, World.log])
    hf hw rfl rfl (by simp [Event.subject, Event.isCloseFailed]) ?_
  case refine_1 => exact fun g hg => by simp [Rlibhv.openFd, World.log, hg]
  case refine_2 =>
    have hl : life w.kernel.next w.trace = some .unborn := h.unborn (Nat.le_refl _)
    cases k
    case conn => exact absurd rfl hk
    all_goals simp [life_concat, hl, Life.step, Life.next, Event.subject, Event.isCloseFailed, Desc.life]

end

-- A loop that has nothing but a listening socket and an epoll instance.
structure Serving (w : World) : Prop where
  iowatcher : w.loop.iowatcher.isSome
  eventfds  : w.loop.eventfds = none
  intern    : w.loop.internNevents = 0
  timers    : w.loop.timers = []
  events    : w.loop.customEvents.toList = []
  room      : ∃ n, ∀ g ≥ n, w.kernel.fds g = none

-- The effect of creating the server.
structure Started (f e : Fd) (w w' : World) : Prop where
  listen    : w'.kernel.fds f = some ⟨w.kernel.next, .listen⟩
  epoll     : w'.kernel.fds e = some ⟨w.kernel.next + 1, .epoll⟩
  fds       : ∀ g, g ≠ f → g ≠ e → w'.kernel.fds g = none
  io        : ∃ io, w'.loop.ios f = some io ∧ io.Listening ∧ io.destroy = false
  ios       : ∀ g ≠ f, w'.loop.ios g = none
  iowatcher : w'.loop.iowatcher = some e
  eventfds  : w'.loop.eventfds = none
  intern    : w'.loop.internNevents = 0
  timers    : w'.loop.timers = []
  events    : w'.loop.customEvents.toList = []
  maxsize   : f < w'.loop.iosMaxsize
  readbuf   : w'.loop.readbuf.len = hloopReadBufsize
  next      : w'.kernel.next = w.kernel.next + 1 + 1
  count     : w'.kernel.eventfdCount = w.kernel.eventfdCount
  sId       : w'.sId = w.sId + 1
  trace     : w'.trace = w.trace ++ [.opened w.kernel.next .listen] ++
    [.opened (w.kernel.next + 1) .epoll]

namespace Started

variable {f e : Fd} {w w' : World}

theorem ne (h : Started f e w w') : e ≠ f := by
  intro he
  have := h.listen.symm.trans (he ▸ h.epoll)
  simp at this

theorem fds_eq {g : Fd} {d : Desc} (h : Started f e w w') (hd : w'.kernel.fds g = some d) :
    (g = f ∧ d = ⟨w.kernel.next, .listen⟩) ∨ (g = e ∧ d = ⟨w.kernel.next + 1, .epoll⟩) := by
  by_cases hf : g = f
  case pos => exact .inl ⟨hf, Option.some.inj <| hd.symm.trans (hf ▸ h.listen)⟩
  case neg =>
    by_cases he : g = e
    case pos => exact .inr ⟨he, Option.some.inj <| hd.symm.trans (he ▸ h.epoll)⟩
    case neg => simp [h.fds g hf he] at hd

theorem kind_eq {g : Fd} {k : Kind} (h : Started f e w w') (hk : w'.kind g = some k) :
    (g = f ∧ k = .listen) ∨ (g = e ∧ k = .epoll) := by
  obtain ⟨d, hd, hk⟩ := Option.map_eq_some_iff.mp hk
  cases h.fds_eq hd
  case inl hd => exact .inl ⟨hd.left, hk ▸ hd.right ▸ rfl⟩
  case inr hd => exact .inr ⟨hd.left, hk ▸ hd.right ▸ rfl⟩

theorem serving (h : Started f e w w') : Serving w' where
  iowatcher := by simp [h.iowatcher]
  eventfds  := h.eventfds
  intern    := h.intern
  timers    := h.timers
  events    := h.events
  room      := by
    have hlt (m n : Nat) : m < m + n + 1 ∧ n < m + n + 1 := by omega
    refine ⟨f + e + 1, fun g hg => h.fds g (Nat.ne_of_gt ?_) (Nat.ne_of_gt ?_)⟩
    case refine_1 => exact Nat.lt_of_lt_of_le (hlt f e).left hg
    case refine_2 => exact Nat.lt_of_lt_of_le (hlt f e).right hg

theorem admin (h : Started f e w w') : Admin w w' where
  conns hc := absurd hc.eventfds (by simp [h.eventfds])
  events   := by simp [h.events]
  sId      := by simp [h.sId]
  trace    := ⟨[.opened w.kernel.next .listen] ++ [.opened (w.kernel.next + 1) .epoll],
    by simp [h.trace], by simp [Event.Admin]⟩

theorem wf (h : Started f e w w') (hw : Wf w) : Wf w' where
  destroy := by
    obtain ⟨io, hi, _, hd⟩ := h.io
    intro g io' hg
    by_cases hf : g = f
    case pos => exact Option.some.inj (hi.symm.trans (hf ▸ hg)) ▸ hd
    case neg => simp [h.ios g hf] at hg
  bound := by
    intro g io' hg
    by_cases hf : g = f
    case pos => exact hf ▸ h.maxsize
    case neg => simp [h.ios g hf] at hg
  serial := by
    intro g d hd
    rw [h.next]
    cases h.fds_eq hd
    case inl hd => exact hd.right ▸ Nat.lt_succ_of_lt (Nat.lt_succ_self _)
    case inr hd => exact hd.right ▸ Nat.lt_succ_self _
  unique := by
    intro g g' d d' hd hd' he
    cases h.fds_eq hd <;> cases h.fds_eq hd'
    case inl.inl hd hd' => rw [hd.left, hd'.left]
    case inr.inr hd hd' => rw [hd.left, hd'.left]
    all_goals
      rename_i hd hd'
      simp [hd.right, hd'.right] at he
  fits := by
    obtain ⟨io, hi, hl, _⟩ := h.io
    intro g
    by_cases hf : g = f
    case pos => simpa [hf, World.kind, h.listen, hi, Fits] using hl
    case neg =>
      rw [h.ios g hf, Fits.none_iff]
      constructor
      all_goals
        intro hk
        cases h.kind_eq hk
        case inl hk => exact hf hk.left
        case inr hk => simp at hk
  epoll := by
    intro g
    rw [h.iowatcher]
    refine ⟨fun hk => ?_, fun hg => ?_⟩
    case refine_1 =>
      cases h.kind_eq hk
      case inl hk => simp at hk
      case inr hk => rw [hk.left]
    case refine_2 => simp [World.kind, ←Option.some.inj hg, h.epoll]
  eventfd := by
    intro g
    rw [h.eventfds]
    refine ⟨fun hk => ?_, by simp⟩
    cases h.kind_eq hk <;> simp_all
  watched := by
    intro g hk
    cases h.kind_eq hk <;> simp_all
  timers  := by simp [h.timers]
  events  := by simp [h.events]
  readbuf := .inr h.readbuf
  count   := h.count ▸ hw.count

theorem chronicle (h : Started f e w w') (hw : Wf w) (hn : ∀ g, w.kernel.fds g = none)
    (hc : Chronicle w) : Chronicle w' := by
  have hf : (openFd f .listen w).kernel.fds e = none := by
    simp [openFd, World.log, h.ne, hn]
  have h₁ := hc.openFd (f := f) (k := .listen) hw.coherent (hn f) (by simp)
  have h₂ := h₁.openFd (f := e) (k := .epoll) hw.coherent.openFd hf (by simp)
  refine h₂.of_fds_eq (fun g => ?_) h.next fun d => by rw [h.trace]; rfl
  by_cases he : g = e
  case pos => simp [he, h.epoll, openFd, World.log]
  case neg =>
    by_cases hf : g = f
    case pos => simp [hf, h.listen, openFd, World.log, h.ne.symm]
    case neg => simp [h.fds g hf he, openFd, World.log, hf, he, hn]

end Started

variable {f e : Fd} {w : World}

theorem iowatcherAddEvent_open {ev : Events} (hi : w.loop.iowatcher = none)
    (ha : w.ans.epoll = some e) (he : w.kernel.fds e = none) :
    iowatcherAddEvent f ev w = epollCtl f ((w.io f).events.union ev)
      ((openFd e .epoll w).setLoop fun l => { l with iowatcher := some e }) := by
  simp [iowatcherAddEvent, iowatcherInit, hi, ha, he, World.io, World.setLoop, openFd, World.log]

theorem hloopCreateTcpServer_ok (hl : w.loop = {}) (hn : ∀ g, w.kernel.fds g = none)
    (ha : w.ans.epoll = some e) (hne : e ≠ f) :
    (hloopCreateTcpServer (.ok f) w).1 = some f ∧ Started f e w (hloopCreateTcpServer (.ok f) w).2 := by
  have hg : Got f _ (openFd f .listen w) (hioGet f (openFd f .listen w)) :=
    hioGet_got (d := ⟨w.kernel.next, .listen⟩) (by simp [openFd, World.log]) (by
      simp [openFd, World.log, hl, Fits]) (by simp [openFd, World.log, hl])
  have hio : (openFd f .listen w).io f = {} := by simp [openFd, World.log, World.io, hl]
  obtain ⟨io, hi, hr⟩ := hg.iosSelf
  rw [hio] at hr
  simp only [hloopCreateTcpServer, hioCreateSocket, hioAccept, true_and]
  generalize hioGet f (openFd f .listen w) = w₁ at hg hi
  have h₁ := Edit.modifyIo (g := fun io => { io with ioType := .tcp, priority := .high }) hi
    |>.modify (g := fun io => { io with acceptCb := true })
    |>.modify (g := fun io => { io with accept := true })
  obtain ⟨w₂, h₂, hadd⟩ := hioAdd_read_eq h₁.iosSelf hr.active hr.ready hr.events
  have h₂ := h₁.trans h₂
  have hfe : w₂.kernel.fds e = none := by
    rw [h₂.fds e hne, hg.fds e hne]
    simp [openFd, World.log, hne, hn]
  have hiw : w₂.loop.iowatcher = none := by
    rw [h₂.iowatcher, hg.iowatcher]
    simp [openFd, World.log, hl]
  have hae : w₂.ans.epoll = some e := by
    rw [h₂.ans, hg.ans]
    exact ha
  rw [hadd, iowatcherAddEvent_open hiw hae hfe]
  generalize hw₃ : (openFd e .epoll w₂).setLoop (fun l => { l with iowatcher := some e }) = w₃
  have hi₃ : w₃.loop.ios = w₂.loop.ios := hw₃ ▸ rfl
  have h₄ := (epollCtl_edit ((w₂.io f).events.union .read) (hi₃ ▸ h₂.iosSelf)).modify
    (g := fun io => { io with events := io.events.union .read })
  have hfds g : w₃.kernel.fds g = if g = e then some ⟨w₂.kernel.next, .epoll⟩ else w₂.kernel.fds g := by
    simp [←hw₃, World.setLoop, openFd, World.log, Function.update_apply]
  have hfds₁ g : (openFd f .listen w).kernel.fds g =
      if g = f then some ⟨w.kernel.next, .listen⟩ else w.kernel.fds g := by
    simp [openFd, World.log, Function.update_apply]
  have hnx : w₂.kernel.next = w.kernel.next + 1 := h₂.next.trans hg.next
  constructor
  case listen =>
    rw [h₄.fdsSelf, hfds, if_neg hne.symm, h₂.fdsSelf, hg.fdsSelf, hfds₁, if_pos rfl]
  case epoll => rw [h₄.fds e hne, hfds, if_pos rfl, hnx]
  case fds =>
    intro g hf he
    rw [h₄.fds g hf, hfds, if_neg he, h₂.fds g hf, hg.fds g hf, hfds₁, if_neg hf, hn g]
  case io =>
    refine ⟨_, h₄.iosSelf, ?_, hr.destroy⟩
    exact {
      ready    := hr.ready
      closed   := hr.closed
      active   := rfl
      cb       := rfl
      alloced  := hr.alloced
      small    := hr.small
      readbuf  := hr.readbuf
      accept   := rfl
      tcp      := rfl
      closeCb  := hr.closeCb
      acceptCb := rfl
      priority := rfl
      events   := by simp [hr.events, Events.union, Events.read]
      queue    := hr.queue
      timer    := hr.timer }
  case ios =>
    intro g hf
    rw [h₄.ios g hf, hi₃, h₂.ios g hf, hg.ios g hf]
    simp [openFd, World.log, hl]
  case iowatcher => exact h₄.iowatcher.trans (hw₃ ▸ rfl)
  case eventfds =>
    rw [h₄.eventfds, ←hw₃]
    exact h₂.eventfds.trans <| hg.eventfds.trans (by simp [openFd, World.log, hl])
  case intern =>
    rw [h₄.intern, ←hw₃]
    exact h₂.intern.trans <| hg.intern.trans (by simp [openFd, World.log, hl])
  case timers =>
    refine List.eq_nil_iff_forall_not_mem.mpr fun t ht => ?_
    obtain ⟨t₁, ht₁, _⟩ := h₄.timers' t ht
    obtain ⟨t₂, ht₂, _⟩ := h₂.timers' t₁ (by rw [←hw₃] at ht₁; exact ht₁)
    rw [hg.timers'] at ht₂
    simp [openFd, World.log, hl] at ht₂
  case events =>
    rw [h₄.events, ←hw₃]
    have := h₂.events.trans hg.events
    simp [World.setLoop, openFd, World.log, this, hl]
  case maxsize => exact h₄.maxsize ▸ hw₃ ▸ h₂.maxsize ▸ hg.maxsize.right
  case readbuf => exact h₄.readbuf.trans <| hw₃ ▸ h₂.readbuf.trans hg.readbuf
  case next    => exact h₄.next.trans <| hw₃ ▸ congrArg (· + 1) hnx
  case count   => exact h₄.count.trans <| hw₃ ▸ h₂.count.trans hg.count
  case sId     => exact h₄.sId.trans <| hw₃ ▸ h₂.sId.trans hg.sId
  case trace =>
    rw [h₄.trace, ←hw₃]
    have := h₂.trace.trans hg.trace
    simp [World.setLoop, openFd, World.log, this, hnx]

-- A socket that cannot be bound or listened on is closed again.
theorem hioCreateSocket_fail (h : Sane w) (hl : w.loop = {}) :
    Sane (sysClose f (openFd f .listen w)) ∧ Admin w (sysClose f (openFd f .listen w)) ∧
      (sysClose f (openFd f .listen w)).loop = {} := by
  have hn g : w.kernel.fds g = none := h.wf.closed (by simp [hl]) (by simp [hl]) (by simp [hl])
  have hd : (openFd f .listen w).kernel.fds f = some ⟨w.kernel.next, .listen⟩ := by
    simp [openFd, World.log]
  have hc := h.chronicle.openFd (f := f) (k := .listen) h.wf.coherent (hn f) (by simp)
    |>.sysClose h.wf.coherent.openFd hd (by simp)
  rw [sysClose_eq hd] at hc ⊢
  refine ⟨⟨.of_closed hl (fun g => ?_) h.wf.count, hc⟩, ?_, hl⟩
  case refine_1 =>
    by_cases hg : g = f
    case pos => simp [hg]
    case neg => simp [hg, openFd, World.log, hn]
  case refine_2 =>
    refine ⟨fun hc => absurd hc.eventfds ?_, ?_, Nat.le_refl _,
      [.opened w.kernel.next .listen, .closed w.kernel.next], ?_, by simp [Event.Admin]⟩
    all_goals simp [openFd, World.log, hl]

theorem hloopCreateTcpServer_sane {r : SocketResult} (h : Sane w) (hl : w.loop = {})
    (ha : w.ans.epoll = some e) (hne : ∀ f, r = .ok f → e ≠ f) :
    Sane (hloopCreateTcpServer r w).2 ∧ Admin w (hloopCreateTcpServer r w).2 ∧
      ((hloopCreateTcpServer r w).1 = none → (hloopCreateTcpServer r w).2.loop = {}) ∧
      ((hloopCreateTcpServer r w).1 ≠ none → Serving (hloopCreateTcpServer r w).2) := by
  have hn g : w.kernel.fds g = none := h.wf.closed (by simp [hl]) (by simp [hl]) (by simp [hl])
  cases r
  case socketFail => exact ⟨h, .refl, fun _ => hl, fun hs => absurd rfl hs⟩
  case bindFail f | listenFail f =>
    obtain ⟨hs, ha, hl'⟩ := hioCreateSocket_fail (f := f) h hl
    exact ⟨hs, ha, fun _ => hl', fun hs => absurd rfl hs⟩
  case ok f =>
    obtain ⟨hf, hs⟩ := hloopCreateTcpServer_ok hl hn ha (hne f rfl)
    exact ⟨⟨hs.wf h.wf, hs.chronicle h.wf hn h.chronicle⟩, hs.admin, by simp [hf], fun _ => hs.serving⟩

-- The effect of creating the eventfd `e` of a loop.
structure Woken (e : Fd) (w w' : World) : Prop where
  eventfd   : w'.kernel.fds e = some ⟨w.kernel.next, .eventfd⟩
  fds       : ∀ g ≠ e, w'.kernel.fds g = w.kernel.fds g
  io        : ∃ io, w'.loop.ios e = some io ∧ io.Waking ∧ io.destroy = false ∧
    io.pending = (w.io e).pending
  ios       : ∀ g ≠ e, w'.loop.ios g = w.loop.ios g
  interest  : w'.kernel.interest e = .read
  iowatcher : w'.loop.iowatcher = w.loop.iowatcher
  eventfds  : w'.loop.eventfds = some e
  timers    : w'.loop.timers = []
  events    : w'.loop.customEvents = w.loop.customEvents
  maxsize   : w.loop.iosMaxsize ≤ w'.loop.iosMaxsize ∧ e < w'.loop.iosMaxsize
  readbuf   : w'.loop.readbuf.len = hloopReadBufsize
  next      : w'.kernel.next = w.kernel.next + 1
  count     : w'.kernel.eventfdCount = 0
  sId       : w'.sId = w.sId + 1
  trace     : w'.trace = w.trace ++ [.opened w.kernel.next .eventfd]

theorem hloopCreateEventfds_woken (hw : Wf w) (hs : Serving w) (ha : w.ans.eventfd = some e)
    (hf : w.kernel.fds e = none) : Woken e w (hloopCreateEventfds w) := by
  have hk : w.kind e = none := by simp [World.kind, hf]
  have hfit := hk ▸ hw.fits e
  have hold := hw.closed_io hf
  have hn : ¬(w.kernel.fds e).isSome = true := by simp [hf]
  simp only [hloopCreateEventfds, ha, if_neg hn]
  generalize hw₁ : (sysEventfd e w).setLoop (fun l => { l with eventfds := some e }) = w₁
  have hfds g : w₁.kernel.fds g = if g = e then some ⟨w.kernel.next, .eventfd⟩ else w.kernel.fds g := by
    simp [←hw₁, World.setLoop, sysEventfd, openFd, World.log, Function.update_apply]
  have hios : w₁.loop.ios = w.loop.ios := hw₁ ▸ rfl
  have hg : Got e _ w₁ (hioGet e w₁) :=
    hioGet_got (d := ⟨w.kernel.next, .eventfd⟩) (by simp [hfds]) (hios ▸ hfit) (hw₁ ▸ hw.readbuf)
  obtain ⟨io, hi, hr⟩ := hg.iosSelf
  have hio₁ : w₁.io e = w.io e := by simp [World.io, hios]
  rw [hio₁] at hr
  generalize hioGet e w₁ = w₂ at hg hi
  have h₁ := Edit.modifyIo (g := fun io => { io with readCb := some .eventfd }) hi
  obtain ⟨w₃, h₃, hadd⟩ := hioAdd_read_eq h₁.iosSelf hr.active hr.ready hr.events
  have h₃ := h₁.trans h₃
  have hiw : w₃.loop.iowatcher.isSome := by
    rw [h₃.iowatcher, hg.iowatcher, ←hw₁]
    exact hs.iowatcher
  obtain ⟨ep, hep⟩ := Option.isSome_iff_exists.mp hiw
  have hinit : iowatcherInit w₃ = w₃ := by simp [iowatcherInit, hep]
  rw [hadd]
  simp only [iowatcherAddEvent, hinit]
  have h₄ := (epollCtl_edit ((w₃.io e).events.union .read) h₃.iosSelf).modify
    (g := fun io => { io with events := io.events.union .read })
    |>.modify (g := fun io => { io with priority := .high })
  generalize hw₄ : ((epollCtl e ((w₃.io e).events.union .read) w₃).modifyIo e
    fun io => { io with events := io.events.union .read }).modifyIo e
      (fun io => { io with priority := .high }) = w₄ at h₄
  have hin : w₄.kernel.interest e = .read := by
    simp [←hw₄, World.modifyIo, World.setLoop, epollCtl, h₃.io_eq, hr.events, Events.union,
      Events.read]
  have h := h₃.trans h₄
  constructor
  case eventfd   => exact h.fdsSelf.trans <| hg.fdsSelf.trans (by simp [hfds])
  case fds       => exact fun g hge => (h.fds g hge).trans <| (hg.fds g hge).trans (by simp [hfds, hge])
  case ios       => exact fun g hge => (h.ios g hge).trans <| (hg.ios g hge).trans (hios ▸ rfl)
  case interest  => exact hin
  case iowatcher => exact h.iowatcher.trans <| hg.iowatcher.trans (hw₁ ▸ rfl)
  case eventfds  => exact h.eventfds.trans <| hg.eventfds.trans (hw₁ ▸ rfl)
  case events    => exact h.events.trans <| hg.events.trans (hw₁ ▸ rfl)
  case maxsize   => exact h.maxsize ▸ (hw₁ ▸ hg.maxsize :)
  case readbuf   => exact h.readbuf.trans hg.readbuf
  case next      => exact h.next.trans <| hg.next.trans (hw₁ ▸ rfl)
  case count     => exact h.count.trans <| hg.count.trans (hw₁ ▸ rfl)
  case sId       => exact h.sId.trans <| hg.sId.trans (hw₁ ▸ rfl)
  case trace     => exact h.trace.trans <| hg.trace.trans (hw₁ ▸ rfl)
  case timers =>
    refine List.eq_nil_iff_forall_not_mem.mpr fun t ht => ?_
    obtain ⟨t', ht', _⟩ := h.timers' t ht
    rw [hg.timers', ←hw₁] at ht'
    exact absurd ht' (by simp [World.setLoop, sysEventfd, openFd, World.log, hs.timers])
  case io =>
    refine ⟨_, h.iosSelf, ?_, hr.destroy.trans hold.left, hr.pending⟩
    exact {
      ready    := hr.ready
      closed   := hr.closed
      active   := rfl
      cb       := rfl
      alloced  := hr.alloced
      small    := hr.small
      readbuf  := hr.readbuf
      accept   := hr.accept
      file     := by
        rw [hr.type]
        simp only [Kind.ioType]
        split <;> rfl
      closeCb  := hr.closeCb
      readCb   := rfl
      priority := rfl
      events   := by simp [hr.events, Events.union, Events.read]
      queue    := hr.queue
      timer    := hr.timer }

namespace Woken

variable {w' : World}

theorem kind_eq {g : Fd} {k : Kind} (h : Woken e w w') (hf : w.kernel.fds e = none)
    (hk : k ≠ .eventfd) : w'.kind g = some k ↔ w.kind g = some k := by
  by_cases hg : g = e
  case pos => simp [hg, World.kind, h.eventfd, hf, hk.symm]
  case neg => rw [kind_congr <| h.fds g hg]

theorem wf (h : Woken e w w') (hw : Wf w) (hs : Serving w) (hf : w.kernel.fds e = none) : Wf w' := by
  obtain ⟨io, hi, hwk, hd, _⟩ := h.io
  have hfds {g d} (hd : w'.kernel.fds g = some d) :
      (g = e ∧ d = ⟨w.kernel.next, .eventfd⟩) ∨ (g ≠ e ∧ w.kernel.fds g = some d) := by
    by_cases hg : g = e
    case pos => exact .inl ⟨hg, Option.some.inj <| hd.symm.trans (hg ▸ h.eventfd)⟩
    case neg => exact .inr ⟨hg, h.fds g hg ▸ hd⟩
  constructor
  case epoll   => exact fun g => by rw [h.kind_eq hf (by simp), h.iowatcher, hw.epoll]
  case timers  => simp [h.timers]
  case events  => simp [h.events, hs.events]
  case readbuf => exact .inr h.readbuf
  case count   => simp [h.count]
  case serial =>
    intro g d hd
    rw [h.next]
    cases hfds hd
    case inl hd => exact hd.right ▸ Nat.lt_succ_self _
    case inr hd => exact Nat.lt_succ_of_lt <| hw.serial hd.right
  case unique =>
    intro g g' d d' hd hd' he
    cases hfds hd <;> cases hfds hd'
    case inl.inl hd hd' => rw [hd.left, hd'.left]
    case inr.inr hd hd' => exact hw.unique hd.right hd'.right he
    case inl.inr hd hd' => exact absurd (he ▸ hd.right ▸ rfl) (Nat.ne_of_lt <| hw.serial hd'.right)
    case inr.inl hd hd' => exact absurd (he ▸ hd'.right ▸ rfl) (Nat.ne_of_lt <| hw.serial hd.right)
  case fits =>
    intro g
    by_cases hg : g = e
    case pos => simpa [hg, World.kind, h.eventfd, hi, Fits] using hwk
    case neg => exact kind_congr (h.fds g hg) ▸ h.ios g hg ▸ hw.fits g
  case destroy =>
    intro g io' hg
    by_cases he : g = e
    case pos => exact Option.some.inj (hi.symm.trans (he ▸ hg)) ▸ hd
    case neg => exact hw.destroy (h.ios g he ▸ hg)
  case bound =>
    intro g io' hg
    by_cases he : g = e
    case pos => exact he ▸ h.maxsize.right
    case neg => exact Nat.lt_of_lt_of_le (hw.bound (h.ios g he ▸ hg)) h.maxsize.left
  case eventfd =>
    intro g
    rw [h.eventfds]
    by_cases hg : g = e
    case pos => simp [hg, World.kind, h.eventfd]
    case neg =>
      rw [kind_congr <| h.fds g hg, hw.eventfd, hs.eventfds]
      simpa using Ne.symm hg
  case watched => simp [h.iowatcher, hs.iowatcher, h.eventfds]

theorem sane (h : Woken e w w') (hs : Sane w) (hsv : Serving w) (hf : w.kernel.fds e = none) :
    Sane w' ∧ Admin w w' := by
  refine ⟨⟨h.wf hs.wf hsv hf, ?_⟩, ?_⟩
  case refine_1 =>
    refine (hs.chronicle.openFd (k := .eventfd) hs.wf.coherent hf (by simp)).of_fds_eq (fun g => ?_)
      h.next fun d => by rw [h.trace]; rfl
    by_cases hg : g = e
    case pos => simp [hg, h.eventfd, openFd, World.log]
    case neg => simp [hg, h.fds g hg, openFd, World.log]
  case refine_2 =>
    refine ⟨fun {f c io} hc => ?_, by simp [h.events], by simp [h.sId], [.opened w.kernel.next .eventfd],
      h.trace, by simp [Event.Admin]⟩
    -- There are no connections before there is an eventfd.
    have hk := (h.kind_eq hf (by simp)).mp hc.kind_eq
    exact absurd (hs.wf.watched hk).right (by simp [hsv.eventfds])

end Woken

end Rlibhv
