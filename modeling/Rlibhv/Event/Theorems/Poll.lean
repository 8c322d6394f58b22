import Rlibhv.Event.Theorems.Dispatch
import Rlibhv.Event.Theorems.Echo

-- What is pending after polling, and in which order it is going to be handled: posted closes come
-- before the connections.
namespace Rlibhv

variable {e f g : Fd} {c : Serial} {io : Hio} {hd : Pending} {todo : List Pending}
  {w w₁ w' : World} {r : PollResult}

-- The counter of the eventfd announces all events in the queue.
def Counted (w : World) : Prop :=
  w.loop.customEvents.toList.length ≤ w.kernel.eventfdCount

-- The eventfd can be polled.
def Watched (w : World) : Prop :=
  ∀ e, w.kind e = some .eventfd → (w.loop.ios e).isSome ∧ (w.kernel.interest e).rd = true

-- The eventfd at `e` is going to be read.
def Hit (e : Fd) (w : World) : Prop :=
  ∃ io, w.loop.ios e = some io ∧ io.pending = true ∧ io.revents.rd = true

-- Nothing is pending.
structure Clean (w : World) : Prop where
  pendings : ∀ p, w.loop.pendings p = []
  flags    : ∀ f, (w.io f).pending = false

-- The lists of pending events after polling.
structure Listed (w : World) : Prop where
  mem   : ∀ {f}, (w.io f).pending = true → .io f ∈ w.loop.pendings (w.io f).priority
  only  : ∀ {p f}, .io f ∈ w.loop.pendings p → p = (w.io f).priority
  count : w.loop.npendings = 0 → ∀ p, w.loop.pendings p = []

-- If something is pending, then the eventfd is if its counter is not 0.
def Woke (w : World) : Prop :=
  0 < w.kernel.eventfdCount → ∀ f, (w.io f).pending = true → ∃ e, w.kind e = some .eventfd ∧ Hit e w

-- The descriptor at `e` is reported as readable, unless polling fails.
def PollResult.reports (e : Fd) : PollResult → Bool
  | ready rs => rs.any fun r => r.1 = e && r.2.in'
  | fail _   => true

-- The poll reports the eventfd if it is registered and its counter is not 0.
def PollResult.ReportsEventfd (r : PollResult) (w : World) : Prop :=
  0 < w.kernel.eventfdCount → ∀ e ∈ w.loop.eventfds, (w.kernel.interest e).rd = true → r.reports e = true

-- `a` occurs in `l` before any `b`.
def Before (a b : Pending) (l : List Pending) : Prop :=
  ∃ l₁ l₂, l = l₁ ++ a :: l₂ ∧ b ∉ l₁

theorem Before.tail {a b : Pending} (h : Before a b (hd :: todo)) (hne : a ≠ hd) : Before a b todo := by
  obtain ⟨l₁, l₂, hl, hn⟩ := h
  cases l₁
  case nil => exact absurd (List.cons.inj hl).left.symm hne
  case cons x l₁ => exact ⟨l₁, l₂, (List.cons.inj hl).right, fun hm => hn <| List.mem_cons_of_mem _ hm⟩

theorem Before.head_ne {a b : Pending} (h : Before a b (hd :: todo)) (hne : a ≠ b) : b ≠ hd := by
  obtain ⟨l₁, l₂, hl, hn⟩ := h
  rintro rfl
  cases l₁
  case nil  => exact hne (List.cons.inj hl).left.symm
  case cons => exact hn ((List.cons.inj hl).left ▸ List.mem_cons_self)

-- The flags of all ios that are still going to be handled.
def Flags (todo : List Pending) (w : World) : Prop :=
  ∀ f, (w.io f).pending = true → .io f ∈ todo

-- Before a connection that has lost bytes, its close is handled.
def Awake (todo : List Pending) (w : World) : Prop :=
  ∀ f c io, Conn f c io w → Lossy c io w → io.pending = true →
    ∃ e, w.kind e = some .eventfd ∧ Hit e w ∧ Before (.io e) (.io f) todo

namespace Clean

theorem listed (h : Clean w) : Listed w where
  mem hp  := by simp [h.flags] at hp
  only hm := by simp [h.pendings] at hm
  count _ := h.pendings

theorem woke (h : Clean w) : Woke w :=
  fun _ f hp => by simp [h.flags] at hp

end Clean

theorem Listed.clean (h : Listed w) (hn : w.loop.npendings = 0) : Clean w where
  pendings := h.count hn
  flags f  := by
    by_contra hp
    have := h.mem (by simpa using hp)
    simp [h.count hn] at this

-- Polling

theorem io_modifyIo {g : Hio → Hio} (hf : (w.loop.ios f).isSome) :
    (w.modifyIo f g).io f = g (w.io f) := by
  obtain ⟨io, hi⟩ := Option.isSome_iff_exists.mp hf
  rw [World.io_eq hi, World.io_eq <| World.ios_modifyIo_self hi]

theorem io_modifyIo_of_ne {h : Hio → Hio} (hg : g ≠ f) : (w.modifyIo f h).io g = w.io g := by
  simp [World.io, World.ios_modifyIo_of_ne hg]

theorem Listed.eventPending (h : Listed w) (hf : (w.loop.ios f).isSome) : Listed (eventPending f w) := by
  simp only [Rlibhv.eventPending]
  split
  case isTrue  => exact h
  case isFalse hp =>
    have hp : (w.io f).pending = false := by simpa using hp
    generalize hw₁ : w.modifyIo f (fun io => { io with pending := true }) = w₁
    have hself : w₁.io f = { w.io f with pending := true } := hw₁ ▸ io_modifyIo hf
    have hne {g} (hg : g ≠ f) : w₁.io g = w.io g := hw₁ ▸ io_modifyIo_of_ne hg
    have hpd : w₁.loop.pendings = w.loop.pendings := hw₁ ▸ rfl
    have hio g : (w₁.setLoop fun l => { l with
        npendings := l.npendings + 1
        pendings  := Function.update l.pendings (w₁.io f).priority (.io f :: l.pendings (w₁.io f).priority)
        }).io g = w₁.io g := rfl
    constructor
    case count => exact fun hc => absurd hc (Nat.succ_ne_zero _)
    case mem =>
      intro g hg
      rw [hio] at hg ⊢
      simp only [World.setLoop]
      by_cases hgf : g = f
      case pos => simp [hgf]
      case neg =>
        have hm := h.mem (hne hgf ▸ hg)
        rw [←hne hgf] at hm
        by_cases hpr : (w₁.io g).priority = (w₁.io f).priority
        case pos => simp [hpr, hpd, hpr ▸ hm]
        case neg => simp [hpr, hpd, hm]
    case only =>
      intro p g hm
      rw [hio]
      simp only [World.setLoop] at hm
      have hold (hm : .io g ∈ w.loop.pendings p) : p = (w₁.io g).priority := by
        by_cases hgf : g = f
        case neg => exact hne hgf ▸ h.only hm
        case pos => rw [hgf, hself]; exact hgf ▸ h.only hm
      by_cases hpr : p = (w₁.io f).priority
      case neg => exact hold (by simpa [hpr, hpd] using hm)
      case pos =>
        subst hpr
        simp only [Function.update_self, hpd, List.mem_cons, Pending.io.injEq] at hm
        cases hm
        case inl hgf => rw [hgf]
        case inr hm  => exact hold hm

theorem Listed.pollEvent {r : Fd × EpollEvents} (h : Listed w) : Listed (pollEvent w r) := by
  simp only [Rlibhv.pollEvent]
  split
  case isTrue  => exact h
  case isFalse hn =>
    have hf : (w.loop.ios r.1).isSome := by
      have := (not_or.mp hn).right
      simpa [Option.isSome_iff_ne_none] using this
    generalize hw₁ : w.modifyIo r.1 (fun io => { io with revents := io.revents.union r.2.revents }) = w₁
    have hio g : (w₁.io g).pending = (w.io g).pending ∧ (w₁.io g).priority = (w.io g).priority := by
      subst hw₁
      by_cases hg : g = r.1
      case pos => rw [hg, io_modifyIo hf]; exact ⟨rfl, rfl⟩
      case neg => rw [io_modifyIo_of_ne hg]; exact ⟨rfl, rfl⟩
    have hl : w₁.loop.pendings = w.loop.pendings ∧ w₁.loop.npendings = w.loop.npendings := hw₁ ▸ ⟨rfl, rfl⟩
    have h₁ : Listed w₁ := by
      constructor
      case mem =>
        intro g hg
        rw [(hio g).right, hl.left]
        exact h.mem ((hio g).left ▸ hg)
      case only =>
        intro p g hm
        rw [(hio g).right]
        exact h.only (hl.left ▸ hm)
      case count => rw [hl.left, hl.right]; exact h.count
    refine h₁.eventPending ?_
    rw [←hw₁]
    obtain ⟨io, hi⟩ := Option.isSome_iff_exists.mp hf
    simp [World.ios_modifyIo_self hi]

namespace Hit

theorem modifyIo {h : Hio → Hio} (hh : ∀ io, io.pending = true → io.revents.rd = true →
    (h io).pending = true ∧ (h io).revents.rd = true) (ht : Hit e w) : Hit e (w.modifyIo f h) := by
  obtain ⟨io, hi, hp, hr⟩ := ht
  by_cases he : e = f
  case neg => exact ⟨io, (World.ios_modifyIo_of_ne he).trans hi, hp, hr⟩
  case pos =>
    subst he
    exact ⟨h io, World.ios_modifyIo_self hi, hh io hp hr⟩

theorem eventPending (ht : Hit e w) : Hit e (eventPending f w) := by
  simp only [Rlibhv.eventPending]
  split
  case isTrue  => exact ht
  case isFalse => exact ht.modifyIo fun _ _ hr => ⟨rfl, hr⟩

theorem pollEvent {r : Fd × EpollEvents} (ht : Hit e w) : Hit e (pollEvent w r) := by
  simp only [Rlibhv.pollEvent]
  split
  case isTrue  => exact ht
  case isFalse =>
    refine eventPending <| ht.modifyIo fun io hp hr => ⟨hp, ?_⟩
    simp [Events.union, hr]

theorem foldl {rs : List (Fd × EpollEvents)} (ht : Hit e w) : Hit e (rs.foldl Rlibhv.pollEvent w) := by
  induction rs generalizing w
  case nil     => exact ht
  case cons hi => exact hi ht.pollEvent

end Hit

-- Being reported once is enough.
theorem hit_pollEvent {ev : EpollEvents} (hio : (w.loop.ios e).isSome) (hev : ev.in' = true) :
    Hit e (pollEvent w (e, ev)) := by
  have hn : ¬(ev.revents.isEmpty = true ∨ (w.loop.ios e).isNone = true) := by
    simp [EpollEvents.revents, Events.isEmpty, hev, Option.isSome_iff_ne_none.mp hio]
  obtain ⟨io, hi⟩ := Option.isSome_iff_exists.mp hio
  have hr : (io.revents.union ev.revents).rd = true := by simp [Events.union, EpollEvents.revents, hev]
  simp only [pollEvent, if_neg hn, eventPending]
  have h₁ := World.ios_modifyIo_self (h := fun io => { io with revents := io.revents.union ev.revents }) hi
  rw [World.io_eq h₁]
  split
  case isTrue hp  => exact ⟨_, h₁, hp, hr⟩
  case isFalse hp => exact ⟨_, World.ios_modifyIo_self h₁, rfl, hr⟩

theorem hit_foldl {rs : List (Fd × EpollEvents)} {ev : EpollEvents} (hio : (w.loop.ios e).isSome)
    (hm : (e, ev) ∈ rs) (hev : ev.in' = true) : Hit e (rs.foldl pollEvent w) := by
  induction rs generalizing w
  case nil => simp at hm
  case cons r rs hi =>
    rw [List.foldl_cons]
    cases List.mem_cons.mp hm
    case inl hm => exact (hm ▸ hit_pollEvent hio hev).foldl
    case inr hm =>
      refine hi ?_ hm
      have hm := congrArg Option.isSome (pollEvent_rest (w := w) (r := r) |>.ios e)
      simpa [hio] using hm

theorem Listed.foldl {rs : List (Fd × EpollEvents)} (h : Listed w) : Listed (rs.foldl Rlibhv.pollEvent w) := by
  induction rs generalizing w
  case nil     => exact h
  case cons hi => exact hi h.pollEvent

-- Once polled, either nothing is pending or the eventfd is if it has to be.
theorem hloopProcessIos_polled (hc : Clean w) (hw : Watched w) (hr : r.ReportsEventfd w)
    (he : w.loop.eventfds = some e) (hk : w.kind e = some .eventfd) :
    Listed (hloopProcessIos r w) ∧ Woke (hloopProcessIos r w) := by
  simp only [hloopProcessIos, iowatcherPollEvents]
  split
  case h_2 => exact ⟨hc.listed, hc.woke⟩
  case h_1 rs _ =>
    refine ⟨hc.listed.foldl, fun hcount f _ => ?_⟩
    have hrest : Rest w (rs.foldl pollEvent w) := .foldl fun _ _ => pollEvent_rest
    obtain ⟨hio, hi⟩ := hw e hk
    have hr := hr (hrest.kernel ▸ hcount) e he hi
    simp only [PollResult.reports, List.any_eq_true, Bool.and_eq_true, decide_eq_true_eq] at hr
    obtain ⟨⟨_, ev⟩, hm, rfl, hev⟩ := hr
    exact ⟨_, (kind_congr <| hrest.kernel ▸ rfl).trans hk, hit_foldl hio hm hev⟩

-- Timers are called before ios, but do not get in the way.
theorem Listed.expireTimer {t : Htimer} (h : Listed w) : Listed (expireTimer w t) where
  count hc := absurd hc (Nat.succ_ne_zero _)
  mem {f} hp := by
    have hm : .io f ∈ w.loop.pendings (w.io f).priority := h.mem hp
    have : ((Rlibhv.expireTimer w t).io f).priority = (w.io f).priority := rfl
    rw [this]
    by_cases hpr : (w.io f).priority = .highest
    case pos => simp [Rlibhv.expireTimer, World.setLoop, hpr, hpr ▸ hm]
    case neg => simp [Rlibhv.expireTimer, World.setLoop, hpr, hm]
  only {p f} hm := by
    refine h.only ?_
    by_cases hpr : p = .highest
    case pos => simpa [Rlibhv.expireTimer, World.setLoop, hpr] using hm
    case neg => simpa [Rlibhv.expireTimer, World.setLoop, hpr] using hm

theorem hloopProcessTimers_polled (hl : Listed w) (hw : Woke w) :
    Listed (hloopProcessTimers w) ∧ Woke (hloopProcessTimers w) := by
  simp only [hloopProcessTimers]
  generalize w.loop.timers.filter _ = ts
  induction ts generalizing w
  case nil          => exact ⟨hl, hw⟩
  case cons t ts hi => exact hi hl.expireTimer hw

theorem flags_pendingOrder (h : Listed w) : Flags (pendingOrder w.loop) w := by
  intro f hp
  have hm := h.mem hp
  cases hpr : (w.io f).priority
  all_goals
    rw [hpr] at hm
    simp [pendingOrder, hm]

-- The eventfd has a higher priority than the connections.
theorem awake_pendingOrder (hl : Listed w) (hwk : Woke w) (hw : Wf w) (ha : Announced w) (hc : Counted w) :
    Awake (pendingOrder w.loop) w := by
  intro f c io hcn hls hp
  obtain ⟨ev, hev, _⟩ := ha _ _ _ hcn hls
  have hpos : 0 < w.kernel.eventfdCount := Nat.lt_of_lt_of_le (List.length_pos_of_mem hev) hc
  obtain ⟨e, he, hhit⟩ := hwk hpos f (hcn.io_eq ▸ hp)
  refine ⟨e, he, hhit, ?_⟩
  obtain ⟨jo, hjo, hjp, _⟩ := hhit
  have hjw : jo.Waking := by simpa [he, hjo, Fits] using hw.fits e
  have hm : .io e ∈ w.loop.pendings .high := by
    have := hl.mem (World.io_eq hjo ▸ hjp)
    rwa [World.io_eq hjo, hjw.priority] at this
  have hn {p} (hp : p ≠ .normal) : .io f ∉ w.loop.pendings p := by
    intro hm
    have := hl.only hm
    rw [hcn.io_eq, hcn.live.priority] at this
    exact hp this
  obtain ⟨l₁, l₂, hh⟩ := List.append_of_mem hm
  refine ⟨w.loop.pendings .highest ++ l₁, l₂ ++ w.loop.pendings .normal ++ w.loop.pendings .low ++
    w.loop.pendings .lowest, by simp [pendingOrder, hh], fun hm => ?_⟩
  cases List.mem_append.mp hm
  case inl hm => exact hn (by simp) hm
  case inr hm => exact hn (p := .high) (by simp) (hh ▸ List.mem_append_left _ hm)

-- Setting up

-- Nothing becomes pending or ceases to be.
structure Calm (w w' : World) : Prop where
  pendings : w'.loop.pendings = w.loop.pendings
  flags    : ∀ f, (w'.io f).pending = (w.io f).pending

namespace Calm

theorem clean (h : Calm w w') (hc : Clean w) : Clean w' where
  pendings p := h.pendings ▸ hc.pendings p
  flags f    := (h.flags f).trans <| hc.flags f

theorem trans (h₁ : Calm w w₁) (h₂ : Calm w₁ w') : Calm w w' where
  pendings := h₂.pendings.trans h₁.pendings
  flags f  := (h₂.flags f).trans <| h₁.flags f

-- What leaves all ios alone.
theorem of_ios (hp : w'.loop.pendings = w.loop.pendings) (hi : w'.loop.ios = w.loop.ios) : Calm w w' where
  pendings := hp
  flags f  := by simp [World.io, hi]

theorem refl : Calm w w :=
  of_ios rfl rfl

theorem modify {h : Hio → Hio} (hc : Calm w w₁) (hh : ∀ io, (h io).pending = io.pending) :
    Calm w (w₁.modifyIo f h) := by
  refine hc.trans ⟨rfl, fun g => ?_⟩
  by_cases hg : g = f
  case neg => rw [io_modifyIo_of_ne hg]
  case pos =>
    cases hi : w₁.loop.ios f
    case none   => rw [World.modifyIo_of_none hi]
    case some _ => rw [hg, io_modifyIo (by simp [hi]), hh]

end Calm

theorem iowatcherAddEvent_calm {ev : Events} : Calm w (iowatcherAddEvent f ev w) := by
  suffices Calm w (iowatcherInit w) from this.trans <| .of_ios rfl rfl
  simp only [iowatcherInit]
  split
  case h_2 => exact .refl
  case h_1 =>
    split
    case isTrue  => exact .refl
    case isFalse => exact .of_ios rfl rfl

theorem hioUseLoopReadbuf_calm : Calm w (hioUseLoopReadbuf f w) := by
  refine Calm.modify (.of_ios ?_ ?_) fun _ => rfl
  all_goals
    simp only [World.setLoop]
    split <;> rfl

theorem hioReady_calm : Calm w (hioReady f w) := by
  simp only [hioReady, fillIoType]
  split
  case isTrue  => exact .refl
  case isFalse =>
    refine Calm.modify (.modify (Calm.trans ?_ hioUseLoopReadbuf_calm) fun _ => rfl) fun _ => rfl
    exact .modify (.of_ios rfl rfl) fun _ => rfl

theorem ready_calm : Calm w (if (w.io f).ready then w else hioReady f w) := by
  split
  case isTrue  => exact .refl
  case isFalse => exact hioReady_calm

theorem hioGet_calm : Calm w (hioGet f w) := by
  have h₁ : Calm w (ioArrayReserve f w) := by
    simp only [ioArrayReserve]
    split
    case isTrue  => exact .of_ios rfl rfl
    case isFalse => exact .refl
  have h₂ (w : World) : Calm w (if (w.loop.ios f).isNone then
      w.setLoop fun l => { l with ios := Function.update l.ios f (some {}) } else w) := by
    split
    case isFalse  => exact .refl
    case isTrue h =>
      refine ⟨rfl, fun g => ?_⟩
      by_cases hg : g = f
      case neg => simp [World.io, World.setLoop, hg]
      case pos => simp [World.io, World.setLoop, hg, Option.isNone_iff_eq_none.mp h]
  have h := (h₁.trans <| h₂ _).trans <| ready_calm (f := f)
  exact h

theorem hioAdd_calm {ev : Events} : Calm w (hioAdd f ev w) := by
  have h₁ : Calm w (if (w.io f).active then w else
      (w.setLoop fun l => { l with nios := l.nios + 1 }).modifyIo f fun io =>
        { io with cb := true, active := true }) := by
    split
    case isTrue  => exact .refl
    case isFalse => exact .modify (.of_ios rfl rfl) fun _ => rfl
  have h₂ (w : World) : Calm w (if ((w.io f).events.inter ev).isEmpty then
      (iowatcherAddEvent f ev w).modifyIo f fun io => { io with events := io.events.union ev } else w) := by
    split
    case isTrue  => exact .modify iowatcherAddEvent_calm fun _ => rfl
    case isFalse => exact .refl
  have h := ((h₁.trans <| ready_calm (f := f)).modify (f := f) (h := fun io => { io with cb := true })
    fun _ => rfl).trans <| h₂ _
  exact h

theorem openFd_calm {k : Kind} : Calm w (openFd f k w) :=
  .of_ios rfl rfl

theorem hloopCreateEventfds_calm : Calm w (hloopCreateEventfds w) := by
  simp only [hloopCreateEventfds]
  split
  case h_1 => exact .refl
  case h_2 e _ =>
    split
    case isTrue  => exact .refl
    case isFalse =>
      have h₁ : Calm w ((sysEventfd e w).setLoop fun l => { l with eventfds := some e }) := .of_ios rfl rfl
      have h₂ := (h₁.trans <| hioGet_calm (f := e)).modify (f := e)
        (h := fun io => { io with readCb := some .eventfd }) fun _ => rfl
      have h₃ := h₂.trans (hioAdd_calm : Calm _ (hioAdd e .read _))
      have h₄ := h₃.modify (f := e) (h := fun io => { io with priority := .high }) fun _ => rfl
      exact h₄.trans <| .of_ios rfl rfl

theorem hloopCreateTcpServer_calm {r : SocketResult} : Calm w (hloopCreateTcpServer r w).2 := by
  have hclose {f : Fd} : Calm w (sysClose f (openFd f .listen w)) := by
    simp only [sysClose]
    split
    all_goals exact .of_ios rfl rfl
  cases r
  case socketFail => exact .refl
  case bindFail   => exact hclose
  case listenFail => exact hclose
  case ok f       =>
    have h₁ := (openFd_calm (f := f) (k := .listen) (w := w)).trans <| hioGet_calm (f := f)
    have h₂ := h₁.modify (f := f) (h := fun io => { io with ioType := .tcp, priority := .high }) fun _ => rfl
    have h₃ := h₂.modify (f := f) (h := fun io => { io with acceptCb := true }) fun _ => rfl
    have h₄ := h₃.modify (f := f) (h := fun io => { io with accept := true }) fun _ => rfl
    exact h₄.trans hioAdd_calm

end Rlibhv
