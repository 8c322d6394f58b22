import Rlibhv.Event.Theorems.Accept
import Rlibhv.Event.Theorems.Nio

-- What a loop callback does, by what it is called for.
namespace Rlibhv

variable {K : Hio → Prop} {I : World → Prop} {f : Fd} {c : Serial} {io : Hio} {w w' : World}
  {ev : CloseEvent}

-- Changes of an io that belongs to no open connection.
theorem aside_modify {g : Hio → Hio} (hk : w.kind f ≠ some .conn)
    (hg : ∀ io : Hio, Fits (w.kind f) (some io) → Fits (w.kind f) (some (g io)))
    (hd : ∀ io, (g io).destroy = io.destroy) (hp : ∀ io, (g io).pending → io.pending) :
    Aside f w (w.modifyIo f g) := by
  have hio : (w.modifyIo f g).loop.ios f = (w.loop.ios f).map g := by
    simp [World.modifyIo, World.setLoop]
  have hget : (w.modifyIo f g).io f = ((w.loop.ios f).map g).getD {} := by rw [World.io, hio]
  exact { Frame.modifyIo with
    kind    := hk
    timers' := fun t ht => ⟨t, ht, rfl⟩
    fdsSelf := rfl
    isSome  := by simp [hio]
    trace   := rfl
    events  := rfl
    count   := Nat.le_refl _
    fits    := by
      rw [hio]
      cases w.loop.ios f
      case none => exact id
      case some => exact hg _
    destroy := by
      rw [hget, World.io]
      cases w.loop.ios f
      case none => exact id
      case some => simp [hd]
    pending := by
      rw [hget, World.io]
      cases w.loop.ios f
      case none => exact id
      case some => exact hp _ }

-- Carrying out a close that has been posted.
theorem hioCloseEventCb_carried (hw : Wf w) (hq : w.loop.customEvents.front? = some ev)
    (hk : ∀ c io, Conn ev.io c io w → io.id = ev.id → io.Defers ∨ K io) :
    (∃ w₁, Pop ev w w₁ ∧ Carried K ev w₁ (hioCloseEventCb ev (eventQueuePopFront w))) ∧
      Quiet (eventQueuePopFront w) (hioCloseEventCb ev (eventQueuePopFront w)) := by
  have hh : w.loop.customEvents.toList.head? = some ev := Queue.front?_eq _ ▸ hq
  have hm := List.mem_of_mem_head? hh
  generalize hw₁ : eventQueuePopFront w = w₁
  have hl : w₁.loop = { w.loop with customEvents := w.loop.customEvents.popFront } := hw₁ ▸ rfl
  have hkn : w₁.kernel = w.kernel := hw₁ ▸ rfl
  have hio : w₁.io ev.io = w.io ev.io := hw₁ ▸ rfl
  have hs : w₁.serial ev.io = w.serial ev.io := hw₁ ▸ rfl
  simp only [hioCloseEventCb]
  split
  case isTrue hid =>
    have hp : Pop ev w w₁ := ⟨hl, hh, hkn, hw₁ ▸ rfl, .inl (hw₁ ▸ rfl)⟩
    have hc : Carried K ev w₁ w₁ := ⟨.inl rfl, fun _ _ hc he => absurd (hc.io_eq ▸ he) hid⟩
    exact ⟨⟨w₁, hp, hc⟩, .refl⟩
  case isFalse hid =>
    have hid := not_not.mp hid
    have hp : Pop ev w (w₁.log (.closeEvent ev.poster (w₁.serial ev.io))) :=
      ⟨hl, hh, hkn, hw₁ ▸ rfl, .inr ⟨hio ▸ hid, hw₁ ▸ rfl⟩⟩
    have hw₂ := hw.pop hp
    generalize hlog : w₁.log (.closeEvent ev.poster (w₁.serial ev.io)) = w₂ at hp hw₂
    have hqt : Quiet w₁ w₂ := hlog ▸ ⟨rfl, rfl⟩
    cases hw.events ev hm
    case inl hn =>
      have hk₂ : w₂.kind ev.io = none := by rw [←hlog, ←hn]; simp [World.kind, World.log, hkn]
      have hc : Carried K ev w₂ w₂ := by
        refine ⟨.inl rfl, fun _ _ hc => ?_⟩
        have := hc.kind_eq
        simp [hk₂] at this
      rw [hioClose_dead (hk₂ ▸ hw₂.fits ev.io)]
      exact ⟨⟨w₂, hp, hc⟩, hqt⟩
    case inr hn =>
      obtain ⟨d, hd, hdk⟩ := Option.map_eq_some_iff.mp hn
      obtain ⟨c, _⟩ := d
      cases hdk
      obtain ⟨io, hc⟩ := hw.conn hd
      have hc₂ : Conn ev.io c io w₂ := by
        subst hlog
        exact ⟨hkn ▸ hc.fds, hl ▸ hc.ios, hc.live, hl ▸ hc.iowatcher, hl ▸ hc.eventfds⟩
      have hfl := hioClose_flush hc₂ <| hk c io hc <| hc.io_eq ▸ hio ▸ hid
      have hcr : Carried K ev w₂ (hioClose ev.io w₂) := by
        refine ⟨.inr ⟨c, io, hc₂, hfl⟩, fun c' io' hc' _ hd => ?_⟩
        exact (hioClose_shut hc' hd).fdsSelf
      exact ⟨⟨w₂, hp, hcr⟩, hqt.trans hfl.quiet⟩

theorem Carried.sId (h : Carried K ev w w') : w'.sId = w.sId := by
  cases h.effect
  case inl h => exact h ▸ rfl
  case inr h =>
    obtain ⟨_, _, _, h⟩ := h
    exact h.frame.sId

-- What each round of `eventfd_read_cb` preserves, all of it preserves.
theorem eventfdReadCb_induct {P : World → Prop} {n : Nat}
    (hs : ∀ w ev, P w → w.loop.customEvents.front? = some ev →
      P (hioCloseEventCb ev (eventQueuePopFront w)))
    (h : P w) : P (eventfdReadCb n w) := by
  induction n generalizing w
  case zero => exact h
  case succ n hi =>
    rw [eventfdReadCb]
    split
    case h_1    => exact h
    case h_2 hq => exact hi <| hs w _ h hq

-- No connection is accepted here.
theorem eventfdReadCb_moves {n : Nat} (hi : I w) (hw : ∀ w, I w → Wf w)
    (hm : ∀ w w', I w → Move K w w' → w'.sId = w.sId → I w')
    (hk : ∀ w ev c io, I w → ev ∈ w.loop.customEvents.toList → Conn ev.io c io w → io.id = ev.id →
      io.Defers ∨ K io) :
    Moves K w (eventfdReadCb n w) ∧ I (eventfdReadCb n w) := by
  refine eventfdReadCb_induct (P := fun w' => Moves K w w' ∧ I w') ?_ ⟨.refl, hi⟩
  intro w₁ ev hp hq
  have he : ev ∈ w₁.loop.customEvents.toList := List.mem_of_mem_head? <| Queue.front?_eq _ ▸ hq
  obtain ⟨⟨w₂, hpop, hc⟩, _⟩ := hioCloseEventCb_carried (hw w₁ hp.right) hq fun c io =>
    hk w₁ ev c io hp.right he
  exact ⟨hp.left.tail <| .event hpop hc, hm _ _ hp.right (.event hpop hc) <| hc.sId.trans hpop.sId⟩

-- The callback takes as many events from the queue as have been announced.
theorem eventfdReadCb_events {n : Nat} (hw : Wf w) :
    (eventfdReadCb n w).loop.customEvents.toList = w.loop.customEvents.toList.drop n := by
  induction n generalizing w
  case zero => rfl
  case succ n hi =>
    rw [eventfdReadCb, Queue.front?_eq]
    cases hq : w.loop.customEvents.toList
    case nil => simp [hq]
    case cons ev evs =>
      have hf : w.loop.customEvents.front? = some ev := by simp [Queue.front?_eq, hq]
      obtain ⟨⟨_, hp, hc⟩, hqt⟩ := hioCloseEventCb_carried (K := fun _ => True) hw hf
        fun _ _ _ _ => .inr True.intro
      simp only [List.head?_cons]
      rw [hi <| hw.move <| .event hp hc, hqt.events]
      simp [eventQueuePopFront, World.setLoop, hq]

-- The timer of a deferred close.
theorem closeTimeoutCb_moves (hw : Wf w) (hf : w.Client f) (hk : Closing K) :
    Moves K w (closeTimeoutCb f w) := by
  simp only [closeTimeoutCb]
  cases hf
  case inl hn =>
    have ha : Aside f w (w.modifyIo f fun io => { io with error := some .timedout }) := by
      refine aside_modify (by simp [hn]) (fun io h => ?_) (fun _ => rfl) (fun _ => id)
      rw [hn] at h ⊢
      have h : io.Dead := h
      exact ⟨h.ready, h.closed, h.active, h.events, h.queue, h.priority⟩
    have hk₁ : (w.modifyIo f fun io => { io with error := some .timedout }).kind f = none := hn
    rw [hioClose_dead (hk₁ ▸ (hw.aside ha).fits f)]
    exact .single <| .aside (by simp [hn]) ⟨rfl, rfl⟩ ha
  case inr hn =>
    obtain ⟨d, hd, hdk⟩ := Option.map_eq_some_iff.mp hn
    obtain ⟨c, _⟩ := d
    cases hdk
    obtain ⟨io, hc⟩ := hw.conn hd
    have h₁ := Edit.modifyIo (g := fun io => { io with error := some .timedout }) hc.ios
    have h₂ := hioClose_shut (hc.edit h₁ rfl) (by simp [Hio.Defers])
    exact .single <| .flush hc <| .shut h₁ rfl (by simp) rfl h₂ <| hk.error _ (by simp)

def World.setAccepts (w : World) (as : List AcceptResult) : World :=
  { w with ans := { w.ans with accepts := as } }

theorem sysAccept_cases : ∃ as, (∃ e, sysAccept w = (.fail e, w.setAccepts as)) ∨
    (∃ f, w.kernel.fds f = none ∧ sysAccept w = (.fd f, openFd f .conn (w.setAccepts as))) := by
  simp only [sysAccept]
  split
  case h_1       => exact ⟨w.ans.accepts, .inl ⟨.again, rfl⟩⟩
  case h_2 e as _ => exact ⟨as, .inl ⟨e, rfl⟩⟩
  case h_3 f as _ =>
    cases hf : w.kernel.fds f
    case none   => exact ⟨as, .inr ⟨f, hf, by simp [World.setAccepts]⟩⟩
    case some d => exact ⟨as, .inl ⟨.again, by simp [World.setAccepts]⟩⟩

-- Accepting up to `n` connections.
theorem nioAccept_moves {n : Nat} {l : Fd} (hw : Wf w) (hl : w.kind l = some .listen)
    (hi : w.loop.iowatcher.isSome ∧ w.loop.eventfds.isSome) : Moves K w (nioAccept n l w) := by
  induction n generalizing w
  case zero => exact .refl
  case succ n hn =>
    obtain ⟨as, hacc⟩ := sysAccept_cases (w := w)
    have hw₀ : Wf (w.setAccepts as) := { hw with }
    have hk₀ : (w.setAccepts as).kind l = some .listen := hl
    rw [nioAccept]
    cases hacc
    case inl hacc =>
      obtain ⟨e, hacc⟩ := hacc
      have ha (g : Hio → Hio) (hg : ∀ io : Hio, io.Listening → (g io).Listening)
          (hd : ∀ io, (g io).destroy = io.destroy) (hp : ∀ io, (g io).pending → io.pending) :
          Aside l w ((w.setAccepts as).modifyIo l g) := by
        have hfit io (hio : Fits ((w.setAccepts as).kind l) (some io)) :
            Fits ((w.setAccepts as).kind l) (some (g io)) := by
          rw [hk₀] at hio ⊢
          exact hg io hio
        exact { aside_modify (w := w.setAccepts as) (by simp [hk₀]) hfit hd hp with }
      rw [hacc]
      simp only
      split
      case isTrue =>
        have hid := ha id (fun _ h => h) (fun _ => rfl) (fun _ => id)
        have : (w.setAccepts as).modifyIo l id = w.setAccepts as := by
          simp [World.modifyIo, World.setLoop]
        exact .single <| .aside (by simp [hl]) ⟨rfl, rfl⟩ (this ▸ hid)
      case isFalse =>
        have he := ha (fun io => { io with error := some e }) (fun _ h => { h with })
          (fun _ => rfl) (fun _ => id)
        exact .single <| .aside (by simp [hl]) ⟨rfl, rfl⟩ he
    case inr hacc =>
      obtain ⟨f, hf, hacc⟩ := hacc
      have hne : l ≠ f := by
        intro he
        simp [he, World.kind, hf] at hl
      have hb : Birth f w _ := { accept_birth (w := w.setAccepts as) hf hw₀ hi.left with }
      obtain ⟨io, hio, hlis⟩ := hw.listen hl
      have hkf : w.kind f = none := by simp [World.kind, hf]
      have hcb : ((hioGet f (openFd f .conn (w.setAccepts as))).io l).acceptCb = true := by
        have hg := hioGet_got (f := f) (w := openFd f .conn (w.setAccepts as))
          (d := ⟨w.kernel.next, .conn⟩) (by simp [openFd, World.log, World.setAccepts])
          (hkf ▸ hw.fits f) hw.readbuf
        rw [World.io_eq <| (hg.ios l hne).trans hio]
        exact hlis.acceptCb
      rw [hacc]
      simp only [hcb]
      refine .head (.birth hi hb) <| hn (hw.birth hi hb) ?_ ?_
      case refine_1 => exact (kind_congr <| hb.fds l hne).trans hl
      case refine_2 => exact hb.iowatcher ▸ hb.eventfds ▸ hi

theorem hioHandleEvents_listen (hw : Wf w) (hl : w.kind f = some .listen)
    (hi : w.loop.iowatcher.isSome ∧ w.loop.eventfds.isSome) : Moves K w (hioHandleEvents f w) := by
  obtain ⟨io, hio, hlis⟩ := hw.listen hl
  have h₁ : Moves K w (if (w.io f).events.rd && (w.io f).revents.rd then
      if (w.io f).accept then nioAccept 3 f w else nioRead f w else w) := by
    rw [World.io_eq hio, if_pos hlis.accept]
    split
    case isTrue  => exact nioAccept_moves hw hl hi
    case isFalse => exact .refl
  simp only [hioHandleEvents]
  generalize (if (w.io f).events.rd && (w.io f).revents.rd then
    if (w.io f).accept then nioAccept 3 f w else nioRead f w else w) = w₁ at h₁
  have hl₁ : w₁.kind f = some .listen := (kind_congr <| (Moves.own h₁ hl (by simp)).left).trans hl
  obtain ⟨io₁, hio₁, hlis₁⟩ := (hw.moves h₁).listen hl₁
  have hwr : ¬(io₁.events.wr && io₁.revents.wr) = true := by simp [hlis₁.events, Events.read]
  rw [World.io_eq hio₁, if_neg hwr]
  refine .tail h₁ <| .aside (by simp [hl₁]) ⟨rfl, rfl⟩ <|
    aside_modify (by simp [hl₁]) (fun io h => ?_) (fun _ => rfl) (fun _ => id)
  exact h.of_core rfl

-- Changes that do not keep the io of the eventfd from being polled.
structure Stirred (e : Fd) (w w' : World) : Prop extends Aside e w w' where
  interest' : w'.kernel.interest e = w.kernel.interest e
  ios'      : (w'.loop.ios e).isSome

-- Changes that lead the io of the eventfd back to what it was.
theorem stirred_edit (he : w.kind f = some .eventfd) (hio : w.loop.ios f = some io)
    (h : Edit f w w' io) (hk : w'.kernel.interest f = w.kernel.interest f) : Stirred f w w' :=
  { h.toFrame with
    kind    := by simp [he]
    interest' := hk
    ios'    := by simp [h.iosSelf]
    timers' := h.timers'
    fdsSelf := h.fdsSelf
    fits    := by rw [hio, h.iosSelf]; exact id
    isSome  := by simp [hio]
    destroy := by rw [World.io_eq hio, h.io_eq]; exact id
    pending := by rw [World.io_eq hio, h.io_eq]; exact id
    trace   := h.trace
    events  := h.events
    count   := Nat.le_of_eq h.count }

-- Reading the eventfd resets its counter and handles as many events as it said.
theorem nioRead_eventfd (hw : Wf w) (he : w.kind f = some .eventfd) (hio : w.loop.ios f = some io) :
    ∃ w₁ w₂, Stirred f w w₁ ∧ w₂ = eventfdReadCb w.kernel.eventfdCount w₁ ∧
      Stirred f w₂ (nioRead f w) := by
  have hwk : io.Waking := by simpa [he, hio, Fits] using hw.fits f
  obtain ⟨d, hd, hdk⟩ := Option.map_eq_some_iff.mp he
  obtain ⟨c, _⟩ := d
  cases hdk
  have hn : ¬io.ioType = .tcp := by
    intro h
    simpa [h, IoType.isSocket] using hwk.file
  have hs : ¬io.ioType.isSocket = true := by simp [hwk.file]
  simp only [nioRead, World.io_eq hio, hwk.readbuf, if_neg hn, if_neg hs, sysRead, hd, Nat.sub_zero]
  by_cases hc : w.kernel.eventfdCount = 0
  case pos =>
    simp only [hc, if_true, Errno.retry, eventfdReadCb]
    exact ⟨w, w, stirred_edit he hio (.refl hio) rfl, rfl, stirred_edit he hio (.refl hio) rfl⟩
  case neg =>
    have hlt : (Bytes.encode 8 w.kernel.eventfdCount).length < hloopReadBufsize := by
      simp [hloopReadBufsize]
    simp only [if_neg hc, hwk.file, Bool.false_eq_true, and_false, if_false, if_pos hlt]
    obtain ⟨w₁, h₁, hkn₁, hd₁⟩ := nioReadDone_write_eq
      (w := { w with kernel := { w.kernel with eventfdCount := 0 } }) hio hwk.toReady
      (Bytes.encode 8 w.kernel.eventfdCount) [0]
    rw [hd₁]
    have ha₁ : Stirred f w w₁ := { stirred_edit (w := { w with
      kernel := { w.kernel with eventfdCount := 0 } }) he hio h₁ (hkn₁ ▸ rfl) with
        count := h₁.count ▸ Nat.zero_le _ }
    have hk₁ : w₁.kind f = some .eventfd := (kind_congr ha₁.fdsSelf).trans he
    obtain ⟨hm, hw₂⟩ := eventfdReadCb_moves (K := fun _ => True) (I := Wf)
      (n := w.kernel.eventfdCount) (hw.aside ha₁.toAside) (fun _ => id) (fun _ _ h hm _ => h.move hm)
      fun _ _ _ _ _ _ _ _ => .inr True.intro
    have hio₂ := ((Moves.own hm hk₁ (by simp)).right rfl).left.trans h₁.iosSelf
    have hk₂ := (kind_congr <| (Moves.own hm hk₁ (by simp)).left).trans hk₁
    have hcl : ¬io.closed = true := by simp [hwk.closed]
    have hal : ¬(io.allocedReadbuf = true ∧ io.readbuf.len > readBufsizeHighWater) := by
      simp [hwk.alloced]
    have hcount : w.kernel.eventfdCount < 256 ^ 8 := hw.count
    have hcb : hioReadCb f (Bytes.encode 8 w.kernel.eventfdCount) w₁ =
        eventfdReadCb w.kernel.eventfdCount w₁ := by
      simp only [hioReadCb, h₁.io_eq, if_neg hcl, hwk.readCb, Bytes.decode_encode hcount,
        World.io_eq hio₂, if_neg hal]
    rw [hcb]
    have h₃ := hioReadbufAutosize_edit hio₂ hwk.toReady
    have hkn₃ := hioReadbufAutosize_kernel hio₂ hwk.toReady
    exact ⟨w₁, _, ha₁, rfl, stirred_edit hk₂ hio₂ h₃ (hkn₃ ▸ rfl)⟩

theorem Aside.trans {w₁ w₂ : World} (h₁ : Aside f w w₁) (h₂ : Aside f w₁ w₂) : Aside f w w₂ :=
  { h₁.toFrame.trans h₂.toFrame with
    kind    := h₁.kind
    timers' := fun t ht => by
      obtain ⟨t', ht', he⟩ := h₂.timers' t ht
      exact he ▸ h₁.timers' t' ht'
    fdsSelf := h₂.fdsSelf.trans h₁.fdsSelf
    fits    := fun h => kind_congr h₁.fdsSelf ▸ h₂.fits (kind_congr h₁.fdsSelf ▸ h₁.fits h)
    isSome  := h₁.isSome ∘ h₂.isSome
    destroy := h₂.destroy ∘ h₁.destroy
    pending := h₁.pending ∘ h₂.pending
    trace   := h₂.trace.trans h₁.trace
    events  := h₂.events.trans h₁.events
    count   := Nat.le_trans h₂.count h₁.count }

theorem hioHandleEvents_eventfd (hw : Wf w) (he : w.kind f = some .eventfd)
    (hio : w.loop.ios f = some io) : ∃ w₁ w₂, Stirred f w w₁ ∧
      w₂ = eventfdReadCb (if io.revents.rd then w.kernel.eventfdCount else 0) w₁ ∧
      Stirred f w₂ (hioHandleEvents f w) ∧
      (io.revents.rd = false → (hioHandleEvents f w).kernel = w.kernel) := by
  have hwk : io.Waking := by simpa [he, hio, Fits] using hw.fits f
  have ha : ¬io.accept = true := by simp [hwk.accept]
  have h₁ : ∃ w₁ w₂, Stirred f w w₁ ∧
      w₂ = eventfdReadCb (if io.revents.rd then w.kernel.eventfdCount else 0) w₁ ∧
      Stirred f w₂ (if (w.io f).events.rd && (w.io f).revents.rd then
        if (w.io f).accept then nioAccept 3 f w else nioRead f w else w) ∧
      (io.revents.rd = false → (if (w.io f).events.rd && (w.io f).revents.rd then
        if (w.io f).accept then nioAccept 3 f w else nioRead f w else w).kernel = w.kernel) := by
    simp only [World.io_eq hio, if_neg ha, hwk.events, Events.read, Bool.true_and]
    split
    case isTrue hr =>
      obtain ⟨w₁, w₂, h⟩ := nioRead_eventfd hw he hio
      exact ⟨w₁, w₂, h.left, h.right.left, h.right.right, fun hn => by simp [hr] at hn⟩
    case isFalse =>
      exact ⟨w, w, stirred_edit he hio (.refl hio) rfl, rfl, stirred_edit he hio (.refl hio) rfl, fun _ => rfl⟩
  simp only [hioHandleEvents]
  generalize (if (w.io f).events.rd && (w.io f).revents.rd then
    if (w.io f).accept then nioAccept 3 f w else nioRead f w else w) = w₃ at h₁
  obtain ⟨w₁, w₂, ha₁, hw₂, ha₂, hkn⟩ := h₁
  have hk₁ : w₁.kind f = some .eventfd := (kind_congr ha₁.fdsSelf).trans he
  obtain ⟨hm, hwf₂⟩ := eventfdReadCb_moves (K := fun _ => True) (I := Wf)
    (n := if io.revents.rd then w.kernel.eventfdCount else 0) (hw.aside ha₁.toAside) (fun _ => id)
    (fun _ _ h hm _ => h.move hm) fun _ _ _ _ _ _ _ _ => .inr True.intro
  rw [←hw₂] at hm hwf₂
  have hk₂ := (kind_congr <| (Moves.own hm hk₁ (by simp)).left).trans hk₁
  have hk₃ : w₃.kind f = some .eventfd := (kind_congr ha₂.fdsSelf).trans hk₂
  have hwr : ¬((w₃.io f).events.wr && (w₃.io f).revents.wr) = true := by
    cases hi : w₃.loop.ios f
    case none     => simp [World.io, hi]
    case some io₃ =>
      have hf := (hwf₂.aside ha₂.toAside).fits f
      have hwk : io₃.Waking := by simpa [hk₃, hi, Fits] using hf
      simp [World.io_eq hi, hwk.events, Events.read]
  rw [if_neg hwr]
  have ha₃ : Aside f w₃ (w₃.modifyIo f fun io => { io with revents := {} }) :=
    aside_modify (by simp [hk₃]) (fun _ h => h.of_core rfl) (fun _ => rfl) (fun _ => id)
  obtain ⟨io₃, hio₃⟩ := Option.isSome_iff_exists.mp ha₂.ios'
  exact ⟨w₁, w₂, ha₁, hw₂, { ha₂.toAside.trans ha₃ with
    interest' := ha₂.interest'
    ios'      := by simp [World.ios_modifyIo_self hio₃] }, hkn⟩

namespace Rest

variable {w₁ w₂ : World}

theorem refl : Rest w w where
  ios _       := rfl
  maxsize     := rfl
  iowatcher   := rfl
  eventfds    := rfl
  readbuf     := rfl
  timers t ht := ⟨t, ht, rfl⟩
  kernel      := rfl
  sId         := rfl
  trace       := rfl
  events      := rfl

theorem trans (h₁ : Rest w w₁) (h₂ : Rest w₁ w₂) : Rest w w₂ where
  ios f       := (h₂.ios f).trans (h₁.ios f)
  maxsize     := h₂.maxsize.trans h₁.maxsize
  iowatcher   := h₂.iowatcher.trans h₁.iowatcher
  eventfds    := h₂.eventfds.trans h₁.eventfds
  readbuf     := h₂.readbuf.trans h₁.readbuf
  kernel      := h₂.kernel.trans h₁.kernel
  sId         := h₂.sId.trans h₁.sId
  trace       := h₂.trace.trans h₁.trace
  events      := h₂.events.trans h₁.events
  timers t ht := by
    obtain ⟨t', ht', he⟩ := h₂.timers t ht
    exact he ▸ h₁.timers t' ht'

theorem modifyIo {g : Hio → Hio} (hg : ∀ io, (g io).core = io.core) : Rest w (w.modifyIo f g) :=
  { refl with
    ios := fun f' => by
      by_cases hf : f' = f
      case neg => rw [World.ios_modifyIo_of_ne hf]
      case pos =>
        cases hi : w.loop.ios f
        case none    => rw [World.modifyIo_of_none hi]
        case some io => simp [hf, World.ios_modifyIo_self hi, hi, hg] }

theorem foldl {α : Type} {g : World → α → World} {as : List α} (hg : ∀ w a, Rest w (g w a)) :
    Rest w (as.foldl g w) := by
  induction as generalizing w
  case nil         => exact refl
  case cons a _ hi => exact (hg w a).trans hi

end Rest

theorem eventPending_rest : Rest w (eventPending f w) := by
  simp only [eventPending]
  split
  case isTrue  => exact .refl
  case isFalse =>
    have h : Rest w (w.modifyIo f fun io => { io with pending := true }) := .modifyIo fun _ => rfl
    exact h.trans { Rest.refl with }

theorem pollEvent_rest {r : Fd × EpollEvents} : Rest w (pollEvent w r) := by
  simp only [pollEvent]
  split
  case isTrue  => exact .refl
  case isFalse =>
    have h : Rest w (w.modifyIo r.1 fun io => { io with revents := io.revents.union r.2.revents }) :=
      .modifyIo fun _ => rfl
    exact h.trans eventPending_rest

theorem hloopProcessIos_rest {r : PollResult} : Rest w (hloopProcessIos r w) := by
  simp only [hloopProcessIos, iowatcherPollEvents]
  split
  case h_1 => exact .foldl fun _ _ => pollEvent_rest
  case h_2 => exact .refl

theorem hloopUpdateTime_rest : Rest w (hloopUpdateTime w) :=
  { Rest.refl with }

theorem clearPendings_rest : Rest w (clearPendings w) :=
  { Rest.refl with }

theorem hloopProcessTimers_rest : Rest w (hloopProcessTimers w) := by
  refine .foldl fun w t => { Rest.refl with timers := fun u hu => ?_ }
  obtain ⟨v, hv, he⟩ := List.mem_map.mp hu
  refine ⟨v, hv, ?_⟩
  split at he
  case isTrue  => exact he ▸ rfl
  case isFalse => exact he ▸ rfl

theorem freeTimer_rest {id : Nat} : Rest w (freeTimer id w) := by
  refine { Rest.refl with timers := fun u hu => ?_ }
  obtain ⟨v, hv, he⟩ := List.mem_filterMap.mp hu
  refine ⟨v, hv, ?_⟩
  split at he
  case isFalse => exact Option.some.inj he ▸ rfl
  case isTrue  =>
    split at he
    case isTrue  => simp at he
    case isFalse => exact Option.some.inj he ▸ rfl

-- Ios are not destroyed before the loop is torn down.
theorem dispatchIo_eq (hp : (w.io f).pending = true) (hw : Wf (callIo f w)) :
    dispatchIo f w = (callIo f w).modifyIo f fun io => { io with pending := false } := by
  have hn : ¬(!(w.io f).pending) = true := by simp [hp]
  simp only [dispatchIo, if_neg hn]
  rw [if_neg]
  cases hi : (callIo f w).loop.ios f
  case none    => simp [World.modifyIo_of_none hi, World.io, hi]
  case some io => simp [World.io_eq (World.ios_modifyIo_self hi), hw.destroy hi]

-- The io of a descriptor that has been closed is not called.
theorem callIo_closed (hw : Wf w) (hf : w.kernel.fds f = none) : callIo f w = w := by
  have ha : (w.io f).active = false := by
    have hfit := hw.fits f
    cases hi : w.loop.ios f
    case none    => simp [World.io, hi]
    case some io =>
      have hd : io.Dead := by simpa [World.kind, hf, hi, Fits] using hfit
      rw [World.io_eq hi, hd.active]
  simp [callIo, ha]

theorem callIo_eq (hi : w.loop.ios f = some io) (hr : io.Ready) : callIo f w = hioHandleEvents f w := by
  simp [callIo, World.io_eq hi, hr.active, hr.cb]

theorem Moves.effects {R : Fd → Hio → World → Prop} (h : Moves K w w') : Effects K R w w' :=
  Relation.ReflTransGen.mono (fun _ _ h => .move h) w w' h

-- What every effect preserves, a sequence of effects preserves.
theorem Effects.invariant {R : Fd → Hio → World → Prop} (hm : ∀ w w', I w → Effect K R w w' → I w')
    (h : Effects K R w w') (hi : I w) : I w' := by
  induction h
  case refl        => exact hi
  case tail he hi' => exact hm _ _ hi' he

-- What has to be known before the io of a connection is called.
structure Callable (K : Hio → Prop) (io : Hio) (w : World) : Prop where
  steady : Steady K io w
  every  : (∀ io, K io) ∨ w.ans.recv ≠ .fail .msgsize
  eof    : w.ans.recv = .data [] → io.revents.rd = true → io.Defers ∨ K io

theorem Callable.of_forall (h : ∀ io, K io) : Callable K io w where
  steady  := .inl h
  every   := .inl h
  eof _ _ := .inr <| h io

-- What the call of the io at `f` does, by what is open there.
inductive Called (K : Hio → Prop) (f : Fd) (w : World) : World → Prop
  | idle : w.kind f ≠ some .conn → (w.kind f = some .eventfd → w.loop.ios f = none) → Called K f w w
  | visit {c : Serial} {io : Hio} {w' : World} : Conn f c io w → Visit K f c io w w' → Called K f w w'
  | accept {w' : World} : w.kind f = some .listen → Moves K w w' → Called K f w w'
  | eventfd {io : Hio} {w₁ w₂ w' : World} : w.kind f = some .eventfd → w.loop.ios f = some io → Stirred f w w₁ →
    w₂ = eventfdReadCb (if io.revents.rd then w.kernel.eventfdCount else 0) w₁ →
    Stirred f w₂ w' → (io.revents.rd = false → w'.kernel = w.kernel) → Called K f w w'

theorem callIo_called (hw : Wf w) (hk : Closing K)
    (ht : w.loop.iowatcher.isSome ∧ w.loop.eventfds.isSome)
    (hc : ∀ c io, Conn f c io w → Callable K io w) : Called K f w (callIo f w) := by
  cases hf : w.kernel.fds f
  case none =>
    have hkd : w.kind f = none := by simp [World.kind, hf]
    rw [callIo_closed hw hf]
    exact .idle (by simp [hkd]) (by simp [hkd])
  case some d =>
    obtain ⟨c, k⟩ := d
    have hkd : w.kind f = some k := by simp [World.kind, hf]
    have hidle (hk : k ≠ .conn) (hio : w.loop.ios f = none) : Called K f w (callIo f w) := by
      have : callIo f w = w := by simp [callIo, World.io, hio]
      rw [this]
      exact .idle (by simpa [hkd] using hk) fun _ => hio
    cases k
    case conn =>
      obtain ⟨io, hcn⟩ := hw.conn hf
      have hcc := hc c io hcn
      rw [callIo_eq hcn.ios hcn.live.toReady]
      exact .visit hcn <| hioHandleEvents_visit hcn hk hcc.steady hcc.every hcc.eof
    case listen =>
      obtain ⟨io, hio, hlis⟩ := hw.listen hkd
      rw [callIo_eq hio hlis.toReady]
      exact .accept hkd <| hioHandleEvents_listen hw hkd ht
    case epoll =>
      have := hw.fits f
      cases hio : w.loop.ios f
      case none    => exact hidle (by simp) hio
      case some io => simp [hkd, hio, Fits] at this
    case eventfd =>
      cases hio : w.loop.ios f
      case none    => exact hidle (by simp) hio
      case some io =>
        have hwk : io.Waking := by simpa [hkd, hio, Fits] using hw.fits f
        rw [callIo_eq hio hwk.toReady]
        obtain ⟨w₁, w₂, ha₁, hw₂, ha₂, hkn⟩ := hioHandleEvents_eventfd hw hkd hio
        exact .eventfd hkd hio ha₁ hw₂ ha₂ hkn

theorem Called.wf (h : Called K f w w') (hw : Wf w) : Wf w' := by
  cases h
  case idle        => exact hw
  case visit hc hv => exact hw.visit hc hv
  case accept hm   => exact hw.moves hm
  case eventfd ha₁ hw₂ ha₂ _ =>
    obtain ⟨_, hwf⟩ := eventfdReadCb_moves (K := fun _ => True) (I := Wf) (hw.aside ha₁.toAside) (fun _ => id)
      (fun _ _ h hm _ => h.move hm) fun _ _ _ _ _ _ _ _ => .inr True.intro
    exact (hw₂ ▸ hwf).aside ha₂.toAside

-- What a round of `hloop_process_pendings` does.
inductive Dispatched (K : Hio → Prop) (e : Pending) (w : World) : World → Prop
  | skip : (∀ f, e = .io f → (w.io f).pending = false) → Dispatched K e w w
  | io {f : Fd} {w' : World} : e = .io f → (w.io f).pending = true → Called K f w w' →
    Dispatched K e w (w'.modifyIo f fun io => { io with pending := false })
  | timer {id : Nat} {w₁ w' : World} : e = .timer id → Moves K w w₁ → w' = w₁ ∨ w' = freeTimer id w₁ →
    Dispatched K e w w'

theorem dispatch_dispatched {e : Pending} (hw : Wf w) (hk : Closing K)
    (ht : w.loop.iowatcher.isSome ∧ w.loop.eventfds.isSome)
    (hc : ∀ f c io, e = .io f → (w.io f).pending = true → Conn f c io w → Callable K io w) :
    Dispatched K e w (dispatch e w) := by
  cases e
  case io f =>
    simp only [dispatch]
    by_cases hp : (w.io f).pending = true
    case neg =>
      have hp : (w.io f).pending = false := by simpa using hp
      have : dispatchIo f w = w := by simp [dispatchIo, hp]
      rw [this]
      exact .skip fun g hg => by cases hg; exact hp
    case pos =>
      have hcl := callIo_called hw hk ht fun c io => hc f c io rfl hp
      rw [dispatchIo_eq hp <| hcl.wf hw]
      exact .io rfl hp hcl
  case timer id =>
    simp only [dispatch, dispatchTimer]
    split
    case h_1      => exact .skip fun _ => nofun
    case h_2 t ht =>
      split
      case isTrue  => exact .skip fun _ => nofun
      case isFalse =>
        refine .timer rfl ?_ (.inr rfl)
        split
        case isTrue  => exact closeTimeoutCb_moves hw (hw.timers t <| List.mem_of_find?_eq_some ht) hk
        case isFalse => exact .refl

section

variable {R : Fd → Hio → World → Prop} {e : Pending} (hi : I w) (hw : ∀ w, I w → Wf w)
  (hm : ∀ w w', I w → Effect K R w w' → w'.sId = w.sId → I w')
  (hev : ∀ w ev c io, I w → ev ∈ w.loop.customEvents.toList → Conn ev.io c io w →
    io.id = ev.id → io.Defers ∨ K io)

include hi hw hm hev

theorem Called.effects (h : Called K f w w') (hr : ∀ c io, Conn f c io w → R f io w) :
    Effects K R w w' := by
  cases h
  case idle        => exact .refl
  case visit hc hv => exact .single <| .visit (hr _ _ hc) hc hv
  case accept hm   => exact hm.effects
  case eventfd ha₁ hw₂ ha₂ _ =>
    obtain ⟨hmv, _⟩ := eventfdReadCb_moves (hm _ _ hi (.aside ha₁.toAside) ha₁.sId) hw
      (fun _ _ h h' => hm _ _ h <| .move h') hev
    exact .tail (.head (.aside ha₁.toAside) (hw₂ ▸ hmv.effects)) (.aside ha₂.toAside)

theorem Dispatched.effects (h : Dispatched K e w w')
    (hr : ∀ f c io, e = .io f → (w.io f).pending = true → Conn f c io w → R f io w) :
    Effects K R w w' := by
  cases h
  case skip         => exact .refl
  case io f _ he hp hc =>
    exact .tail (hc.effects hi hw hm hev fun c io => hr f c io he hp) <| .rest <| .modifyIo fun _ => rfl
  case timer hmv hw' =>
    cases hw'
    case inl hw' => exact hw' ▸ hmv.effects
    case inr hw' => exact hw' ▸ .tail hmv.effects (.rest freeTimer_rest)

end

end Rlibhv
