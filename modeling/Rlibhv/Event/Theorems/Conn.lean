import Rlibhv.Event.Theorems.Effect

-- What the functions of libhv do to the io of an open descriptor.
namespace Rlibhv

variable {f : Fd} {c : Serial} {io : Hio} {w : World}

theorem epollCtl_edit (ev : Events) (h : w.loop.ios f = some io) : Edit f w (epollCtl f ev w) io :=
  { Edit.refl h with interest := fun _ hg => Function.update_of_ne hg .. }

theorem iowatcherAddEvent_edit (ev : Events) (h : w.loop.ios f = some io)
    (hw : w.loop.iowatcher.isSome) : Edit f w (iowatcherAddEvent f ev w) io := by
  obtain ⟨_, hi⟩ := Option.isSome_iff_exists.mp hw
  have hw : iowatcherInit w = w := by simp [iowatcherInit, hi]
  simp only [iowatcherAddEvent, hw]
  exact epollCtl_edit _ h

theorem iowatcherDelEvent_edit (ev : Events) (h : w.loop.ios f = some io) :
    Edit f w (iowatcherDelEvent f ev w) io := by
  simp only [iowatcherDelEvent]
  split
  case isTrue  => exact .refl h
  case isFalse => exact epollCtl_edit _ h

-- Adding the interest in writing to an io that is active.
theorem hioAdd_write_edit (h : w.loop.ios f = some io) (hr : io.Ready)
    (hw : w.loop.iowatcher.isSome) : ∃ ev, ev.rd = io.events.rd ∧
      Edit f w (hioAdd f .write w) { io with events := ev } := by
  have hcb : { io with cb := true } = io := by cases io; simpa using hr.cb.symm
  have h₁ : Edit f w (w.modifyIo f fun io => { io with cb := true }) io :=
    hcb ▸ .modifyIo (g := fun io => { io with cb := true }) h
  unfold hioAdd
  simp only [World.io_eq h, if_pos hr.active, if_pos hr.ready, h₁.io_eq]
  split
  case isFalse => exact ⟨io.events, rfl, h₁⟩
  case isTrue  =>
    have h₂ := iowatcherAddEvent_edit .write h₁.iosSelf (h₁.iowatcher ▸ hw)
    exact ⟨io.events.union .write, by simp [Events.union, Events.write], h₁.trans h₂ |>.modify⟩

-- Deleting the interest in writing leaves the interest in reading, so the io stays active.
theorem hioDel_write_edit (h : w.loop.ios f = some io) (hr : io.Ready) (hrd : io.events.rd = true) :
    ∃ ev, ev.rd = io.events.rd ∧ Edit f w (hioDel f .write w) { io with events := ev } := by
  have hne (ev : Events) (hv : ev.rd = true) : ev.isEmpty = false := by simp [Events.isEmpty, hv]
  have ha : ¬(!io.active) = true := by simp [hr.active]
  unfold hioDel
  simp only [World.io_eq h, if_neg ha]
  split
  case isTrue =>
    simp only [World.io_eq h, hne _ hrd, Bool.false_eq_true, if_false]
    exact ⟨io.events, rfl, .refl h⟩
  case isFalse =>
    have h₂ := iowatcherDelEvent_edit .write h
      |>.modify (g := fun io => { io with events := io.events.diff .write })
    have hrd₂ : (io.events.diff .write).rd = io.events.rd := by simp [Events.diff, Events.write]
    simp only [h₂.io_eq, hne _ (hrd₂.trans hrd), Bool.false_eq_true, if_false]
    exact ⟨_, hrd₂, h₂⟩

theorem deactivate_edit (h : w.loop.ios f = some io) :
    Edit f w
      ((w.setLoop fun l => { l with nios := l.nios - 1 }).modifyIo f fun io =>
        { io with active := false })
      { io with active := false } := by
  have h₁ : Edit f w (w.setLoop fun l => { l with nios := l.nios - 1 }) io := { Edit.refl h with }
  exact h₁.trans <| .modifyIo h

-- Deleting all interests deactivates the io.
theorem hioDel_rdwr_edit (h : w.loop.ios f = some io) (ha : io.active = true) :
    Edit f w (hioDel f .rdwr w) { io with events := {}, active := false } := by
  have hn : ¬(!io.active) = true := by simp [ha]
  unfold hioDel
  simp only [World.io_eq h, if_neg hn]
  by_cases he : (io.events.inter .rdwr).isEmpty = true
  case pos =>
    have hev : io.events = {} := by
      simpa [Events.inter, Events.rdwr, Events.isEmpty, Events.ext_iff] using he
    have hio : { io with events := {}, active := false } = { io with active := false } := by
      cases io; simpa using hev.symm
    rw [if_pos he, World.io_eq h, if_pos (by simp [hev, Events.isEmpty]), hio]
    exact deactivate_edit h
  case neg =>
    have hd : io.events.diff .rdwr = {} := by simp [Events.diff, Events.rdwr]
    have h₁ := iowatcherDelEvent_edit .rdwr h
      |>.modify (g := fun io => { io with events := io.events.diff .rdwr })
    rw [if_neg he, h₁.io_eq, if_pos (by simp [hd, Events.isEmpty])]
    rw [hd] at h₁
    exact h₁.trans <| deactivate_edit h₁.iosSelf

theorem hioDone_edit (h : w.loop.ios f = some io) (hr : io.ready = true) (ha : io.active = true)
    (hb : io.allocedReadbuf = false) : Edit f w (hioDone f w)
      { io with ready := false, events := {}, active := false, writeQueue := .empty } := by
  have h₁ := Edit.modifyIo (g := fun io => { io with ready := false }) h
  have h₂ := h₁.trans <| hioDel_rdwr_edit h₁.iosSelf ha
  have hb : ¬io.allocedReadbuf = true := by simp [hb]
  have hr : ¬(!io.ready) = true := by simp [hr]
  unfold hioDone hioFreeReadbuf
  simp only [World.io_eq h, if_neg hr, h₂.io_eq, if_neg hb]
  exact h₂.modify

theorem htimerDel_edit {id : Nat} (h : w.loop.ios f = some io) : Edit f w (htimerDel id w) io := by
  have ht : ∀ t ∈ (htimerDel id w).loop.timers, ∃ t' ∈ w.loop.timers, t'.io = t.io := by
    intro t ht
    simp only [htimerDel, World.setLoop, List.mem_filterMap] at ht
    obtain ⟨u, hu, ht⟩ := ht
    refine ⟨u, hu, ?_⟩
    split at ht
    case isTrue  => exact congrArg Htimer.io <| Option.some.inj ht
    case isFalse =>
      split at ht
      case isTrue  => exact Option.some.inj ht ▸ rfl
      case isFalse => simp at ht
  exact { Edit.refl h with timers := fun t hm => .inl <| ht t hm, timers' := ht }

theorem hioDelCloseTimer_edit (h : w.loop.ios f = some io) :
    ∃ n tm, Edit f w (hioDelCloseTimer f w) { io with closeTimeout := n, closeTimer := tm } := by
  unfold hioDelCloseTimer
  rw [World.io_eq h]
  split
  case h_1 => exact ⟨_, _, .refl h⟩
  case h_2 => exact ⟨_, _, htimerDel_edit h |>.modify⟩

theorem mem_insertTimer {t u : Htimer} {ts : List Htimer} {n : Nat} (h : t ∈ insertTimer u n ts) :
    t = u ∨ t ∈ ts := by
  induction ts generalizing n
  case nil => exact .inl <| List.mem_singleton.mp h
  case cons hd tl hi =>
    have hrest {n : Nat} (h : t ∈ hd :: insertTimer u n tl) : t = u ∨ t ∈ hd :: tl := by
      rcases List.mem_cons.mp h with rfl | h
      · exact .inr List.mem_cons_self
      · exact (hi h).imp_right (List.mem_cons_of_mem hd)
    rw [insertTimer.eq_def] at h
    simp only at h
    split_ifs at h
    · exact List.mem_cons.mp h
    · exact hrest h
    · split at h
      · exact List.mem_cons.mp h
      · exact hrest h

-- The timer of a deferred close.
theorem htimerAdd_touch {n : Nat} (h : w.loop.ios f = some io) :
    Touch f c io io [] w (htimerAdd f n w).2 ∧ Quiet w (htimerAdd f n w).2 := by
  unfold htimerAdd
  split
  case isTrue  => exact ⟨.refl h, .refl⟩
  case isFalse =>
    refine ⟨{ Touch.refl h with timers := fun t ht => ?_ }, ⟨rfl, rfl⟩⟩
    cases mem_insertTimer ht
    case inl he => exact .inr <| he ▸ rfl
    case inr ht => exact .inl ⟨t, ht, rfl⟩

-- The buffer of the loop keeps its size.
theorem hioReadbufAutosize_edit (h : w.loop.ios f = some io) (hr : io.Ready) :
    Edit f w (hioReadbufAutosize f w) io := by
  have h₁ := Edit.modifyIo (g := fun io => if io.readbuf.head = io.readbuf.tail then
    { io with readbuf := { io.readbuf with head := 0, tail := 0 } } else io) h
  have h₁ : Edit f w _ io := h₁.of_eq (by have := hr.readbuf; cases io; simp_all)
  unfold hioReadbufAutosize
  simp only [h₁.io_eq, hr.readbuf, hr.small, hloopReadBufsize]
  exact h₁

theorem hioReadbufAutosize_kernel (h : w.loop.ios f = some io) (hr : io.Ready) :
    (hioReadbufAutosize f w).kernel = w.kernel := by
  have h₁ := Edit.modifyIo (g := fun io => if io.readbuf.head = io.readbuf.tail then
    { io with readbuf := { io.readbuf with head := 0, tail := 0 } } else io) h
  have h₁ : Edit f w _ io := h₁.of_eq (by have := hr.readbuf; cases io; simp_all)
  unfold hioReadbufAutosize
  simp only [h₁.io_eq, hr.readbuf, hr.small, hloopReadBufsize]
  rfl

-- The read buffer is emptied before the callback is called, so the chunk is all there is in it.
theorem nioReadDone_eq (h : w.loop.ios f = some io) (hr : io.Ready) (n : Nat) :
    ∃ w₁, Edit f w w₁ io ∧ w₁.kernel = w.kernel ∧ nioReadDone f 0 n w =
      hioReadbufAutosize f (hioReadCb f (w.loop.readbuf.base.take n) w₁) := by
  have h₁ := Edit.modifyIo
    (g := fun io => { io with readbuf := { io.readbuf with tail := 0 + n } }) h
  have h₂ := h₁.modify
    (g := fun io => { io with readbuf := { io.readbuf with head := 0, tail := 0 } })
  have h₂ : Edit f w _ io := h₂.of_eq (by have := hr.readbuf; cases io; simp_all)
  have ha : ¬io.allocedReadbuf = true := by simp [hr.alloced]
  have hh : io.readbuf.head = 0 := by simp [hr.readbuf]
  have hb : List.take (0 + n) (List.drop 0 w.loop.readbuf.base) = w.loop.readbuf.base.take n := by simp
  refine ⟨_, h₂, rfl, ?_⟩
  simp only [nioReadDone, hioHandleRead, readbufBase, h₁.io_eq, if_neg ha, hh, Nat.sub_zero, ←hb]
  rfl

-- What has been stored in the read buffer is what the callback gets.
theorem nioReadDone_write_eq (h : w.loop.ios f = some io) (hr : io.Ready) (bs bs₀ : Payload) :
    ∃ w₁, Edit f w w₁ io ∧ w₁.kernel = w.kernel ∧ nioReadDone f 0 bs.length
      (setReadbufBase f (Bytes.write 0 (bs ++ bs₀) (readbufBase f w)) w) =
        hioReadbufAutosize f (hioReadCb f bs w₁) := by
  have ha : ¬io.allocedReadbuf = true := by simp [hr.alloced]
  simp only [readbufBase, setReadbufBase, World.io_eq h, if_neg ha]
  have h₁ : Edit f w (w.setLoop fun l => { l with readbuf := { l.readbuf with
      base := Bytes.write 0 (bs ++ bs₀) w.loop.readbuf.base } }) io := { Edit.refl h with }
  obtain ⟨w₂, h₂, hk, he⟩ := nioReadDone_eq h₁.iosSelf hr bs.length
  refine ⟨w₂, h₁.trans h₂, hk, ?_⟩
  rw [he]
  simp only [World.setLoop, Bytes.take_write]

-- The part of `hio_close` that all ios have in common, up to the callback.
theorem hioClose_edit (h : w.loop.ios f = some io) (hr : io.Ready) :
    ∃ n tm, Edit f w
      ((hioDelCloseTimer f <| hioDone f <| w.modifyIo f fun io => { io with closed := true }).modifyIo
        f fun io => { io with closed := true })
      { io with
        closed       := true
        ready        := false
        events       := {}
        active       := false
        writeQueue   := .empty
        closeTimeout := n
        closeTimer   := tm } := by
  have h₁ := Edit.modifyIo (g := fun io => { io with closed := true }) h
  have h₂ := h₁.trans <| hioDone_edit h₁.iosSelf hr.ready hr.active hr.alloced
  obtain ⟨n, tm, h₃⟩ := hioDelCloseTimer_edit h₂.iosSelf
  exact ⟨n, tm, h₂.trans h₃ |>.modify⟩

theorem sysClose_eq {d : Desc} (h : w.kernel.fds f = some d) :
    sysClose f w = { w.log (.closed d.serial) with kernel := { w.kernel with
      fds      := Function.update w.kernel.fds f none
      interest := Function.update w.kernel.interest f {} } } := by
  simp [sysClose, h, World.log]

theorem Hio.defers_iff :
    (!io.writeQueue.isEmpty && io.error.isNone && !io.close && !io.destroy) = true ↔ io.Defers := by
  simp [Hio.Defers, ←Queue.isEmpty_iff, and_assoc]

theorem hioClose_defer (h : Conn f c io w) (hd : io.Defers) :
    ∃ io', io'.writeQueue = io.writeQueue ∧ Touch f c io io' [] w (hioClose f w) ∧
      Quiet w (hioClose f w) := by
  have hc : ¬io.closed = true := by simp [h.live.closed]
  unfold hioClose
  simp only [h.io_eq, if_neg hc, if_pos (Hio.defers_iff.mpr hd)]
  have h₁ := Edit.modifyIo (g := fun io => { io with close := true }) h.ios
  obtain ⟨h₂, hq₂⟩ := htimerAdd_touch (c := c)
    (n := if io.closeTimeout = 0 then hioDefaultCloseTimeout else io.closeTimeout) h₁.iosSelf
  generalize htimerAdd f _ _ = r at h₂ hq₂
  have h₃ := Edit.modifyIo (g := fun io => { io with closeTimer := r.1 }) h₂.iosSelf
  have h₁' : Touch f c io _ [] w _ := .of_edit h₁ rfl id
  have h₃' : Touch f c { io with close := true } _ [] _ _ := .of_edit h₃ rfl id
  refine ⟨_, ?_, h₁'.trans <| h₂.trans h₃', h₁.quiet.trans <| hq₂.trans h₃.quiet⟩
  rfl

theorem hioClose_shut (h : Conn f c io w) (hd : ¬io.Defers) : Shut f c io w (hioClose f w) := by
  have hc : ¬io.closed = true := by simp [h.live.closed]
  obtain ⟨n, tm, h₁⟩ := hioClose_edit h.ios h.live.toReady
  have hf₁ := h₁.fdsSelf.trans h.fds
  unfold hioClose hioCloseCb onClose
  simp only [h.io_eq, if_neg hc, if_neg (Hio.defers_iff.not.mpr hd), h₁.io_eq, if_pos h.live.closeCb,
    World.serial, hf₁, Option.map_some]
  generalize (hioDelCloseTimer f _).modifyIo f _ = w₁ at h₁ hf₁
  have hl : (w₁.log (.onClose c io.error io.destroy)).io f = w₁.io f := rfl
  simp only [hl, h₁.io_eq, h.live.tcp, IoType.isSocket, if_true]
  rw [sysClose_eq (w := w₁.log _) hf₁]
  exact { h₁.toFrame with
    fds      := fun g hg => by simp [World.log, hg, h₁.fds g hg]
    interest := fun g hg => by simp [World.log, hg, h₁.interest g hg]
    timers'  := h₁.timers'
    fdsSelf  := by simp [World.log]
    iosSelf  := ⟨_, h₁.iosSelf, ⟨rfl, rfl, rfl, rfl, Queue.toList_empty, h.live.priority⟩, rfl, rfl⟩
    trace    := by simp [World.log, h₁.trace]
    events   := h₁.events
    count    := h₁.count }

-- Closing what is closed already, or was never there, does nothing.
theorem hioClose_dead (h : Fits none (w.loop.ios f)) : hioClose f w = w := by
  unfold hioClose
  cases hi : w.loop.ios f
  case some io =>
    have hd : io.Dead := by simpa [hi, Fits] using h
    rw [World.io_eq hi, if_pos hd.closed]
  case none =>
    have hio : w.io f = {} := by simp [World.io, hi]
    simp [hio, World.modifyIo_of_none hi, hioDone, hioCloseCb, hioDelCloseTimer, IoType.isSocket,
      Queue.isEmpty, Queue.empty, Queue.init]

end Rlibhv
