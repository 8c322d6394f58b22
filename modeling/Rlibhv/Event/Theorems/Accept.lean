import Rlibhv.Event.Theorems.Conn
import Rlibhv.Event.Theorems.Wf

-- Setting up the ios of new descriptors.
namespace Rlibhv

variable {f : Fd} {io io' : Hio} {w w' : World}

-- The io `io'` after `hio_get` has made it from `io`.
structure Hio.Renewed (type : IoType) (id : Nat) (io io' : Hio) : Prop where
  ready    : io'.ready = true
  closed   : io'.closed = false
  active   : io'.active = false
  accept   : io'.accept = false
  id       : io'.id = id
  type     : io'.ioType = type
  error    : io'.error = none
  events   : io'.events = {}
  alloced  : io'.allocedReadbuf = false
  small    : io'.smallReadbytesCnt = 0
  readbuf  : io'.readbuf = { len := hloopReadBufsize, head := 0, tail := 0 }
  queue    : io'.writeQueue.toList = []
  closeCb  : io'.closeCb = false
  timer    : io'.closeTimer = none
  destroy  : io'.destroy = io.destroy
  pending  : io'.pending = io.pending
  priority : io'.priority = io.priority

-- The effect of `hio_get` on a descriptor that has been opened.
structure Got (f : Fd) (type : IoType) (w w' : World) : Prop extends Outside f w w' where
  fdsSelf : w'.kernel.fds f = w.kernel.fds f
  iosSelf : ∃ io, w'.loop.ios f = some io ∧ Hio.Renewed type ((w.sId + 1) % 2 ^ 32) (w.io f) io
  maxsize : w.loop.iosMaxsize ≤ w'.loop.iosMaxsize ∧ f < w'.loop.iosMaxsize
  readbuf : w'.loop.readbuf.len = hloopReadBufsize
  next    : w'.kernel.next = w.kernel.next
  sId     : w'.sId = w.sId + 1
  trace   : w'.trace = w.trace
  events  : w'.loop.customEvents = w.loop.customEvents
  count   : w'.kernel.eventfdCount = w.kernel.eventfdCount
  ans     : w'.ans = w.ans
  timers' : w'.loop.timers = w.loop.timers

def Kind.ioType (k : Kind) (f : Fd) : IoType :=
  match k with
  | .listen | .conn   => .tcp
  | .epoll | .eventfd =>
    match f with
    | 0 => .stdin
    | 1 => .stdout
    | 2 => .stderr
    | _ => .file

theorem fillIoType_eq {d : Desc} (h : w.kernel.fds f = some d) :
    fillIoType f w = w.modifyIo f fun io => { io with ioType := d.kind.ioType f } := by
  obtain ⟨_, k⟩ := d
  simp only [fillIoType, h, Option.map_some]
  cases k <;> rfl

theorem ceil2e_ge {n : Nat} : n ≤ ceil2e n := by
  simp only [ceil2e]
  split
  case isTrue  => omega
  case isFalse =>
    have := Nat.lt_log2_self (n := n - 1)
    omega

-- The array of ios gets large enough for the descriptor.
theorem ioArrayReserve_maxsize :
    w.loop.iosMaxsize ≤ (ioArrayReserve f w).loop.iosMaxsize ∧
      f < (ioArrayReserve f w).loop.iosMaxsize := by
  simp only [ioArrayReserve]
  split
  case isFalse h => exact ⟨Nat.le_refl _, Nat.lt_of_not_le h⟩
  case isTrue h  =>
    have hc : f ≤ max (ceil2e f) ioArrayInitSize := Nat.le_trans ceil2e_ge (Nat.le_max_left ..)
    have hm : f < if max (ceil2e f) ioArrayInitSize > f then max (ceil2e f) ioArrayInitSize
        else 2 * f := by
      split
      case isTrue h  => exact h
      case isFalse h =>
        -- The new size is `f` itself and at least the initial one.
        have := Nat.le_max_right (ceil2e f) ioArrayInitSize
        simp only [ioArrayInitSize] at *
        have he := Nat.le_antisymm (Nat.le_of_not_lt h) hc
        simp only [Nat.two_mul]
        exact Nat.lt_add_of_pos_left (Nat.lt_of_lt_of_le (by decide) (he ▸ this))
    exact ⟨Nat.le_trans h (Nat.le_of_lt hm), hm⟩

-- The buffer of the loop is allocated for the first io that uses it.
theorem hioUseLoopReadbuf_eq
    (hr : w.loop.readbuf.len = 0 ∨ w.loop.readbuf.len = hloopReadBufsize) :
    ∃ rb : Hbuf, rb.len = hloopReadBufsize ∧
      hioUseLoopReadbuf f w = (w.setLoop fun l => { l with readbuf := rb }).modifyIo f fun io =>
        { io with readbuf := { io.readbuf with len := hloopReadBufsize } } := by
  simp only [hioUseLoopReadbuf, World.setLoop]
  cases hr
  case inl hr => exact ⟨⟨.replicate hloopReadBufsize 0, hloopReadBufsize⟩, rfl, by simp [hr]⟩
  case inr hr =>
    have hn : ¬w.loop.readbuf.len = 0 := by simp [hr, hloopReadBufsize]
    exact ⟨w.loop.readbuf, hr, by rw [if_neg hn, hr]⟩

theorem hioReady_got {d : Desc} (hd : w.kernel.fds f = some d) (hi : w.loop.ios f = some io)
    (h : io.ready = false) (ha : io.active = false) (hq : io.writeQueue.toList = [])
    (hr : w.loop.readbuf.len = 0 ∨ w.loop.readbuf.len = hloopReadBufsize)
    (hm : f < w.loop.iosMaxsize) :
    Got f (d.kind.ioType f) w (hioReady f w) := by
  have hn : ¬io.ready = true := by simp [h]
  simp only [hioReady, hioNextId, World.io_eq hi, if_neg hn]
  generalize hw₁ : World.modifyIo { w with sId := w.sId + 1 } f _ = w₁
  have h₁ := hw₁ ▸ Edit.modifyIo (w := { w with sId := w.sId + 1 }) hi
  obtain ⟨rb, hrb, hw₂⟩ := hioUseLoopReadbuf_eq (f := f) (w := w₁) (h₁.readbuf ▸ hr)
  rw [hw₂]
  have h₂ := Edit.modifyIo (w := w₁.setLoop fun l => { l with readbuf := rb })
    (g := fun io => { io with readbuf := { io.readbuf with len := hloopReadBufsize } }) h₁.iosSelf
  have h₃ := h₂.modify
    (g := fun io => { io with readbuf := { io.readbuf with head := 0, tail := 0 } })
  rw [fillIoType_eq (h₃.fdsSelf.trans <| h₁.fdsSelf.trans hd)]
  have h₄ := h₃.modify (g := fun io => { io with ioType := d.kind.ioType f })
  have ho : Outside f w₁ (w₁.setLoop fun l => { l with readbuf := rb }) := { Outside.refl with }
  have hm' := h₄.maxsize.trans h₁.maxsize
  refine { (h₁.toOutside.trans ho).trans h₄.toOutside with
    fdsSelf := h₄.fdsSelf.trans h₁.fdsSelf
    iosSelf := ⟨_, h₄.iosSelf, ?_⟩
    maxsize := ⟨Nat.le_of_eq hm'.symm, hm' ▸ hm⟩
    readbuf := h₄.readbuf.trans hrb
    next    := h₄.next.trans h₁.next
    sId     := h₄.sId.trans h₁.sId
    trace   := h₄.trace.trans h₁.trace
    events  := h₄.events.trans h₁.events
    count   := h₄.count.trans h₁.count
    ans     := h₄.ans.trans h₁.ans
    timers' := hw₁ ▸ rfl }
  rw [World.io_eq hi]
  exact ⟨rfl, rfl, ha, rfl, rfl, rfl, rfl, rfl, rfl, rfl, rfl, hq, rfl, rfl, rfl, rfl, rfl⟩

-- `hio_get` up to `hio_ready`.
theorem hioGet_eq : ∃ n w₁, w.loop.iosMaxsize ≤ n ∧ f < n ∧
    w₁ = (w.setLoop fun l => { l with
      ios := Function.update l.ios f (some (w.io f)), iosMaxsize := n }) ∧
    hioGet f w = if (w.io f).ready then w₁ else hioReady f w₁ := by
  obtain ⟨n, hw⟩ : ∃ n, ioArrayReserve f w = w.setLoop fun l => { l with iosMaxsize := n } := by
    simp only [ioArrayReserve]
    split
    case isTrue  => exact ⟨_, rfl⟩
    case isFalse => exact ⟨w.loop.iosMaxsize, rfl⟩
  have hm := ioArrayReserve_maxsize (f := f) (w := w)
  rw [hw] at hm
  refine ⟨n, _, hm.left, hm.right, rfl, ?_⟩
  simp only [hioGet, hw]
  cases hi : w.loop.ios f
  case none => simp [World.setLoop, World.io, hi]
  case some io =>
    have hu : Function.update w.loop.ios f (some io) = w.loop.ios := hi ▸ Function.update_eq_self _ _
    simp [World.setLoop, World.io, hi, hu]

theorem hioGet_got {d : Desc} (hd : w.kernel.fds f = some d) (h : Fits none (w.loop.ios f))
    (hr : w.loop.readbuf.len = 0 ∨ w.loop.readbuf.len = hloopReadBufsize) :
    Got f (d.kind.ioType f) w (hioGet f w) := by
  obtain ⟨n, w₁, hle, hlt, hw₁, he⟩ := hioGet_eq (f := f) (w := w)
  have hio : (w.io f).ready = false ∧ (w.io f).active = false ∧ (w.io f).writeQueue.toList = [] := by
    cases hi : w.loop.ios f
    case none    => simp [World.io, hi]
    case some io =>
      have hd : io.Dead := by simpa [hi, Fits] using h
      rw [World.io_eq hi]
      exact ⟨hd.ready, hd.active, hd.queue⟩
  have hn : ¬(w.io f).ready = true := by simp [hio.left]
  subst hw₁
  have hi : (w.setLoop fun l => { l with
      ios := Function.update l.ios f (some (w.io f)), iosMaxsize := n }).loop.ios f =
        some (w.io f) := by simp [World.setLoop]
  have ho : Outside f w (w.setLoop fun l => { l with
      ios := Function.update l.ios f (some (w.io f)), iosMaxsize := n }) :=
    { Outside.refl with ios := fun g hg => by simp [World.setLoop, hg] }
  have hg := hioReady_got (w := w.setLoop _) hd hi hio.left hio.right.left hio.right.right hr hlt
  have hs := World.io_eq hi ▸ hg.iosSelf
  rw [he, if_neg hn]
  exact { ho.trans hg.toOutside with
    fdsSelf := hg.fdsSelf
    iosSelf := hs
    maxsize := ⟨Nat.le_trans hle hg.maxsize.left, hg.maxsize.right⟩
    readbuf := hg.readbuf
    next    := hg.next
    sId     := hg.sId
    trace   := hg.trace
    events  := hg.events
    count   := hg.count
    ans     := hg.ans
    timers' := hg.timers' }

-- Adding the interest in reading to a new io.
theorem hioAdd_read_eq (h : w.loop.ios f = some io) (ha : io.active = false) (hr : io.ready = true)
    (he : io.events = {}) : ∃ w₁, Edit f w w₁ { io with cb := true, active := true } ∧
      hioAdd f .read w = (iowatcherAddEvent f .read w₁).modifyIo f fun io =>
        { io with events := io.events.union .read } := by
  have hn : ¬io.active = true := by simp [ha]
  have h₀ : Edit f w (w.setLoop fun l => { l with nios := l.nios + 1 }) io := { Edit.refl h with }
  have h₁ : Edit f w ((w.setLoop fun l => { l with nios := l.nios + 1 }).modifyIo f fun io =>
      { io with cb := true, active := true }) { io with cb := true, active := true } :=
    h₀.trans <| .modifyIo h
  have h₂ := h₁.modify (g := fun io => { io with cb := true })
  have hv : (io.events.inter .read).isEmpty = true := by simp [he, Events.inter, Events.isEmpty]
  refine ⟨_, h₂, ?_⟩
  simp only [hioAdd, World.io_eq h, if_neg hn, h₁.io_eq, if_pos hr, h₂.io_eq, if_pos hv]

theorem hioAdd_read_edit (h : w.loop.ios f = some io) (ha : io.active = false)
    (hr : io.ready = true) (he : io.events = {}) (hw : w.loop.iowatcher.isSome) :
    Edit f w (hioAdd f .read w) { io with cb := true, active := true, events := .read } := by
  obtain ⟨w₁, h₁, hadd⟩ := hioAdd_read_eq h ha hr he
  have h₂ := h₁.trans <| iowatcherAddEvent_edit .read h₁.iosSelf (h₁.iowatcher ▸ hw)
  rw [hadd]
  exact h₂.modify.of_eq (by simp [he, Events.union, Events.read])

-- A new connection is announced by `on_accept`, which starts to read.
theorem onAccept_edit {c : Serial} (hf : w.kernel.fds f = some ⟨c, .conn⟩) (h : w.loop.ios f = some io)
    (ha : io.active = false) (hr : io.ready = true) (hc : io.closed = false) (he : io.events = {})
    (hb : io.readbuf = { len := hloopReadBufsize, head := 0, tail := 0 })
    (hw : w.loop.iowatcher.isSome) :
    Edit f (w.log (.onAccept c)) (onAccept f w)
      { io with closeCb := true, readCb := some .onRecv, cb := true, active := true, events := .read } := by
  have h₁ := Edit.modifyIo (w := w.log (.onAccept c))
    (g := fun io => { io with closeCb := true, readCb := some .onRecv }) h
  have h₂ := h₁.trans <| hioAdd_read_edit h₁.iosSelf ha hr he (h₁.iowatcher ▸ hw)
  have hn : ¬io.closed = true := by simp [hc]
  have ht : ¬io.readbuf.tail > io.readbuf.head := by simp [hb]
  simp only [onAccept, World.serial, hf, Option.map_some, hioRead, h₁.io_eq, if_neg hn, h₂.io_eq,
    if_neg ht]
  exact h₂

theorem accept_birth (hf : w.kernel.fds f = none) (hw : Wf w) (hi : w.loop.iowatcher.isSome) :
    Birth f w (hioAcceptCb f <|
      (hioGet f (openFd f .conn w)).modifyIo f fun io => { io with acceptCb := true }) := by
  have hk : w.kind f = none := by simp [World.kind, hf]
  have ho : Outside f w (openFd f .conn w) :=
    { Outside.refl with fds := fun g hg => by simp [openFd, World.log, hg] }
  have hg : Got f _ (openFd f .conn w) (hioGet f (openFd f .conn w)) :=
    hioGet_got (d := ⟨w.kernel.next, .conn⟩) (by simp [openFd, World.log]) (hk ▸ hw.fits f) hw.readbuf
  obtain ⟨io, hio, hr⟩ := hg.iosSelf
  generalize hioGet f (openFd f .conn w) = w₁ at hg hio
  have h₁ := Edit.modifyIo (g := fun io => { io with acceptCb := true }) hio
  have hfds : w₁.kernel.fds f = some ⟨w.kernel.next, .conn⟩ :=
    hg.fdsSelf.trans (by simp [openFd, World.log])
  have h₂ := onAccept_edit (h₁.fdsSelf.trans hfds) h₁.iosSelf hr.active hr.ready hr.closed hr.events
    hr.readbuf (h₁.iowatcher ▸ hg.iowatcher ▸ hi)
  simp only [hioAcceptCb, h₁.io_eq, if_true]
  have hlog : Outside f (w₁.modifyIo f fun io => { io with acceptCb := true }) _ :=
    (Frame.log (e := .onAccept w.kernel.next)).toOutside
  have hold := hw.closed_io hf
  exact { ho.trans (hg.toOutside.trans (h₁.toOutside.trans (hlog.trans h₂.toOutside))) with
    fresh   := hf
    fdsSelf := h₂.fdsSelf.trans <| h₁.fdsSelf.trans hfds
    iosSelf := by
      refine ⟨_, h₂.iosSelf, ?_, hr.id, hr.error, hr.queue, hr.destroy.trans hold.left, hr.pending⟩
      exact {
        ready    := hr.ready
        closed   := hr.closed
        active   := rfl
        cb       := rfl
        alloced  := hr.alloced
        small    := hr.small
        readbuf  := hr.readbuf
        accept   := hr.accept
        tcp      := hr.type
        closeCb  := rfl
        readCb   := rfl
        priority := hr.priority.trans hold.right
        rd       := rfl }
    maxsize := h₂.maxsize ▸ hg.maxsize
    readbuf := h₂.readbuf.trans <| h₁.readbuf.trans hg.readbuf
    next    := h₂.next.trans <| h₁.next.trans hg.next
    sId     := h₂.sId.trans <| h₁.sId.trans hg.sId
    trace   := by
      have h₁' : (w₁.modifyIo f fun io => { io with acceptCb := true }).trace = w₁.trace := h₁.trace
      simp [h₂.trace, World.log, h₁', hg.trace, openFd]
    events  := h₂.events.trans <| h₁.events.trans hg.events
    count   := h₂.count.trans <| h₁.count.trans hg.count }

end Rlibhv
