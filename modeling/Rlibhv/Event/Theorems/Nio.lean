import Rlibhv.Event.Theorems.Conn

-- What reading and writing do to an open connection.
namespace Rlibhv

variable {K : Hio → Prop} {f : Fd} {c : Serial} {io io' : Hio} {w w' : World} {buf : Payload}

-- The answer of `send` and the events it leaves in the trace.
theorem sysSend_touch (h : Conn f c io w) (buf : Payload) :
    ∃ t, Touch f c io io t w (sysSend f buf w).2 ∧ Quiet w (sysSend f buf w).2 ∧
      ((∃ e, (sysSend f buf w).1 = .fail e ∧ t = []) ∨
        (∃ n ≤ buf.length, (sysSend f buf w).1 = .accepted n ∧ t = [.send c (buf.take n)] ∧
          (n = 0 → .accepted 0 ∈ w.ans.sends ∨ buf = []))) := by
  have hw : Touch f c io io [] w { w with ans := { w.ans with sends := w.ans.sends.tail } } :=
    { Touch.refl h.ios with sends := List.tail_subset _ }
  simp only [sysSend, h.fds]
  cases ha : w.ans.sends.headD (.fail .again)
  case fail e => exact ⟨[], hw, ⟨rfl, rfl⟩, .inl ⟨e, rfl, rfl⟩⟩
  case accepted n =>
    refine ⟨_, hw.trans <| .log hw.iosSelf rfl, ⟨rfl, rfl⟩, .inr ⟨min n buf.length, ?_, rfl, ?_⟩⟩
    case refine_1 => exact Nat.min_le_right ..
    refine ⟨by simp [List.take_eq_take_iff], fun hn => ?_⟩
    cases hs : w.ans.sends
    case nil => simp [hs] at ha
    case cons a as =>
      have : a = .accepted n := by simpa [hs] using ha
      cases Nat.min_eq_zero_iff.mp hn
      case inl h0 => exact .inl (by simp [this, h0])
      case inr h0 => exact .inr <| List.eq_nil_of_length_eq_zero h0

theorem hioCloseAsync_touch (h : Conn f c io w) :
    Touch f c io io [] w (hioCloseAsync f w) ∧
      (CanPost w → Posted f io.id (hioCloseAsync f w).loop.customEvents.toList) := by
  obtain ⟨e, he⟩ := Option.isSome_iff_exists.mp h.eventfds
  simp only [hioCloseAsync, hloopPostEvent, h.io_eq, h.serial_eq, he, Option.isNone_some,
    Bool.false_eq_true, if_false, sysEventfdWrite]
  by_cases hp : (w.ans.post && w.kernel.eventfdCount + 2 < 2 ^ 64) = true
  case neg =>
    simp only [hp]
    refine ⟨.refl h.ios, fun hc => absurd ?_ hp⟩
    simpa [hc.left] using hc.right
  case pos =>
    have hc : w.kernel.eventfdCount + 2 < 2 ^ 64 := by simpa using (Bool.and_eq_true_iff.mp hp).right
    have hq (q : Queue CloseEvent) :
        (if q.maxsize = 0 then Queue.init customEventQueueInitSize else q).toList = q.toList := by
      split
      case isTrue hm => simp [Queue.toList_of_maxsize hm]
      case isFalse   => rfl
    simp only [hp, if_true]
    constructor
    · exact { Touch.refl h.ios with
        posts := ⟨1, by simp [World.setLoop, hq]⟩
        count := fun _ => by simp only [World.setLoop]; omega }
    · exact fun _ => ⟨{ io := f, id := io.id, poster := some c }, by simp [World.setLoop], rfl, rfl⟩

theorem hioWriteError_touch (h : Conn f c io w) :
    Touch f c io io [] w (hioWriteError f w) ∧
      (CanPost w → Posted f io.id (hioWriteError f w).loop.customEvents.toList) := by
  simp only [hioWriteError, h.io_eq, h.live.tcp, IoType.isSocket, if_true]
  exact hioCloseAsync_touch h

theorem hioWriteError_touch' {io₁ : Hio} {w₁ : World} {t : List Event} (h : Conn f c io w)
    (h₁ : Touch f c io io₁ t w w₁) : Touch f c io io₁ t w (hioWriteError f w₁) ∧
      (CanPost w → Posted f io.id (hioWriteError f w₁).loop.customEvents.toList) := by
  obtain ⟨h₂, hp⟩ := hioWriteError_touch <| h₁.conn h
  refine ⟨List.append_nil t ▸ h₁.trans h₂, fun hc => ?_⟩
  cases h₁.canPost hc
  case inl hc => exact h₁.id_eq ▸ hp hc
  case inr hp => exact h₂.posted hp

-- What happens to the bytes `buf` that are to be written to the connection `c`.
structure Wrote (c : Serial) (buf : Payload) (io io' : Hio) (t : List Event) (lost : Payload) :
    Prop where
  recvs : ∀ e ∈ t, e.received c = []
  flow  : io.backlog ++ buf = sent c t ++ io'.backlog ++ lost
  loss  : lost ≠ [] → io'.error ≠ none ∨ (.send c [] ∈ t ∧ io'.writeQueue.toList = [])
  full  : io.Full → io'.Full

namespace Wrote

variable {t : List Event} {n : Nat}

-- The first `n` bytes have been sent and the others are queued.
theorem queued (hn : n < buf.length) (hs : sent c t = buf.take n)
    (hb : n ≠ 0 → io.writeQueue.toList = []) (ht : ∀ e ∈ t, e.received c = [])
    (hq : io'.writeQueue.toList = io.writeQueue.toList ++ [{ base := buf.drop n, offset := 0 }]) :
    Wrote c buf io io' t [] where
  recvs := ht
  loss h := absurd rfl h
  flow := by
    by_cases h0 : n = 0
    case pos => simp_all [Hio.backlog, OffsetBuf.remain]
    case neg => simp_all [Hio.backlog, OffsetBuf.remain]
  full h := by
    intro b hm
    rw [hq] at hm
    cases List.mem_append.mp hm
    case inl hm => exact h b hm
    case inr hm =>
      rw [List.mem_singleton.mp hm]
      simpa [OffsetBuf.remain] using hn

-- Nothing of what is left is queued.
theorem dropped (hs : sent c t = buf.take n) (hb : n ≠ 0 → io.writeQueue.toList = [])
    (ht : ∀ e ∈ t, e.received c = []) (hq : io'.writeQueue.toList = io.writeQueue.toList)
    (hl : buf.drop n ≠ [] → io'.error ≠ none ∨ (.send c [] ∈ t ∧ io'.writeQueue.toList = [])) :
    Wrote c buf io io' t (buf.drop n) where
  recvs := ht
  loss  := hl
  full h := by simpa [Hio.Full, hq] using h
  flow := by
    by_cases h0 : n = 0
    case pos => simp_all [Hio.backlog]
    case neg => simp_all [Hio.backlog]

end Wrote

-- The outcome of code that is to write `buf` to the connection.
def Writes (f : Fd) (c : Serial) (buf : Payload) (io : Hio) (w w' : World) : Prop :=
  ∃ io' t lost, Touch f c io io' t w w' ∧ Wrote c buf io io' t lost ∧ Losing f io.id io' w w' lost

theorem hioWriteEnqueue_writes {io₁ : Hio} {w₁ : World} {t : List Event} {n : Nat}
    (h : Conn f c io w) (h₁ : Touch f c io io₁ t w w₁) (hqt : Quiet w w₁)
    (hq : io₁.writeQueue.toList = io.writeQueue.toList)
    (hn : n ≤ buf.length) (hs : sent c t = buf.take n) (hb : n ≠ 0 → io.writeQueue.toList = [])
    (ht : ∀ e ∈ t, e.received c = []) :
    Writes f c buf io w (hioWriteEnqueue f buf n w₁).2 := by
  have hc₁ := h₁.conn h
  simp only [hioWriteEnqueue]
  by_cases hlt : n < buf.length
  case neg =>
    have hd : buf.drop n = [] := by simp; omega
    simp only [if_neg hlt]
    refine ⟨io₁, t, buf.drop n, h₁, .dropped hs hb ht hq fun h => absurd hd h, .of_eq_nil hd hqt⟩
  case pos =>
    simp only [if_pos hlt]
    split
    case isTrue =>
      have h₂ : Touch f c io₁ _ [] w₁ _ := .of_edit
        (.modifyIo (g := fun io => { io with error := some .overLimit }) h₁.iosSelf) rfl (by simp)
      have h₂ := h₁.trans h₂
      obtain ⟨h₃, hp⟩ := hioWriteError_touch' h h₂
      simp only [List.append_nil] at h₃
      refine ⟨_, t, buf.drop n, h₃, .dropped hs hb ht hq fun _ => .inl (by simp), fun _ => hp, ?_⟩
      exact fun _ => .inl (by simp)
    case isFalse =>
      have h₂ : Touch f c io₁ _ [] w₁ _ := .of_edit (.modifyIo (g := fun io =>
        let q := if io.writeQueue.maxsize = 0 then .init 4 else io.writeQueue
        { io with
          writeQueue   := q.pushBack { base := buf.drop n, offset := 0 }
          writeBufsize := io.writeBufsize + (buf.drop n).length }) h₁.iosSelf) rfl id
      have h₂ := h₁.trans h₂
      simp only [List.append_nil] at h₂
      refine ⟨_, t, [], h₂, .queued hlt hs hb ht ?_, .quiet <| hqt.trans ⟨rfl, rfl⟩⟩
      simp only [Queue.toList_pushBack, ←hq]
      split
      case isTrue hm => simp [Queue.toList_of_maxsize hm]
      case isFalse   => rfl

theorem hioWrite_writes (buf : Payload) (h : Conn f c io w) : Writes f c buf io w (hioWrite f buf w).2 := by
  have hc : ¬io.closed = true := by simp [h.live.closed]
  simp only [hioWrite, h.io_eq, if_neg hc]
  split
  case isFalse =>
    exact hioWriteEnqueue_writes h (.refl h.ios) .refl rfl (Nat.zero_le _) rfl (absurd rfl) (by simp)
  case isTrue he =>
    have he := Queue.isEmpty_iff.mp he
    obtain ⟨t, ht, hqt, hr⟩ := sysSend_touch h buf
    have h₁ := ht.conn h
    generalize sysSend f buf w = r at ht hqt hr h₁
    obtain ⟨a, w₁⟩ := r
    simp only at ht hqt hr h₁
    obtain ⟨ev, hrd, h₂⟩ := hioAdd_write_edit h₁.ios h₁.live.toReady h₁.iowatcher
    have hqt₂ := hqt.trans h₂.quiet
    have h₂ := ht.trans <| .of_edit h₂ (by simp [Hio.hard, hrd]) id
    simp only [List.append_nil] at h₂
    cases hr
    case inl hr =>
      obtain ⟨e, ha, hn⟩ := hr
      simp only [ha, hn] at ht h₂ ⊢
      split
      case isTrue =>
        exact hioWriteEnqueue_writes h h₂ hqt₂ rfl (Nat.zero_le _) rfl (absurd rfl) (by simp)
      case isFalse =>
        have h₃ := ht.trans <| .of_edit (.modifyIo (g := fun io => { io with error := some e })
          h₁.ios) rfl (by simp)
        obtain ⟨h₃, hp⟩ := hioWriteError_touch' h h₃
        refine ⟨_, _, buf.drop 0, h₃, ?_, fun _ => hp, fun _ => .inl (by simp)⟩
        exact .dropped (n := 0) (by simp) (by simp) (by simp) rfl fun _ => .inl (by simp)
    case inr hr =>
      obtain ⟨n, hn, ha, ht', h0⟩ := hr
      have hs : sent c t = buf.take n := by simp [ht', sent, Event.accepted]
      have hrv : ∀ e ∈ t, e.received c = [] := by simp [ht', Event.received]
      simp only [ha, h₁.io_eq, h₁.live.tcp, IoType.isSocket, and_true]
      split
      case isTrue hl =>
        have hd : buf.drop n = [] := by simp; omega
        exact ⟨io, t, _, ht, .dropped hs (fun _ => he) hrv rfl fun h => absurd hd h, .of_eq_nil hd hqt⟩
      case isFalse hl =>
        split
        case isTrue hz =>
          obtain ⟨h₃, hp⟩ := hioWriteError_touch' h ht
          have hne : buf ≠ [] := by
            intro hb
            simp [hb, hz] at hl
          refine ⟨io, t, _, h₃, .dropped hs (fun _ => he) hrv rfl fun _ => .inr ⟨?_, he⟩, fun _ => hp, ?_⟩
          case refine_1 => simp [ht', hz]
          case refine_2 => exact fun _ => .inr <| (h0 hz).resolve_right hne
        case isFalse =>
          exact hioWriteEnqueue_writes h h₂ hqt₂ rfl hn hs (fun _ => he) hrv

-- The outcome of handing `buf` to the read callback.
def Echoes (f : Fd) (c : Serial) (buf : Payload) (io : Hio) (w w' : World) : Prop :=
  ∃ io' t lost, Touch f c io io' (.onRecv c buf :: t) w w' ∧ Wrote c buf io io' t lost ∧
    Losing f io.id io' w w' lost

theorem onRecv_echoes (buf : Payload) (h : Conn f c io w) : Echoes f c buf io w (onRecv f buf w) := by
  simp only [onRecv, h.serial_eq]
  have h₁ : Touch f c io io [.onRecv c buf] w (w.log (.onRecv c buf)) := .log h.ios rfl
  obtain ⟨io', t, lost, h₂, hw, hp⟩ := hioWrite_writes buf <| h₁.conn h
  exact ⟨io', t, lost, h₁.trans h₂, hw, hp.of_touch h₁ ⟨rfl, rfl⟩⟩

theorem Echoes.edit {w₁ w₂ w₃ : World} (h₁ : Edit f w w₁ io) (h₂ : Echoes f c buf io w₁ w₂)
    (h₃ : ∀ io, w₂.loop.ios f = some io → io.Live → Edit f w₂ w₃ io) (hl : io.Live) :
    Echoes f c buf io w w₃ := by
  obtain ⟨io', t, lost, h, hw, hp⟩ := h₂
  have h₃ := h₃ io' h.iosSelf <| hl.of_solid <| Hio.solid_of_hard h.hard
  have h₁' : Touch f c io io [] w w₁ := .of_edit h₁ rfl id
  have h₃' : Touch f c io' io' [] w₂ w₃ := .of_edit h₃ rfl id
  exact ⟨io', t, lost, by simpa using h₁'.trans <| h.trans h₃', hw,
    hp.of_touch h₁' h₁.quiet |>.trans h₃' h₃.quiet⟩

theorem hioReadCb_echoes (h : Conn f c io w) : Echoes f c buf io w (hioReadCb f buf w) := by
  have hc : ¬io.closed = true := by simp [h.live.closed]
  obtain ⟨io', t, lost, h₁, hw, hp⟩ := onRecv_echoes buf h
  have ha : ¬(io'.allocedReadbuf = true ∧ io'.readbuf.len > readBufsizeHighWater) := by
    simp [h₁.conn h |>.live.alloced]
  simp only [hioReadCb, h.io_eq, if_neg hc, h.live.readCb, h₁.conn h |>.io_eq, if_neg ha]
  exact ⟨io', t, lost, h₁, hw, hp⟩

theorem hioReadbufAutosize_echoes {w₁ : World} (h : Conn f c io w) (h₁ : Edit f w w₁ io) :
    Echoes f c buf io w (hioReadbufAutosize f (hioReadCb f buf w₁)) := by
  have hc₁ := h.edit h₁ rfl
  refine .edit h₁ (hioReadCb_echoes hc₁) (fun _ hi hl => ?_) h.live
  exact hioReadbufAutosize_edit hi hl.toReady

-- A condition on the ios of closed connections that does not rule out failures and drained queues.
structure Closing (K : Hio → Prop) : Prop where
  error : ∀ io : Hio, io.error ≠ none → K io
  empty : ∀ io : Hio, io.writeQueue.toList = [] → K io

theorem Closing.trivial : Closing fun _ => True :=
  ⟨fun _ _ => True.intro, fun _ _ => True.intro⟩

theorem hioClose_flush (h : Conn f c io w) (hk : io.Defers ∨ K io) :
    Flush K f c io w (hioClose f w) := by
  by_cases hd : io.Defers
  case pos =>
    obtain ⟨_, hq, ht, hqt⟩ := hioClose_defer h hd
    exact .trans ht hqt (.keep (hq ▸ rfl)) (by simp) <| .refl ht.iosSelf
  case neg => exact .shut (.refl h.ios) rfl id rfl (hioClose_shut h hd) (hk.resolve_left hd)

theorem Echoes.visit {w₁ : World} (hb : buf ≠ [])
    (h₁ : Touch f c io io [.recv c buf] w w₁) (hq₁ : Quiet w w₁) (h₂ : Echoes f c buf io w₁ w') :
    Visit K f c io w w' := by
  obtain ⟨io', t, lost, h, hw, hp⟩ := h₂
  have hr : recvd c t = [] := Relay.flow_eq_nil hw.recvs
  have hr' : recvd c ([.recv c buf] ++ .onRecv c buf :: t) = buf := by
    simpa [recvd, Relay.flow, Event.received] using hr
  have hs' : sent c ([.recv c buf] ++ .onRecv c buf :: t) = sent c t := by
    simp [sent, Relay.flow, Event.accepted]
  refine ⟨io', _, lost, w', h₁.trans h, fun _ => ?_, hp.of_touch h₁ hq₁, .inl rfl⟩
  constructor
  case order =>
    exact ⟨[.recv c buf, .onRecv c buf], t, rfl, by simp [Event.accepted], hw.recvs⟩
  case flow  => rw [hr', hs', hw.flow]
  case drain => exact fun h => absurd (hr' ▸ h) hb
  case full  => exact hw.full
  case loss =>
    intro hl
    cases hw.loss hl
    case inl he => exact .inl he
    case inr he => exact .inr ⟨by simp [he.left], he.right⟩

theorem nioRead_visit (h : Conn f c io w) (hk : Closing K)
    (he : w.ans.recv = .data [] → io.Defers ∨ K io) : Visit K f c io w (nioRead f w) := by
  have hb := h.live.readbuf
  simp only [nioRead, h.io_eq, h.live.tcp, hb, if_true, Nat.sub_zero, sysRecv, h.fds,
    IoType.isSocket, and_true]
  cases hr : w.ans.recv
  case fail e =>
    simp only
    split
    case isTrue  => exact .of_flush h.ios <| .refl h.ios
    case isFalse =>
      split
      case isTrue hm =>
        -- What is in the buffer is written once more.
        obtain ⟨w₁, hw₁, _, hd⟩ := nioReadDone_eq h.ios h.live.toReady hloopReadBufsize
        obtain ⟨io', t, lost, h₁, _, hl⟩ := hd ▸ hioReadbufAutosize_echoes h hw₁
        exact ⟨io', _, lost, _, h₁, fun hn => absurd (hm ▸ hr) hn, hl, .inl rfl⟩
      case isFalse =>
        have h₁ := Edit.modifyIo (g := fun io => { io with error := some e }) h.ios
        have hc₁ := h.edit h₁ rfl
        have h₂ := hioClose_shut hc₁ (by simp [Hio.Defers])
        exact .of_flush h.ios <| .shut h₁ rfl (by simp) rfl h₂ <| hk.error _ (by simp)
  case data bs =>
    simp only
    generalize hbs : bs.take hloopReadBufsize = bs'
    have h₁ : Touch f c io io [.recv c bs'] w (w.log (.recv c bs')) := .log h.ios rfl
    split
    case isTrue hn =>
      have hbs : bs = [] := by simpa [hn, hloopReadBufsize] using hbs
      have h₂ := hioClose_flush (K := K) (h₁.conn h) (he <| hbs ▸ hr)
      refine h₂.visit h₁ (fun _ => ?_) <| .quiet ⟨rfl, rfl⟩
      exact .keep' rfl (by simp [hn, Event.accepted, Event.received])
    case isFalse hn =>
      obtain ⟨bs₀, hbs₀⟩ : ∃ bs₀, (if bs'.length < hloopReadBufsize then bs' ++ [0] else bs') =
          bs' ++ bs₀ := by
        split
        case isTrue  => exact ⟨[0], rfl⟩
        case isFalse => exact ⟨[], by simp⟩
      have hc₁ := h₁.conn h
      obtain ⟨w₂, hw₂, _, hd⟩ := nioReadDone_write_eq hc₁.ios hc₁.live.toReady bs' bs₀
      rw [hbs₀, hd]
      exact hioReadbufAutosize_echoes hc₁ hw₂ |>.visit hn h₁ ⟨rfl, rfl⟩

-- Sending the first `k` bytes of the front of the queue.
theorem Relayed.front {io' : Hio} {pbuf : OffsetBuf} {bs : List OffsetBuf} {k : Nat}
    (hq : io.writeQueue.toList = pbuf :: bs) (hk : k ≤ pbuf.remain.length)
    (hq' : io'.writeQueue.toList =
      if k = pbuf.remain.length then bs else { pbuf with offset := pbuf.offset + k } :: bs) :
    Relayed c io io' [.send c (pbuf.remain.take k)] [] := by
  have hr : OffsetBuf.remain { pbuf with offset := pbuf.offset + k } = pbuf.remain.drop k := by
    simp [OffsetBuf.remain, Nat.add_comm]
  constructor
  case order => exact ⟨[], _, rfl, by simp, by simp [Event.received]⟩
  case loss  => exact fun h => absurd rfl h
  case drain => exact fun _ h => absurd (hq.symm.trans h) (by simp)
  case flow =>
    simp only [Hio.backlog, hq, hq']
    split
    case isTrue h  => simp [h, recvd, sent, Event.received, Event.accepted]
    case isFalse h => simp [hr, recvd, sent, Event.received, Event.accepted, ←List.append_assoc]
  case full =>
    intro hf b hb
    rw [hq'] at hb
    split at hb
    case isTrue h  => exact hf b (by simp [hq, hb])
    case isFalse h =>
      cases List.mem_cons.mp hb
      case inl hb => simp [hb, hr]; omega
      case inr hb => exact hf b (by simp [hq, hb])

-- Either every close is fine or no `send` accepts an empty prefix.
def Steady (K : Hio → Prop) (io : Hio) (w : World) : Prop :=
  (∀ io, K io) ∨ (.accepted 0 ∉ w.ans.sends ∧ io.Full)

-- The outcome of sending the front of the queue.
theorem nioWriteFront_flush {pbuf : OffsetBuf} {bs : List OffsetBuf} (h : Conn f c io w)
    (hk : Closing K) (hs : Steady K io w) (hq : io.writeQueue.toList = pbuf :: bs) :
    ((nioWriteFront f pbuf w).1 = false ∧ Flush K f c io w (nioWriteFront f pbuf w).2) ∨
      ((nioWriteFront f pbuf w).1 = true ∧ ∃ io' t, Touch f c io io' t w (nioWriteFront f pbuf w).2 ∧
        Quiet w (nioWriteFront f pbuf w).2 ∧ Relayed c io io' t [] ∧ (∀ e ∈ t, e.received c = [])) := by
  obtain ⟨t, ht, hqt, hr⟩ := sysSend_touch h pbuf.remain
  have h₁ := ht.conn h
  simp only [nioWriteFront]
  generalize sysSend f pbuf.remain w = r at ht hqt hr h₁
  obtain ⟨a, w₁⟩ := r
  simp only at ht hqt hr h₁
  cases hr
  case inl hr =>
    obtain ⟨e, ha, hn⟩ := hr
    simp only [ha, hn] at ht ⊢
    refine .inl ?_
    split
    case isTrue  => exact ⟨rfl, .trans ht hqt (.keep rfl) (by simp) <| .refl h₁.ios⟩
    case isFalse =>
      have h₂ := Edit.modifyIo (g := fun io => { io with error := some e }) h₁.ios
      have hc₂ := h₁.edit h₂ rfl
      simp only [hc₂.io_eq, h.live.tcp, IoType.isSocket, if_true, true_and]
      refine .trans ht hqt (.keep rfl) (by simp) <| .shut h₂ rfl (by simp) rfl ?_ ?_
      case refine_1 => exact hioClose_shut hc₂ (by simp [Hio.Defers])
      case refine_2 => exact hk.error _ (by simp)
  case inr hr =>
    obtain ⟨k, hkl, ha, ht', h0⟩ := hr
    have hrv : ∀ e ∈ t, e.received c = [] := by simp [ht', Event.received]
    simp only [ha, h₁.io_eq, h₁.live.tcp, IoType.isSocket, and_true]
    split
    case isTrue hz =>
      -- Nothing has been accepted, which is taken as the end of the connection.
      have hr₁ : Relayed c io io t [] :=
        .keep' rfl (by simp [ht', hz, Event.accepted, Event.received])
      refine .inl ⟨rfl, .trans ht hqt hr₁ hrv <| hioClose_flush h₁ ?_⟩
      cases hs
      case inl hs => exact .inr <| hs io
      case inr hs =>
        cases h0 hz
        case inl h0 => exact absurd h0 hs.left
        case inr h0 => exact absurd h0 <| hs.right pbuf (by simp [hq])
    case isFalse =>
      have h₂ := Edit.modifyIo (g := fun io => { io with
        writeQueue   := io.writeQueue.setFront { pbuf with offset := pbuf.offset + k }
        writeBufsize := io.writeBufsize - k }) h₁.ios
      split
      case isFalse he =>
        have h₃ := ht.trans <| .of_edit h₂ rfl id
        simp only [List.append_nil] at h₃
        refine .inl ⟨rfl, _, t, _, h₃, hqt.trans h₂.quiet, ht' ▸ .front hq hkl ?_, hrv, .inl rfl⟩
        rw [if_neg he]
        exact Queue.toList_setFront hq
      case isTrue he =>
        have h₃ := h₂.modify (g := fun io => { io with writeQueue := io.writeQueue.popFront })
        have hc : (!io.closed) = true := by simp [h.live.closed]
        have h₄ := ht.trans <| .of_edit h₃ rfl id
        simp only [List.append_nil] at h₄
        refine .inr ⟨h₃.io_eq ▸ hc, _, t, h₄, hqt.trans h₃.quiet, ht' ▸ .front hq hkl ?_, hrv⟩
        rw [if_pos he]
        simp [Queue.toList_setFront hq]

theorem Steady.touch {io' : Hio} {t : List Event} (h : Steady K io w) (ht : Touch f c io io' t w w')
    (hr : Relayed c io io' t []) : Steady K io' w' := by
  cases h
  case inl h => exact .inl h
  case inr h => exact .inr ⟨fun hm => h.left <| ht.sends hm, hr.full h.right⟩

theorem nioWriteLoop_flush {n : Nat} (h : Conn f c io w) (hk : Closing K) (hs : Steady K io w) :
    Flush K f c io w (nioWriteLoop n f w) := by
  induction n generalizing io w
  case zero => exact .refl h.ios
  case succ n hi =>
    rw [nioWriteLoop, h.io_eq, Queue.front?_eq]
    cases hq : io.writeQueue.toList
    case nil =>
      simp only [List.head?_nil]
      split
      case isFalse => exact .refl h.ios
      case isTrue  =>
        have h₁ := Edit.modifyIo (g := fun io => { io with close := false }) h.ios
        have hc₁ := h.edit h₁ rfl
        have h₂ := hioClose_shut hc₁ (by simp [Hio.Defers, hq])
        exact .shut h₁ rfl id rfl h₂ <| hk.empty _ hq
    case cons pbuf bs =>
      simp only [List.head?_cons]
      have hf := nioWriteFront_flush h hk hs hq
      generalize nioWriteFront f pbuf w = r at hf
      obtain ⟨again, w₁⟩ := r
      simp only at hf
      cases hf
      case inl hf =>
        obtain ⟨ha, hf⟩ := hf
        rw [ha]
        exact hf
      case inr hf =>
        obtain ⟨ha, io', t, ht, hqt, hr, hrv⟩ := hf
        rw [ha]
        exact .trans ht hqt hr hrv <| hi (ht.conn h) (hs.touch ht hr)

theorem nioWrite_flush (h : Conn f c io w) (hk : Closing K) (hs : Steady K io w) :
    Flush K f c io w (nioWrite f w) :=
  nioWriteLoop_flush h hk hs

-- The second half of `hio_handle_events`.
theorem hioHandleEvents_flush (h : Conn f c io w) (hk : Closing K) (hs : Steady K io w) :
    Flush K f c io w (if (w.io f).events.wr && (w.io f).revents.wr then
      nioWrite f (if (w.io f).writeQueue.isEmpty then hioDel f .write w else w) else w) := by
  split
  case isFalse => exact .refl h.ios
  case isTrue  =>
    split
    case isFalse => exact nioWrite_flush h hk hs
    case isTrue  =>
      obtain ⟨ev, hrd, h₁⟩ := hioDel_write_edit h.ios h.live.toReady h.live.rd
      have hqt := h₁.quiet
      have h₁ : Touch f c io _ [] w _ := .of_edit h₁ (by simp [Hio.hard, hrd]) id
      have hr : Relayed c io { io with events := ev } [] [] := .keep rfl
      exact .trans h₁ hqt hr (by simp) <| nioWrite_flush (h₁.conn h) hk (hs.touch h₁ hr)

-- What dispatching does to the io of a connection that has been closed.
theorem Shut.modify {g : Hio → Hio} (h : Shut f c io w w') (hg : ∀ io, (g io).core = io.core)
    (hp : ∀ io, (g io).pending = io.pending) : Shut f c io w (w'.modifyIo f g) := by
  obtain ⟨io', hi, hd, hp', hd'⟩ := h.iosSelf
  exact { h.toFrame.trans .modifyIo with
    timers' := h.timers'
    fdsSelf := h.fdsSelf
    iosSelf := ⟨g io', World.ios_modifyIo_self hi, hd.of_core <| hg io', (hp io').trans hp',
      (congrArg Hio.destroy <| hg io').trans hd'⟩
    trace   := h.trace
    events  := h.events
    count   := h.count }

theorem Visit.modify {g : Hio → Hio} (h : Visit K f c io w w') (hg : ∀ io, (g io).core = io.core)
    (hp : ∀ io, (g io).pending = io.pending) : Visit K f c io w (w'.modifyIo f g) := by
  obtain ⟨io', t, lost, w₁, ht, hr, hl, hs⟩ := h
  cases hs
  case inr hs => exact ⟨io', t, lost, w₁, ht, hr, hl, .inr ⟨hs.left.modify hg hp, hs.right⟩⟩
  case inl hs =>
    have hq : (g io').writeQueue.toList = io'.writeQueue.toList :=
      congrArg (·.writeQueue.toList) (hg io')
    have he (h : io'.error ≠ none) : (g io').error ≠ none := Hio.error_of_core (hg io') ▸ h
    have hh := Hio.hard_of_core (hg io') (hp io')
    exact hs ▸ Flush.visit ht hr hl (.edit (.modifyIo ht.iosSelf) hh he hq)

theorem hioHandleEvents_visit (h : Conn f c io w) (hk : Closing K) (hs : Steady K io w)
    (hm : (∀ io, K io) ∨ w.ans.recv ≠ .fail .msgsize)
    (he : w.ans.recv = .data [] → io.revents.rd = true → io.Defers ∨ K io) :
    Visit K f c io w (hioHandleEvents f w) := by
  have ha : ¬io.accept = true := by simp [h.live.accept]
  have h₁ : Visit K f c io w
      (if (w.io f).events.rd && (w.io f).revents.rd then
        if (w.io f).accept then nioAccept 3 f w else nioRead f w else w) := by
    simp only [h.io_eq, if_neg ha]
    split
    case isTrue hr => exact nioRead_visit h hk fun hd => he hd (Bool.and_eq_true_iff.mp hr).right
    case isFalse   => exact .of_flush h.ios <| .refl h.ios
  simp only [hioHandleEvents]
  generalize (if (w.io f).events.rd && (w.io f).revents.rd then
    if (w.io f).accept then nioAccept 3 f w else nioRead f w else w) = w₁ at h₁
  refine Visit.modify ?_ (fun _ => rfl) (fun _ => rfl)
  obtain ⟨io₁, t, lost, w₁', ht, hr, hl, hf⟩ := h₁
  cases hf
  case inl hf =>
    rw [hf]
    refine Flush.visit ht hr hl <| hioHandleEvents_flush (ht.conn h) hk ?_
    cases hs
    case inl hs => exact .inl hs
    case inr hs =>
      cases hm
      case inl hm => exact .inl hm
      case inr hm => exact .inr ⟨fun hz => hs.left <| ht.sends hz, (hr hm).full hs.right⟩
  case inr hf =>
    -- A closed io has no events left, so it is not written to.
    obtain ⟨_, hi, hd, _⟩ := hf.left.iosSelf
    simp only [World.io_eq hi, hd.events, Bool.false_and, Bool.false_eq_true, if_false]
    exact ⟨io₁, t, lost, w₁', ht, hr, hl, .inr hf⟩

end Rlibhv
