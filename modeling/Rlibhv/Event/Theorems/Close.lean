import Rlibhv.Event.Theorems.Poll

-- Which connections are closed before all that has been received on them is sent.
namespace Rlibhv

variable {K : Hio → Prop} {f : Fd} {c d : Serial} {io io' : Hio} {t : List Event} {lost : Payload}
  {e : Pending} {w w₁ w' : World} {ev : CloseEvent}

-- The connection has failed or there is nothing left to send on it.
def Hio.Spent (io : Hio) : Prop :=
  io.error ≠ none ∨ io.writeQueue.toList = []

theorem Closing.spent : Closing Hio.Spent :=
  ⟨fun _ => .inl, fun _ => .inr⟩

-- No connection has lost bytes without an error, and none is going to.
structure Exact (w : World) : Prop where
  full   : ∀ {f c io}, Conn f c io w → io.Full
  flow   : ∀ {f c io}, Conn f c io w → io.error = none → ¬Lossy c io w
  posted : ∀ {f c io}, Conn f c io w → Posted f io.id w.loop.customEvents.toList → io.error ≠ none
  closed : ∀ c, .onClose c none false ∈ w.trace → sent c w.trace = recvd c w.trace

-- What is assumed of the answers when a connection is called.
def Sending (_ : Fd) (_ : Hio) (w : World) : Prop :=
  w.ans.recv ≠ .fail .msgsize ∧ .accepted 0 ∉ w.ans.sends

-- `on_close` is not called while the connection is open.
theorem Chronicle.not_closed {err : Option Errno} {b : Bool} (h : Chronicle w) (hc : Conn f c io w) :
    .onClose c err b ∉ w.trace := by
  intro hm
  have hl : life c w.trace = some .accepted := h.alive hc.fds
  obtain ⟨ds, ht, hd⟩ := life_history hl
  have hm : .onClose c err b ∈ own c w.trace := by simpa [own, Event.subject] using hm
  rw [ht] at hm
  simp only [List.cons_append, List.nil_append, List.mem_cons, reduceCtorEq, false_or] at hm
  exact hd _ hm

namespace Exact

-- Silent changes during which no connection appears, nothing is posted and `on_close` is not called.
theorem silent (h : Exact w) (ht : w'.trace = w.trace ++ t) (hs : ∀ e ∈ t, e.Silent)
    (hn : ∀ c, .onClose c none false ∉ t)
    (hev : w'.loop.customEvents.toList ⊆ w.loop.customEvents.toList)
    (hc : ∀ {f c io'}, Conn f c io' w' → ∃ io, Conn f c io w ∧ io'.writeQueue = io.writeQueue ∧
      io'.error = io.error ∧ io'.id = io.id) : Exact w' := by
  constructor
  case full =>
    intro g d io' hc'
    obtain ⟨io, hc, hq, _⟩ := hc hc'
    have := h.full hc
    rwa [Hio.Full, ←hq] at this
  case flow =>
    intro g d io' hc' he hl
    obtain ⟨io, hc, hq, he', _⟩ := hc hc'
    exact h.flow hc (he' ▸ he) <| hl.of_silent ht hs <| by simp [Hio.backlog, hq]
  case posted =>
    intro g d io' hc' hp
    obtain ⟨io, hc, _, he, hid⟩ := hc hc'
    obtain ⟨ev, hm, hio⟩ := hp
    exact he ▸ h.posted hc ⟨ev, hev hm, hid ▸ hio⟩
  case closed =>
    intro c hm
    rw [ht] at hm ⊢
    rw [recvd_append_of fun e he => (hs e he c).left, sent_append_of fun e he => (hs e he c).right]
    exact h.closed c <| (List.mem_append.mp hm).resolve_right <| hn c

theorem touch (h : Exact w) (hw : Wf w) (hch : Chronicle w) (hc : Conn f c io w)
    (ht : Touch f c io io' t w w') (hr : Relayed c io io' t lost)
    (hl : lost ≠ [] ∨ ¬Quiet w w' → io'.error ≠ none) : Exact w' := by
  constructor
  case full =>
    intro g d io₂ hc₂
    cases hc₂.of_touch ht hc
    case inl hc₂ => exact h.full hc₂.right
    case inr hc₂ =>
      obtain ⟨rfl, rfl, rfl⟩ := hc₂
      exact hr.full <| h.full hc
  case flow =>
    intro g d io₂ hc₂ he hl₂
    cases hc₂.of_touch ht hc
    case inl hc₂ =>
      have hd := hc₂.right.serial_ne hw hc hc₂.left
      exact h.flow hc₂.right he <| hl₂.of_data ht.trace ht.data hd
    case inr hc₂ =>
      obtain ⟨rfl, rfl, rfl⟩ := hc₂
      have he₀ : io.error = none := by_contra fun hn => ht.error hn he
      have hlost : lost = [] := by_contra fun hn => hl (.inl hn) he
      subst hlost
      exact hr.lossless ht.trace (h.flow hc he₀) hl₂
  case posted =>
    intro g d io₂ hc₂ hp
    cases hc₂.of_touch ht hc
    case inl hc₂ =>
      refine h.posted hc₂.right ?_
      obtain ⟨ev, hm, hio, hid⟩ := hp
      obtain ⟨n, hn, _⟩ := ht.posts
      rw [hn] at hm
      cases List.mem_append.mp hm
      case inl hm => exact ⟨ev, hm, hio, hid⟩
      case inr hm => exact absurd (List.eq_of_mem_replicate hm ▸ hio).symm hc₂.left
    case inr hc₂ =>
      obtain ⟨rfl, rfl, rfl⟩ := hc₂
      by_cases hq : Quiet w w'
      case neg => exact hl <| .inr hq
      case pos =>
        rw [hq.events, ht.id_eq] at hp
        exact ht.error <| h.posted hc hp
  case closed =>
    intro d hm
    rw [ht.trace] at hm
    cases List.mem_append.mp hm
    case inr hm => exact (ht.data _ hm).elim
    case inl hm =>
      have hd : d ≠ c := by
        rintro rfl
        exact hch.not_closed hc hm
      rw [ht.trace, recvd_append_of fun e he => ((ht.data e he).elsewhere hd).left,
        sent_append_of fun e he => ((ht.data e he).elsewhere hd).right]
      exact h.closed d hm

theorem shut (h : Exact w) (hc : Conn f c io w) (hs : Shut f c io w w') (hk : io.Spent) : Exact w' := by
  constructor
  case full   => exact fun hc' => h.full (hc'.of_shut hs).right
  case flow   =>
    exact fun hc' he hl => h.flow (hc'.of_shut hs).right he <| hl.of_silent hs.trace silent_closing rfl
  case posted => exact fun hc' hp => h.posted (hc'.of_shut hs).right <| hs.events ▸ hp
  case closed =>
    intro d hm
    rw [hs.trace] at hm ⊢
    rw [recvd_append_of fun e he => (silent_closing e he d).left,
      sent_append_of fun e he => (silent_closing e he d).right]
    cases List.mem_append.mp hm
    case inl hm => exact h.closed d hm
    case inr hm =>
      obtain ⟨rfl, he, _⟩ : d = c ∧ none = io.error ∧ false = io.destroy := by simpa using hm
      have hq : io.writeQueue.toList = [] := hk.resolve_left <| absurd he.symm
      have hl := h.flow hc he.symm
      simpa [Lossy, Hio.backlog, hq, eq_comm] using hl

theorem flush (h : Exact w) (hw : Wf w) (hch : Chronicle w) (hc : Conn f c io w)
    (hf : Flush Hio.Spent f c io w w') : Exact w' := by
  obtain ⟨_, _, _, ht, hq, hr, _, hs⟩ := hf
  have h₁ := h.touch hw hch hc ht hr fun hn => hn.elim (absurd rfl) (absurd hq)
  cases hs
  case inl hs => exact hs ▸ h₁
  case inr hs => exact h₁.shut (ht.conn hc) hs.left hs.right

theorem visit (h : Exact w) (hw : Wf w) (hch : Chronicle w) (hc : Conn f c io w)
    (hr : Sending f io w) (hv : Visit Hio.Spent f c io w w') : Exact w' := by
  obtain ⟨_, _, _, _, ht, hrl, hl, hs⟩ := hv
  have h₁ := h.touch hw hch hc ht (hrl hr.left) fun hn => (hl.reason hn).resolve_right hr.right
  cases hs
  case inl hs => exact hs ▸ h₁
  case inr hs => exact h₁.shut (ht.conn hc) hs.left hs.right

-- The id of a new connection is new, so no close has been posted for it.
theorem birth (h : Exact w) (hch : Chronicle w) (ho : Owned w) (hb : Birth f w w')
    (hi : w'.sId < 2 ^ 32) : Exact w' := by
  constructor
  case full =>
    intro g d io₂ hc₂
    cases hc₂.of_birth hb
    case inl hc₂ => exact h.full hc₂.right
    case inr hc₂ => simp [Hio.Full, hc₂.right.right.right.right]
  case flow =>
    intro g d io₂ hc₂ he hl
    cases hc₂.of_birth hb
    case inl hc₂ => exact h.flow hc₂.right he <| hl.of_silent hb.trace silent_accepting rfl
    case inr hn =>
      obtain ⟨rfl, rfl, _⟩ := hn
      exact hb.lossless hch hc₂ hl
  case posted =>
    intro g d io₂ hc₂ hp
    rw [hb.events] at hp
    cases hc₂.of_birth hb
    case inl hc₂ => exact h.posted hc₂.right hp
    case inr hc₂ =>
      obtain ⟨ev, hm, _, hid⟩ := hp
      have hle := ho.events ev hm
      rw [hid, hc₂.right.right.left, Nat.mod_eq_of_lt (hb.sId ▸ hi)] at hle
      exact absurd hle <| Nat.not_succ_le_self _
  case closed =>
    intro d hm
    rw [hb.trace] at hm ⊢
    rw [recvd_append_of fun e he => (silent_accepting e he d).left,
      sent_append_of fun e he => (silent_accepting e he d).right]
    exact h.closed d <| by simpa using hm

theorem aside (h : Exact w) (ha : Aside f w w') : Exact w' :=
  h.silent (t := []) (by simpa using ha.trace) (by simp) (by simp) (by simp [ha.events]) fun hc =>
    ⟨_, (hc.of_aside ha).right, rfl, rfl, rfl⟩

theorem rest (h : Exact w) (hr : Rest w w') : Exact w' := by
  refine h.silent (t := []) (by simpa using hr.trace) (by simp) (by simp) (by simp [hr.events]) fun hc => ?_
  obtain ⟨io, hc, he⟩ := hc.of_rest hr
  exact ⟨io, hc, (congrArg Hio.writeQueue he :), (congrArg Hio.error he :), (congrArg Hio.id he :)⟩

theorem pop (h : Exact w) (hp : Pop ev w w') : Exact w' := by
  have hev : w'.loop.customEvents.toList ⊆ w.loop.customEvents.toList := by
    rw [hp.loop, Queue.toList_popFront]
    exact List.tail_subset _
  have hc {f c io'} (hc : Conn f c io' w') : ∃ io, Conn f c io w ∧ io'.writeQueue = io.writeQueue ∧
      io'.error = io.error ∧ io'.id = io.id := ⟨_, hc.of_pop hp, rfl, rfl, rfl⟩
  cases hp.trace
  case inl ht => exact h.silent (t := []) (by simpa using ht) (by simp) (by simp) hev hc
  case inr ht => exact h.silent ht.right silent_closeEvent (by simp) hev hc

theorem effect (h : Exact w) (hs : Sane w) (ho : Owned w) (he : Effect Hio.Spent Sending w w')
    (hi : w'.sId < 2 ^ 32) : Exact w' := by
  cases he
  case aside he => exact h.aside he
  case rest he  => exact h.rest he
  case visit hr hc hv => exact h.visit hs.wf hs.chronicle hc hr hv
  case move he =>
    cases he
    case flush hc hf  => exact h.flush hs.wf hs.chronicle hc hf
    case birth hb     => exact h.birth hs.chronicle ho hb hi
    case aside _ _ he => exact h.aside he
    case event hp hc  =>
      cases hc.effect
      case inl he => exact he ▸ h.pop hp
      case inr he =>
        obtain ⟨_, _, hc, hf⟩ := he
        exact (h.pop hp).flush (hs.wf.pop hp) (hs.chronicle.pop hp) hc hf

end Exact

-- The close of the connection at `f` has been deferred, and end of file is read once more.
def Rereads (f : Fd) (w : World) : Prop :=
  w.kind f = some .conn ∧ (w.io f).pending = true ∧ (w.io f).revents.rd = true ∧
    (w.io f).close = true ∧ (w.io f).error = none ∧ (w.io f).writeQueue.toList ≠ [] ∧
    w.ans.recv = .data []

instance : Decidable (Rereads f w) :=
  inferInstanceAs (Decidable (_ ∧ _))

theorem Exact.dispatch (h : Exact w) (hs : Sane w) (ho : Owned w)
    (ht : w.loop.iowatcher.isSome ∧ w.loop.eventfds.isSome) (hm : w.ans.recv ≠ .fail .msgsize)
    (hz : .accepted 0 ∉ w.ans.sends) (hr : ∀ f, e = .io f → ¬Rereads f w) (hi₀ : w.sId < 2 ^ 32)
    (hi : (dispatch e w).sId < 2 ^ 32) : Exact (dispatch e w) := by
  have hd : Dispatched Hio.Spent e w (Rlibhv.dispatch e w) := by
    refine dispatch_dispatched hs.wf .spent ht fun f c io he hp hc =>
      ⟨.inr ⟨hz, h.full hc⟩, .inr hm, fun hd hrd => ?_⟩
    by_contra hn
    obtain ⟨hnd, hns⟩ := not_or.mp hn
    obtain ⟨hne, hq⟩ := not_or.mp hns
    have he' : io.error = none := not_not.mp hne
    have hcl : io.close = true := by
      by_contra hcl
      exact hnd ⟨hq, he', by simpa using hcl, hs.wf.destroy hc.ios⟩
    refine hr f he ⟨hc.kind_eq, hp, ?_⟩
    rw [hc.io_eq]
    exact ⟨hrd, hcl, he', hq, hd⟩
  have he : Effects Hio.Spent Sending w (Rlibhv.dispatch e w) := by
    refine hd.effects (I := fun w => Sane w ∧ Owned w ∧ Exact w ∧ w.sId < 2 ^ 32) ⟨hs, ho, h, hi₀⟩
      (fun _ h => h.left.wf) ?_ ?_ fun _ _ _ _ _ _ => ⟨hm, hz⟩
    case refine_1 =>
      rintro w₁ w₂ ⟨hs, ho, h, hi⟩ he hid
      have hi' : w₂.sId < 2 ^ 32 := hid ▸ hi
      exact ⟨hs.effect he, ho.effect hs.wf he hi', h.effect hs ho he hi', hi'⟩
    case refine_2 =>
      rintro w₁ ev c io ⟨_, _, h, _⟩ hev hc hid
      exact .inr <| .inl <| h.posted hc ⟨ev, hev, rfl, hid.symm⟩
  refine (he.invariant (I := fun w => Sane w ∧ (w.sId < 2 ^ 32 → Owned w ∧ Exact w)) ?_
    ⟨hs, fun _ => ⟨ho, h⟩⟩).right hi |>.right
  rintro w₁ w₂ ⟨hs, h⟩ he
  refine ⟨hs.effect he, fun hi => ?_⟩
  obtain ⟨ho, h⟩ := h <| Nat.lt_of_le_of_lt he.outline.sId hi
  exact ⟨ho.effect hs.wf he hi, h.effect hs ho he hi⟩

-- Nothing is heard any more of a descriptor that has been closed.
theorem own_append_of_gone {t' : List Event} {l : Life} (h : life d t = some .gone)
    (hl : life d (t ++ t') = some l) : life d (t ++ t') = some .gone ∧ own d t' = [] := by
  induction t' using List.reverseRecOn generalizing l
  case nil => simpa [own] using h
  case append_singleton t' e hi =>
    rw [←List.append_assoc, life_concat] at hl
    obtain ⟨l₁, h₁, hl⟩ := Option.bind_eq_some_iff.mp hl
    obtain ⟨hg, ho⟩ := hi h₁
    cases hg.symm.trans h₁
    rw [←List.append_assoc, life_concat, hg]
    simp only [Life.step] at hl
    split at hl
    case isTrue  => cases hl
    case isFalse hf =>
      split at hl
      case isTrue  => cases e <;> cases hl
      case isFalse hs =>
        refine ⟨by simp [Life.step, hf, hs], ?_⟩
        simpa [own, hs] using ho

theorem nioRead_eof (h : Conn f c io w) (hr : w.ans.recv = .data []) :
    nioRead f w = hioClose f (w.log (.recv c [])) := by
  simp [nioRead, h.io_eq, h.live.tcp, h.live.readbuf, sysRecv, h.fds, IoType.isSocket, hr]

-- The connection is closed although there are bytes in the queue.
theorem hioHandleEvents_eof (h : Conn f c io w) (hr : w.ans.recv = .data [])
    (hrd : io.revents.rd = true) (hd : ¬io.Defers) :
    Shut f c io (w.log (.recv c [])) (hioHandleEvents f w) := by
  have hc₁ : Conn f c io (w.log (.recv c [])) := { h with }
  have hs := hioClose_shut hc₁ hd
  have ha : ¬io.accept = true := by simp [h.live.accept]
  obtain ⟨io', hi, hdead, _⟩ := hs.iosSelf
  simp only [hioHandleEvents, h.io_eq, h.live.rd, hrd, if_neg ha, Bool.and_self, if_true, nioRead_eof h hr,
    World.io_eq hi, hdead.events, Bool.false_and, Bool.false_eq_true, if_false]
  exact hs.modify (fun _ => rfl) fun _ => rfl

theorem dispatch_rereads (h : Exact w) (hs : Sane w)
    (ht : w.loop.iowatcher.isSome ∧ w.loop.eventfds.isSome) (hr : Rereads f w) :
    ∃ c, (dispatch (.io f) w).trace = w.trace ++ [.recv c [], .onClose c none false, .closed c] ∧
      sent c w.trace ≠ recvd c w.trace ∧ life c w.trace = some .accepted := by
  obtain ⟨hk, hp, hrd, hcl, he, hq, hrv⟩ := hr
  obtain ⟨d, hd, hdk⟩ := Option.map_eq_some_iff.mp hk
  obtain ⟨c, _⟩ := d
  cases hdk
  obtain ⟨io, hc⟩ := hs.wf.conn hd
  rw [hc.io_eq] at hp hrd hcl he hq
  have hcd := callIo_called (K := fun _ => True) (f := f) hs.wf .trivial ht fun _ _ _ =>
    .of_forall fun _ => True.intro
  have hsh := hioHandleEvents_eof hc hrv hrd fun hd => by simp [hd.right.right.left] at hcl
  refine ⟨c, ?_, fun hn => ?_, hs.chronicle.alive hc.fds⟩
  case refine_1 =>
    rw [dispatch, dispatchIo_eq (hc.io_eq ▸ hp) (hcd.wf hs.wf), callIo_eq hc.ios hc.live.toReady]
    have := hsh.trace
    rw [he, hs.wf.destroy hc.ios] at this
    simpa [World.log, World.modifyIo, World.setLoop] using this
  case refine_2 =>
    have hfl : recvd c w.trace = sent c w.trace ++ io.backlog := by
      simpa [Lossy] using h.flow hc he
    have hb : io.backlog = [] := by simpa [hn] using hfl
    obtain ⟨b, hb'⟩ := List.exists_mem_of_ne_nil _ hq
    exact h.full hc b hb' <| List.flatMap_eq_nil_iff.mp hb b hb'

end Rlibhv
