import Rlibhv.Event.Theorems.Teardown

-- What is received on a connection is sent on it.
namespace Rlibhv

variable {K : Hio → Prop} {R : Fd → Hio → World → Prop} {f : Fd} {c d : Serial} {io io' : Hio}
  {t : List Event} {lost : Payload} {w w₁ w' : World} {ev : CloseEvent}

-- The event is neither `recv` nor `send`.
def Event.Silent (e : Event) : Prop :=
  ∀ c, e.received c = [] ∧ e.accepted c = []

theorem silent_accepting : ∀ e ∈ [Event.opened c .conn, .onAccept c], e.Silent := by
  simp [Event.Silent, Event.received, Event.accepted]

theorem silent_closing {err : Option Errno} {b : Bool} :
    ∀ e ∈ [Event.onClose c err b, .closed c], e.Silent := by
  simp [Event.Silent, Event.received, Event.accepted]

theorem silent_closeEvent {p q : Option Serial} : ∀ e ∈ [Event.closeEvent p q], e.Silent := by
  simp [Event.Silent, Event.received, Event.accepted]

theorem Event.Data.elsewhere {e : Event} (h : e.Data c) (hd : d ≠ c) :
    e.received d = [] ∧ e.accepted d = [] := by
  cases e
  case recv | send | onRecv =>
    have h : _ = c := h
    subst h
    simp [Event.received, Event.accepted, Ne.symm hd]
  all_goals cases h

theorem Event.silent_of_subject_ne {e : Event} (h : e.subject ≠ some c) :
    e.received c = [] ∧ e.accepted c = [] := by
  cases e
  case recv | send =>
    have hne : _ ≠ c := fun he => h <| congrArg some he
    simp [Event.received, Event.accepted, hne]
  all_goals exact ⟨rfl, rfl⟩

theorem recvd_append_of (h : ∀ e ∈ t, e.received c = []) (t₀ : List Event) :
    recvd c (t₀ ++ t) = recvd c t₀ := by
  rw [recvd_append, recvd, recvd, Relay.flow_eq_nil h, List.append_nil]

theorem sent_append_of (h : ∀ e ∈ t, e.accepted c = []) (t₀ : List Event) :
    sent c (t₀ ++ t) = sent c t₀ := by
  rw [sent_append, sent, sent, Relay.flow_eq_nil h, List.append_nil]

-- Bytes of the connection have got lost.
def Lossy (c : Serial) (io : Hio) (w : World) : Prop :=
  recvd c w.trace ≠ sent c w.trace ++ io.backlog

-- All bytes that have been sent on a connection had been received on it before, in the same order.
-- There is a reason for each loss.
structure Sound (w : World) : Prop where
  faithful : ∀ c, Relay.Faithful (Event.received c) (Event.accepted c) w.trace
  flow     : ∀ {f c io}, Conn f c io w → sent c w.trace ++ io.backlog <+: recvd c w.trace
  loss     : ∀ {f c io}, Conn f c io w → Lossy c io w →
    io.error ≠ none ∨ (.send c [] ∈ w.trace ∧ io.writeQueue.toList = [])

-- A connection that has lost bytes is going to be closed.
def Announced (w : World) : Prop :=
  ∀ f c io, Conn f c io w → Lossy c io w → Posted f io.id w.loop.customEvents.toList

-- Silent changes that leave the other connections alone.
theorem Sound.silent (h : Sound w) (ht : w'.trace = w.trace ++ t) (hs : ∀ e ∈ t, e.Silent)
    (hc : ∀ {f c io'}, Conn f c io' w' → (∃ io, Conn f c io w ∧ io'.backlog = io.backlog ∧
      io'.error = io.error ∧ io'.writeQueue.toList = io.writeQueue.toList) ∨
      (recvd c w.trace = [] ∧ sent c w.trace = [] ∧ io'.backlog = [])) : Sound w' := by
  have hr c : recvd c w'.trace = recvd c w.trace := by
    rw [ht, recvd_append_of fun e he => (hs e he c).left]
  have hse c : sent c w'.trace = sent c w.trace := by
    rw [ht, sent_append_of fun e he => (hs e he c).right]
  constructor
  case faithful =>
    intro c
    rw [ht]
    exact (h.faithful c).append_in fun e he => (hs e he c).right
  case flow =>
    intro f c io' hc'
    rw [hr, hse]
    cases hc hc'
    case inl hc' =>
      obtain ⟨io, hc', hb, _⟩ := hc'
      exact hb ▸ h.flow hc'
    case inr hn => simp [hn.left, hn.right]
  case loss =>
    intro f c io' hc' hl
    rw [Lossy, hr, hse] at hl
    cases hc hc'
    case inl hc' =>
      obtain ⟨io, hc', hb, he, hq⟩ := hc'
      rw [hb] at hl
      rw [he, hq, ht]
      exact (h.loss hc' hl).imp_right fun hs => ⟨List.mem_append_left _ hs.left, hs.right⟩
    case inr hn => exact absurd (by simp [hn.left, hn.right]) hl

-- Connections at different descriptors are different.
theorem Conn.serial_ne {g : Fd} {io₂ : Hio} (h : Conn g d io₂ w) (hw : Wf w) (hc : Conn f c io w)
    (hg : g ≠ f) : d ≠ c :=
  fun he => hg <| hw.unique h.fds hc.fds he

-- Nothing has been heard of a connection that has not been accepted yet.
theorem Chronicle.unheard (h : Chronicle w) :
    recvd w.kernel.next w.trace = [] ∧ sent w.kernel.next w.trace = [] := by
  have hn : own w.kernel.next w.trace = [] := life_history (h.unborn (Nat.le_refl _))
  have hsub (e : Event) (he : e ∈ w.trace) :
      e.received w.kernel.next = [] ∧ e.accepted w.kernel.next = [] := by
    have hne : e.subject ≠ some w.kernel.next := by
      intro hs
      have : e ∈ own w.kernel.next w.trace := by simpa [own, hs] using he
      simp [hn] at this
    exact Event.silent_of_subject_ne hne
  exact ⟨Relay.flow_eq_nil fun e he => (hsub e he).left, Relay.flow_eq_nil fun e he => (hsub e he).right⟩

-- The bytes after working on a connection. Once bytes have been lost, no more are received.
theorem Relayed.recvd_eq {l : Payload} (hr : Relayed c io io' t lost)
    (hf : recvd c w.trace = sent c w.trace ++ io.backlog ++ l) (ht : w'.trace = w.trace ++ t)
    (hl : l ≠ [] → (∀ e ∈ t, e.received c = []) ∧ lost = []) :
    recvd c w'.trace = sent c w'.trace ++ io'.backlog ++ (l ++ lost) := by
  rw [ht, recvd_append, sent_append]
  by_cases hn : l = []
  case pos =>
    subst hn
    calc recvd c w.trace ++ recvd c t
        = sent c w.trace ++ (io.backlog ++ recvd c t) := by simp [hf]
      _ = sent c w.trace ++ sent c t ++ io'.backlog ++ ([] ++ lost) := by simp [hr.flow]
  case neg =>
    obtain ⟨ht, rfl⟩ := hl hn
    have hz : recvd c t = [] := Relay.flow_eq_nil ht
    have hb : io.backlog = sent c t ++ io'.backlog := by simpa [hz] using hr.flow
    simp [hz, hf, hb]

namespace Sound

theorem touch (h : Sound w) (hw : Wf w) (hc : Conn f c io w) (ht : Touch f c io io' t w w')
    (hr : Relayed c io io' t lost)
    (hl : Lossy c io w → (∀ e ∈ t, e.received c = []) ∧ lost = []) : Sound w' := by
  obtain ⟨l, hf⟩ := h.flow hc
  have hf := hf.symm
  have hll : l ≠ [] → Lossy c io w := fun hn he => hn <| by simpa using hf.symm.trans he
  have hf' := hr.recvd_eq hf ht.trace fun hn => hl <| hll hn
  constructor
  case faithful =>
    intro d
    rw [ht.trace]
    by_cases hd : d = c
    case neg => exact (h.faithful d).append_in fun e he => ((ht.data e he).elsewhere hd).right
    case pos =>
      subst hd
      obtain ⟨tin, tout, rfl, hin, hout⟩ := hr.order
      rw [ht.trace, ←List.append_assoc, recvd_append_of hout, sent_append,
        List.append_assoc _ io'.backlog] at hf'
      rw [←List.append_assoc]
      exact ((h.faithful d).append_in hin).append_out hout hf'
  case flow =>
    intro g d io₂ hc₂
    cases hc₂.of_touch ht hc
    case inr hc₂ =>
      obtain ⟨rfl, rfl, rfl⟩ := hc₂
      exact hf' ▸ List.prefix_append _ _
    case inl hc₂ =>
      have hd := hc₂.right.serial_ne hw hc hc₂.left
      rw [ht.trace, recvd_append_of fun e he => ((ht.data e he).elsewhere hd).left,
        sent_append_of fun e he => ((ht.data e he).elsewhere hd).right]
      exact h.flow hc₂.right
  case loss =>
    intro g d io₂ hc₂ hl₂
    cases hc₂.of_touch ht hc
    case inl hc₂ =>
      have hd := hc₂.right.serial_ne hw hc hc₂.left
      rw [Lossy, ht.trace, recvd_append_of fun e he => ((ht.data e he).elsewhere hd).left,
        sent_append_of fun e he => ((ht.data e he).elsewhere hd).right] at hl₂
      rw [ht.trace]
      exact (h.loss hc₂.right hl₂).imp_right fun hs => ⟨List.mem_append_left _ hs.left, hs.right⟩
    case inr hc₂ =>
      obtain ⟨rfl, rfl, rfl⟩ := hc₂
      rw [ht.trace]
      by_cases hn : l = []
      case pos =>
        refine (hr.loss fun hlost => hl₂ ?_).imp_right fun hs => ⟨List.mem_append_right _ hs.left, hs.right⟩
        simpa [hn, hlost] using hf'
      case neg =>
        have hz : recvd d t = [] := Relay.flow_eq_nil (hl <| hll hn).left
        exact (h.loss hc <| hll hn).imp ht.error fun hs =>
          ⟨List.mem_append_left _ hs.left, hr.drain hz hs.right⟩

theorem shut (h : Sound w) (hs : Shut f c io w w') : Sound w' :=
  h.silent hs.trace silent_closing fun hc => .inl ⟨_, (hc.of_shut hs).right, rfl, rfl, rfl⟩

theorem birth (h : Sound w) (hch : Chronicle w) (hb : Birth f w w') : Sound w' := by
  refine h.silent hb.trace silent_accepting fun {g d io₂} hc => ?_
  cases hc.of_birth hb
  case inl hc => exact .inl ⟨_, hc.right, rfl, rfl, rfl⟩
  case inr hc =>
    obtain ⟨rfl, rfl, _, _, hq⟩ := hc
    obtain ⟨hr, hs⟩ := hch.unheard
    exact .inr ⟨hr, hs, by simp [Hio.backlog, hq]⟩

theorem aside (h : Sound w) (ha : Aside f w w') : Sound w' := by
  exact h.silent (t := []) (by simpa using ha.trace) (by simp) fun hc => .inl ⟨_, (hc.of_aside ha).right, rfl, rfl, rfl⟩

theorem rest (h : Sound w) (hr : Rest w w') : Sound w' := by
  refine h.silent (t := []) (by simpa using hr.trace) (by simp) fun hc => ?_
  obtain ⟨io, hc, he⟩ := hc.of_rest hr
  have hq := congrArg Hio.writeQueue he
  have hq : _ = io.writeQueue := hq
  exact .inl ⟨io, hc, by simp [Hio.backlog, ←hq, Hio.core], Hio.error_of_core he, by simp [←hq, Hio.core]⟩

theorem pop (h : Sound w) (hp : Pop ev w w') : Sound w' := by
  have hc {f c io'} (hc : Conn f c io' w') : ∃ io, Conn f c io w ∧ io'.backlog = io.backlog ∧
      io'.error = io.error ∧ io'.writeQueue.toList = io.writeQueue.toList :=
    ⟨_, hc.of_pop hp, rfl, rfl, rfl⟩
  cases hp.trace
  case inl ht => exact h.silent (t := []) (by simpa using ht) (by simp) fun h => .inl (hc h)
  case inr ht => exact h.silent ht.right silent_closeEvent fun h => .inl (hc h)

theorem flush (h : Sound w) (hw : Wf w) (hc : Conn f c io w) (hf : Flush K f c io w w') : Sound w' := by
  obtain ⟨_, _, _, ht, _, hr, hn, hs⟩ := hf
  have h₁ := h.touch hw hc ht hr fun _ => ⟨hn, rfl⟩
  cases hs
  case inl hs => exact hs ▸ h₁
  case inr hs => exact h₁.shut hs.left

theorem visit (h : Sound w) (hw : Wf w) (hc : Conn f c io w) (hn : ¬Lossy c io w)
    (hm : w.ans.recv ≠ .fail .msgsize) (hv : Visit K f c io w w') : Sound w' := by
  obtain ⟨_, _, _, _, ht, hr, _, hs⟩ := hv
  have h₁ := h.touch hw hc ht (hr hm) fun hl => absurd hl hn
  cases hs
  case inl hs => exact hs ▸ h₁
  case inr hs => exact h₁.shut hs.left

theorem move (h : Sound w) (hs : Sane w) (hm : Move K w w') : Sound w' := by
  cases hm
  case flush hc hf  => exact h.flush hs.wf hc hf
  case birth hb     => exact h.birth hs.chronicle hb
  case aside _ _ ha => exact h.aside ha
  case event hp hc  =>
    have h₁ := h.pop hp
    cases hc.effect
    case inl he => exact he ▸ h₁
    case inr he =>
      obtain ⟨_, _, hc, hf⟩ := he
      exact h₁.flush (hs.wf.pop hp) hc hf

end Sound

-- Working on a connection loses no bytes if it has not lost any before.
theorem Relayed.lossless (hr : Relayed c io io' t []) (ht : w'.trace = w.trace ++ t)
    (hn : ¬Lossy c io w) : ¬Lossy c io' w' := by
  have hf : recvd c w.trace = sent c w.trace ++ io.backlog ++ [] := by simpa [Lossy] using hn
  have := hr.recvd_eq hf ht fun h => absurd rfl h
  simpa [Lossy] using this

theorem Lossy.of_silent (h : Lossy c io' w') (ht : w'.trace = w.trace ++ t) (hs : ∀ e ∈ t, e.Silent)
    (hb : io'.backlog = io.backlog) : Lossy c io w := by
  rw [Lossy, ht, recvd_append_of fun e he => (hs e he c).left,
    sent_append_of fun e he => (hs e he c).right, hb] at h
  exact h

theorem Lossy.of_still (h : Lossy c io' w') (ht : w'.trace = w.trace) (hb : io'.backlog = io.backlog) :
    Lossy c io w :=
  h.of_silent (t := []) (by simpa using ht) (by simp) hb

-- The events of working on another connection do not matter.
theorem Lossy.of_data (h : Lossy d io' w') (ht : w'.trace = w.trace ++ t) (hd : ∀ e ∈ t, e.Data c)
    (hne : d ≠ c) : Lossy d io' w := by
  rw [Lossy, ht, recvd_append_of fun e he => ((hd e he).elsewhere hne).left,
    sent_append_of fun e he => ((hd e he).elsewhere hne).right] at h
  exact h

-- A new connection has nothing to lose.
theorem Birth.lossless (hb : Birth f w w') (h : Chronicle w) (hc : Conn f w.kernel.next io w') :
    ¬Lossy w.kernel.next io w' := by
  obtain ⟨hr, hs⟩ := h.unheard
  obtain ⟨_, hi, _, _, _, hq, _⟩ := hb.iosSelf
  cases hi.symm.trans hc.ios
  rw [Lossy, hb.trace, recvd_append_of fun e he => (silent_accepting e he _).left,
    sent_append_of fun e he => (silent_accepting e he _).right]
  simp [hr, hs, Hio.backlog, hq]

namespace Announced

theorem touch (h : Announced w) (hw : Wf w) (hc : Conn f c io w) (ht : Touch f c io io' t w w')
    (hl : Lossy c io' w' → Lossy c io w ∨ Posted f io.id w'.loop.customEvents.toList) :
    Announced w' := by
  intro g d io₂ hc₂ hl₂
  cases hc₂.of_touch ht hc
  case inl hc₂ =>
    have hd := hc₂.right.serial_ne hw hc hc₂.left
    exact ht.posted <| h _ _ _ hc₂.right <| hl₂.of_data ht.trace ht.data hd
  case inr hc₂ =>
    obtain ⟨rfl, rfl, rfl⟩ := hc₂
    rw [ht.id_eq]
    exact (hl hl₂).elim (fun hl => ht.posted <| h _ _ _ hc hl) id

theorem shut (h : Announced w) (hs : Shut f c io w w') : Announced w' := by
  intro g d io₂ hc₂ hl₂
  rw [hs.events]
  exact h _ _ _ (hc₂.of_shut hs).right <| hl₂.of_silent hs.trace silent_closing rfl

theorem flush (h : Announced w) (hw : Wf w) (hc : Conn f c io w) (hf : Flush K f c io w w') :
    Announced w' := by
  obtain ⟨_, _, _, ht, _, hr, _, hs⟩ := hf
  have h₁ := h.touch hw hc ht fun hl => .inl <| by_contra fun hn => hr.lossless ht.trace hn hl
  cases hs
  case inl hs => exact hs ▸ h₁
  case inr hs => exact h₁.shut hs.left

theorem visit (h : Announced w) (hw : Wf w) (hc : Conn f c io w) (hn : ¬Lossy c io w)
    (hm : w.ans.recv ≠ .fail .msgsize) (hp : CanPost w) (hv : Visit K f c io w w') : Announced w' := by
  obtain ⟨io', _, lost, w₁, ht, hr, hlo, hs⟩ := hv
  have h₁ := h.touch hw hc ht fun hl => .inr <| hlo.posted (fun he => ?_) hp
  case refine_1 =>
    subst he
    exact (hr hm).lossless ht.trace hn hl
  cases hs
  case inl hs => exact hs ▸ h₁
  case inr hs => exact h₁.shut hs.left

theorem birth (h : Announced w) (hch : Chronicle w) (hb : Birth f w w') : Announced w' := by
  intro g d io₂ hc₂ hl₂
  cases hc₂.of_birth hb
  case inl hc₂ =>
    rw [hb.events]
    exact h _ _ _ hc₂.right <| hl₂.of_silent hb.trace silent_accepting rfl
  case inr hn =>
    obtain ⟨rfl, rfl, _⟩ := hn
    exact absurd hl₂ <| hb.lossless hch hc₂

theorem aside (h : Announced w) (ha : Aside f w w') : Announced w' := by
  intro g d io₂ hc₂ hl₂
  rw [ha.events]
  exact h _ _ _ (hc₂.of_aside ha).right <| hl₂.of_still ha.trace rfl

theorem rest (h : Announced w) (hr : Rest w w') : Announced w' := by
  intro g d io₂ hc₂ hl₂
  obtain ⟨io, hc, he⟩ := hc₂.of_rest hr
  have hq : io₂.writeQueue = io.writeQueue := (congrArg Hio.writeQueue he :)
  have hid : io₂.id = io.id := (congrArg Hio.id he :)
  rw [hr.events, hid]
  exact h _ _ _ hc <| hl₂.of_still hr.trace <| by simp [Hio.backlog, hq]

-- When the close of a connection that has lost bytes is taken from the queue, the connection is closed.
theorem event (h : Announced w) (hs : Sound w) (hw : Wf w) (hp : Pop ev w w₁) (hc : Carried K ev w₁ w') :
    Announced w' := by
  have hs₁ := hs.pop hp
  -- The events that are left
  have h₁ (g : Fd) (d : Serial) (io₂ : Hio) (hc₂ : Conn g d io₂ w₁) (hl₂ : Lossy d io₂ w₁) :
      Posted g io₂.id w₁.loop.customEvents.toList ∨ (ev.io = g ∧ io₂.id = ev.id) := by
    have hl : Lossy d io₂ w := by
      cases hp.trace
      case inl ht => exact hl₂.of_still ht rfl
      case inr ht => exact hl₂.of_silent ht.right silent_closeEvent rfl
    obtain ⟨ev', he, hio, hid⟩ := h _ _ _ (hc₂.of_pop hp) hl
    obtain ⟨ts, hq⟩ := List.head?_eq_some_iff.mp hp.front
    rw [hq] at he
    cases List.mem_cons.mp he
    case inl he => exact .inr ⟨he ▸ hio, he ▸ hid.symm⟩
    case inr he =>
      refine .inl ⟨ev', ?_, hio, hid⟩
      rw [hp.loop, Queue.toList_popFront, hq]
      exact he
  -- and the connection that the event was for.
  have hgone (d : Serial) (io₂ : Hio) (hc₂ : Conn ev.io d io₂ w₁) (hl₂ : Lossy d io₂ w₁)
      (hid : io₂.id = ev.id) : w'.kernel.fds ev.io = none := by
    refine hc.closes d io₂ hc₂ hid fun hd => ?_
    cases hs₁.loss hc₂ hl₂
    case inl he => exact he hd.right.left
    case inr he => exact hd.left he.right
  cases hc.effect
  case inl he =>
    subst he
    intro g d io₂ hc₂ hl₂
    refine (h₁ g d io₂ hc₂ hl₂).resolve_right fun hn => ?_
    have hc₂' : Conn ev.io d io₂ w' := hn.left ▸ hc₂
    have hf := hgone d io₂ hc₂' hl₂ hn.right
    simp [hc₂'.fds] at hf
  case inr he =>
    obtain ⟨c, io, hcn, io', t, w₂, ht, hq, hr, _, hsh⟩ := he
    intro g d io₂ hc₂ hl₂
    have hsh : Conn g d io₂ w₂ ∧ Lossy d io₂ w₂ ∧ w'.loop.customEvents = w₂.loop.customEvents := by
      cases hsh
      case inl he => exact he ▸ ⟨hc₂, hl₂, rfl⟩
      case inr hsh =>
        have hl := hl₂.of_silent hsh.left.trace silent_closing rfl
        exact ⟨(hc₂.of_shut hsh.left).right, hl, hsh.left.events⟩
    obtain ⟨hc', hl', he⟩ := hsh
    rw [he, hq.events]
    cases hc'.of_touch ht hcn
    case inl hc' =>
      have hd := hc'.right.serial_ne (hw.pop hp) hcn hc'.left
      exact (h₁ g d io₂ hc'.right <| hl'.of_data ht.trace ht.data hd).resolve_right fun hn =>
        hc'.left hn.left.symm
    case inr hc' =>
      obtain ⟨rfl, rfl, rfl⟩ := hc'
      have hl : Lossy d io w₁ := by_contra fun hn => hr.lossless ht.trace hn hl'
      rw [ht.id_eq]
      refine (h₁ ev.io d io hcn hl).resolve_right fun hn => ?_
      have hf := hgone d io hcn hl hn.right
      simp [hc₂.fds] at hf

end Announced

end Rlibhv
