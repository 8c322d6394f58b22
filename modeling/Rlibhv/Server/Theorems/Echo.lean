import Rlibhv.Server.Theorems.Lifecycle
import Rlibhv.Event.Theorems.Order

-- The server sends back what it receives.
namespace Rlibhv

variable {a : Act} {pc pc' : Pc} {st : Status} {w w' : World} {ans : Answers} {r : PollResult}
  {todo : List Pending}

-- What is assumed of the operating system: `recv` does not fail with EMSGSIZE, writing to the eventfd
-- succeeds, and polling reports the eventfd while its counter is not 0.
def Act.Regular (w : World) : Act → Prop
  | callback ans => ans.recv ≠ .fail .msgsize ∧ CanPost { w with ans }
  | poll r _     => r.ReportsEventfd w
  | _            => True

instance {w : World} : Decidable (CanPost w) :=
  inferInstanceAs (Decidable (_ ∧ _))

instance {w : World} {r : PollResult} : Decidable (r.ReportsEventfd w) :=
  inferInstanceAs (Decidable (_ → ∀ _ ∈ _, _ → _))

instance Act.Regular.decidable {w : World} : (a : Act) → Decidable (a.Regular w)
  | callback _ => inferInstanceAs (Decidable (_ ∧ _))
  | poll r _   => inferInstanceAs (Decidable (r.ReportsEventfd w))
  | call _ | tau | socket _ _ | Act.eventfd _ | clock _ | sigint => .isTrue trivial

-- What is known of the pending events before each step. They do not matter after a stop.
def Pc.Holds (st : Status) : Pc → World → Prop
  | setContinue _, w | setSigint _, w                           => Clean w
  | run _ .enter, w | run _ .setRunning, w | run _ .eventfds, w => Clean w
  | run _ .loop, w                                              => Alert w ∧ (st ≠ .stop → Clean w)
  | run _ .body, w | run _ .ios, w                              => Alert w ∧ Clean w
  | run _ .checkStop, w | run _ .timers, w                      => Alert w ∧ Listed w ∧ Woke w
  | run _ (.pendings todo), w                                   => Ordered todo w
  | run _ .setStop, w                                           => Alert w
  | _, _                                                        => True

theorem Pc.Holds.stop (h : pc.Holds st w) : pc.Holds .stop w := by
  cases pc
  case run r =>
    cases r
    case loop => exact ⟨h.left, absurd rfl⟩
    all_goals exact h
  all_goals exact h

-- The answers of the operating system do not matter

theorem Alert.setAns (h : Alert w) : Alert { w with ans } :=
  h.rest .setAns

theorem Lossy.setAns_iff {c : Serial} {io : Hio} : Lossy c io { w with ans } ↔ Lossy c io w :=
  .rfl

theorem Awake.setAns (h : Awake todo w) : Awake todo { w with ans } :=
  fun f c io hc => h f c io (Conn.setAns_iff.mp hc)

theorem Clean.setAns (h : Clean w) : Clean { w with ans } :=
  ⟨h.pendings, h.flags⟩

theorem Listed.setAns (h : Listed w) : Listed { w with ans } :=
  ⟨h.mem, h.only, h.count⟩

theorem Ordered.setAns (h : Ordered todo w) : Ordered todo { w with ans } :=
  { h.toAlert.setAns with
    flags := h.flags
    awake := h.awake.setAns }

theorem Pc.Holds.setAns (h : pc.Holds st w) : pc.Holds st { w with ans } := by
  cases pc
  case setContinue => exact Clean.setAns h
  case setSigint   => exact Clean.setAns h
  case run r =>
    cases r
    case enter | setRunning | eventfds => exact Clean.setAns h
    case loop               => exact ⟨h.left.setAns, fun hs => (h.right hs).setAns⟩
    case body | ios         => exact ⟨h.left.setAns, h.right.setAns⟩
    case checkStop | timers => exact ⟨h.left.setAns, h.right.left.setAns, h.right.right⟩
    case pendings           => exact Ordered.setAns h
    case setStop            => exact Alert.setAns h
  all_goals exact True.intro

-- Creating a loop and tearing it down

theorem Sound.admin (h : Sound w) (ha : Admin w w') : Sound w' := by
  obtain ⟨t, ht, he⟩ := ha.trace
  exact h.silent ht (fun e hm c => (he e hm).silent c) fun hc => .inl ⟨_, ha.conns hc, rfl, rfl, rfl⟩

-- There are no connections before the first iteration.
theorem Alert.of_woken {e : Fd} (h : Woken e w w') (hs : Sane w') (hsd : Sound w') (ha : Admin w w')
    (hsv : Serving w) : Alert w' where
  sane      := hs
  sound     := hsd
  announced := fun f c io hc => by
    have := (ha.conns hc).eventfds
    simp [hsv.eventfds] at this
  counted   := by simp [Counted, h.events, hsv.events]
  watched e' he := by
    have he : e' = e := by simpa [h.eventfds, eq_comm] using (hs.wf.eventfd e').mp he
    obtain ⟨io, hi, _⟩ := h.io
    simp [he, hi, h.interest, Events.read]

-- What code of the loop does.
theorem Job.holds (h : Job a pc w pc' w') (hg : Good pc w) (hs : Sound w) (hh : pc.Holds st w)
    (hrg : a.Regular w) : Sound w' ∧ ∀ st, pc'.Holds st w' := by
  have hg' := (h.good hg).left
  cases h
  case server r e _ _ hne hpc =>
    have hl : w.loop = {} := hg.phase
    obtain ⟨_, ha, _⟩ := hloopCreateTcpServer_sane (r := r) (hg.sane.setAns { epoll := some e }) hl rfl hne
    refine ⟨hs.admin ha.setAns, fun st => ?_⟩
    have hc : Clean { w with ans := { epoll := some e } } := by
      refine ⟨fun p => ?_, fun f => ?_⟩
      all_goals simp [World.io, hl]
    subst hpc
    split
    case isTrue  => exact True.intro
    case isFalse => exact hloopCreateTcpServer_calm.clean hc
  case eventfds f p hf =>
    have hsv : Serving w := hg.phase
    have hsv' : Serving { w with ans := { eventfd := some f } } := { hsv with }
    rw [if_pos ⟨hsv.intern, by simp [hsv.eventfds]⟩] at hg' ⊢
    have hwk := hloopCreateEventfds_woken (hg.sane.setAns { eventfd := some f }).wf hsv' rfl hf
    have ha := (hwk.sane (hg.sane.setAns _) hsv' hf).right
    have hsd := hs.admin ha.setAns
    exact ⟨hsd, fun _ => ⟨.of_woken hwk hg'.sane hsd ha hsv', fun _ => hloopCreateEventfds_calm.clean hh.setAns⟩⟩
  case clock now p r hr =>
    obtain ⟨ha, hc⟩ : Alert w ∧ Clean w := hh
    have ha' : Alert (hloopUpdateTime { w with ans := { now } }) := ha.setAns.rest hloopUpdateTime_rest
    have hc' : Clean (hloopUpdateTime { w with ans := { now } }) := ⟨hc.pendings, hc.flags⟩
    refine ⟨ha'.sound, fun _ => ?_⟩
    cases hr
    case inl hr => exact hr ▸ ⟨ha', hc'⟩
    case inr hr => exact hr ▸ ⟨ha', hc'.listed, hc'.woke⟩
  case poll r now p =>
    obtain ⟨ha, hc⟩ : Alert w ∧ Clean w := hh
    obtain ⟨e, he⟩ := Option.isSome_iff_exists.mp (hg.phase : _ ∧ _).right
    have hk : w.kind e = some .eventfd := (hg.sane.wf.eventfd e).mpr he
    suffices h : ∀ w₁, (w₁ = if w.loop.nios = 0 then { w with ans := { now } } else
        hloopProcessIos r { w with ans := { now } }) → Alert w₁ ∧ Listed w₁ ∧ Woke w₁ by
      obtain ⟨ha₁, hl₁, hw₁⟩ := h _ rfl
      have ha₂ := ha₁.rest hloopUpdateTime_rest
      exact ⟨ha₂.sound, fun _ => ⟨ha₂, ⟨hl₁.mem, hl₁.only, hl₁.count⟩, hw₁⟩⟩
    rintro w₁ rfl
    split
    case isTrue  => exact ⟨ha.setAns, hc.setAns.listed, hc.setAns.woke⟩
    case isFalse =>
      exact ⟨ha.setAns.rest hloopProcessIos_rest, hloopProcessIos_polled hc.setAns ha.watched hrg he hk⟩
  case timers p he =>
    obtain ⟨ha, hl, hw⟩ : Alert w ∧ Listed w ∧ Woke w := hh
    have h' : Alert w' ∧ Listed w' ∧ Woke w' := by
      subst he
      split
      case isTrue  => exact ⟨ha, hl, hw⟩
      case isFalse => exact ⟨ha.rest hloopProcessTimers_rest, hloopProcessTimers_polled hl hw⟩
    obtain ⟨ha, hl, hw⟩ := h'
    refine ⟨ha.sound, fun _ => ?_⟩
    split
    case isTrue hn  => exact ⟨ha, fun _ => hl.clean hn⟩
    case isFalse    =>
      exact { ha with
        flags := flags_pendingOrder hl
        awake := awake_pendingOrder hl hw ha.sane.wf ha.announced ha.counted }
  case dispatch ans _ _ _ =>
    have hp : w.loop.iowatcher.isSome ∧ w.loop.eventfds.isSome := hg.phase
    have ho : Ordered _ { w with ans } := Ordered.setAns hh
    have h' := ho.dispatch hp hrg.left hrg.right
    exact ⟨h'.sound, fun _ => h'⟩
  case finish =>
    have ho : Ordered [] w := hh
    have ha := ho.toAlert.rest clearPendings_rest
    refine ⟨ha.sound, fun _ => ⟨ha, fun _ => ⟨fun _ => rfl, fun f => ?_⟩⟩⟩
    by_contra hn
    have hp : ((clearPendings w).io f).pending = true := by simpa using hn
    simpa using ho.flags f hp
  case clear        => exact ⟨hs.rest clearPendings_rest, fun _ => True.intro⟩
  case free i _ _   => exact ⟨hs.admin (hioFree_sane (f := i) hg.sane).right, fun _ => True.intro⟩
  case timersFree   => exact ⟨hs.admin (cleanupTimers_sane hg.sane hg.phase).right, fun _ => True.intro⟩
  case iowatcher    =>
    obtain ⟨_, ha, _⟩ := iowatcherCleanup_sane hg.sane hg.phase
    exact ⟨hs.admin ha, fun _ => True.intro⟩
  case customEvents =>
    obtain ⟨_, ha, _⟩ := cleanupCustomEvents_sane hg.sane (hg.phase : _ ∧ _).left (hg.phase : _ ∧ _).right
    exact ⟨hs.admin ha, fun _ => True.intro⟩

-- The steps of the process

theorem Job.loop (h : Job a pc w pc' w') : ∃ p, pc.loop = some p := by
  cases h <;> exact ⟨_, rfl⟩

theorem Work.sound (h : Work a pc w pc' w') (hg : Good pc w) (hs : Sound w)
    (hj : ∀ pc₁ w₁, Job a pc w pc₁ w₁ → Sound w₁) : Sound w' := by
  cases h
  case skip  => exact hs
  case freed => exact hs
  case job w₁ h => exact (hj _ _ h).rest .setAns
  case release =>
    obtain ⟨hi, hn, he⟩ := hg.phase
    exact hs.admin (hg.sane.release hi hn he).right

theorem Work.of_sigint (h : Work .sigint pc w pc' w') : w' = w := by
  cases h
  case skip  => rfl
  case job h => cases h

structure Relaying (s : State) : Prop extends Lawful s where
  sound : Sound s.cur
  holds : ∀ {q l}, s.heap q = some l → s.pc.Holds l.status s.cur

namespace Relaying

variable {s s' : State} {as : List Act} {sigint sigpipe : Disposition}

theorem init : Relaying (.init sigint sigpipe) where
  toLawful := .init
  holds h  := by simp [State.init] at h
  sound    := by
    have hc : (State.init sigint sigpipe).cur =
      { loop := {}, kernel := {}, sId := 0, trace := [], ans := {} } := rfl
    rw [hc]
    constructor
    case faithful => exact fun _ => .nil
    all_goals
      intro _ _ _ h
      simpa using h.fds

theorem step (h : Relaying s) (hr : a.Regular s.cur) (hs : step s a = some s') : Relaying s' := by
  have ht := h.control.turn hs
  have hw := ht.work h.control
  have hj pc₁ w₁ (hj : Job a s.pc s.cur pc₁ w₁) : Sound w₁ ∧ ∀ st, pc₁.Holds st w₁ := by
    obtain ⟨p, hp⟩ := hj.loop
    obtain ⟨l, hl⟩ := h.control.loop hp
    exact hj.holds h.good h.sound (h.holds hl) hr
  refine ⟨h.toLawful.step hs, hw.sound h.good h.sound fun pc₁ w₁ h => (hj pc₁ w₁ h).left, ?_⟩
  intro q l' hq
  cases ht
  case sigint hsg =>
    have hsg := deliverSigint_signalled hsg
    rw [hsg.pc, hw.of_sigint]
    cases hsg.heap q
    case inl he => exact h.holds <| he ▸ hq
    case inr he =>
      obtain ⟨l, hl, he⟩ := he
      cases he.symm.trans hq
      exact (h.holds hl).stop
  case job p l pc w hlp hp hjb =>
    have hc : ((s.setWorld p l w).goto pc).cur = w.settle := by
      have hl' : ((s.setWorld p l w).goto pc).pc.loop = some p := (Control.job hjb).left.trans hlp
      rw [State.cur_eq hl' (l := { l with data := w.loop }) (by simp [State.goto, State.setWorld, State.setLoop])]
      rfl
    rw [hc]
    exact ((hj pc w (State.cur_eq hlp hp ▸ hjb)).right _).setAns
  case jump pc hjp =>
    have hc : (s.goto pc).cur = s.cur := by simp [State.cur, State.goto, hjp.loop_eq, State.world]
    have hh : s.pc.Holds l'.status s.cur := h.holds hq
    rw [hc]
    generalize s.pc = pc₀ at hjp hh
    have heq {p l} (hp : s.heap p = some l) : l = l' := by
      cases (h.control.eq_of_heap hp).symm.trans (h.control.eq_of_heap hq)
      exact Option.some.inj <| hp.symm.trans hq
    cases hjp
    case enter | body | goOn => exact hh
    case iterate hp hn       => exact ⟨hh.left, hh.right (heq hp ▸ hn)⟩
    case stop                => exact hh.left
    case abort hp ht         => exact ⟨hh.left, fun hn => absurd (heq hp ▸ ht) hn⟩
    all_goals exact True.intro
  case assign p l st pc hlp hp ha =>
    have hc : ((s.setLoop p { l with status := st }).goto pc).cur = s.cur := by
      have hp' : ((s.setLoop p { l with status := st }).goto pc).heap p = some { l with status := st } := by
        simp [State.goto, State.setLoop]
      exact State.cur_congr hlp hp (ha.loop_eq.trans hlp :) hp' rfl rfl rfl rfl
    have hh : s.pc.Holds l.status s.cur := h.holds hp
    rw [hc]
    generalize s.pc = pc₀ at ha hh
    cases ha
    case running => exact hh
    all_goals exact True.intro
  case setContinue | setSigint =>
    rename_i hpc
    have hh : s.pc.Holds l'.status s.cur := h.holds hq
    rw [hpc] at hh
    have hc : Clean s.cur := hh
    simpa [State.cur, State.world, hpc, Pc.loop, Pc.Holds] using hc
  all_goals exact True.intro

theorem run (hr : Machine.run Rlibhv.step (.init sigint sigpipe) as = some s)
    (ho : Machine.Along Rlibhv.step (fun s a => a.Regular s.cur) (.init sigint sigpipe) as) : Relaying s :=
  Machine.run_invariant (fun _ _ _ h hr hs => h.step hr hs) ho hr init

end Relaying

variable {s : State} {as : List Act} {sigint sigpipe : Disposition}

theorem State.conn {f : Fd} {c : Serial} {io : Hio} (h : Lawful s) (hf : s.kernel.fds f = some ⟨c, .conn⟩)
    (hi : s.cur.loop.ios f = some io) : Conn f c io s.cur := by
  obtain ⟨io', hc⟩ := h.good.sane.wf.conn (w := s.cur) hf
  cases hi.symm.trans hc.ios
  exact hc

-- What is sent on a connection is an initial part of what has been received on it, at all times. The
-- rest is queued, unless the connection has an error or `send` has accepted nothing.
theorem echo_in_order (hr : Machine.run step (.init sigint sigpipe) as = some s)
    (ho : Machine.Along step (fun s a => a.Regular s.cur) (.init sigint sigpipe) as) :
    (∀ c, Relay.Faithful (Event.received c) (Event.accepted c) s.trace) ∧
    ∀ f c io, s.kernel.fds f = some ⟨c, .conn⟩ → s.cur.loop.ios f = some io →
      sent c s.trace ++ io.backlog <+: recvd c s.trace ∧
      (io.error = none → .send c [] ∉ s.trace → recvd c s.trace = sent c s.trace ++ io.backlog) := by
  have h := Relaying.run hr ho
  refine ⟨h.sound.faithful, fun f c io hf hi => ?_⟩
  have hc := State.conn h.toLawful hf hi
  refine ⟨h.sound.flow hc, fun he hs => ?_⟩
  by_contra hl
  cases h.sound.loss hc hl
  case inl hl => exact hl he
  case inr hl => exact hs hl.left

-- A session in which a client's bytes have been sent in part.
def echoing : List Act :=
  startup ++ iteration 3 { accepts := [.fd 6] } ++
    iteration 6 { recv := .data [104, 105], sends := [.accepted 1] }

theorem echoing_in_order : ∃ s io, Machine.run step (.init (.other 0) .dfl) echoing = some s ∧
    s.kernel.fds 6 = some ⟨3, .conn⟩ ∧ s.cur.loop.ios 6 = some io ∧
    recvd 3 s.trace = [104, 105] ∧ sent 3 s.trace = [104] ∧ io.backlog = [105] := by
  have hr : (Machine.run step (.init (.other 0) .dfl) echoing).map
      (fun s => (s.kernel.fds 6, (s.cur.loop.ios 6).map Hio.error, recvd 3 s.trace, sent 3 s.trace,
        decide (.send 3 [] ∈ s.trace))) =
        some (some ⟨3, .conn⟩, some none, [104, 105], [104], false) := by
    decide +kernel
  have ho : Machine.Along step (fun s a => a.Regular s.cur) (.init (.other 0) .dfl) echoing := by
    decide +kernel
  obtain ⟨s, hs, he⟩ := Option.map_eq_some_iff.mp hr
  simp only [Prod.mk.injEq, decide_eq_false_iff_not] at he
  obtain ⟨hf, hi, hrc, hsn, hz⟩ := he
  obtain ⟨io, hio, he⟩ := Option.map_eq_some_iff.mp hi
  have h := ((echo_in_order hs ho).right 6 3 io hf hio).right he hz
  exact ⟨s, io, hs, hf, hio, hrc, hsn, by simpa [hrc, hsn, eq_comm] using h⟩

-- When bytes of a connection have been lost, its close has been posted, the counter of the eventfd
-- tells of it, and the connection is not called any more.
theorem lossy_connection_not_called {f : Fd} {c : Serial} {io : Hio}
    (hr : Machine.run step (.init sigint sigpipe) as = some s)
    (ho : Machine.Along step (fun s a => a.Regular s.cur) (.init sigint sigpipe) as)
    (hf : s.kernel.fds f = some ⟨c, .conn⟩) (hi : s.cur.loop.ios f = some io)
    (hl : recvd c s.trace ≠ sent c s.trace ++ io.backlog) :
    (s.pc.stage = .running →
      Posted f io.id s.cur.loop.customEvents.toList ∧
      s.cur.loop.customEvents.toList.length ≤ s.kernel.eventfdCount) ∧
    ∀ p todo, s.pc = .run p (.pendings (.io f :: todo)) → io.pending = false := by
  have h := Relaying.run hr ho
  have hc := State.conn h.toLawful hf hi
  have hh {p} (hp : s.pc.loop = some p) : ∃ st, s.pc.Holds st s.cur := by
    obtain ⟨l, hl⟩ := h.control.loop hp
    exact ⟨_, h.holds hl⟩
  refine ⟨fun hst => ?_, fun p todo hpc => ?_⟩
  case refine_1 =>
    have ha : Alert s.cur := by
      cases hpc : s.pc
      case run p r =>
        obtain ⟨st, hh⟩ := hh (p := p) (hpc ▸ rfl)
        rw [hpc] at hh hst
        cases r
        case enter | setRunning | eventfds => cases hst
        case setStop  => exact hh
        case pendings => exact Ordered.toAlert hh
        all_goals exact hh.left
      case free p r o =>
        rw [hpc] at hst
        cases r <;> cases hst
      all_goals
        rw [hpc] at hst
        cases hst
    exact ⟨ha.announced f c io hc hl, ha.counted⟩
  case refine_2 =>
    obtain ⟨st, hh⟩ := hh (p := p) (hpc ▸ rfl)
    rw [hpc] at hh
    have hw : Awake (.io f :: todo) s.cur := Ordered.awake hh
    by_contra hp
    exact hw.lossless hc (by simpa using hp) hl

-- A session in which a client's bytes cannot be sent because the connection has been reset.
def failing : List Act :=
  startup ++ iteration 3 { accepts := [.fd 6] } ++
    iteration 6 { recv := .data [104, 105], sends := [.fail (.other 104)] }

theorem failing_not_called : ∃ s io, Machine.run step (.init (.other 0) .dfl) failing = some s ∧
    s.kernel.fds 6 = some ⟨3, .conn⟩ ∧ s.cur.loop.ios 6 = some io ∧
    recvd 3 s.trace = [104, 105] ∧ sent 3 s.trace = [] ∧ io.backlog = [] ∧
    Posted 6 io.id s.cur.loop.customEvents.toList := by
  have hr : (Machine.run step (.init (.other 0) .dfl) failing).map (fun s =>
      (s.kernel.fds 6, (s.cur.loop.ios 6).map Hio.backlog, recvd 3 s.trace, sent 3 s.trace, s.pc.stage)) =
        some (some ⟨3, .conn⟩, some [], [104, 105], [], .running) := by
    decide +kernel
  have ho : Machine.Along step (fun s a => a.Regular s.cur) (.init (.other 0) .dfl) failing := by
    decide +kernel
  obtain ⟨s, hs, he⟩ := Option.map_eq_some_iff.mp hr
  simp only [Prod.mk.injEq] at he
  obtain ⟨hf, hi, hrc, hsn, hst⟩ := he
  obtain ⟨io, hio, hb⟩ := Option.map_eq_some_iff.mp hi
  have h := lossy_connection_not_called hs ho hf hio (by simp [hrc, hsn, hb])
  exact ⟨s, io, hs, hf, hio, hrc, hsn, hb, (h.left hst).left⟩

end Rlibhv
