import Rlibhv.Server.Theorems.Echo
import Rlibhv.Event.Theorems.Close

-- When the server closes a connection before it has sent all that it has received.
namespace Rlibhv

variable {a : Act} {pc pc' : Pc} {w w' : World} {ans : Answers} {s s' : State} {as : List Act}
  {sigint sigpipe : Disposition} {p : Ptr} {e : Pending} {todo : List Pending}

-- What is assumed of the operating system: `recv` does not fail with EMSGSIZE and `send` accepts
-- something if it does not fail.
def Act.Sends : Act → Prop
  | callback ans => ans.recv ≠ .fail .msgsize ∧ .accepted 0 ∉ ans.sends
  | _            => True

instance Act.Sends.decidable : (a : Act) → Decidable a.Sends
  | callback _ => inferInstanceAs (Decidable (_ ∧ _))
  | call _ | tau | socket _ _ | Act.eventfd _ | clock _ | poll _ _ | Act.sigint => .isTrue trivial

-- The step calls a connection whose close has been deferred, and end of file is read once more.
def Pc.Rereads : Pc → Act → World → Prop
  | run _ (.pendings (.io f :: _)), .callback ans, w => Rlibhv.Rereads f { w with ans }
  | _, _, _                                          => False

-- Traces only grow

theorem Effect.trace {K : Hio → Prop} {R : Fd → Hio → World → Prop} (h : Effect K R w w') :
    ∃ t, w'.trace = w.trace ++ t := by
  have hflush {f c io w w'} (h : Flush K f c io w w') : ∃ t, w'.trace = w.trace ++ t := by
    obtain ⟨_, t, _, ht, _, _, _, hs⟩ := h
    cases hs
    case inl hs => exact ⟨t, hs ▸ ht.trace⟩
    case inr hs => exact ⟨_, hs.left.trace.trans <| by rw [ht.trace, List.append_assoc]⟩
  cases h
  case aside h => exact ⟨[], by simp [h.trace]⟩
  case rest h  => exact ⟨[], by simp [h.trace]⟩
  case visit h =>
    obtain ⟨_, t, _, _, ht, _, _, hs⟩ := h
    cases hs
    case inl hs => exact ⟨t, hs ▸ ht.trace⟩
    case inr hs => exact ⟨_, hs.left.trace.trans <| by rw [ht.trace, List.append_assoc]⟩
  case move h =>
    cases h
    case flush h      => exact hflush h
    case birth h      => exact ⟨_, h.trace⟩
    case aside h      => exact ⟨[], by simp [h.trace]⟩
    case event hp hc  =>
      have h₁ : ∃ t, _ = w.trace ++ t := hp.trace.elim (fun h => ⟨[], by simpa using h⟩) fun h => ⟨_, h.right⟩
      cases hc.effect
      case inl h => exact h ▸ h₁
      case inr h =>
        obtain ⟨_, _, _, h⟩ := h
        obtain ⟨t₁, h₁⟩ := h₁
        obtain ⟨t₂, h₂⟩ := hflush h
        exact ⟨t₁ ++ t₂, by rw [h₂, h₁, List.append_assoc]⟩

theorem Progress.extends (h : Progress w w') : (∃ t, w'.trace = w.trace ++ t) ∧ w.sId ≤ w'.sId := by
  cases h
  case inl h =>
    obtain ⟨t, ht, _⟩ := h.trace
    exact ⟨⟨t, ht⟩, h.sId⟩
  case inr h =>
    refine ⟨?_, h.outline.sId⟩
    induction h
    case refl => exact ⟨[], by simp⟩
    case tail he hi =>
      obtain ⟨t₁, h₁⟩ := hi
      obtain ⟨t₂, h₂⟩ := he.trace
      exact ⟨t₁ ++ t₂, by rw [h₂, h₁, List.append_assoc]⟩

theorem Lawful.extends (h : Lawful s) (hr : Machine.run Rlibhv.step s as = some s') :
    Lawful s' ∧ (∃ t, s'.trace = s.trace ++ t) ∧ s.sId ≤ s'.sId := by
  induction as generalizing s
  case nil =>
    cases hr
    exact ⟨h, ⟨[], by simp⟩, Nat.le_refl _⟩
  case cons a as hi =>
    obtain ⟨s₁, hs, hr⟩ := Machine.run_cons_iff.mp hr
    obtain ⟨h', ⟨t₂, h₂⟩, hle⟩ := hi (h.step hs) hr
    have hp := ((h.control.turn hs).work h.control).good h.good |>.right
    obtain ⟨⟨t₁, h₁⟩, hle₁⟩ := hp.extends
    have h₁ : s₁.trace = s.trace ++ t₁ := h₁
    exact ⟨h', ⟨t₁ ++ t₂, by rw [h₂, h₁, List.append_assoc]⟩, Nat.le_trans hle₁ hle⟩

-- Steps other than callbacks work on no connection, unless they tear the loop down.
theorem Job.still (h : Job a pc w pc' w') (hg : Good pc w) (hd : ∀ ans, a ≠ .callback ans) :
    Admin w w' ∨ Rest w w' := by
  obtain ⟨hw, hp⟩ := hg
  cases h
  case dispatch   => exact absurd rfl (hd _)
  case clock      => exact .inr <| Rest.setAns.trans hloopUpdateTime_rest
  case finish     => exact .inr clearPendings_rest
  case clear      => exact .inr clearPendings_rest
  case free       => exact .inl (hioFree_sane hw).right
  case timersFree => exact .inl (cleanupTimers_sane hw hp).right
  case iowatcher  => exact .inl (iowatcherCleanup_sane hw hp).right.left
  case customEvents => exact .inl (cleanupCustomEvents_sane hw hp.left hp.right).right.left
  case server r e _ _ hne _ =>
    exact .inl (hloopCreateTcpServer_sane (r := r) (hw.setAns { epoll := some e }) hp rfl hne).right.left.setAns
  case eventfds f p hf =>
    have hsv : Serving w := hp
    have hsv' : Serving { w with ans := { eventfd := some f } } := { hsv with }
    rw [if_pos ⟨hsv.intern, by simp [hsv.eventfds]⟩]
    have hwk := hloopCreateEventfds_woken (hw.setAns { eventfd := some f }).wf hsv' rfl hf
    exact .inl (hwk.sane (hw.setAns _) hsv' hf).right.setAns
  case poll =>
    refine .inr <| Rest.trans ?_ hloopUpdateTime_rest
    split
    case isTrue  => exact .setAns
    case isFalse => exact Rest.setAns.trans hloopProcessIos_rest
  case timers he =>
    rw [he]
    split
    case isTrue  => exact .inr .refl
    case isFalse => exact .inr hloopProcessTimers_rest

-- Tearing the loop down does not call `on_close` from inside of an iteration.
theorem Exact.admin (h : Exact w) (ha : Admin w w') : Exact w' := by
  obtain ⟨t, ht, he⟩ := ha.trace
  refine h.silent ht (fun e hm c => (he e hm).silent c) (fun c hm => ?_) ha.events fun hc =>
    ⟨_, ha.conns hc, rfl, rfl, rfl⟩
  simpa [Event.Admin] using he _ hm

theorem Exact.setAns (h : Exact w) : Exact { w with ans } :=
  h.rest .setAns

theorem Owned.setAns (h : Owned w) : Owned { w with ans } :=
  h.rest .setAns

-- The steps of the process

theorem step_callback (h : Control s) (hpc : s.pc = .run p (.pendings (e :: todo)))
    (hs : step s (.callback ans) = some s') : s'.trace = (dispatch e { s.cur with ans }).trace := by
  obtain ⟨l, hl⟩ := h.loop (hpc ▸ rfl : s.pc.loop = some p)
  rw [State.cur_eq (hpc ▸ rfl) hl]
  simp only [step, hpc, stepMain, stepRun, State.onLoop, hl, Option.map_some, Option.map_eq_map,
    Option.some.injEq] at hs
  exact hs ▸ rfl

theorem Job.exact (h : Job a pc w pc' w') (hg : Good pc w) (ho : w.sId < 2 ^ 32 → Owned w)
    (he : Exact w) (ha : a.Sends) (hr : ¬pc.Rereads a w) (hi : w'.sId < 2 ^ 32) : Exact w' := by
  by_cases hd : ∃ ans, a = .callback ans
  case neg =>
    cases h.still hg fun ans ha => hd ⟨ans, ha⟩
    case inl h => exact he.admin h
    case inr h => exact he.rest h
  case pos =>
    obtain ⟨ans, rfl⟩ := hd
    have hi₀ : w.sId < 2 ^ 32 := Nat.lt_of_le_of_lt (h.good hg).right.extends.right hi
    cases h
    case dispatch e todo =>
      refine he.setAns.dispatch (hg.sane.setAns _) (ho hi₀).setAns hg.phase ha.left ha.right (fun f hf => ?_)
        hi₀ hi
      subst hf
      exact hr

-- A step that reads end of file once more loses what is queued, and else nothing is lost.
theorem Lawful.step_exact (h : Lawful s) (he : Exact s.cur) (ha : a.Sends) (hr : ¬s.pc.Rereads a s.cur)
    (hs : Rlibhv.step s a = some s') (hi : s'.sId < 2 ^ 32) : Exact s'.cur := by
  have hw := (h.control.turn hs).work h.control
  have hi : s'.cur.sId < 2 ^ 32 := hi
  have hg := h.good
  have ho : s.cur.sId < 2 ^ 32 → Owned s.cur := h.owned
  generalize s'.cur = w' at hw hi
  generalize s'.pc = pc' at hw
  generalize s.cur = w at hw hg he hr ho
  generalize s.pc = pc at hw hg hr
  cases hw
  case skip       => exact he
  case freed      => exact he
  case job w₁ hjb => exact (hjb.exact hg ho he ha hr hi).setAns
  case release    =>
    obtain ⟨hi, hn, he'⟩ := hg.phase
    exact he.admin (hg.sane.release hi hn he').right

theorem Lawful.step_rereads (h : Lawful s) (he : Exact s.cur) (hr : s.pc.Rereads a s.cur)
    (hs : Rlibhv.step s a = some s') : ∃ c, .onClose c none false ∈ s'.trace ∧
      sent c s'.trace ≠ recvd c s'.trace ∧ life c s'.trace = some .gone := by
  unfold Pc.Rereads at hr
  split at hr
  case h_2 => exact hr.elim
  case h_1 p f todo ans hpc =>
    have hp : s.cur.loop.iowatcher.isSome ∧ s.cur.loop.eventfds.isSome := by
      have := h.good.phase
      rwa [hpc] at this
    obtain ⟨c, ht, hn, hl⟩ := dispatch_rereads he.setAns (h.good.sane.setAns ans) hp hr
    have ht := (step_callback h.control hpc hs).trans ht
    refine ⟨c, by simp [ht], ?_, ?_⟩
    case refine_1 =>
      have ho : recvd c [.recv c [], .onClose c none false, .closed c] = [] ∧
          sent c [.recv c [], .onClose c none false, .closed c] = [] := by
        simp [recvd, sent, Relay.flow, Event.received, Event.accepted]
      rw [ht, sent_append, recvd_append, ho.left, ho.right, List.append_nil, List.append_nil]
      exact hn
    case refine_2 =>
      rw [ht, life_append, hl]
      simp [Life.step, Life.next, Event.subject, Event.isCloseFailed]

-- What is lost stays lost.
theorem Lawful.loses (h : Lawful s) (hr : Machine.run Rlibhv.step s as = some s') {c : Serial}
    (hc : .onClose c none false ∈ s.trace) (hn : sent c s.trace ≠ recvd c s.trace)
    (hl : life c s.trace = some .gone) :
    .onClose c none false ∈ s'.trace ∧ sent c s'.trace ≠ recvd c s'.trace := by
  obtain ⟨h', ⟨t, ht⟩, _⟩ := h.extends hr
  obtain ⟨l, hl'⟩ := h'.good.sane.chronicle.life_eq (d := c)
  have hl' : life c s'.trace = some l := hl'
  rw [ht] at hl' ⊢
  have hs : ∀ e ∈ t, e.received c = [] ∧ e.accepted c = [] := by
    intro e he
    refine Event.silent_of_subject_ne fun hs => ?_
    have : e ∈ own c t := by simpa [own, hs] using he
    simp [(own_append_of_gone hl hl').right] at this
  rw [recvd_append_of fun e he => (hs e he).left, sent_append_of fun e he => (hs e he).right]
  exact ⟨List.mem_append_left _ hc, hn⟩

theorem Lawful.complete_iff (h : Lawful s) (he : Exact s.cur)
    (hr : Machine.run Rlibhv.step s as = some s')
    (ho : Machine.Along Rlibhv.step (fun _ a => a.Sends) s as) (hi : s'.sId < 2 ^ 32) :
    (∀ c, .onClose c none false ∈ s'.trace → sent c s'.trace = recvd c s'.trace) ↔
      Machine.Along Rlibhv.step (fun s a => ¬s.pc.Rereads a s.cur) s as := by
  induction as generalizing s
  case nil =>
    cases hr
    exact iff_of_true he.closed True.intro
  case cons a as ih =>
    obtain ⟨s₁, hs, hr⟩ := Machine.run_cons_iff.mp hr
    have h₁ := h.step hs
    by_cases hrr : s.pc.Rereads a s.cur
    case pos =>
      obtain ⟨c, hc, hn, hl⟩ := h.step_rereads he hrr hs
      obtain ⟨hc, hn⟩ := h₁.loses hr hc hn hl
      exact iff_of_false (fun h => hn <| h c hc) fun h => h.head hrr
    case neg =>
      have hi₁ : s₁.sId < 2 ^ 32 := Nat.lt_of_le_of_lt (h₁.extends hr).right.right hi
      rw [ih h₁ (h.step_exact he ho.head hrr hs hi₁) hr (ho.tail hs)]
      refine ⟨fun h => ⟨hrr, fun s₂ hs₂ => ?_⟩, fun h => h.tail hs⟩
      cases hs.symm.trans hs₂
      exact h

-- Every connection that the loop has closed without an error has sent all that it has received if and
-- only if no connection whose close had been deferred has been called to read end of file once more.
theorem orderly_close_complete_iff (hr : Machine.run step (.init sigint sigpipe) as = some s)
    (ho : Machine.Along step (fun _ a => a.Sends) (.init sigint sigpipe) as) (hi : s.sId < 2 ^ 32) :
    (∀ c, .onClose c none false ∈ s.trace → sent c s.trace = recvd c s.trace) ↔
      Machine.Along step (fun s a => ¬s.pc.Rereads a s.cur) (.init sigint sigpipe) as := by
  refine Lawful.complete_iff .init ?_ hr ho hi
  have hc : (State.init sigint sigpipe).cur =
    { loop := {}, kernel := {}, sId := 0, trace := [], ans := {} } := rfl
  rw [hc]
  constructor
  case closed => simp
  all_goals
    intro _ _ _ h
    simpa using h.fds

-- A client that sends two bytes and closes its side. When the second byte cannot be sent at once, the
-- close is deferred, but the next iteration reads end of file again.
def halfClosed : List Act :=
  startup ++ iteration 3 { accepts := [.fd 6] } ++
    iteration 6 { recv := .data [104, 105], sends := [.accepted 1] } ++
    iteration 6 { recv := .data [] } ++ iteration 6 { recv := .data [] }

theorem halfClosed_rereads :
    (∃ s, Machine.run step (.init (.other 0) .dfl) halfClosed = some s ∧
      recvd 3 s.trace = [104, 105] ∧ sent 3 s.trace = [104] ∧ .onClose 3 none false ∈ s.trace) ∧
    ¬Machine.Along step (fun s a => ¬s.pc.Rereads a s.cur) (.init (.other 0) .dfl) halfClosed := by
  have hr : (Machine.run step (.init (.other 0) .dfl) halfClosed).map (fun s =>
      (s.sId, recvd 3 s.trace, sent 3 s.trace, decide (.onClose 3 none false ∈ s.trace))) =
        some (3, [104, 105], [104], true) := by
    decide +kernel
  have ho : Machine.Along step (fun _ a => a.Sends) (.init (.other 0) .dfl) halfClosed := by
    decide +kernel
  obtain ⟨s, hs, he⟩ := Option.map_eq_some_iff.mp hr
  simp only [Prod.mk.injEq, decide_eq_true_eq] at he
  obtain ⟨hi, hrc, hsn, hc⟩ := he
  refine ⟨⟨s, hs, hrc, hsn, hc⟩, fun h => ?_⟩
  have := (orderly_close_complete_iff hs ho (by simp [hi])).mpr h 3 hc
  simp [hrc, hsn] at this

end Rlibhv
