import Rlibhv.Server.Work

namespace Rlibhv

theorem Pc.allows_stop {pc : Pc} : pc.Allows .stop := by
  cases pc
  case run r    => cases r <;> simp [Pc.Allows]
  case free r _ => cases r <;> simp [Pc.Allows]
  all_goals rfl

theorem hloopStop_eq {l : Hloop} : hloopStop l = { l with status := .stop } := by
  simp only [hloopStop]
  split
  case isTrue h  => exact h ▸ rfl
  case isFalse h => rfl

theorem deliverSigint_signalled {s s' : State} (h : deliverSigint s = some s') : Signalled s s' := by
  simp only [deliverSigint] at h
  split at h
  case h_1    => simp at h
  case h_2 hd | h_4 hd =>
    cases h
    exact ⟨rfl, rfl, rfl, rfl, rfl, rfl, rfl, rfl, rfl, fun _ => .inl rfl, fun h => by simp [hd] at h⟩
  case h_3 hd =>
    cases h
    simp only [handleSigint]
    split
    case h_1 hg =>
      exact ⟨rfl, rfl, rfl, rfl, rfl, rfl, rfl, rfl, rfl, fun _ => .inl rfl, by simp [hg]⟩
    case h_2 p hg =>
      split
      case h_1 hp =>
        refine ⟨rfl, rfl, rfl, rfl, rfl, rfl, rfl, rfl, rfl, fun _ => .inl rfl, fun _ q l hq hl => ?_⟩
        cases hg.symm.trans hq
        cases hp.symm.trans hl
      case h_2 l hp =>
        refine ⟨rfl, rfl, rfl, rfl, rfl, rfl, rfl, rfl, rfl, fun q => ?_, fun _ q l' hq hl => ?_⟩
        case refine_1 =>
          by_cases hq : q = p
          case pos => exact .inr ⟨l, hq ▸ hp, by simp [hq, hloopStop_eq]⟩
          case neg => exact .inl (by simp [hq])
        case refine_2 =>
          cases hg.symm.trans hq
          have : hloopStop l = l' := by simpa using hl
          exact this ▸ hloopStop_eq ▸ rfl

namespace Control

variable {s s' : State} {a : Act} {p : Ptr} {pc : Pc}

theorem loop (h : Control s) (hl : s.pc.loop = some p) : ∃ l, s.heap p = some l :=
  Option.isSome_iff_exists.mp <| (h.heap p).mpr hl

-- Inversion of the steps of `hloop_run`.
theorem stepRun_turn {r : RunPc} (h : Control s) (hpc : s.pc = .run p r) (hs : stepRun s p r a = some s') :
    Turn s a s' := by
  have hl : s.pc.loop = some p := hpc ▸ rfl
  have hg : s.gLoop = some p := h.gLoop.trans (hpc ▸ rfl)
  obtain ⟨l, hp⟩ := h.loop hl
  have hst := h.status hp
  have hj {pc} (hj : Jump s a (.run p r) pc) : Turn s a (s.goto pc) := .jump (hpc ▸ hj)
  have hjob {pc w} (hj : Job a (.run p r) (s.world l {}) pc w) :
      Turn s a ((s.setWorld p l w).goto pc) := .job hl hp (hpc ▸ hj)
  rw [hpc] at hst
  cases r <;> cases a <;> simp only [stepRun, reduceCtorEq] at hs
  all_goals
    simp only [hg, hp, State.onLoop, State.setStatus, Option.map_some, Option.bind_some,
      Option.bind_eq_bind, Option.map_eq_map] at hs
  case enter.tau =>
    have hn : ¬l.status = .running := by
      rw [show l.status = .stop from hst]
      simp
    rw [if_neg hn] at hs
    cases hs
    exact hj .enter
  case setRunning.tau =>
    cases hs
    exact .assign hl hp (hpc ▸ .running)
  case eventfds.eventfd f =>
    split at hs
    case isTrue => simp at hs
    case isFalse hf =>
      cases hs
      exact hjob <| .eventfds <| Option.not_isSome_iff_eq_none.mp hf
  case loop.tau =>
    split at hs
    all_goals cases hs
    case isTrue ht  => exact hj <| .stop hp ht
    case isFalse ht => exact hj <| .iterate hp ht
  case body.clock now =>
    have hn : ¬l.status = .pause := by
      cases (hst : l.status = .stop ∨ l.status = .running)
      case inl ht => simp [ht]
      case inr ht => simp [ht]
    rw [if_neg hn] at hs
    split at hs
    case isTrue =>
      cases hs
      exact hj .body
    case isFalse =>
      cases hs
      refine hjob <| .clock ?_
      split
      case isTrue  => exact .inr rfl
      case isFalse => exact .inl rfl
  case ios.poll r now =>
    cases hs
    exact hjob .poll
  case checkStop.tau =>
    split at hs
    all_goals cases hs
    case isTrue ht  => exact hj <| .abort hp ht
    case isFalse ht => exact hj <| .goOn hp ht
  case timers.tau =>
    generalize hw : (if ntimers (s.world l {}) = 0 then s.world l {} else
      hloopProcessTimers (s.world l {})) = w at hs
    have hh : (s.setWorld p l w).heap p = some { l with data := w.loop } := by
      simp [State.setWorld, State.setLoop]
    have := hjob <| .timers hw.symm
    simp only [hh, Option.bind_some] at hs
    split at hs
    all_goals
      rename_i hn
      cases hs
      simpa [hn] using this
  case pendings.tau todo =>
    cases todo <;> cases hs
    exact hjob .finish
  case pendings.callback todo ans =>
    cases todo <;> cases hs
    exact hjob .dispatch
  case setStop.tau =>
    cases hs
    exact .assign hl hp (hpc ▸ .stop)

-- Inversion of the steps of `hloop_free`.
theorem stepFree_turn {r : FreePc} {o : Outcome} (h : Control s) (hpc : s.pc = .free p r o)
    (hs : stepFree s p o r = some s') : Turn s .tau s' := by
  by_cases hc : r = .clear
  case pos =>
    subst hc
    cases o
    case nil => exact Option.some.inj hs ▸ .clear hpc
    all_goals exact Option.some.inj hs ▸ .fail hpc (by simp)
  case neg =>
    have hl : s.pc.loop = some p := by
      rw [hpc]
      cases r
      case clear => exact absurd rfl hc
      all_goals rfl
    have hg : s.gLoop = some p := h.gLoop.trans (hpc ▸ rfl)
    obtain ⟨l, hp⟩ := h.loop hl
    have hst := h.status hp
    have hj {pc} (hj : Jump s .tau (.free p r o) pc) : Turn s .tau (s.goto pc) := .jump (hpc ▸ hj)
    have hjob {pc w} (hj : Job .tau (.free p r o) (s.world l {}) pc w) :
        Turn s .tau ((s.setWorld p l w).goto pc) := .job hl hp (hpc ▸ hj)
    rw [hpc] at hst
    cases r <;> simp only [stepFree] at hs
    case clear => exact absurd rfl hc
    case free =>
      cases hs
      exact .free hpc
    all_goals
      simp only [hg, hp, State.onLoop, State.setStatus, Option.map_some, Option.bind_some,
        Option.bind_eq_bind, Option.map_eq_map] at hs
    case enter =>
      have hn : ¬l.status = .destroy := by
        rw [show l.status = .stop from hst]
        simp
      rw [if_neg hn] at hs
      cases hs
      exact hj .free
    case setDestroy =>
      cases hs
      exact .assign hl hp (hpc ▸ .destroy)
    case ios i =>
      split at hs
      all_goals cases hs
      case isTrue hi  => exact hjob <| .free hi
      case isFalse hi => exact hj <| .freed hp hi
    all_goals cases hs
    case pendings     => exact hjob .clear
    case timers       => exact hjob .timersFree
    case iowatcher    => exact hjob .iowatcher
    case customEvents => exact hjob .customEvents

theorem createServer_turn {port : Int} {r : SocketResult} {e : Fd} (h : Control s)
    (hpc : s.pc = .createServer port p) (hs : stepMain s s.pc (.socket r e) = some s') :
    Turn s (.socket r e) s' := by
  have hl : s.pc.loop = some p := hpc ▸ rfl
  have hg : s.gLoop = some p := h.gLoop.trans (hpc ▸ rfl)
  obtain ⟨l, hp⟩ := h.loop hl
  have hj hne : Job (.socket r e) (.createServer port p) (s.world l {}) _ _ := .server hne rfl
  have hjob hne := Turn.job hl hp (hpc ▸ hj hne)
  simp only [hpc, stepMain, hg, hp, Option.bind_eq_bind, Option.bind_some] at hs
  split at hs
  case isTrue    => simp at hs
  case isFalse hok =>
    have hjob := hjob fun f hr => by
      simp [hr, isFresh] at hok
      exact Ne.symm hok.right
    simp only [State.world] at hjob hs
    split at hs
    all_goals
      rename_i hr
      cases hs
      simpa [hr] using hjob

-- Inversion of all steps.
theorem turn (h : Control s) (hs : step s a = some s') : Turn s a s' := by
  have hj {pc pc'} (hpc : s.pc = pc) (hj : Jump s a pc pc') : Turn s a (s.goto pc') := .jump (hpc ▸ hj)
  cases ha : a
  case sigint =>
    subst ha
    exact .sigint hs
  all_goals
    subst ha
    simp only [step] at hs
    cases hpc : s.pc
  case socket.createServer => exact h.createServer_turn hpc hs
  all_goals
    simp only [stepMain, hpc, reduceCtorEq] at hs
  case tau.run | socket.run | eventfd.run | clock.run | poll.run | callback.run | call.run =>
    exact h.stepRun_turn hpc hs
  case tau.free     => exact h.stepFree_turn hpc hs
  case tau.initLoop port p =>
    have hl : s.pc.loop = some p := hpc ▸ rfl
    obtain ⟨l, hp⟩ := h.loop hl
    simp only [State.setStatus, hp, Option.map_some, Option.map_eq_map] at hs
    cases hs
    exact .assign hl hp (hpc ▸ .init)
  case tau.entered =>
    split at hs
    all_goals cases hs
    case h_1 ho => exact .reject hpc ho
    case h_2 hp => exact hj hpc <| .port hp
  all_goals cases hs
  case call.idle       => exact hj hpc .call
  case tau.hloopNew    => exact .new hpc
  case tau.initSigpipe => exact .sigpipe hpc
  case tau.setGLoop    => exact .setGLoop hpc
  case tau.setContinue => exact .setContinue hpc
  case tau.setSigint   => exact .setSigint hpc
  case tau.clearGLoop  => exact .leave hpc

theorem goto (h : Control s) (hl : pc.loop = s.pc.loop) (hg : pc.gLoop = s.pc.gLoop)
    (ha : ∀ {q l}, s.heap q = some l → pc.Allows l.status) : Control (s.goto pc) where
  gLoop    := h.gLoop.trans hg.symm
  heap q   := hl ▸ h.heap q
  status   := ha
  fresh hq := h.fresh (hl ▸ hg ▸ hq)

-- There is no loop but that of the call in progress.
theorem eq_of_heap {q : Ptr} {l : Hloop} (h : Control s) (hq : s.heap q = some l) : s.pc.loop = some q :=
  (h.heap q).mp (by simp [hq])

theorem setLoop {l : Hloop} (h : Control s) (hp : s.pc.loop = some p) (ha : s.pc.Allows l.status) :
    Control (s.setLoop p l) where
  gLoop := h.gLoop
  fresh := h.fresh
  heap q := by
    by_cases hq : q = p
    case pos => simp [State.setLoop, hq, hp]
    case neg => simpa [State.setLoop, hq] using h.heap q
  status {q l'} hl := by
    by_cases hq : q = p
    case pos =>
      have : l = l' := by simpa [State.setLoop, hq] using hl
      exact this ▸ ha
    case neg => exact h.status (by simpa [State.setLoop, hq] using hl)

theorem jump (h : Control s) (hj : Jump s a s.pc pc) : Control (s.goto pc) := by
  generalize hpc : s.pc = pc₀ at hj
  have hst {q l} (hq : s.heap q = some l) : pc₀.Allows l.status := hpc ▸ h.status hq
  have hn {q} (hn : pc₀.loop = none) : s.heap q = none := by
    have := (h.heap q).not.mpr (by simp [hpc, hn])
    simpa using this
  cases hj
  case call          => exact h.goto (hpc ▸ rfl) (hpc ▸ rfl) fun hq => by simp [hn rfl] at hq
  case port          => exact h.goto (hpc ▸ rfl) (hpc ▸ rfl) fun hq => by simp [hn rfl] at hq
  case stop p l hl ht =>
    refine h.goto (hpc ▸ rfl) (hpc ▸ rfl) fun {q l'} hq => ?_
    have hqp := (h.eq_of_heap hq).symm.trans (h.eq_of_heap hl)
    cases hqp
    cases hl.symm.trans hq
    exact ht
  all_goals exact h.goto (hpc ▸ rfl) (hpc ▸ rfl) hst

-- The pointers and the status that running code of the loop leaves behind.
theorem job {w w' : World} {pc₀ : Pc} (hj : Job a pc₀ w pc w') :
    pc.loop = pc₀.loop ∧ pc.gLoop = pc₀.gLoop ∧ ∀ st, pc₀.Allows st → pc.Allows st := by
  cases hj
  case server hne hpc =>
    subst hpc
    split
    all_goals exact ⟨rfl, rfl, fun _ => id⟩
  case clock hr =>
    cases hr
    case inl hr => exact hr ▸ ⟨rfl, rfl, fun _ => id⟩
    case inr hr => exact hr ▸ ⟨rfl, rfl, fun _ => id⟩
  case timers =>
    split
    all_goals exact ⟨rfl, rfl, fun _ => id⟩
  all_goals exact ⟨rfl, rfl, fun _ => id⟩

theorem signalled (h : Control s) (hs : Signalled s s') : Control s' where
  gLoop := by rw [hs.gLoop, hs.pc, h.gLoop]
  fresh := by
    rw [hs.pc, hs.nextPtr]
    exact h.fresh
  heap q := by
    rw [hs.pc, ←h.heap q]
    cases hs.heap q
    case inl hq => rw [hq]
    case inr hq =>
      obtain ⟨_, hq, hq'⟩ := hq
      simp [hq, hq']
  status {q l} hl := by
    rw [hs.pc]
    cases hs.heap q
    case inl hq => exact h.status (hq ▸ hl)
    case inr hq =>
      obtain ⟨_, _, hq⟩ := hq
      cases hq.symm.trans hl
      exact Pc.allows_stop

theorem assign {l : Hloop} {st : Status} (h : Control s) (hl : s.pc.loop = some p)
    (ha : Assign s.pc st pc) : Control ((s.setLoop p { l with status := st }).goto pc) := by
  have hpc : pc.loop = s.pc.loop ∧ pc.Allows st ∧ s.pc.loop = some p := by
    generalize s.pc = pc₀ at ha hl
    cases ha <;> simp_all [Pc.loop, Pc.Allows]
  have hg : pc.gLoop = s.pc.gLoop := by
    generalize s.pc = pc₀ at ha
    cases ha <;> rfl
  constructor
  case gLoop => exact h.gLoop.trans hg.symm
  case fresh => exact fun hq => h.fresh (hpc.left ▸ hg ▸ hq)
  case heap =>
    intro q
    simp only [State.goto, hpc.left]
    by_cases hq : q = p
    case pos => simp [State.setLoop, hq, hl]
    case neg => simpa [State.setLoop, hq] using h.heap q
  case status =>
    intro q l' hq
    by_cases hqp : q = p
    case pos =>
      have : { l with status := st } = l' := by simpa [State.goto, State.setLoop, hqp] using hq
      exact this ▸ hpc.right.left
    case neg =>
      have hq : s.heap q = some l' := by simpa [State.goto, State.setLoop, hqp] using hq
      exact absurd (Option.some.inj <| (h.eq_of_heap hq).symm.trans hl) hqp

theorem setWorld {l : Hloop} {w : World} (h : Control s) (hp : s.heap p = some l) :
    Control (s.setWorld p l w) :=
  have hst : s.pc.Allows l.status := h.status hp
  { h.setLoop (l := { l with data := w.loop }) (h.eq_of_heap hp) hst with }

-- There is no loop.
theorem of_none (hg : s.gLoop = none) (hpg : s.pc.gLoop = none) (hl : s.pc.loop = none)
    (hh : ∀ q, s.heap q = none) : Control s where
  gLoop    := hg.trans hpg.symm
  heap q   := by simp [hh, hl]
  status h := by simp [hh] at h
  fresh h  := by simp [hl, hpg] at h

theorem step (h : Control s) (ht : Turn s a s') : Control s' := by
  have hnone (hn : s.pc.loop = none) q : s.heap q = none := by
    simpa using (h.heap q).not.mpr (by simp [hn])
  cases ht
  case sigint hs      => exact h.signalled <| deliverSigint_signalled hs
  case jump hj        => exact h.jump hj
  case assign hl _ ha => exact h.assign hl ha
  case job w hl hp hj =>
    obtain ⟨hpl, hpg, hpa⟩ := job hj
    have h' := h.setWorld (w := w) hp
    exact h'.goto hpl hpg fun hq => hpa _ <| h'.status hq
  case reject hpc _   => exact .of_none (h.gLoop.trans (hpc ▸ rfl)) rfl rfl <| hnone (hpc ▸ rfl)
  case clear hpc      => exact .of_none rfl rfl rfl <| hnone (hpc ▸ rfl)
  case fail hpc _     => exact .of_none rfl rfl rfl <| hnone (hpc ▸ rfl)
  case leave hpc      => exact .of_none rfl rfl rfl <| hnone (hpc ▸ rfl)
  case new hpc        =>
    have hn := hnone (hpc ▸ rfl)
    refine ⟨h.gLoop.trans (hpc ▸ rfl), fun q => ?_, fun {q l} hl => ?_, fun {q} hq => ?_⟩
    case refine_1 =>
      by_cases hq : q = s.nextPtr
      case pos => simp [hq, Pc.loop]
      case neg => simp [hq, hn, Pc.loop, Ne.symm hq]
    case refine_2 =>
      by_cases hq : q = s.nextPtr
      case pos =>
        have : ({} : Hloop) = l := by simpa [hq] using hl
        exact this ▸ rfl
      case neg => simp [hq, hn] at hl
    case refine_3 =>
      have hq : q = s.nextPtr := by simpa [Pc.loop, Pc.gLoop, eq_comm] using hq
      exact hq ▸ Nat.lt_succ_self _
  case free p o hpc =>
    have hl : s.pc.loop = some p := hpc ▸ rfl
    refine ⟨h.gLoop.trans (hpc ▸ rfl), fun q => ?_, fun {q l} hq => ?_, fun hq => ?_⟩
    case refine_3 => exact h.fresh (.inr <| hpc ▸ hq.resolve_left (by simp [Pc.loop]))
    all_goals
      by_cases hqp : q = p
    case pos => simp [hqp, Pc.loop]
    case neg =>
      have hqn : s.heap q = none := by
        simpa using (h.heap q).not.mpr (by simp [hl, Ne.symm hqp])
      simp [hqp, hqn, Pc.loop]
    case pos => simp [hqp] at hq
    case neg =>
      have hq : s.heap q = some l := by simpa [hqp] using hq
      exact absurd (Option.some.inj <| (h.eq_of_heap hq).symm.trans hl) hqp
  case setGLoop port p hpc =>
    have hh q := hpc ▸ h.heap q
    have hst {q l} (hq : s.heap q = some l) := hpc ▸ h.status hq
    refine ⟨rfl, hh, hst, fun hq => h.fresh (.inl ?_)⟩
    rw [hpc]
    exact hq.elim id id
  all_goals
    rename_i hpc
    have hh q := hpc ▸ h.heap q
    have hst {q l} (hq : s.heap q = some l) := hpc ▸ h.status hq
    have hfr {q} := hpc ▸ h.fresh (q := q)
    exact ⟨h.gLoop.trans (hpc ▸ rfl), hh, hst, hfr⟩

end Control

section

variable {s s' : State} {a : Act}

namespace State

theorem cur_eq {p : Ptr} {l : Hloop} (hl : s.pc.loop = some p) (hp : s.heap p = some l) :
    s.cur = s.world l {} := by
  simp [cur, hl, hp]

theorem cur_of_none (hl : s.pc.loop = none) : s.cur = s.world {} {} := by
  simp [cur, hl]

theorem cur_congr {p : Ptr} {l l' : Hloop} (hl : s.pc.loop = some p) (hp : s.heap p = some l)
    (hl' : s'.pc.loop = some p) (hp' : s'.heap p = some l') (hd : l'.data = l.data)
    (hk : s'.kernel = s.kernel) (hi : s'.sId = s.sId) (ht : s'.trace = s.trace) : s'.cur = s.cur := by
  simp [cur_eq hl hp, cur_eq hl' hp', world, hd, hk, hi, ht]

theorem cur_congr_none (hl : s.pc.loop = none) (hl' : s'.pc.loop = none)
    (hk : s'.kernel = s.kernel) (hi : s'.sId = s.sId) (ht : s'.trace = s.trace) : s'.cur = s.cur := by
  simp [cur_of_none hl, cur_of_none hl', world, hk, hi, ht]

end State

theorem Jump.loop_eq {pc pc' : Pc} (h : Jump s a pc pc') : pc'.loop = pc.loop := by
  cases h <;> rfl

theorem Assign.loop_eq {pc pc' : Pc} {st : Status} (h : Assign pc st pc') : pc'.loop = pc.loop := by
  cases h <;> rfl

theorem Assign.stage {pc pc' : Pc} {st : Status} (h : Assign pc st pc') :
    pc'.stage = pc.stage ∨ pc'.stage = .stopped := by
  cases h
  case stop => exact .inr rfl
  all_goals exact .inl rfl

theorem Jump.stage {pc pc' : Pc} (h : Jump s a pc pc') :
    (pc'.stage = pc.stage ∨ pc'.stage = .stopped) ∨
      ∃ p i o l, pc = .free p (.ios i) o ∧ pc' = .free p .timers o ∧ a = .tau ∧
        s.heap p = some l ∧ ¬i < l.data.iosMaxsize := by
  cases h
  case freed hp hi => exact .inr ⟨_, _, _, _, rfl, rfl, rfl, hp, hi⟩
  all_goals exact .inl <| .inl rfl

-- The loop of the call in progress goes through the stages of its life.
theorem Turn.work (h : Control s) (ht : Turn s a s') : Work a s.pc s.cur s'.pc s'.cur := by
  have hskip {s' : State} (hpc : s'.pc.stage = s.pc.stage ∨ s'.pc.stage = .stopped) (hc : s'.cur = s.cur) :
      Work a s.pc s.cur s'.pc s'.cur := hc ▸ .skip hpc
  cases ht
  case sigint hs =>
    have hs := deliverSigint_signalled hs
    refine hskip (.inl <| hs.pc ▸ rfl) ?_
    cases hl : s.pc.loop
    case none => exact State.cur_congr_none hl (hs.pc ▸ hl) hs.kernel hs.sId hs.trace
    case some p =>
      obtain ⟨l, hp⟩ := h.loop hl
      cases hs.heap p
      case inl he =>
        exact State.cur_congr hl hp (hs.pc ▸ hl) (he.trans hp) rfl hs.kernel hs.sId hs.trace
      case inr he =>
        obtain ⟨_, hp', he⟩ := he
        cases hp.symm.trans hp'
        exact State.cur_congr hl hp (hs.pc ▸ hl) he rfl hs.kernel hs.sId hs.trace
  case jump pc hj =>
    have hc : (s.goto pc).cur = s.cur := by simp [State.cur, State.goto, hj.loop_eq, State.world]
    cases hj.stage
    case inl hst => exact hskip hst hc
    case inr hst =>
      obtain ⟨p, i, o, l, hpc, hpc', ha, hp, hi⟩ := hst
      have hcur := State.cur_eq (hpc ▸ rfl : s.pc.loop = some p) hp
      rw [hc, hpc, ha]
      exact hpc' ▸ .freed (hcur ▸ hi)
  case assign p l st pc hl hp ha =>
    have hp' : ((s.setLoop p { l with status := st }).goto pc).heap p = some { l with status := st } := by
      simp [State.goto, State.setLoop]
    have hc := State.cur_congr hl hp (ha.loop_eq.trans hl :) hp' rfl rfl rfl rfl
    exact hskip ha.stage hc
  case job p l pc w hl hp hj =>
    have hl' : ((s.setWorld p l w).goto pc).pc.loop = some p := (Control.job hj).left.trans hl
    have hc : ((s.setWorld p l w).goto pc).cur = w.settle := by
      rw [State.cur_eq hl' (l := { l with data := w.loop }) (by simp [State.goto, State.setWorld, State.setLoop])]
      rfl
    rw [hc, State.cur_eq hl hp]
    exact .job hj
  case free p o hpc =>
    have hl : s.pc.loop = some p := hpc ▸ rfl
    obtain ⟨l, hp⟩ := h.loop hl
    have hc : State.cur { s with heap := Function.update s.heap p none, pc := .free p .clear o } =
        { s.world l {} with loop := {} } := State.cur_of_none rfl
    rw [hc, State.cur_eq hl hp, hpc]
    exact .release
  case new port hpc =>
    refine hskip (.inl <| hpc ▸ rfl) ?_
    rw [State.cur_of_none (hpc ▸ rfl : s.pc.loop = none)]
    simp [State.cur, Pc.loop, State.world]
  case sigpipe | setGLoop | setContinue | setSigint =>
    rename_i hpc
    exact hskip (.inl <| hpc ▸ rfl) (by simp [State.cur, State.world, hpc, Pc.loop])
  all_goals
    have hpc := ‹s.pc = _›
    exact hskip (.inl <| hpc ▸ rfl) (State.cur_congr_none (hpc ▸ rfl) rfl rfl rfl rfl)

end

end Rlibhv
