import Rlibhv.Server.Theorems.Interrupt

-- The signal handlers over the calls of a process: what `handle_sigint` finds when it runs, and what
-- each call leaves behind.
namespace Rlibhv

variable {s s' : State} {a : Act} {pc pc' : Pc}

-- The action runs `handle_sigint`.
def Handles (s : State) (a : Act) : Prop :=
  a = .sigint ∧ s.sigint = .handleSigint

-- The loop that `g_loop` points to, if any, is allocated and its destruction has not begun.
def LoopAlive (s : State) : Prop :=
  ∀ p, s.gLoop = some p → ∃ l, s.heap p = some l ∧ l.status ≠ .destroy

-- `hloop_free` has set the status of the loop to HLOOP_STATUS_DESTROY and `g_loop` still points to it.
def Pc.Destroying : Pc → Prop
  | free _ .enter _ | free _ .setDestroy _ => False
  | free _ _ _                             => True
  | _                                      => False

-- As long as `handle_sigint` does not get in between.
structure Condemned (s : State) : Prop where
  control : Control s
  status  : s.pc.Destroying → ∀ {p l}, s.heap p = some l → l.status = .destroy

namespace Condemned

theorem not_destroying (h : Condemned s) (ha : LoopAlive s) : ¬s.pc.Destroying := by
  intro hd
  cases hpc : s.pc
  case free p r o =>
    obtain ⟨l, hl, hst⟩ := ha p <| h.control.gLoop.trans (hpc ▸ rfl)
    exact hst <| h.status hd hl
  all_goals
    rw [hpc] at hd
    exact hd

theorem sigint (h : Condemned s) (ha : Handles s .sigint → LoopAlive s)
    (hs : deliverSigint s = some s') : Condemned s' := by
  have hsig := deliverSigint_signalled hs
  refine ⟨h.control.signalled hsig, fun hd {p l} hl => ?_⟩
  rw [hsig.pc] at hd
  by_cases hh : s.sigint = .handleSigint
  case pos => exact absurd hd <| h.not_destroying <| ha ⟨rfl, hh⟩
  case neg =>
    -- Other handlers do not know of the loop.
    have he : s'.heap = s.heap := by
      simp only [deliverSigint] at hs
      split at hs
      case h_1    => simp at hs
      case h_3 he => exact absurd he hh
      all_goals
        cases hs
        rfl
    exact h.status hd (he ▸ hl)

end Condemned

theorem Jump.destroying (h : Jump s a pc pc') (hd : pc'.Destroying) : pc.Destroying := by
  cases h
  case freed => exact True.intro
  all_goals cases hd

theorem Job.destroying {w w' : World} (h : Job a pc w pc' w') (hd : pc'.Destroying) : pc.Destroying := by
  cases h
  case clear | free | timersFree | iowatcher | customEvents => exact True.intro
  case server hpc =>
    subst hpc
    split at hd
    all_goals cases hd
  all_goals cases hd

theorem Condemned.step (h : Condemned s) (ha : Handles s a → LoopAlive s)
    (hs : step s a = some s') : Condemned s' := by
  have ht := h.control.turn hs
  have hc := h.control.step ht
  cases ht
  case sigint hs => exact h.sigint ha hs
  case jump hj   => exact ⟨hc, fun hd _ _ hl => h.status (hj.destroying hd) hl⟩
  case job p l _ w hp hl hj =>
    refine ⟨hc, fun hd {q l'} hq => ?_⟩
    have hst := h.status (hj.destroying hd) hl
    by_cases hqp : q = p
    case pos =>
      have : { l with data := w.loop } = l' := by
        simpa [State.goto, State.setWorld, State.setLoop, hqp] using hq
      exact this ▸ hst
    case neg =>
      have hq : s.heap q = some l' := by simpa [State.goto, State.setWorld, State.setLoop, hqp] using hq
      exact h.status (hj.destroying hd) hq
  case assign p l st _ hp hl hj =>
    refine ⟨hc, fun hd {q l'} hq => ?_⟩
    have hst : st = .destroy := by
      generalize s.pc = pc₀ at hj
      cases hj
      case destroy => rfl
      all_goals cases hd
    by_cases hqp : q = p
    case pos =>
      have : { l with status := st } = l' := by simpa [State.goto, State.setLoop, hqp] using hq
      exact this ▸ hst
    case neg =>
      have hq : s.heap q = some l' := by simpa [State.goto, State.setLoop, hqp] using hq
      exact absurd (Option.some.inj <| (h.control.eq_of_heap hq).symm.trans hp) hqp
  case free p o hpc =>
    refine ⟨hc, fun _ {q l} hq => ?_⟩
    cases hc.eq_of_heap hq
  all_goals exact ⟨hc, fun hd => by cases hd⟩

theorem Control.loopAlive (h : Control s) (hd : ¬s.pc.Destroying) : LoopAlive s := by
  intro p hg
  rw [h.gLoop] at hg
  have hl : s.pc.loop = some p := by
    cases hpc : s.pc
    all_goals rw [hpc] at hg hd
    case free r o =>
      cases r
      case clear => exact (hd True.intro).elim
      all_goals exact hg
    all_goals first | exact hg | cases hg
  obtain ⟨l, hl⟩ := h.loop hl
  refine ⟨l, hl, fun hst => ?_⟩
  have ha := h.status hl
  rw [hst] at ha
  cases hpc : s.pc
  all_goals rw [hpc] at ha hd
  case free r o =>
    cases r
    case enter | setDestroy => cases ha
    all_goals exact hd True.intro
  case run r =>
    cases r
    all_goals simp [Pc.Allows] at ha
  all_goals cases ha

-- `handle_sigint` always finds a live loop or none at all, exactly if it never runs while `hloop_free`
-- destroys the loop. Between the calls, it finds none.
theorem handler_finds_live_loop_iff (sigint sigpipe : Disposition) (as : List Act) :
    (Machine.Along step (fun s a => Handles s a → LoopAlive s) (.init sigint sigpipe) as ↔
      Machine.Along step (fun s a => Handles s a → ¬s.pc.Destroying) (.init sigint sigpipe) as) ∧
    ∀ s, Machine.run step (.init sigint sigpipe) as = some s → s.pc = .idle → s.gLoop = none := by
  have hi : Condemned (.init sigint sigpipe) := ⟨Lawful.init.control, fun h => h.elim⟩
  refine ⟨⟨fun h => ?_, fun h => ?_⟩, fun s hr hpc => ?_⟩
  case refine_1 =>
    exact Machine.along_of_invariant (fun _ _ _ hi ha hs => hi.step ha hs)
      (fun _ _ hi ha hh => hi.not_destroying <| ha hh) h hi
  case refine_2 =>
    refine Machine.along_of_invariant (I := Condemned) (fun s a s' hi ha hs => ?_)
      (fun _ _ hi hd hh => hi.control.loopAlive <| hd hh) h hi
    exact hi.step (fun hh => hi.control.loopAlive <| ha hh) hs
  case refine_3 => exact (Lawful.run hr).control.gLoop.trans (hpc ▸ rfl)

-- SIGINT is delivered when `hloop_free` has freed the loop and `g_loop` still points to it.
def interruptedTeardown : List Act :=
  startup ++ .sigint :: .replicate 1034 .tau

theorem handler_finds_freed_loop : ∃ s s',
    Machine.run step (.init (.other 0) .dfl) interruptedTeardown = some s ∧ Handles s .sigint ∧
      s.gLoop = some 0 ∧ (s.heap 0).isNone ∧ ¬LoopAlive s ∧
      step s .sigint = some s' ∧ s'.useAfterFree = true := by
  have hr : (Machine.run step (.init (.other 0) .dfl) interruptedTeardown).map (fun s =>
      (s.sigint, s.gLoop, (s.heap 0).isNone, (step s .sigint).map (·.useAfterFree))) =
        some (.handleSigint, some 0, true, some true) := by
    decide +kernel
  obtain ⟨s, hs, he⟩ := Option.map_eq_some_iff.mp hr
  simp only [Prod.mk.injEq] at he
  obtain ⟨hh, hg, hn, he⟩ := he
  obtain ⟨s', hs', hu⟩ := Option.map_eq_some_iff.mp he
  refine ⟨s, s', hs, ⟨rfl, hh⟩, hg, hn, fun ha => ?_, hs', hu⟩
  obtain ⟨l, hl, _⟩ := ha 0 hg
  simp [hl] at hn

-- The call created a loop.
def Outcome.looped : Outcome → Bool
  | nil | createServerFailed _ => true
  | _                          => false

-- The call in progress has installed `handle_sigint`.
def Pc.served : Pc → Bool
  | run _ _ | clearGLoop => true
  | free _ _ o           => o == .nil
  | _                    => false

-- The call in progress has passed `hloop_init`.
def Pc.looped : Pc → Bool
  | initLoop _ _ | setGLoop _ _ | createServer _ _ | setContinue _ | setSigint _ => true
  | run _ _ | clearGLoop                                                         => true
  | free _ _ o                                                                   => o.looped
  | _                                                                            => false

-- The dispositions in `s`, where the calls since `s₀` have ended with the outcomes `os`.
structure Disposed (s₀ s : State) (os : List Outcome) : Prop where
  outcomes : s.outcomes = s₀.outcomes ++ os
  sigint   : s.sigint = if .nil ∈ os ∨ s.pc.served then .handleSigint else s₀.sigint
  sigpipe  : s.sigpipe = if os.any (·.looped) ∨ s.pc.looped then .ign else s₀.sigpipe

theorem Jump.served (h : Jump s a pc pc') : pc'.served = pc.served ∧ pc'.looped = pc.looped := by
  cases h <;> exact ⟨rfl, rfl⟩

theorem Assign.served {st : Status} (h : Assign pc st pc') :
    pc'.served = pc.served ∧ pc'.looped = pc.looped := by
  cases h <;> exact ⟨rfl, rfl⟩

theorem Job.served {w w' : World} (h : Job a pc w pc' w') :
    pc'.served = pc.served ∧ pc'.looped = pc.looped := by
  cases h
  case server hpc =>
    subst hpc
    split
    all_goals exact ⟨rfl, rfl⟩
  all_goals exact ⟨rfl, rfl⟩

theorem checkPort_error {sexp : Sexp} {o : Outcome} (h : checkPort sexp = .error o) :
    o ≠ .nil ∧ o.looped = false := by
  simp only [checkPort] at h
  split at h
  case h_1 =>
    cases h
    exact ⟨by simp, rfl⟩
  case h_2 =>
    split at h
    all_goals cases h
    exact ⟨by simp, rfl⟩

namespace Disposed

variable {s₀ : State} {os : List Outcome}

theorem goto (h : Disposed s₀ s os) (ho : s'.outcomes = s.outcomes) (hi : s'.sigint = s.sigint)
    (hp : s'.sigpipe = s.sigpipe) (hpc : s'.pc.served = s.pc.served ∧ s'.pc.looped = s.pc.looped) :
    Disposed s₀ s' os where
  outcomes := ho.trans h.outcomes
  sigint   := by rw [hi, hpc.left, h.sigint]
  sigpipe  := by rw [hp, hpc.right, h.sigpipe]

-- When a call is left, its outcome tells what the program counter told before.
theorem exit {o : Outcome} (h : Disposed s₀ s os) (hn : o = .nil ↔ s.pc.served = true)
    (hl : o.looped = s.pc.looped) : Disposed s₀ (s.exit o) (os ++ [o]) where
  outcomes := by simp [State.exit, h.outcomes]
  sigint   := by
    have hm : .nil ∈ os ++ [o] ↔ .nil ∈ os ∨ s.pc.served = true := by
      rw [List.mem_append, List.mem_singleton, ←hn, eq_comm]
    have hi := h.sigint
    simp only [←hm] at hi
    simpa [State.exit, Pc.served] using hi
  sigpipe  := by simpa [State.exit, Pc.looped, hl] using h.sigpipe

theorem turn (h : Disposed s₀ s os) (ht : Turn s a s') : ∃ os, Disposed s₀ s' os := by
  cases ht
  case sigint hs =>
    have hs := deliverSigint_signalled hs
    exact ⟨os, h.goto hs.outcomes hs.sigint hs.sigpipe (by simp [hs.pc])⟩
  case jump hj      => exact ⟨os, h.goto rfl rfl rfl hj.served⟩
  case job hj       => exact ⟨os, h.goto rfl rfl rfl hj.served⟩
  case assign _ _ hj => exact ⟨os, h.goto rfl rfl rfl hj.served⟩
  case reject hpc ho =>
    obtain ⟨hn, hl⟩ := checkPort_error ho
    exact ⟨_, h.exit (by simp [hn, hpc, Pc.served]) (by simp [hl, hpc, Pc.looped])⟩
  case sigpipe hpc =>
    refine ⟨os, h.outcomes, ?_, by simp [Pc.looped]⟩
    simpa [hpc, Pc.served] using h.sigint
  case setSigint hpc =>
    refine ⟨os, h.outcomes, by simp [Pc.served], ?_⟩
    simpa [hpc, Pc.looped] using h.sigpipe
  case new hpc | setGLoop hpc | setContinue hpc | free hpc | clear hpc =>
    exact ⟨os, h.goto rfl rfl rfl (hpc ▸ ⟨rfl, rfl⟩)⟩
  case fail p o hpc ho =>
    have h : Disposed s₀ { s with gLoop := none } os := h.goto rfl rfl rfl ⟨rfl, rfl⟩
    exact ⟨_, h.exit (by simp [hpc, Pc.served]) (by simp [hpc, Pc.looped])⟩
  case leave hpc =>
    have h := h.exit (o := .nil) (by simp [hpc, Pc.served]) (by simp [hpc, Pc.looped, Outcome.looped])
    exact ⟨_, h.goto rfl rfl rfl ⟨rfl, rfl⟩⟩

theorem run {as : List Act} (hc : Control s₀) (hpc : s₀.pc = .idle)
    (hr : Machine.run step s₀ as = some s) : ∃ os, Disposed s₀ s os := by
  have h₀ : Disposed s₀ s₀ [] := ⟨by simp, by simp [hpc, Pc.served], by simp [hpc, Pc.looped]⟩
  refine (Machine.run_invariant (I := fun s => Control s ∧ ∃ os, Disposed s₀ s os) (P := fun _ _ => True)
    ?_ .trivial hr ⟨hc, [], h₀⟩).right
  intro s a s' hi _ hs
  obtain ⟨hc, _, h⟩ := hi
  have ht := hc.turn hs
  exact ⟨hc.step ht, h.turn ht⟩

end Disposed

-- Between two states in which no call is in progress, SIGINT goes to `handle_sigint` from the first call
-- on that has run the loop, and SIGPIPE is ignored from the first call on that has created one. No
-- other call changes them. There is no loop that the handler could stop.
theorem dispositions_after_calls {s₀ s : State} {as₀ as : List Act} {sigint sigpipe : Disposition}
    (hr₀ : Machine.run step (.init sigint sigpipe) as₀ = some s₀) (hpc₀ : s₀.pc = .idle)
    (hr : Machine.run step s₀ as = some s) (hpc : s.pc = .idle) :
    ∃ os, s.outcomes = s₀.outcomes ++ os ∧
      s.sigint = (if .nil ∈ os then .handleSigint else s₀.sigint) ∧
      s.sigpipe = (if os.any (·.looped) then .ign else s₀.sigpipe) ∧
      ∀ s', step s .sigint = some s' → s' = { s with received := s.received ++ [s.sigint] } := by
  have hl₀ := Lawful.run hr₀
  obtain ⟨os, h⟩ := Disposed.run hl₀.control hpc₀ hr
  refine ⟨os, h.outcomes, ?_, ?_, fun s' hs => ?_⟩
  case refine_1 => simpa [hpc, Pc.served] using h.sigint
  case refine_2 => simpa [hpc, Pc.looped] using h.sigpipe
  case refine_3 =>
    have hl := Lawful.run <| Machine.run_append_iff.mpr ⟨s₀, hr₀, hr⟩
    have hg : s.gLoop = none := hl.control.gLoop.trans (hpc ▸ rfl)
    simp only [step, deliverSigint, handleSigint, hg] at hs
    split at hs
    all_goals cases hs
    all_goals simp [hg]

-- After a call that has served a client, SIGINT no longer reaches the handler of R, and SIGPIPE is ignored.
theorem echoSession_dispositions : ∃ s, Machine.run step (.init (.other 0) .dfl) echoSession = some s ∧
    s.pc = .idle ∧ s.outcomes = [.nil] ∧ s.sigint = .handleSigint ∧ s.sigpipe = .ign := by
  have hr : (Machine.run step (.init (.other 0) .dfl) echoSession).map (fun s => (s.pc, s.outcomes)) =
      some (.idle, [.nil]) := by
    decide +kernel
  obtain ⟨s, hs, he⟩ := Option.map_eq_some_iff.mp hr
  simp only [Prod.mk.injEq] at he
  obtain ⟨hpc, ho⟩ := he
  have h₀ : Machine.run step (.init (.other 0) .dfl) [] = some (.init (.other 0) .dfl) := rfl
  obtain ⟨os, ho', hi, hp, _⟩ := dispositions_after_calls h₀ rfl hs hpc
  have hos : os = [.nil] := by simpa [State.init, ho] using ho'.symm
  exact ⟨s, hs, hpc, ho, by simpa [hos] using hi, by simpa [hos, Outcome.looped] using hp⟩

theorem dispositions_not_restored : ∃ s, Machine.run step (.init (.other 0) .dfl) echoSession = some s ∧
    s.pc = .idle ∧ s.sigint ≠ (State.init (.other 0) .dfl).sigint ∧
      s.sigpipe ≠ (State.init (.other 0) .dfl).sigpipe ∧
      ∃ s', step s .sigint = some s' ∧ s'.received.getLast? = some .handleSigint := by
  have hr : (Machine.run step (.init (.other 0) .dfl) echoSession).map (fun s =>
      (s.pc, s.sigint, s.sigpipe, (step s .sigint).map (·.received.getLast?))) =
        some (.idle, .handleSigint, .ign, some (some .handleSigint)) := by
    decide +kernel
  obtain ⟨s, hs, he⟩ := Option.map_eq_some_iff.mp hr
  simp only [Prod.mk.injEq] at he
  obtain ⟨hpc, hi, hp, he⟩ := he
  exact ⟨s, hs, hpc, by simp [hi, State.init], by simp [hp, State.init], Option.map_eq_some_iff.mp he⟩

end Rlibhv
