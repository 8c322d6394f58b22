import Rlibhv.Server.Theorems.Lifecycle

-- Delivery of SIGINT while `handle_sigint` is installed.
namespace Rlibhv

-- `hloop_run` has set the status of its loop.
def RunPc.Started : RunPc → Prop
  | enter | setRunning => False
  | _                  => True

-- `hloop_free` has been called.
def Pc.Freeing : Pc → Prop
  | free _ _ _ => True
  | _          => False

-- The number of events that an iteration can have to handle.
def Loop.weight (l : Loop) : Nat :=
  (pendingOrder l).length + l.timers.length

-- A bound on the steps that `hloop_run` takes before it returns, once the status of the loop is
-- HLOOP_STATUS_STOP.
def RunPc.remaining (l : Loop) : RunPc → Nat
  | setStop       => 1
  | loop          => 2
  | eventfds      => 3
  | checkStop     => 3
  | pendings todo => todo.length + 3
  | ios           => 4
  | timers        => l.weight + 4
  | body          => l.weight + 5
  | _             => 0

-- The action starts an iteration of the loop at `p`.
def Iterates (p : Ptr) (s : State) (a : Act) : Prop :=
  s.pc = .run p .loop ∧ ∃ s', step s a = some s' ∧ s'.pc = .run p .body

-- Whatever happens from `s` on, no new iteration of the loop at `p` is started and `hloop_run`
-- returns: it takes only a bounded number of steps and it can always take the next one.
def Obeyed (p : Ptr) (s : State) : Prop :=
  ∃ n, ∀ as s', Machine.run step s as = some s' →
    Machine.Along step (fun s a => ¬Iterates p s a) s as ∧
    ((∃ r, s'.pc = .run p r) → (as.filter (· ≠ .sigint)).length < n ∧
      ∃ a ≠ .sigint, (step s' a).isSome)

section

variable {w : World}

theorem length_pendingOrder_expireTimer {t : Htimer} :
    (pendingOrder (expireTimer w t).loop).length = (pendingOrder w.loop).length + 1 := by
  simp [pendingOrder, expireTimer, World.setLoop]

theorem length_pendingOrder_foldl {ts : List Htimer} :
    (pendingOrder (ts.foldl expireTimer w).loop).length = (pendingOrder w.loop).length + ts.length := by
  induction ts generalizing w
  case nil => rfl
  case cons hi =>
    rw [List.foldl_cons, hi, length_pendingOrder_expireTimer, List.length_cons]
    omega

theorem length_pendingOrder_le :
    (pendingOrder (if ntimers w = 0 then w else hloopProcessTimers w).loop).length ≤ w.loop.weight := by
  simp only [Loop.weight]
  split
  case isTrue  => exact Nat.le_add_right _ _
  case isFalse =>
    rw [hloopProcessTimers, length_pendingOrder_foldl]
    exact Nat.add_le_add_left (List.length_filter_le ..) _

end

theorem RunPc.Started.pos {r : RunPc} {l : Loop} (h : r.Started) : 0 < r.remaining l := by
  cases r <;> simp [RunPc.remaining]
  all_goals cases h

-- The loop at `p` is being used.
def Pc.Uses (pc : Pc) (p : Ptr) : Prop :=
  pc.loop = some p ∨ pc.gLoop = some p

-- `hloop_run` on the loop at `p` has returned, or will do so within `n` steps.
inductive Halting (p : Ptr) : Nat → State → Prop
  | run {n s r l} : s.pc = .run p r → r.Started → s.heap p = some l → l.status = .stop →
    r.remaining l.data ≤ n → Halting p n s
  | done {n s} : p < s.nextPtr → (s.pc.Uses p → s.pc.Freeing) → Halting p n s

section

variable {s s' : State} {a : Act} {p : Ptr} {pc pc' : Pc} {w w' : World}

theorem Jump.uses (h : Jump s a pc pc') (hu : pc'.Uses p) : pc.Uses p ∧ (pc.Freeing → pc'.Freeing) := by
  cases h
  all_goals exact ⟨hu, id⟩

theorem Job.uses (h : Job a pc w pc' w') (hu : pc'.Uses p) : pc.Uses p ∧ (pc.Freeing → pc'.Freeing) := by
  obtain ⟨hl, hg, _⟩ := Control.job h
  refine ⟨by simpa [Pc.Uses, hl, hg] using hu, fun hf => ?_⟩
  cases h
  case clear | free | timersFree | iowatcher | customEvents => exact True.intro
  all_goals cases hf

theorem Assign.uses {st : Status} (h : Assign pc st pc') (hu : pc'.Uses p) :
    pc.Uses p ∧ (pc.Freeing → pc'.Freeing) := by
  cases h
  case running | stop | destroy => exact ⟨hu, fun _ => by trivial⟩
  case init => exact ⟨.inl <| hu.elim id (by simp [Pc.gLoop]), id⟩

-- A loop that has been created before does not come into use again.
theorem Turn.uses (h : Turn s a s') (hp : p < s.nextPtr) (hu : s'.pc.Uses p) :
    s.pc.Uses p ∧ (s.pc.Freeing → s'.pc.Freeing) := by
  cases h
  case jump hj       => exact hj.uses hu
  case job hj        => exact hj.uses hu
  case assign ha     => exact ha.uses hu
  case free hpc      => exact ⟨hpc ▸ .inr (hu.resolve_left (by simp [Pc.loop])), fun _ => True.intro⟩
  case sigint hs =>
    have hs := (deliverSigint_signalled hs).pc
    rw [hs] at hu ⊢
    exact ⟨hu, id⟩
  case new =>
    have : p = s.nextPtr := by simpa [Pc.Uses, Pc.loop, Pc.gLoop, eq_comm] using hu
    exact absurd hp (this ▸ Nat.lt_irrefl _)
  case setGLoop hpc =>
    rw [hpc]
    exact ⟨.inl (hu.elim id id), False.elim⟩
  case sigpipe hpc | setContinue hpc | setSigint hpc =>
    rw [hpc]
    exact ⟨hu, False.elim⟩
  all_goals exact absurd hu (by simp [Pc.Uses, State.goto, State.exit, Pc.loop, Pc.gLoop])

theorem Turn.nextPtr_le (h : Turn s a s') : s.nextPtr ≤ s'.nextPtr := by
  cases h
  case sigint hs => exact Nat.le_of_eq (deliverSigint_signalled hs).nextPtr.symm
  case new       => exact Nat.le_succ _
  all_goals exact Nat.le_refl _

end

namespace Halting

variable {s s' : State} {a : Act} {p : Ptr} {n : Nat}

theorem signalled (h : Halting p n s) (hs : Signalled s s') : Halting p n s' := by
  cases h
  case run r l hpc hr hl hst hn =>
    cases hs.heap p
    case inl he => exact .run (hs.pc.trans hpc) hr (he.trans hl) hst hn
    case inr he =>
      obtain ⟨l', hl', he⟩ := he
      cases hl.symm.trans hl'
      exact .run (hs.pc.trans hpc) hr he rfl hn
  case done hlt hf =>
    exact .done (hs.nextPtr ▸ hlt) (hs.pc ▸ hf)

theorem turn (h : Halting p n s) (hc : Control s) (ha : a ≠ .sigint) (ht : Turn s a s') :
    Halting p (n - 1) s' ∧ ((∃ r, s.pc = .run p r) → 0 < n) := by
  cases h
  case done hlt hf =>
    refine ⟨.done (Nat.lt_of_lt_of_le hlt ht.nextPtr_le) fun hu => ?_, ?_⟩
    case refine_1 =>
      obtain ⟨hu, hff⟩ := ht.uses hlt hu
      exact hff <| hf hu
    case refine_2 =>
      rintro ⟨r, hr⟩
      rw [hr] at hf
      exact (hf <| .inl rfl).elim
  case run r l hpc hr hl hst hn =>
    have hpos := Nat.lt_of_lt_of_le (hr.pos (l := l.data)) hn
    refine ⟨?_, fun _ => hpos⟩
    -- Each step uses up at least one of the remaining ones.
    have hrun {s' : State} {r' l'} (hpc : s'.pc = .run p r') (hr : r'.Started) (hl' : s'.heap p = some l')
        (hst : l'.status = .stop) (hlt : r'.remaining l'.data < r.remaining l.data) :
        Halting p (n - 1) s' :=
      .run hpc hr hl' hst <| Nat.le_sub_one_of_lt <| Nat.lt_of_lt_of_le hlt hn
    cases ht
    case sigint => exact absurd rfl ha
    case jump pc hj =>
      rw [hpc] at hj
      cases hj
      case enter          => exact hr.elim
      case stop           => exact hrun rfl True.intro hl hst (Nat.lt_succ_self _)
      case abort          => exact hrun rfl True.intro hl hst (Nat.lt_succ_self _)
      case body           => exact hrun rfl True.intro hl hst (by simp [RunPc.remaining])
      case iterate hne hl' => exact absurd (Option.some.inj (hl'.symm.trans hl) ▸ hst) hne
      case goOn hne hl'    => exact absurd (Option.some.inj (hl'.symm.trans hl) ▸ hst) hne
    case assign hlp hl' hj =>
      rw [hpc] at hj
      cases hj
      case running => exact hr.elim
      case stop    =>
        refine .done ?_ fun _ => True.intro
        exact hc.fresh (q := p) (.inl (hpc ▸ rfl))
    case job q l' pc w hlp hl' hj =>
      have hq : q = p := Option.some.inj <| hlp.symm.trans (hpc ▸ rfl)
      subst hq
      cases hl.symm.trans hl'
      have hh : ((s.setWorld q l w).goto pc).heap q = some { l with data := w.loop } := by
        simp [State.goto, State.setWorld, State.setLoop]
      rw [hpc] at hj
      cases hj
      case eventfds => exact hrun rfl True.intro hh hst (Nat.lt_succ_self _)
      case poll     => exact hrun rfl True.intro hh hst (Nat.lt_succ_self _)
      case finish   => exact hrun rfl True.intro hh hst (by simp [RunPc.remaining])
      case dispatch => exact hrun rfl True.intro hh hst (by simp [RunPc.remaining])
      case clock hr' =>
        cases hr'
        case inl hr => exact hr ▸ hrun rfl True.intro hh hst (by simp [RunPc.remaining])
        case inr hr => exact hr ▸ hrun rfl True.intro hh hst (Nat.lt_succ_self _)
      case timers hw =>
        have hle := hw ▸ length_pendingOrder_le (w := s.world l {})
        split
        case isTrue  => exact hrun rfl True.intro hh hst (by simp [RunPc.remaining])
        case isFalse => exact hrun rfl True.intro hh hst (Nat.add_lt_add_of_le_of_lt hle (by decide))
    all_goals
      have hpc' := ‹s.pc = _›
      cases hpc.symm.trans hpc'

theorem not_iterates (h : Halting p n s) (hc : Control s) : ¬Iterates p s a := by
  rintro ⟨hpc, s', hs, hpc'⟩
  cases h
  case done hf =>
    rw [hpc] at hf
    exact hf <| .inl rfl
  case run l _ hl hst _ =>
    cases hc.turn hs
    case sigint hs =>
      have hs := (deliverSigint_signalled hs).pc
      simp [hpc, hpc'] at hs
    case jump hj =>
      rw [hpc] at hj
      cases hj
      case stop          => cases hpc'
      case iterate hne hl' => exact absurd (Option.some.inj (hl'.symm.trans hl) ▸ hst) hne
    case assign hj =>
      rw [hpc] at hj
      cases hj
    case job hj =>
      rw [hpc] at hj
      cases hj
    all_goals
      have hpc' := ‹s.pc = _›
      cases hpc.symm.trans hpc'

theorem steps {as : List Act} (h : Halting p n s) (hl : Lawful s)
    (hr : Machine.run Rlibhv.step s as = some s') :
    Machine.Along Rlibhv.step (fun s a => ¬Iterates p s a) s as ∧ Lawful s' ∧
      Halting p (n - (as.filter (· ≠ .sigint)).length) s' := by
  induction as generalizing s n
  case nil =>
    cases hr
    exact ⟨True.intro, hl, h⟩
  case cons a as hi =>
    obtain ⟨s₁, hs, hr⟩ := Machine.run_cons_iff.mp hr
    have hn : Halting p (n - ([a].filter (· ≠ .sigint)).length) s₁ := by
      by_cases ha : a = .sigint
      case pos =>
        subst ha
        exact h.signalled <| deliverSigint_signalled hs
      case neg => simpa [ha] using (h.turn hl.control ha <| hl.control.turn hs).left
    obtain ⟨hal, hl', hh⟩ := hi hn (hl.step hs) hr
    refine ⟨⟨h.not_iterates hl.control, fun s₂ hs₂ => ?_⟩, hl', ?_⟩
    case refine_1 => exact Option.some.inj (hs.symm.trans hs₂) ▸ hal
    case refine_2 =>
      rw [Nat.sub_sub, ←List.length_append, ←List.filter_append] at hh
      exact hh

end Halting

-- `hloop_run` never gets stuck.
theorem hloopRun_progress {s : State} {p : Ptr} {r : RunPc} (h : Lawful s) (hpc : s.pc = .run p r) :
    ∃ a ≠ .sigint, (step s a).isSome := by
  obtain ⟨l, hl⟩ := h.control.loop (hpc ▸ rfl : s.pc.loop = some p)
  have hg : s.gLoop = some p := h.control.gLoop.trans (hpc ▸ rfl)
  have hstep (a : Act) (ha : a ≠ .sigint) (hs : (stepRun s p r a).isSome) :
      ∃ a ≠ .sigint, (step s a).isSome := by
    refine ⟨a, ha, ?_⟩
    cases a
    case sigint => exact absurd rfl ha
    all_goals simpa [step, stepMain, hpc] using hs
  cases r
  case eventfds =>
    -- There is always a descriptor that is not in use.
    have hp := h.good.phase
    rw [hpc] at hp
    obtain ⟨n, hn⟩ := Serving.room hp
    have hn : s.kernel.fds n = none := hn n (Nat.le_refl n)
    exact hstep (.eventfd n) (by simp) (by simp [stepRun, hn, hl, State.onLoop])
  case body =>
    refine hstep (.clock 0) (by simp) ?_
    simp only [stepRun, hl, State.onLoop, Option.map_some, Option.bind_eq_bind, Option.bind_some,
      Option.map_eq_map]
    split
    case isTrue  => rfl
    case isFalse => split <;> rfl
  case ios => exact hstep (.poll (.fail .intr) 0) (by simp) (by simp [stepRun, hl, State.onLoop])
  case pendings todo =>
    cases todo
    case nil  => exact hstep .tau (by simp) (by simp [stepRun, hl, State.onLoop])
    case cons => exact hstep (.callback {}) (by simp) (by simp [stepRun, hl, State.onLoop])
  case timers =>
    refine hstep .tau (by simp) ?_
    simp only [stepRun, hl, State.onLoop, Option.map_some, Option.bind_eq_bind, Option.bind_some]
    generalize (if ntimers (s.world l {}) = 0 then s.world l {} else hloopProcessTimers (s.world l {})) = w
    simp only [State.setWorld, State.setLoop, Function.update_self, Option.bind_some]
    split <;> rfl
  all_goals
    refine hstep .tau (by simp) ?_
    simp only [stepRun, hl, hg, State.setStatus, Option.map_some, Option.bind_eq_bind, Option.bind_some,
      Option.map_eq_map]
  case setRunning | setStop => rfl
  all_goals split <;> rfl

-- An interrupt that is delivered before `hloop_run` has set the status of the loop is lost: from there
-- on, the loop may be run as usual.
def Lost (p : Ptr) (s : State) : Prop :=
  ∃ as s', Machine.run step s as = some s' ∧
    ¬Machine.Along step (fun s a => ¬Iterates p s a) s as

section

variable {s s' : State} {a : Act} {p : Ptr}

theorem Lost.cons (hs : step s a = some s') (h : Lost p s') : Lost p s := by
  obtain ⟨as, s₂, hr, hn⟩ := h
  exact ⟨a :: as, s₂, Machine.run_cons_iff.mpr ⟨s', hs, hr⟩, fun h => hn <| h.tail hs⟩

theorem Lost.not_obeyed (h : Lost p s) : ¬Obeyed p s := by
  rintro ⟨n, ho⟩
  obtain ⟨as, s', hr, hn⟩ := h
  exact hn (ho as s' hr).left

theorem lost_loop {l : Hloop} (hpc : s.pc = .run p .loop) (hl : s.heap p = some l)
    (hst : l.status ≠ .stop) : Lost p s := by
  have hs : step s .tau = some (s.goto (.run p .body)) := by
    simp [step, stepMain, hpc, stepRun, hl, hst]
  refine ⟨[.tau], s.goto (.run p .body), by simp [Machine.run, hs], fun h => ?_⟩
  exact h.head ⟨hpc, _, hs, rfl⟩

theorem lost_eventfds {l : Hloop} (h : Lawful s) (hpc : s.pc = .run p .eventfds)
    (hl : s.heap p = some l) (hst : l.status ≠ .stop) : Lost p s := by
  have hp := h.good.phase
  rw [hpc] at hp
  obtain ⟨n, hn⟩ := Serving.room hp
  have hn : s.kernel.fds n = none := hn n (Nat.le_refl n)
  have hs : ∃ w, step s (.eventfd n) = some ((s.setWorld p l w).goto (.run p .loop)) := by
    simp [step, stepMain, hpc, stepRun, hn, hl, State.onLoop]
    exact ⟨_, rfl⟩
  obtain ⟨w, hs⟩ := hs
  refine .cons hs <| lost_loop rfl (l := { l with data := w.loop }) ?_ hst
  simp [State.goto, State.setWorld, State.setLoop]

theorem lost_setRunning (h : Lawful s) (hpc : s.pc = .run p .setRunning) : Lost p s := by
  obtain ⟨l, hl⟩ := h.control.loop (hpc ▸ rfl : s.pc.loop = some p)
  have hs : step s .tau = some ((s.setLoop p { l with status := .running }).goto (.run p .eventfds)) := by
    simp [step, stepMain, hpc, stepRun, hl, State.setStatus]
  refine .cons hs <| lost_eventfds (h.step hs) rfl (l := { l with status := .running }) ?_ (by simp)
  simp [State.goto, State.setLoop]

theorem lost_enter (h : Lawful s) (hpc : s.pc = .run p .enter) : Lost p s := by
  obtain ⟨l, hl⟩ := h.control.loop (hpc ▸ rfl : s.pc.loop = some p)
  have hg : s.gLoop = some p := h.control.gLoop.trans (hpc ▸ rfl)
  have hst : l.status = .stop := (hpc ▸ h.control.status hl :)
  have hs : step s .tau = some (s.goto (.run p .setRunning)) := by
    simp [step, stepMain, hpc, stepRun, hg, hl, hst]
  exact .cons hs <| lost_setRunning (h.step hs) rfl

theorem lost_setSigint (h : Lawful s) (hpc : s.pc = .setSigint p) : Lost p s := by
  have hs : step s .tau = some { s with sigint := .handleSigint, pc := .run p .enter } := by
    simp [step, stepMain, hpc]
  exact .cons hs <| lost_enter (h.step hs) rfl

theorem lost_setContinue (h : Lawful s) (hpc : s.pc = .setContinue p) : Lost p s := by
  have hs : step s .tau = some { s with continueRunning := true, pc := .setSigint p } := by
    simp [step, stepMain, hpc]
  exact .cons hs <| lost_setSigint (h.step hs) rfl

theorem lost_createServer {port : Int} (h : Lawful s) (hpc : s.pc = .createServer port p) : Lost p s := by
  have hl : s.pc.loop = some p := hpc ▸ rfl
  have hg : s.gLoop = some p := h.control.gLoop.trans (hpc ▸ rfl)
  obtain ⟨l, hh⟩ := h.control.loop hl
  have hp : s.cur.loop = {} := by
    have := h.good.phase
    rwa [hpc] at this
  have hn f : s.kernel.fds f = none :=
    h.good.sane.wf.closed (f := f) (by simp [hp]) (by simp [hp]) (by simp [hp])
  rw [State.cur_eq hl hh] at hp
  obtain ⟨hok, _⟩ := hloopCreateTcpServer_ok (f := 0) (e := 1) (w := s.world l { epoll := some 1 }) hp hn rfl
    (by simp)
  have hs : ∃ w, step s (.socket (.ok 0) 1) = some ((s.setWorld p l w).goto (.setContinue p)) := by
    refine ⟨(hloopCreateTcpServer (.ok 0) (s.world l { epoll := some 1 })).2, ?_⟩
    simp [step, stepMain, hpc, hg, hh, isFresh, hn, hok]
  obtain ⟨w, hs⟩ := hs
  exact .cons hs <| lost_setContinue (h.step hs) rfl

end

-- An interrupt is obeyed exactly if it comes after `hloop_run` has set the status of the loop.
theorem interrupt_obeyed_iff {s s₁ : State} {p : Ptr} {as : List Act} {sigint sigpipe : Disposition}
    (hr : Machine.run step (.init sigint sigpipe) as = some s) (hh : s.sigint = .handleSigint)
    (hg : s.gLoop = some p) (hf : ¬s.pc.Freeing) (hs : step s .sigint = some s₁) :
    Obeyed p s₁ ↔ ∃ r, s.pc = .run p r ∧ r.Started := by
  have h  := Lawful.run hr
  have h₁ := h.step hs
  have hsig := deliverSigint_signalled hs
  have hgp : s.pc.gLoop = some p := h.control.gLoop ▸ hg
  constructor
  case mpr =>
    rintro ⟨r, hpc, hst⟩
    obtain ⟨l, hl⟩ := h₁.control.loop (hsig.pc ▸ hpc ▸ rfl : s₁.pc.loop = some p)
    have hhalt : Halting p (r.remaining l.data) s₁ :=
      .run (hsig.pc.trans hpc) hst hl (hsig.stop hh hg hl) (Nat.le_refl _)
    refine ⟨r.remaining l.data, fun as' s' hr' => ?_⟩
    obtain ⟨hal, hlaw, hhalt'⟩ := hhalt.steps h₁ hr'
    refine ⟨hal, ?_⟩
    rintro ⟨r', hpc'⟩
    refine ⟨?_, hloopRun_progress hlaw hpc'⟩
    cases hhalt'
    case done hff =>
      rw [hpc'] at hff
      exact (hff <| .inl rfl).elim
    case run hpc₂ hst₂ _ _ hle =>
      exact Nat.lt_of_sub_pos <| Nat.lt_of_lt_of_le hst₂.pos hle
  case mp =>
    intro ho
    by_contra hn
    refine Lost.not_obeyed ?_ ho
    have hpc₁ := hsig.pc
    cases hpc : s.pc
    all_goals
      rw [hpc] at hgp hf hpc₁
      cases hgp
    case createServer => exact lost_createServer h₁ hpc₁
    case setContinue  => exact lost_setContinue h₁ hpc₁
    case setSigint    => exact lost_setSigint h₁ hpc₁
    case free         => exact (hf True.intro).elim
    case run r        =>
      cases r
      case enter      => exact lost_enter h₁ hpc₁
      case setRunning => exact lost_setRunning h₁ hpc₁
      all_goals exact (hn ⟨_, hpc, True.intro⟩).elim

theorem interrupt_obeyed_in_loop : ∃ s s₁,
    Machine.run step (.init (.other 0) .dfl) startup = some s ∧ s.pc = .run 0 .loop ∧
      step s .sigint = some s₁ ∧ Obeyed 0 s₁ := by
  have hr : (Machine.run step (.init (.other 0) .dfl) startup).map
      (fun s => (s.pc, s.sigint, s.gLoop, (step s .sigint).isSome)) =
        some (.run 0 .loop, .handleSigint, some 0, true) := by
    decide +kernel
  obtain ⟨s, hs, he⟩ := Option.map_eq_some_iff.mp hr
  simp only [Prod.mk.injEq] at he
  obtain ⟨hpc, hh, hg, he⟩ := he
  obtain ⟨s₁, hs₁⟩ := Option.isSome_iff_exists.mp he
  refine ⟨s, s₁, hs, hpc, hs₁, ?_⟩
  exact (interrupt_obeyed_iff hs hh hg (by simp [hpc, Pc.Freeing]) hs₁).mpr ⟨.loop, hpc, True.intro⟩

-- The handler runs just before `hloop_run` is entered, and an iteration is started all the same.
theorem interrupt_lost_at_enter : ∃ s s₁ s₂,
    Machine.run step (.init (.other 0) .dfl) (startup.take 9) = some s ∧
      s.sigint = .handleSigint ∧ s.gLoop = some 0 ∧ s.pc = .run 0 .enter ∧
      step s .sigint = some s₁ ∧ Machine.run step s₁ [.tau, .tau, .eventfd 5] = some s₂ ∧
      Iterates 0 s₂ .tau ∧ ¬Obeyed 0 s₁ := by
  have hr : (Machine.run step (.init (.other 0) .dfl) (startup.take 9)).map (fun s =>
      (s.sigint, s.gLoop, s.pc, (Machine.run step s [.sigint, .tau, .tau, .eventfd 5]).map (·.pc),
        (Machine.run step s [.sigint, .tau, .tau, .eventfd 5, .tau]).map (·.pc))) =
        some (.handleSigint, some 0, .run 0 .enter, some (.run 0 .loop), some (.run 0 .body)) := by
    decide +kernel
  obtain ⟨s, hs, he⟩ := Option.map_eq_some_iff.mp hr
  simp only [Prod.mk.injEq] at he
  obtain ⟨hh, hg, hpc, he₂, he₃⟩ := he
  obtain ⟨s₂, hr₂, hpc₂⟩ := Option.map_eq_some_iff.mp he₂
  obtain ⟨s₁, hs₁, hr₂⟩ := Machine.run_cons_iff.mp hr₂
  obtain ⟨s₃, hr₃, hpc₃⟩ := Option.map_eq_some_iff.mp he₃
  obtain ⟨_, hs₁', hr₃⟩ := Machine.run_cons_iff.mp hr₃
  cases hs₁.symm.trans hs₁'
  have hr₃ : Machine.run step s₁ ([.tau, .tau, .eventfd 5] ++ [.tau]) = some s₃ := hr₃
  obtain ⟨_, hr₂', hs₃⟩ := Machine.run_append_iff.mp hr₃
  cases hr₂.symm.trans hr₂'
  have hs₃ : step s₂ .tau = some s₃ := by simpa [Machine.run] using hs₃
  have hi : Iterates 0 s₂ .tau := ⟨hpc₂, s₃, hs₃, hpc₃⟩
  refine ⟨s, s₁, s₂, hs, hh, hg, hpc, hs₁, hr₂, hi, ?_⟩
  rintro ⟨n, ho⟩
  have hal := (ho _ s₃ hr₃).left
  exact (hal.append_right hr₂).head hi

end Rlibhv
