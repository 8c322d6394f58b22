import Rlibhv.Server.Theorems.Control
import Rlibhv.Event.Theorems.Dispatch

-- The life of the loop of a call, and of the connections of the server.
namespace Rlibhv

variable {K : Hio → Prop} {R : Fd → Hio → World → Prop} {a : Act} {pc pc' : Pc} {w w' : World}
  {ans : Answers}

theorem Sane.setAns (h : Sane w) (ans : Answers) : Sane { w with ans } :=
  ⟨{ h.wf with }, { h.chronicle with }⟩

theorem Conn.setAns_iff {f : Fd} {c : Serial} {io : Hio} : Conn f c io { w with ans } ↔ Conn f c io w :=
  ⟨fun h => { h with }, fun h => { h with }⟩

theorem Admin.setAns (h : Admin { w with ans } w') : Admin w w' :=
  { h with conns := fun hc => Conn.setAns_iff.mp (h.conns hc) }

theorem Rest.setAns : Rest w { w with ans } :=
  { Rest.refl with }

theorem Rest.effects (h : Rest w w') : Effects K R w w' :=
  .single <| .rest h

structure Good (pc : Pc) (w : World) : Prop where
  sane  : Sane w
  phase : Phase pc.stage w

-- A loop in use goes on by effects. When it is created or torn down, there are no new connections.
def Progress (w w' : World) : Prop :=
  Admin w w' ∨ Effects (fun _ => True) (fun _ _ _ => True) w w'

theorem dispatch_progress {e : Pending} (hw : Sane w)
    (hp : w.loop.iowatcher.isSome ∧ w.loop.eventfds.isSome) :
    Effects (fun _ => True) (fun _ _ _ => True) w (dispatch e w) :=
  have hd := dispatch_dispatched hw.wf .trivial hp fun _ _ _ _ _ _ => .of_forall fun _ => True.intro
  hd.effects hw (fun _ h => h.wf) (fun _ _ h he _ => h.effect he) (fun _ _ _ _ _ _ _ _ => .inr True.intro)
    fun _ _ _ _ _ _ => True.intro

-- The steps of a loop in use.
theorem Job.running (h : Job a pc w pc' w') (hs : pc.stage = .running) (hg : Good pc w) :
    pc'.stage = .running ∧ Effects (fun _ => True) (fun _ _ _ => True) w w' := by
  have hp : w.loop.iowatcher.isSome ∧ w.loop.eventfds.isSome := by
    have := hg.phase
    rwa [hs] at this
  cases h
  case server | eventfds | clear | free | timersFree | iowatcher | customEvents => cases hs
  case clock hr =>
    refine ⟨?_, (Rest.setAns.trans hloopUpdateTime_rest).effects⟩
    cases hr
    case inl hr => exact hr ▸ rfl
    case inr hr => exact hr ▸ rfl
  case poll =>
    refine ⟨rfl, Rest.effects <| Rest.trans ?_ hloopUpdateTime_rest⟩
    split
    case isTrue  => exact .setAns
    case isFalse => exact Rest.setAns.trans hloopProcessIos_rest
  case timers he =>
    refine ⟨?_, Rest.effects ?_⟩
    case refine_1 => split <;> rfl
    case refine_2 =>
      rw [he]
      split
      case isTrue  => exact .refl
      case isFalse => exact hloopProcessTimers_rest
  case dispatch => exact ⟨rfl, .head (.rest .setAns) <| dispatch_progress (hg.sane.setAns _) hp⟩
  case finish   => exact ⟨rfl, clearPendings_rest.effects⟩

theorem Job.good (h : Job a pc w pc' w') (hg : Good pc w) : Good pc' w' ∧ Progress w w' := by
  by_cases hs : pc.stage = .running
  case pos =>
    obtain ⟨hs', he⟩ := h.running hs hg
    have hp := hg.phase
    refine ⟨⟨he.invariant (fun _ _ h he => h.effect he) hg.sane, ?_⟩, .inr he⟩
    rw [hs] at hp
    rw [hs']
    have ho := he.outline
    exact ⟨ho.iowatcher ▸ hp.left, ho.eventfds ▸ hp.right⟩
  case neg =>
    obtain ⟨hw, hp⟩ := hg
    cases h
    case clock | poll | timers | dispatch | finish => exact absurd rfl hs
    case server r e _ _ hne hpc =>
      obtain ⟨hs, ha, hn, hsv⟩ := hloopCreateTcpServer_sane (r := r) (hw.setAns { epoll := some e }) hp rfl hne
      refine ⟨⟨hs, ?_⟩, .inl ha.setAns⟩
      rw [hpc]
      split
      case isTrue    => exact True.intro
      case isFalse h => exact hsv h
    case eventfds f p hf =>
      have hsv : Serving w := hp
      rw [if_pos ⟨hsv.intern, by simp [hsv.eventfds]⟩]
      have hsv' : Serving { w with ans := { eventfd := some f } } := { hsv with }
      have hwk := hloopCreateEventfds_woken (hw.setAns { eventfd := some f }).wf hsv' rfl hf
      obtain ⟨hs, ha⟩ := hwk.sane (hw.setAns _) hsv' hf
      exact ⟨⟨hs, hwk.iowatcher ▸ hsv.iowatcher, by simp [hwk.eventfds]⟩, .inl ha.setAns⟩
    case clear =>
      have hr := clearPendings_rest (w := w)
      exact ⟨⟨hw.effect (K := fun _ => True) (R := fun _ _ _ => True) <| .rest hr,
        fun f hf => absurd hf (Nat.not_lt_zero f)⟩, .inr hr.effects⟩
    case free i _ hi =>
      obtain ⟨hs, ha⟩ := hioFree_sane (f := i) hw
      obtain ⟨_, hr⟩ := hioFree_removed (f := i) hw.wf
      refine ⟨⟨hs, fun f hf => ?_⟩, .inl ha⟩
      cases Nat.lt_or_eq_of_le (Nat.le_of_lt_succ hf)
      case inl hlt => exact (hr.ios f (Nat.ne_of_lt hlt)).trans (hp f hlt)
      case inr heq => exact heq ▸ hr.iosSelf
    case timersFree =>
      obtain ⟨hs, ha⟩ := cleanupTimers_sane hw hp
      exact ⟨⟨hs, hp⟩, .inl ha⟩
    case iowatcher =>
      obtain ⟨hs, ha, hi, hn⟩ := iowatcherCleanup_sane hw hp
      exact ⟨⟨hs, hi, hn⟩, .inl ha⟩
    case customEvents =>
      obtain ⟨hs, ha, hi, hn, he⟩ := cleanupCustomEvents_sane hw hp.left hp.right
      exact ⟨⟨hs, hi, hn, he⟩, .inl ha⟩

theorem Good.skip (hg : Good pc w) (h : pc'.stage = pc.stage ∨ pc'.stage = .stopped) : Good pc' w := by
  refine ⟨hg.sane, ?_⟩
  cases h
  case inl h => exact h ▸ hg.phase
  case inr h => exact h ▸ True.intro

theorem Good.setAns (hg : Good pc w) : Good pc { w with ans } := by
  refine ⟨hg.sane.setAns _, ?_⟩
  have hp := hg.phase
  generalize pc.stage = st at hp
  cases st
  case serving => exact { (hp : Serving w) with }
  all_goals exact hp

theorem Progress.setAns (h : Progress w w') : Progress w { w' with ans } := by
  cases h
  case inl h => exact .inl { h with conns := fun hc => h.conns <| Conn.setAns_iff.mp hc }
  case inr h => exact .inr <| .tail h <| .rest .setAns

theorem Work.good (h : Work a pc w pc' w') (hg : Good pc w) : Good pc' w' ∧ Progress w w' := by
  cases h
  case skip h => exact ⟨hg.skip h, .inr .refl⟩
  case job h  =>
    obtain ⟨hg', hp⟩ := h.good hg
    exact ⟨hg'.setAns, hp.setAns⟩
  case freed hi =>
    have hp := hg.phase
    refine ⟨⟨hg.sane, fun f => ?_⟩, .inr .refl⟩
    cases hf : w.loop.ios f
    case none    => rfl
    case some io =>
      -- All ios are within the array, which has been gone through.
      have hlt := Nat.lt_of_lt_of_le (hg.sane.wf.bound hf) (Nat.le_of_not_lt hi)
      exact hf.symm.trans (hp f hlt)
  case release =>
    obtain ⟨hi, hn, he⟩ := hg.phase
    obtain ⟨hs, ha⟩ := hg.sane.release hi hn he
    exact ⟨⟨hs, rfl⟩, .inl ha⟩

theorem Progress.owned (h : Progress w w') (hw : Sane w) (ho : w.sId < 2 ^ 32 → Owned w)
    (hi : w'.sId < 2 ^ 32) : Owned w' := by
  cases h
  case inl h => exact (ho <| Nat.lt_of_le_of_lt h.sId hi).admin h
  case inr h =>
    refine (h.invariant (I := fun w => Sane w ∧ (w.sId < 2 ^ 32 → Owned w)) ?_ ⟨hw, ho⟩).right hi
    intro w w' ⟨hw, ho⟩ he
    exact ⟨hw.effect he, fun hi => (ho <| Nat.lt_of_le_of_lt he.outline.sId hi).effect hw.wf he hi⟩

-- What holds in all states that the code can reach.
structure Lawful (s : State) : Prop where
  control : Control s
  good    : Good s.pc s.cur
  owned   : s.sId < 2 ^ 32 → Owned s.cur

namespace Lawful

variable {s s' : State} {as : List Act} {sigint sigpipe : Disposition}

theorem init : Lawful (.init sigint sigpipe) := by
  have hc : (State.init sigint sigpipe).cur =
    { loop := {}, kernel := {}, sId := 0, trace := [], ans := {} } := rfl
  refine ⟨.of_none rfl rfl rfl fun _ => rfl, ⟨⟨?_, ?_⟩, rfl⟩, fun _ => ?_⟩
  case refine_1 => exact .of_closed rfl (fun _ => rfl) (by simp [hc])
  case refine_2 => exact ⟨fun h => by simp [hc] at h, fun h => by simp [hc] at h, fun _ => rfl⟩
  case refine_3 =>
    rw [hc]
    constructor
    case ids => exact fun _ _ _ h => by simpa using h.fds
    all_goals simp

theorem step (h : Lawful s) (hs : step s a = some s') : Lawful s' := by
  have ht := h.control.turn hs
  obtain ⟨hg, hp⟩ := (ht.work h.control).good h.good
  exact ⟨h.control.step ht, hg, hp.owned h.good.sane h.owned⟩

theorem run (hr : Machine.run Rlibhv.step (.init sigint sigpipe) as = some s) : Lawful s :=
  Machine.run_invariant (P := fun _ _ => True) (fun _ _ _ h _ hs => h.step hs) .trivial hr init

end Lawful

-- What the trace tells of a descriptor of kind `k` that has been opened and closed.
def Completed (d : Serial) (k : Kind) (t : List Event) : Prop :=
  match k with
  | .conn => ∃ ds err b, own d t =
    [.opened d .conn, .onAccept d] ++ ds ++ [.onClose d err b, .closed d] ∧ ∀ e ∈ ds, e.Data d
  | k     => own d t = [.opened d k, .closed d]

theorem completed_of_gone {d : Serial} {k : Kind} {t : List Event} (h : life d t = some .gone)
    (ho : .opened d k ∈ t) : Completed d k t := by
  have hm : .opened d k ∈ own d t := by simpa [own, Event.subject] using ho
  cases life_history h
  case inl hh =>
    obtain ⟨ds, err, b, ht, hd⟩ := hh
    have hk : k = .conn := by
      rw [ht] at hm
      simp only [List.cons_append, List.nil_append, List.mem_cons, List.mem_append] at hm
      obtain hm | hm | hm | hm | hm | hm := hm
      case inl => simpa using hm
      case inr.inr.inl => exact (hd _ hm).elim
      all_goals simp at hm
    subst hk
    exact ⟨ds, err, b, ht, hd⟩
  case inr hh =>
    obtain ⟨k', hk', ht⟩ := hh
    have hk : k = k' := by simpa [ht] using hm
    subst hk
    cases k
    case conn => exact absurd rfl hk'
    all_goals exact ht

theorem Chronicle.life_eq {d : Serial} (h : Chronicle w) : ∃ l, life d w.trace = some l := by
  by_cases hd : d < w.kernel.next
  case neg => exact ⟨_, h.unborn <| Nat.le_of_not_lt hd⟩
  case pos =>
    by_cases hf : ∃ f k, w.kernel.fds f = some ⟨d, k⟩
    case pos =>
      obtain ⟨f, k, hf⟩ := hf
      exact ⟨_, h.alive hf⟩
    case neg => exact ⟨_, h.gone hd fun f k he => hf ⟨f, k, he⟩⟩

-- Each connection goes through its callbacks in order, no posted close hits another connection, and
-- whenever no call is in progress all descriptors have been closed exactly once.
theorem descriptors_have_lifecycle {s : State} {as : List Act} {sigint sigpipe : Disposition}
    (hr : Machine.run step (.init sigint sigpipe) as = some s) (hi : s.sId < 2 ^ 32) :
    (∀ d, ∃ l : Life, l.History d (own d s.trace)) ∧
    (∀ p c, .closeEvent p c ∈ s.trace → c = none ∨ c = p) ∧
    (∀ f, .closeFailed f ∉ s.trace) ∧
    (s.pc = .idle → (∀ f, s.kernel.fds f = none) ∧
      ∀ d k, .opened d k ∈ s.trace → Completed d k s.trace) := by
  have h := Lawful.run hr
  have hc := h.good.sane.chronicle
  refine ⟨fun d => ?_, (h.owned hi).done, fun f => ?_, fun hpc => ?_⟩
  case refine_1 =>
    obtain ⟨l, hl⟩ := hc.life_eq (d := d)
    exact ⟨l, life_history hl⟩
  case refine_2 =>
    obtain ⟨l, hl⟩ := hc.life_eq (d := 0)
    exact closeFailed_not_mem hl
  case refine_3 =>
    have hp : s.cur.loop = {} := by simp [State.cur_of_none (hpc ▸ rfl : s.pc.loop = none), State.world]
    have hn f : s.kernel.fds f = none :=
      h.good.sane.wf.closed (f := f) (by simp [hp]) (by simp [hp]) (by simp [hp])
    refine ⟨hn, fun d k ho => completed_of_gone ?_ ho⟩
    refine hc.gone (Nat.lt_of_not_le fun hd => ?_) fun f k he => by
      have he : s.kernel.fds f = some ⟨d, k⟩ := he
      simp [hn f] at he
    -- Nothing is known of descriptors that have not been opened yet.
    have hu : own d s.trace = [] := life_history (hc.unborn hd)
    have hm : .opened d k ∈ own d s.trace := by simpa [own, Event.subject] using ho
    simp [hu] at hm

-- A call that serves one client: its steps up to the first iteration,
def startup : List Act :=
  [.call (.integer (some 8080)), .tau, .tau, .tau, .tau, .tau, .socket (.ok 3) 4, .tau, .tau, .tau,
    .tau, .eventfd 5]

-- an iteration in which `f` is reported and its callback gets the answers `ans`,
def iteration (f : Fd) (ans : Answers) : List Act :=
  [.tau, .clock 0, .poll (.ready [(f, { in' := true })]) 0, .tau, .tau, .callback ans, .tau]

-- and the end of the call after SIGINT.
def shutdown : List Act :=
  .sigint :: .replicate 1036 .tau

def echoSession : List Act :=
  startup ++ iteration 3 { accepts := [.fd 6] } ++
    iteration 6 { recv := .data [104, 105], sends := [.accepted 2] } ++
    iteration 6 { recv := .data [] } ++ shutdown

theorem echoSession_has_lifecycle : ∃ s, Machine.run step (.init (.other 0) .dfl) echoSession = some s ∧
    s.sId < 2 ^ 32 ∧ s.pc = .idle ∧ .opened 3 .conn ∈ s.trace ∧ Completed 3 .conn s.trace := by
  have hr : (Machine.run step (.init (.other 0) .dfl) echoSession).map
      (fun s => (s.sId, s.pc, decide (.opened 3 .conn ∈ s.trace))) = some (3, .idle, true) := by
    decide +kernel
  obtain ⟨s, hs, he⟩ := Option.map_eq_some_iff.mp hr
  simp only [Prod.mk.injEq, decide_eq_true_eq] at he
  obtain ⟨hi, hpc, ho⟩ := he
  have hi : s.sId < 2 ^ 32 := by simp [hi]
  exact ⟨s, hs, hi, hpc, ho, (descriptors_have_lifecycle hs hi).right.right.right hpc |>.right 3 .conn ho⟩

end Rlibhv
