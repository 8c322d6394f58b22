import Rlibhv.Event.Theorems.Expire
import Rlibhv.Library.Run

-- What holds of the timers in every run of the loop, whatever the application calls and when.
namespace Rlibhv.Timers

open Heap
open Hloop (Became SameLists)

variable {cal : Calendar} {s s' : State} {a : Act} {l l' : Hloop} {i j : Id} {t : Htimer} {o : Op}
variable {todo order order' : List Id} {now realNow : Nat} {times : List Int}

-- The timers that `hloop_process_pendings` is still going to dereference.
def State.linked (s : State) : List Id :=
  match s.phase with
  | .idle        => []
  | .visit todo  => todo
  | .call i todo => i :: todo

structure State.Inv (s : State) : Prop where
  wf      : s.loop.Wf
  nodup   : s.linked.Nodup
  pending : ∀ i t, s.loop.memory i = some t → t.pending = true → i ∈ s.linked
  bound   : ∀ i ∈ s.linked, i < s.loop.allocs
  called  : ∀ i ∈ s.calls, i < s.loop.allocs
  idle    : s.phase = .idle → s.loop.pendings .highest = [] ∧ s.loop.pendings .high = [] ∧
    s.loop.npendings = 0

-- Pointers that the application passes point at allocated timers.
def Op.Valid (l : Hloop) : Op → Prop
  | reset i _ | del i => (l.memory i).isSome
  | _                 => True

-- Nothing becomes pending.
structure Hloop.Calm (l l' : Hloop) : Prop where
  allocs  : l.allocs ≤ l'.allocs
  pending : ∀ i t', l'.memory i = some t' → t'.pending = true →
    ∃ t, l.memory i = some t ∧ t.pending = true
  lists   : SameLists l l'

namespace Hloop

theorem Calm.refl : Calm l l :=
  ⟨le_rfl, fun _ t ht hp => ⟨t, ht, hp⟩, ⟨rfl, rfl⟩⟩

theorem Became.calm {o : Option Htimer} (hb : Became i o l l') (hl : SameLists l l')
    (ho : ∀ t', o = some t' → t'.pending = true → ∃ t, l.memory i = some t ∧ t.pending = true) :
    Calm l l' where
  allocs := by rw [hb.allocs]; exact le_max_left _ _
  lists  := hl
  pending j t' ht hp := by
    by_cases hj : j = i
    · subst hj; exact ho t' (by rw [← ht, hb.eq]) hp
    · exact ⟨t', by rw [← ht, hb.eq_of_ne hj], hp⟩

end Hloop

theorem Htimer.reset_pending {cur timeoutMs : Nat} (h : (t.reset cur timeoutMs).pending = true) :
    t.pending = true := by
  rw [Htimer.reset] at h
  cases he : t.eventType <;> simp_all

-- What an operation may do to the timers.
inductive Op.Does (l l' : Hloop) : Op → Prop
  | refused {o : Op} : l' = l → (∀ i, o ≠ .del i) → Does l l' o
  | created {o : Op} {t : Htimer} : Became l.allocs (some t) l l' → t.pending = false →
    (∀ i, o ≠ .del i) → Does l l' o
  | reset {i : Id} {t : Htimer} {timeoutMs : Nat} : l.memory i = some t →
    Became i (some (t.reset l.curHrtime timeoutMs)) l l' → Does l l' (.reset i timeoutMs)
  | deleted {i : Id} {t : Htimer} : l.memory i = some t →
    Became i (if t.pending then some { t with active := false, destroy := true } else none) l l' →
    Does l l' (.del i)

theorem Op.apply_spec (cal : Calendar) (hw : l.Wf) (ho : o.Valid l) :
    ∃ l', o.apply cal l = some l' ∧ l'.Wf ∧ SameLists l l' ∧ o.Does l l' := by
  cases o
  case add timeoutMs repeat' now =>
    by_cases h : 0 < timeoutMs
    case pos =>
      obtain ⟨l', he, hw', hl, hb⟩ := htimerAdd_spec hw repeat' now h
      exact ⟨l', by rw [Op.apply, he]; rfl, hw', hl, .created hb rfl (by simp)⟩
    case neg =>
      have hn : htimerAdd timeoutMs repeat' now l = some (none, l) := by
        rw [htimerAdd, if_pos (by omega)]
      exact ⟨l, by rw [Op.apply, hn]; rfl, hw, ⟨rfl, rfl⟩, .refused rfl (by simp)⟩
  case addPeriod minute hour day week month repeat' tt =>
    by_cases h : minute > 59 ∨ hour > 23 ∨ day > 31 ∨ week > 6 ∨ month > 12
    case pos =>
      have hn : htimerAddPeriod cal minute hour day week month repeat' tt l = some (none, l) := by
        rw [htimerAddPeriod, if_pos h]
      exact ⟨l, by rw [Op.apply, hn]; rfl, hw, ⟨rfl, rfl⟩, .refused rfl (by simp)⟩
    case neg =>
      obtain ⟨l', he, hw', hl, hb⟩ := htimerAddPeriod_spec cal hw repeat' tt h
      exact ⟨l', by rw [Op.apply, he]; rfl, hw', hl, .created hb rfl (by simp)⟩
  case reset i timeoutMs =>
    obtain ⟨t, ht⟩ := Option.isSome_iff_exists.mp ho
    obtain ⟨l', he, hw', hl, hb⟩ := htimerReset_spec hw ht timeoutMs
    exact ⟨l', by rw [Op.apply, ht]; exact he, hw', hl, .reset ht hb⟩
  case del i =>
    obtain ⟨t, ht⟩ := Option.isSome_iff_exists.mp ho
    obtain ⟨l', he, hw', hl, hb⟩ := htimerDel_spec hw ht
    exact ⟨l', by rw [Op.apply, ht]; exact he, hw', hl, .deleted ht hb⟩

theorem Op.Does.calm (h : o.Does l l') (hl : SameLists l l') : l.Calm l' := by
  cases h
  case refused h _ => exact h ▸ .refl
  case created hb hp _ => exact hb.calm hl <| by rintro _ ⟨⟩ h; simp [hp] at h
  case reset ht hb =>
    refine hb.calm hl ?_
    rintro _ ⟨⟩ hp
    exact ⟨_, ht, Htimer.reset_pending hp⟩
  case deleted t ht hb =>
    refine hb.calm hl fun t' ht' _ => ⟨t, ht, ?_⟩
    by_contra hp
    simp [hp] at ht'

theorem Op.valid_of_apply (h : o.apply cal l = some l') : o.Valid l := by
  cases o
  case reset i _ => cases hm : l.memory i <;> simp_all [Op.apply, Op.Valid]
  case del i     => cases hm : l.memory i <;> simp_all [Op.apply, Op.Valid]
  all_goals trivial

theorem Op.does (hw : l.Wf) (h : o.apply cal l = some l') :
    l'.Wf ∧ SameLists l l' ∧ o.Does l l' := by
  obtain ⟨l'', he, hd⟩ := Op.apply_spec cal hw (Op.valid_of_apply h)
  obtain rfl := Option.some.inj (h.symm.trans he)
  exact hd

namespace State.Inv

theorem init : State.Inv {} where
  wf :=
    { fresh    := fun _ _ => rfl
      heaps    := fun _ => Represents.init
      ntimers  := rfl
      nactives := rfl
      ok       := by simp }
  nodup   := List.nodup_nil
  pending := by simp
  bound   := by simp [linked]
  called  := by simp
  idle    := fun _ => ⟨rfl, rfl, rfl⟩

theorem op (hi : s.Inv) (hw : l'.Wf) (hl : s.loop.Calm l') : State.Inv { s with loop := l' } where
  wf      := hw
  nodup   := hi.nodup
  pending i t ht hp := by
    obtain ⟨t', ht', hp'⟩ := hl.pending i t ht hp
    exact hi.pending i t' ht' hp'
  bound i h  := (hi.bound i h).trans_le hl.allocs
  called i h := (hi.called i h).trans_le hl.allocs
  idle h    := by
    have := hi.idle h
    simpa only [hl.lists.pendings, hl.lists.npendings] using this

-- The round of `i` is over.
theorem finish (hi : s.Inv) (hl : s.linked = i :: todo) (hm : s.loop.memory i = some t) :
    State.Inv { s with loop := finish i s.loop, phase := .visit todo } := by
  obtain ⟨hw, -, hb⟩ := finish_spec hi.wf hm
  have hnd := List.nodup_cons.mp (hl ▸ hi.nodup)
  have hle : s.loop.allocs ≤ (Timers.finish i s.loop).allocs := by
    rw [hb.allocs]; exact le_max_left _ _
  refine ⟨hw, hnd.2, fun j t' ht' hp => ?_, fun j hj => ?_,
    fun j hj => (hi.called j hj).trans_le hle, by simp⟩
  · by_cases hj : j = i
    · subst hj
      rw [hb.eq] at ht'
      split at ht' <;> simp_all
      subst ht'
      contradiction
    · rw [hb.eq_of_ne hj] at ht'
      exact (List.mem_cons.mp (hl ▸ hi.pending j t' ht' hp)).resolve_left hj
  · exact (hi.bound j (hl ▸ List.mem_cons_of_mem i hj)).trans_le hle

-- The callback of `i` is called.
theorem visit (hi : s.Inv) (hl : s.linked = i :: todo) :
    State.Inv { s with phase := .call i todo, calls := s.calls ++ [i] } where
  wf      := hi.wf
  nodup   := by have := hi.nodup; rwa [hl] at this
  pending := by have := hi.pending; rwa [hl] at this
  bound   := by have := hi.bound; rwa [hl] at this
  called j hj := by
    rcases List.mem_append.mp hj with hj | hj
    · exact hi.called j hj
    · exact hi.bound j (by rw [hl]; exact List.mem_cons.mpr (.inl (List.mem_singleton.mp hj)))
  idle    := by simp

theorem skip (hi : s.Inv) (hl : s.linked = i :: todo) (hm : s.loop.memory i = some t)
    (hp : t.pending = false) : State.Inv { s with phase := .visit todo } where
  wf      := hi.wf
  nodup   := (List.nodup_cons.mp (hl ▸ hi.nodup)).2
  pending j t' ht' hp' := by
    have hj : j ≠ i := by
      rintro rfl
      obtain rfl := Option.some.inj (hm.symm.trans ht')
      simp [hp] at hp'
    exact (List.mem_cons.mp (hl ▸ hi.pending j t' ht' hp')).resolve_left hj
  bound j hj := hi.bound j (hl ▸ List.mem_cons_of_mem i hj)
  called  := hi.called
  idle    := by simp

theorem done (hi : s.Inv) (hp : s.phase = .visit []) :
    State.Inv { s with
      loop  := { s.loop with pendings := fun _ => [], npendings := 0 }
      phase := .idle } where
  wf      := ⟨⟨hi.wf.fresh, hi.wf.heaps, hi.wf.ntimers, hi.wf.nactives⟩, hi.wf.ok⟩
  nodup   := List.nodup_nil
  pending i t ht h := by have := hi.pending i t ht h; simp [linked, hp] at this
  bound   := by simp [linked]
  called  := hi.called
  idle _  := ⟨rfl, rfl, rfl⟩

-- Between two iterations no timer is pending.
theorem not_pending (hi : s.Inv) (hp : s.phase = .idle) (ht : s.loop.memory i = some t) :
    t.pending = false := by
  by_contra h
  have := hi.pending i t ht (Bool.eq_true_of_not_eq_false h)
  simp [linked, hp] at this

end State.Inv

theorem hloopProcessEvents_spec (hw : l.Wf) (hq : ∀ i t, l.memory i = some t → t.pending = false)
    (h : hloopProcessEvents cal now realNow times l = some l') :
    l'.Wf ∧ ∃ order order',
      Hloop.ExpiresAll cal realNow times order order' { l with curHrtime := now } l' := by
  rw [hloopProcessEvents] at h
  split at h
  case isTrue hn =>
    obtain rfl := Option.some.inj h
    have hdue (c : Clock) (limit : Nat) : Hloop.due { l with curHrtime := now } c limit = ∅ := by
      refine Finset.eq_empty_of_forall_notMem fun i hi => ?_
      obtain ⟨t, ht, -, hd, -⟩ := (Hloop.mem_due (hw.updateTime now).fresh).mp hi
      have hlive : i ∈ l.those (!·.destroy) := (Hloop.mem_those hw.fresh).mpr ⟨t, ht, by simp [hd]⟩
      have := Finset.card_pos.mpr ⟨i, hlive⟩
      have := hw.ntimers
      simp only at hn
      omega
    refine ⟨hw.updateTime now, [], [], ?_⟩
    constructor
    all_goals simp [hdue]
  case isFalse =>
    obtain ⟨⟨n, times', l'⟩, he, rfl⟩ := Option.map_eq_some_iff.mp h
    exact hloopProcessTimers_spec (hw.updateTime now) hq he

theorem hloopProcessEvents_isSome (hw : l.Wf) (now : Nat) (he : l.Enough cal realNow times) :
    (hloopProcessEvents cal now realNow times l).isSome := by
  rw [hloopProcessEvents]
  split
  · rfl
  · rw [Option.isSome_map]
    exact hloopProcessTimers_isSome (hw.updateTime now) he

theorem Hloop.ExpiresAll.allocated (hx : l.ExpiresAll cal realNow times order order' l')
    (hi : i ∈ order ∨ i ∈ order') : ∃ t', l'.memory i = some t' := by
  rcases hi with hi | hi
  · obtain ⟨t', -, hm⟩ := hx.expired i hi
    exact ⟨t', hm⟩
  · obtain ⟨_, t', -, -, hm⟩ := hx.expired' i hi
    exact ⟨t', hm⟩

-- The order in which `hloop_process_pendings` visits the timers that have expired.
def visits (order order' : List Id) : Phase :=
  if order ++ order' = [] then .idle else .visit (order.reverse ++ order'.reverse)

theorem linked_visits (order order' : List Id) (s : State) :
    State.linked { s with phase := visits order order' } = order.reverse ++ order'.reverse := by
  simp only [visits, State.linked]
  split
  case h_1 h => split at h <;> simp_all
  case h_2 h => split at h <;> simp_all
  case h_3 h => split at h <;> simp_all

theorem State.Inv.events {order order' : List Id} (hi : s.Inv) (hp : s.phase = .idle) (hw : l'.Wf)
    (hx : Hloop.ExpiresAll cal realNow times order order' { s.loop with curHrtime := now } l') :
    State.Inv { s with loop := l', phase := visits order order' } := by
  obtain ⟨hhighest, hhigh, hn⟩ := hi.idle hp
  have hlinked := linked_visits order order' { s with loop := l' }
  have hmem (i : Id) : i ∈ order.reverse ++ order'.reverse ↔ i ∈ order ∨ i ∈ order' := by simp
  constructor
  case wf => exact hw
  case nodup =>
    rw [hlinked]
    have := List.nodup_append'.mp hx.nodup
    exact List.nodup_append'.mpr ⟨List.nodup_reverse.mpr this.1, List.nodup_reverse.mpr this.2.1,
      by simpa using this.2.2⟩
  case pending =>
    intro i t ht hpt
    rw [hlinked, hmem]
    by_contra hni
    rw [not_or] at hni
    rw [hx.same i hni.1 hni.2] at ht
    simp [hi.not_pending hp ht] at hpt
  case bound =>
    intro i h
    rw [hlinked, hmem] at h
    obtain ⟨t, ht⟩ := hx.allocated h
    exact Hloop.lt_allocs hw.fresh ht
  case called => exact fun i h => (hi.called i h).trans_le hx.allocs
  case idle =>
    intro h
    have hnil : order ++ order' = [] := by
      by_contra hne
      simp [visits, hne] at h
    obtain ⟨rfl, rfl⟩ := List.append_eq_nil_iff.mp hnil
    exact ⟨hx.highest.trans hhighest, hx.high.trans hhigh, hx.npendings.trans hn⟩

-- What a step may do.
inductive Step (cal : Calendar) (s : State) : Act → State → Prop
  | op {o : Op} {l' : Hloop} : l'.Wf → SameLists s.loop l' → o.Does s.loop l' →
    Step cal s (.op o) { s with loop := l' }
  | events {now realNow : Nat} {times : List Int} {order order' : List Id} {l' : Hloop} :
    s.phase = .idle → l'.Wf →
    Hloop.ExpiresAll cal realNow times order order' { s.loop with curHrtime := now } l' →
    Step cal s (.events now realNow times) { s with loop := l', phase := visits order order' }
  | done : s.phase = .visit [] → Step cal s .next { s with
    loop  := { s.loop with pendings := fun _ => [], npendings := 0 }
    phase := .idle }
  | skip {i : Id} {todo : List Id} {t : Htimer} : s.phase = .visit (i :: todo) →
    s.loop.memory i = some t → t.pending = false → Step cal s .next { s with phase := .visit todo }
  | call {i : Id} {todo : List Id} {t : Htimer} : s.phase = .visit (i :: todo) →
    s.loop.memory i = some t → t.pending = true → t.active = true →
    Step cal s .next { s with phase := .call i todo, calls := s.calls ++ [i] }
  | drop {i : Id} {todo : List Id} {t : Htimer} : s.phase = .visit (i :: todo) →
    s.loop.memory i = some t → t.active = false →
    Step cal s .next { s with loop := finish i s.loop, phase := .visit todo }
  | return {i : Id} {todo : List Id} {t : Htimer} : s.phase = .call i todo →
    s.loop.memory i = some t →
    Step cal s .return { s with loop := finish i s.loop, phase := .visit todo }

theorem step_cases (hi : s.Inv) (h : step cal s a = some s') : Step cal s a s' := by
  cases a
  case op o =>
    obtain ⟨l', he, rfl⟩ := Option.map_eq_some_iff.mp h
    obtain ⟨hw, hl, hd⟩ := Op.does hi.wf he
    exact .op hw hl hd
  case events now realNow times =>
    have hp : s.phase = .idle := by cases hp : s.phase <;> simp_all [step]
    simp only [step, hp] at h
    obtain ⟨l', he, rfl⟩ := Option.map_eq_some_iff.mp h
    obtain ⟨hw, order, order', hx⟩ := hloopProcessEvents_spec hi.wf (fun i t => hi.not_pending hp) he
    obtain ⟨hhighest, hhigh, hn⟩ := hi.idle hp
    have hph : (if l'.npendings = 0 then .idle
        else Phase.visit (l'.pendings .highest ++ l'.pendings .high)) = visits order order' := by
      have hl : l'.npendings = 0 ↔ order ++ order' = [] := by
        have := hx.npendings
        simp only [hn] at this
        rw [← List.length_eq_zero_iff, List.length_append]
        omega
      have h₁ : l'.pendings .highest = order.reverse := by simpa [hhighest] using hx.highest
      have h₂ : l'.pendings .high = order'.reverse := by simpa [hhigh] using hx.high
      simp only [visits, hl, h₁, h₂]
    rw [hph]
    exact .events hp hw hx
  case next =>
    cases hp : s.phase
    case visit todo =>
      cases todo
      case nil =>
        simp only [step, hp, Option.some.injEq] at h
        exact h ▸ .done hp
      case cons i todo =>
        cases ht : s.loop.memory i
        case none => simp [step, hp, ht] at h
        case some t =>
          simp only [step, hp, ht] at h
          split_ifs at h with hpt hat <;> obtain rfl := Option.some.inj h
          · exact .skip hp ht (by simpa using hpt)
          · exact .call hp ht (by simpa using hpt) hat
          · exact .drop hp ht (Bool.eq_false_of_not_eq_true hat)
    all_goals simp [step, hp] at h
  case «return» =>
    cases hp : s.phase
    case call i todo =>
      cases ht : s.loop.memory i
      case none => simp [step, hp, ht] at h
      case some t =>
        simp only [step, hp, ht] at h
        obtain rfl := Option.some.inj h
        exact .return hp ht
    all_goals simp [step, hp] at h

theorem State.linked_visit (hp : s.phase = .visit todo) : s.linked = todo := by
  rw [linked, hp]

theorem State.linked_call (hp : s.phase = .call i todo) : s.linked = i :: todo := by
  rw [linked, hp]

theorem State.Inv.step (hi : s.Inv) (h : Timers.step cal s a = some s') : s'.Inv := by
  cases step_cases hi h
  case op hw hl hd        => exact hi.op hw (hd.calm hl)
  case events hp hw hx    => exact hi.events hp hw hx
  case done hp            => exact hi.done hp
  case skip hp ht hpt     => exact hi.skip (linked_visit hp) ht hpt
  case call hp _ _ _      => exact hi.visit (linked_visit hp)
  case drop hp ht _       => exact hi.finish (linked_visit hp) ht
  case «return» hp ht     => exact hi.finish (linked_call hp) ht

variable {as : List Act}

theorem State.Inv.run (hr : Machine.run (Timers.step cal) s as = some s') (hi : s.Inv) : s'.Inv :=
  Machine.run_invariant (P := fun _ _ => True) (fun _ _ _ hi _ => hi.step) .trivial hr hi

-- What the loop's thread is able to do. Its rounds need the timers that they visit.
def State.Enabled (s : State) : Act → Prop
  | .op o      => o.Valid s.loop
  | .events .. => s.phase = .idle
  | .next      => ∃ todo, s.phase = .visit todo ∧ ∀ i ∈ todo.head?, (s.loop.memory i).isSome
  | .return    => ∃ i todo, s.phase = .call i todo ∧ (s.loop.memory i).isSome

-- In an iteration the time of day gets late enough.
def Act.Enough (cal : Calendar) (s : State) : Act → Prop
  | events _ realNow times => s.loop.Enough cal realNow times
  | _                      => True

theorem step_isSome (hi : s.Inv) (ha : s.Enabled a) (he : a.Enough cal s) :
    (step cal s a).isSome := by
  cases a
  case op o =>
    obtain ⟨l', he, -⟩ := Op.apply_spec cal hi.wf ha
    rw [step, he]
    rfl
  case events now realNow times =>
    rw [step, show s.phase = .idle from ha, Option.isSome_map]
    exact hloopProcessEvents_isSome hi.wf now he
  case next =>
    obtain ⟨todo, hp, hh⟩ := ha
    cases todo
    case nil => simp only [step, hp, Option.isSome_some]
    case cons i todo =>
      obtain ⟨t, ht⟩ := Option.isSome_iff_exists.mp (hh i rfl)
      simp only [step, hp, ht]
      split_ifs <;> rfl
  case «return» =>
    obtain ⟨i, todo, hp, hm⟩ := ha
    obtain ⟨t, ht⟩ := Option.isSome_iff_exists.mp hm
    simp [step, hp, ht]

-- Coordinated universal time, in January 1970.
def january : Calendar where
  localtime tt :=
    { tmSec   := tt % 60
      tmMin   := tt / 60 % 60
      tmHour  := tt / 3600 % 24
      tmMday  := tt / 86400 + 1
      tmMon   := 0
      tmYear  := 70
      tmWday  := (tt / 86400 + 4) % 7
      tmYday  := tt / 86400
      tmIsdst := 0 }
  mktime tm :=
    ((tm.tmMday - 1) * 86400 + tm.tmHour * 3600 + tm.tmMin * 60 + tm.tmSec,
      { tm with tmWday := (tm.tmMday + 3) % 7, tmYday := tm.tmMday - 1 })

-- A repeated timer that its callback resets, and a weekly one.
def resetByCallback : List Act :=
  [.op (.add 1 2 0), .op (.addPeriod 0 0 0 0 0 1 2), .events 1000 0 [], .next, .op (.reset 0 5),
    .return, .next]

-- Whatever is added, reset and deleted, and whenever: the heaps hold the timers that are going to
-- expire, with the earliest on top, the counters are right, between two iterations exactly these
-- timers are allocated, and nothing that the loop's thread does fails or hangs unless a timer that
-- it visits has been freed, or the time of day does not get late enough.
theorem timers_sound (hr : Machine.run (step cal) {} as = some s) :
    (∀ c, Represents s.loop.deadline (s.loop.heaps c) (s.loop.live c)) ∧
    s.loop.ntimers = (s.loop.those (!·.destroy)).card ∧
    s.loop.nactives = (s.loop.those (·.active)).card ∧
    (s.phase = .idle → ∀ i t, s.loop.memory i = some t → t.destroy = false ∧ t.active = true) ∧
    ∀ a, s.Enabled a → a.Enough cal s → (step cal s a).isSome := by
  have hi := State.Inv.run hr .init
  refine ⟨hi.wf.heaps, hi.wf.ntimers, hi.wf.nactives, fun hp i t ht => ?_, fun a => step_isSome hi⟩
  have hnp := hi.not_pending hp ht
  have hok := hi.wf.ok i t ht
  have hd : t.destroy = false := by
    by_contra hd
    simp [hok.destroy (Bool.eq_true_of_not_eq_false hd)] at hnp
  refine ⟨hd, ?_⟩
  by_contra hac
  simp [hok.active (Bool.eq_false_of_not_eq_true hac)] at hd

theorem resetByCallback_sound : ∃ s, Machine.run (step january) {} resetByCallback = some s ∧
    (∀ c, Represents s.loop.deadline (s.loop.heaps c) (s.loop.live c)) ∧
    (step january s (.events 6000 300000000000 [300001])).isSome := by
  have hr : ((Machine.run (step january) {} resetByCallback).filter fun s => s.phase = .idle ∧
      s.loop.Enough january 300000000000 [300001]).isSome := by decide +kernel
  obtain ⟨s, hs⟩ := Option.isSome_iff_exists.mp hr
  obtain ⟨hs, hp⟩ := Option.filter_eq_some_iff.mp hs
  have hp := of_decide_eq_true hp
  have h := timers_sound hs
  exact ⟨s, hs, h.1, h.2.2.2.2 (.events 6000 300000000000 [300001]) hp.1 hp.2⟩

-- A periodic timer that expires again and again, because `time` is behind the time of the loop.
def minutely : List Act :=
  [.op (.addPeriod (-1) (-1) (-1) (-1) (-1) 3 30)]

example : (Machine.run (step january) {}
    (minutely ++ [.events 30000000 60000355 [59, 59], .next, .return])).map
      (fun s => (s.calls, s.loop.ntimers)) = some ([0], 0) := by
  decide +kernel

-- All timers that the loop's thread is still going to visit are allocated.
def State.Safe (s : State) : Prop :=
  ∀ i ∈ s.linked, (s.loop.memory i).isSome

-- A timer is not deleted while it is linked but no longer pending, that is, after it has been reset
-- in the iteration in which it expired.
def Act.Proper (s : State) : Act → Prop
  | op (.del i) => i ∈ s.linked → (s.loop.timer i).pending = true
  | _           => True

instance : Decidable (a.Proper s) :=
  match a with
  | .op (.del i)                                                 =>
    inferInstanceAs <| Decidable (i ∈ s.linked → (s.loop.timer i).pending = true)
  | .op (.add ..) | .op (.addPeriod ..) | .op (.reset ..) | .events .. | .next | .return =>
    inferInstanceAs <| Decidable True

theorem Hloop.Became.isSome (hb : Became i (some t) l l') (h : (l.memory j).isSome) :
    (l'.memory j).isSome := by
  rw [hb.memory]
  by_cases hj : j = i
  · subst hj; simp
  · rwa [Function.update_of_ne hj]

-- The only operation that frees a timer is to delete one that is not pending.
theorem Op.does_safe (hi : s.Inv) (hs : s.Safe) (h : o.Does s.loop l') :
    Act.Proper s (.op o) ↔ State.Safe { s with loop := l' } := by
  have htrivial (ho : ∀ i, o ≠ .del i) : Act.Proper s (.op o) := by
    cases o
    case del i => exact absurd rfl (ho i)
    all_goals trivial
  cases h
  case refused h ho => exact iff_of_true (htrivial ho) (h ▸ hs)
  case created hb _ ho =>
    refine iff_of_true (htrivial ho) fun i h => ?_
    rw [hb.eq_of_ne (hi.bound i h).ne]
    exact hs i h
  case reset ht hb => exact iff_of_true trivial fun j hj => hb.isSome (hs j hj)
  case deleted i t ht hb =>
    rw [Act.Proper, Hloop.timer_eq ht]
    constructor
    case mp =>
      intro hp j hj
      show (l'.memory j).isSome
      by_cases hji : j = i
      · subst hji; rw [hb.eq, if_pos (hp hj)]; rfl
      · rw [hb.eq_of_ne hji]; exact hs j hj
    case mpr =>
      intro hs' hi'
      by_contra hp
      have hnone : (l'.memory i).isSome := hs' i hi'
      rw [hb.eq, if_neg hp] at hnone
      contradiction

theorem State.Safe.finish (hs : s.Safe) (hi : s.Inv) (hl : s.linked = i :: todo)
    (hm : s.loop.memory i = some t) {calls : List Id} :
    State.Safe { loop := finish i s.loop, phase := .visit todo, calls := calls } := by
  intro j hj
  obtain ⟨-, -, hb⟩ := finish_spec hi.wf hm
  have hji : j ≠ i := by
    rintro rfl
    exact (List.nodup_cons.mp (hl ▸ hi.nodup)).1 hj
  show ((Timers.finish i s.loop).memory j).isSome
  rw [hb.eq_of_ne hji]
  exact hs j (hl ▸ List.mem_cons_of_mem i hj)

theorem State.Safe.step (hs : s.Safe) (hi : s.Inv) (h : Timers.step cal s a = some s') :
    a.Proper s ↔ s'.Safe := by
  cases step_cases hi h
  case op _ _ hd => exact Op.does_safe hi hs hd
  case events order order' l' _ _ hx =>
    refine iff_of_true trivial fun i hm => ?_
    rw [linked_visits order order' { s with loop := l' }, List.mem_append, List.mem_reverse,
      List.mem_reverse] at hm
    exact Option.isSome_iff_exists.mpr (hx.allocated hm)
  case done => exact iff_of_true trivial fun _ hm => by simp [linked] at hm
  case skip hp _ _ =>
    exact iff_of_true trivial fun j hj => hs j (linked_visit hp ▸ List.mem_cons_of_mem _ hj)
  case call hp _ _ _ => exact iff_of_true trivial fun j hj => hs j (linked_visit hp ▸ hj)
  case drop hp ht _ => exact iff_of_true trivial (hs.finish hi (linked_visit hp) ht)
  case «return» hp ht => exact iff_of_true trivial (hs.finish hi (linked_call hp) ht)

theorem proper_iff (hi : s.Inv) (hs : s.Safe) :
    a.Proper s ↔ ∀ s', step cal s a = some s' → s'.Safe := by
  cases h : step cal s a
  case some s' => simp [hs.step hi h]
  case none =>
    refine iff_of_true ?_ (by simp)
    by_cases ha : ∃ i, a = .op (.del i)
    case pos =>
      obtain ⟨i, rfl⟩ := ha
      intro hl
      obtain ⟨l', he, -⟩ := Op.apply_spec cal hi.wf (show Op.Valid s.loop (.del i) from hs i hl)
      simp [step, he] at h
    case neg =>
      rw [not_exists] at ha
      rcases a with o | _ | _ | _
      · cases o <;> first | trivial | exact absurd rfl (ha _)
      all_goals trivial

-- The loop's thread never visits a timer that has been freed, if and only if the application does
-- not delete a timer that it has reset in the iteration in which it expired.
theorem visited_allocated_iff :
    Machine.Along (step cal) (fun s a => a.Proper s) {} as ↔
      Machine.Along (step cal) (fun s a => ∀ s', step cal s a = some s' → s'.Safe) {} as :=
  Machine.along_iff_of_invariant (I := State.Inv) (fun _ _ _ hi _ => hi.step)
    (fun _ _ hi hs _ => proper_iff hi hs) .trivial .init (by simp [State.Safe, State.linked])

-- The callback of the second timer deletes the first one right after it has reset it.
def resetThenDeleted : List Act :=
  [.op (.add 1 1 0), .op (.add 1 1 0), .events 1000 0 [], .next, .op (.reset 0 0), .op (.del 0),
    .return, .next]

theorem resetThenDeleted_visits_freed :
    ¬Machine.Along (step january)
      (fun s a => ∀ s', step january s a = some s' → s'.Safe) {} resetThenDeleted := by
  rw [← visited_allocated_iff]
  decide +kernel

end Rlibhv.Timers
