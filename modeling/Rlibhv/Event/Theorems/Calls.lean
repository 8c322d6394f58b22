import Rlibhv.Event.Theorems.Rounds

-- How often the callback of a timer is called in a run.
namespace Rlibhv.Timers

open Hloop (Became)

variable {cal : Calendar} {s s' s₁ : State} {a : Act} {l l' : Hloop} {i j : Id} {t t' : Htimer}
variable {o : Op} {as : List Act} {limit now : Nat} {times times' : List Int} {order order' : List Id}

def Act.Resets (i : Id) : Act → Prop
  | op (.reset j _) => j = i
  | _               => False

def State.calling (s : State) (i : Id) : Bool :=
  match s.phase with
  | .call j _ => j = i
  | _         => false

-- How often the callback of `i` may still be called: once for each expiration that is left, and
-- once if it has expired and has not been called yet.
def State.remaining (s : State) (i : Id) : Nat :=
  match s.loop.memory i with
  | none   => 0
  | some t => if t.active then t.repeat' + (t.pending && !s.calling i).toNat else 0

-- The timer counts down, or it is never called again.
def State.Counts (s : State) (i : Id) : Prop :=
  ∀ t, s.loop.memory i = some t → t.active = true →
    t.repeat' < infinite ∧ (t.destroy = false → 0 < t.repeat')

-- The number of calls that have been made and are left does not grow.
structure Spends (i : Id) (s s' : State) : Prop where
  counts : s'.Counts i
  calls  : s'.calls.count i + s'.remaining i ≤ s.calls.count i + s.remaining i

theorem Spends.refl (hc : s.Counts i) : Spends i s s :=
  ⟨hc, le_rfl⟩

theorem Spends.trans {s'' : State} (h : Spends i s s') (h' : Spends i s' s'') : Spends i s s'' :=
  ⟨h'.counts, h'.calls.trans h.calls⟩

-- Nothing happens to the timer itself.
theorem Spends.of_eq (hc : s.Counts i) (hm : s'.loop.memory i = s.loop.memory i)
    (hn : s'.calls.count i = s.calls.count i) (hp : s.calling i = true → s'.calling i = true) :
    Spends i s s' where
  counts t ht := hc t (hm ▸ ht)
  calls := by
    have hle : s'.remaining i ≤ s.remaining i := by
      rw [State.remaining, State.remaining, hm]
      split
      case h_1 => exact le_rfl
      case h_2 t ht =>
        cases hs : s.calling i
        case false => split <;> cases t.pending <;> cases s'.calling i <;> simp
        case true  => rw [hp hs]
    omega

-- The timer is freed or will not be called again.
theorem Spends.of_gone (hm : ∀ t, s'.loop.memory i = some t → t.active = false)
    (hn : s'.calls.count i = s.calls.count i) : Spends i s s' where
  counts t ht ha := by simp [hm t ht] at ha
  calls := by
    have hz : s'.remaining i = 0 := by
      rw [State.remaining]
      cases ht : s'.loop.memory i
      case none => rfl
      case some t => simp [hm t ht]
    omega

theorem countDown_eq {n : Nat} (hn : 0 < n) (hi : n < infinite) : countDown n = n - 1 := by
  have : infinite = 2 ^ 32 - 1 := rfl
  rw [countDown, if_neg hi.ne]
  omega

theorem Htimer.expire_counts (h : t.expire cal limit times = some (times', t')) (h0 : 0 < t.repeat')
    (hi : t.repeat' < infinite) :
    t'.repeat' < t.repeat' ∧ (t'.destroy = false → 0 < t'.repeat') := by
  rcases expire_cases h with ⟨-, -, rfl⟩ | ⟨next, -, hn, rfl⟩
  · exact ⟨h0, by simp⟩
  · rw [countDown_eq h0 hi] at hn ⊢
    exact ⟨by simp only; omega, fun _ => Nat.pos_of_ne_zero hn⟩

theorem Htimer.Expires.counts (h : t.Expires cal limit times t') (h0 : 0 < t.repeat')
    (hi : t.repeat' < infinite) :
    t'.repeat' < t.repeat' ∧ (t'.destroy = false → 0 < t'.repeat') := by
  induction h
  case last he _ => exact expire_counts he h0 hi
  case again he hd _ ih =>
    obtain ⟨hlt, hpos⟩ := expire_counts he h0 hi
    obtain ⟨hlt', hpos'⟩ := ih (hpos hd.1) (hlt.trans hi)
    exact ⟨hlt'.trans hlt, hpos'⟩

namespace Hloop.ExpiresAll

theorem due_of_mem (hx : l.ExpiresAll cal now times order order' l') (hf : l.Fresh)
    (hi : i ∈ order ∨ i ∈ order') : ∃ t, l.memory i = some t ∧ t.destroy = false := by
  rcases hi with hi | hi
  · obtain ⟨t, ht, -, hd, -⟩ := (mem_due hf).mp (hx.due ▸ List.mem_toFinset.mpr hi)
    exact ⟨t, ht, hd⟩
  · obtain ⟨t, ht, -, hd, -⟩ := (mem_due hf).mp (hx.due' ▸ List.mem_toFinset.mpr hi)
    exact ⟨t, ht, hd⟩

theorem counts (hx : l.ExpiresAll cal now times order order' l') (hi : i ∈ order ∨ i ∈ order')
    (ht : l.memory i = some t) (h0 : 0 < t.repeat') (hlt : t.repeat' < infinite) :
    ∃ t', l'.memory i = some t' ∧ t.Fired t' ∧ t'.repeat' < t.repeat' ∧
      (t'.destroy = false → 0 < t'.repeat') := by
  rcases hi with hi | hi
  · obtain ⟨t', he, hm⟩ := hx.expired i hi
    rw [timer_eq ht] at he
    exact ⟨t', hm, Htimer.expire_fired he, Htimer.expire_counts he h0 hlt⟩
  · obtain ⟨_, t', -, he, hm⟩ := hx.expired' i hi
    rw [timer_eq ht] at he
    exact ⟨t', hm, he.fired, he.counts h0 hlt⟩

end Hloop.ExpiresAll

-- The application calls something that is not a reset of the timer.
theorem Spends.op (hc : s.Counts i) (hb : i < s.loop.allocs) (hr : ¬Act.Resets i (.op o))
    (h : o.Does s.loop l') : Spends i s { s with loop := l' } := by
  have hnew {o : Option Htimer} {j : Id} (hb : Became j o s.loop l') (hj : i ≠ j) :
      Spends i s { s with loop := l' } := .of_eq hc (hb.eq_of_ne hj) rfl id
  cases h
  case refused h _ => exact h ▸ .refl hc
  case created hb' _ _ => exact hnew hb' hb.ne
  case reset j t timeoutMs ht hb' => exact hnew hb' <| Ne.symm hr
  case deleted j t ht hb' =>
    by_cases hj : i = j
    case neg => exact hnew hb' hj
    case pos =>
      subst hj
      refine .of_gone (fun t' ht' => ?_) rfl
      rw [show State.loop { s with loop := l' } = l' from rfl, hb'.eq] at ht'
      split at ht'
      · obtain rfl := Option.some.inj ht'; rfl
      · contradiction

theorem State.calling_of_idle (hp : s.phase = .idle) : s.calling i = false := by
  rw [State.calling, hp]

-- The timers that are due expire, and this one may be among them.
theorem Spends.events {realNow : Nat} (hi : s.Inv) (hp : s.phase = .idle) (hc : s.Counts i)
    (hx : Hloop.ExpiresAll cal realNow times order order' { s.loop with curHrtime := now } l') :
    Spends i s { s with loop := l', phase := visits order order' } := by
  have hcall : State.calling { s with loop := l', phase := visits order order' } i = false := by
    simp only [State.calling, visits]
    split <;> split at * <;> simp_all
  by_cases hmem : i ∈ order ∨ i ∈ order'
  case neg =>
    rw [not_or] at hmem
    exact .of_eq hc (hx.same i hmem.1 hmem.2) rfl (by simp [State.calling_of_idle hp])
  case pos =>
    obtain ⟨t, ht, hd⟩ := hx.due_of_mem hi.wf.fresh hmem
    have ht : s.loop.memory i = some t := ht
    have ha : t.active = true := by
      by_contra ha
      simp [(hi.wf.ok i t ht).active (Bool.eq_false_of_not_eq_true ha)] at hd
    obtain ⟨hlt, hpos⟩ := hc t ht ha
    obtain ⟨t', hm, hf, hlt', hpos'⟩ := hx.counts hmem ht (hpos hd) hlt
    constructor
    case counts =>
      intro t'' ht'' _
      obtain rfl := Option.some.inj (hm.symm.trans ht'')
      exact ⟨hlt'.trans hlt, hpos'⟩
    case calls =>
      simp only [State.remaining, hm, ht, hf.active, ha, hf.pending, hcall, hi.not_pending hp ht]
      simp
      omega

-- The round of a timer is over.
theorem Spends.finish (hi : s.Inv) (hc : s.Counts i) (hm : s.loop.memory j = some t)
    (hj : i = j → s.calling i = true ∨ t.active = false) (hj' : i ≠ j → s.calling i = false)
    {todo : List Id} : Spends i s { s with loop := finish j s.loop, phase := .visit todo } := by
  obtain ⟨-, -, hb⟩ := finish_spec hi.wf hm
  by_cases hji : i = j
  case neg => exact .of_eq hc (hb.eq_of_ne hji) rfl (by simp [hj' hji])
  case pos =>
    subst hji
    by_cases hd : t.destroy = true ∨ t.active = false
    case pos =>
      refine .of_gone (fun t' ht' => ?_) rfl
      rw [show State.loop { s with loop := _, phase := _ } = _ from rfl, hb.eq] at ht'
      split at ht'
      · contradiction
      · obtain rfl := Option.some.inj ht'
        exact hd.resolve_left ‹_›
    case neg =>
      rw [not_or, Bool.not_eq_true, Bool.not_eq_false] at hd
      rw [hd.1, if_neg Bool.false_ne_true] at hb
      have hcall := (hj rfl).resolve_right (by simp [hd.2])
      constructor
      case counts =>
        intro t' ht' ha
        obtain rfl := Option.some.inj (hb.eq.symm.trans ht')
        obtain ⟨hlt, hpos⟩ := hc t hm ha
        exact ⟨hlt, fun _ => hpos hd.1⟩
      case calls =>
        simp only [State.remaining, hm, hb.eq, hcall, hd.2]
        simp

-- The callback of a timer is called.
theorem Spends.call (hc : s.Counts i) (hm : s.loop.memory j = some t) (hpt : t.pending = true)
    (hat : t.active = true) (hcall : s.calling i = false) {todo : List Id} :
    Spends i s { s with phase := .call j todo, calls := s.calls ++ [j] } := by
  by_cases hij : i = j
  case neg =>
    refine .of_eq hc rfl ?_ (by simp [hcall])
    rw [List.count_append, List.count_singleton, if_neg (by simpa using Ne.symm hij), Nat.add_zero]
  case pos =>
    subst hij
    refine ⟨hc, ?_⟩
    have hcall' :
        State.calling { s with phase := .call i todo, calls := s.calls ++ [i] } i = true := by
      simp [State.calling]
    simp only [State.remaining, hm, hat, hpt, hcall, hcall', List.count_append]
    simp
    omega

theorem State.calling_of_visit {todo : List Id} (hp : s.phase = .visit todo) :
    s.calling i = false := by
  rw [State.calling, hp]

theorem Spends.step (hi : s.Inv) (hc : s.Counts i) (hb : i < s.loop.allocs) (ha : ¬a.Resets i)
    (h : Timers.step cal s a = some s') : Spends i s s' := by
  cases step_cases hi h
  case op _ _ hd       => exact .op hc hb ha hd
  case events hp _ hx  => exact .events hi hp hc hx
  case done hp         => exact .of_eq hc rfl rfl (by simp [State.calling_of_visit hp])
  case skip hp _ _     => exact .of_eq hc rfl rfl (by simp [State.calling_of_visit hp])
  case call hp ht hpt hat => exact .call hc ht hpt hat (State.calling_of_visit hp)
  case drop hp ht hat  =>
    exact .finish hi hc ht (fun _ => .inr hat) fun _ => State.calling_of_visit hp
  case «return» hp ht  =>
    refine .finish hi hc ht (fun hij => .inl ?_) fun hij => ?_
    · simp [State.calling, hp, hij]
    · simp [State.calling, hp, Ne.symm hij]

-- Neither timers nor calls are forgotten.
structure Extends (s s' : State) : Prop where
  allocs : s.loop.allocs ≤ s'.loop.allocs
  calls  : s.calls <+: s'.calls

theorem Extends.step (hi : s.Inv) (h : Timers.step cal s a = some s') : Extends s s' := by
  cases step_cases hi h
  case op _ hl hd       => exact ⟨(hd.calm hl).allocs, List.prefix_rfl⟩
  case events _ _ hx    => exact ⟨hx.allocs, List.prefix_rfl⟩
  case done             => exact ⟨le_rfl, List.prefix_rfl⟩
  case skip             => exact ⟨le_rfl, List.prefix_rfl⟩
  case call             => exact ⟨le_rfl, List.prefix_append _ _⟩
  case drop _ ht _      => exact ⟨(finish_spec hi.wf ht).2.2.allocs ▸ le_max_left _ _, List.prefix_rfl⟩
  case «return» _ ht    => exact ⟨(finish_spec hi.wf ht).2.2.allocs ▸ le_max_left _ _, List.prefix_rfl⟩

theorem Extends.run (hr : Machine.run (Timers.step cal) s as = some s') (hi : s.Inv) :
    Extends s s' := by
  induction as generalizing s
  case nil => simp at hr; exact hr ▸ ⟨le_rfl, List.prefix_rfl⟩
  case cons a as ih =>
    obtain ⟨s₁, hs, hr⟩ := Machine.run_cons_iff.mp hr
    have h₁ := Extends.step hi hs
    have h₂ := ih hr (hi.step hs)
    exact ⟨h₁.allocs.trans h₂.allocs, h₁.calls.trans h₂.calls⟩

theorem Spends.run (h : ∀ a ∈ as, ¬a.Resets i) (hr : Machine.run (Timers.step cal) s as = some s')
    (hi : s.Inv) (hc : s.Counts i) (hb : i < s.loop.allocs) : Spends i s s' := by
  induction as generalizing s
  case nil => simp at hr; exact hr ▸ .refl hc
  case cons a as ih =>
    obtain ⟨s₁, hs, hr⟩ := Machine.run_cons_iff.mp hr
    obtain ⟨ha, has⟩ := List.forall_mem_cons.mp h
    have h₁ := Spends.step hi hc hb ha hs
    have h₂ := Extends.step hi hs
    exact h₁.trans <| ih has hr (hi.step hs) h₁.counts (hb.trans_le h₂.allocs)

-- The repetitions of the timer that is added.
def Op.adds : Op → Option Nat
  | add timeoutMs repeat' _ => if timeoutMs = 0 then none else some repeat'
  | addPeriod minute hour day week month repeat' _ =>
    if minute > 59 ∨ hour > 23 ∨ day > 31 ∨ week > 6 ∨ month > 12 then none else some repeat'
  | _ => none

theorem Op.adds_spec (cal : Calendar) (hw : l.Wf) {n : Nat} (h : o.adds = some n) :
    ∃ l' t, o.apply cal l = some l' ∧ Became l.allocs (some t) l l' ∧ t.repeat' = n ∧
      t.active = true ∧ t.pending = false := by
  cases o
  case add timeoutMs repeat' now =>
    simp only [adds] at h
    split at h
    · contradiction
    · obtain rfl := Option.some.inj h
      obtain ⟨l', he, -, -, hb⟩ := htimerAdd_spec hw repeat' now (by omega : 0 < timeoutMs)
      exact ⟨l', _, by rw [apply, he]; rfl, hb, rfl, rfl, rfl⟩
  case addPeriod minute hour day week month repeat' tt =>
    simp only [adds] at h
    split at h
    case isTrue => contradiction
    case isFalse hn =>
      obtain rfl := Option.some.inj h
      obtain ⟨l', he, -, -, hb⟩ := htimerAddPeriod_spec cal hw repeat' tt hn
      exact ⟨l', _, by rw [apply, he]; rfl, hb, rfl, rfl, rfl⟩
  all_goals contradiction

-- A timer with a finite number of repetitions is called at most that often, unless it is reset.
theorem calls_le_repeat (hs : Machine.run (step cal) {} as = some s) {repeat' : Nat}
    (ho : o.adds = some repeat') (h0 : 0 < repeat') (hi : repeat' < infinite) {bs : List Act}
    (hb : ∀ a ∈ bs, ¬a.Resets s.loop.allocs)
    (hs' : Machine.run (step cal) s (.op o :: bs) = some s') :
    s'.calls.count s.loop.allocs ≤ repeat' := by
  have hinv := State.Inv.run hs .init
  obtain ⟨s₁, he, hr⟩ := Machine.run_cons_iff.mp hs'
  obtain ⟨l', t, hadd, hbe, hrep, hact, hpen⟩ := Op.adds_spec cal hinv.wf ho
  have he' : step cal s (.op o) = some { s with loop := l' } := by rw [step, hadd]; rfl
  obtain rfl := Option.some.inj (he'.symm.trans he)
  have hcount : s.calls.count s.loop.allocs = 0 :=
    List.count_eq_zero.mpr fun hm => lt_irrefl _ (hinv.called _ hm)
  have hc : State.Counts { s with loop := l' } s.loop.allocs := by
    intro t' ht' _
    obtain rfl := Option.some.inj (hbe.eq.symm.trans ht')
    exact ⟨hrep ▸ hi, fun _ => hrep ▸ h0⟩
  have hlt : s.loop.allocs < l'.allocs := by
    rw [hbe.allocs]; exact lt_max_of_lt_right (Nat.lt_succ_self _)
  have hsp := Spends.run hb hr (hinv.step he) hc hlt
  have hrem : State.remaining { s with loop := l' } s.loop.allocs = repeat' := by
    simp [State.remaining, hbe.eq, hact, hpen, hrep]
  have := hsp.calls
  simp only [hrem, hcount] at this
  omega

-- A timer that is to be called twice.
def twice : List Act :=
  [.events 2000 0 [], .next, .return, .next, .events 4000 0 [], .next, .return, .next,
    .events 6000 0 []]

theorem twice_calls : ∃ s, Machine.run (step january) {} (.op (.add 1 2 0) :: twice) = some s ∧
    s.calls.count 0 ≤ 2 := by
  have hr : (Machine.run (step january) {} (.op (.add 1 2 0) :: twice)).isSome := by decide +kernel
  obtain ⟨s, hs⟩ := Option.isSome_iff_exists.mp hr
  have hb : ∀ a ∈ twice, ¬a.Resets 0 := by simp [twice, Act.Resets]
  exact ⟨s, hs, calls_le_repeat Machine.run_nil (by decide) (by decide) (by decide) hb hs⟩

-- A timer that has been deleted is not called any more, not even if it has already expired.
theorem deleted_not_called (hs : Machine.run (step cal) {} as = some s) {bs : List Act}
    (hb : ∀ a ∈ bs, ¬a.Resets i) (hs' : Machine.run (step cal) s (.op (.del i) :: bs) = some s') :
    s'.calls.count i = s.calls.count i := by
  have hinv := State.Inv.run hs .init
  obtain ⟨s₁, he, hr⟩ := Machine.run_cons_iff.mp hs'
  have hinv' := hinv.step he
  obtain ⟨l', hdel, rfl⟩ := Option.map_eq_some_iff.mp he
  obtain ⟨t, ht⟩ := Option.isSome_iff_exists.mp (Op.valid_of_apply hdel)
  obtain ⟨l'', hdel', -, -, hbe⟩ := htimerDel_spec hinv.wf ht
  obtain rfl : l'' = l' := by simpa [Op.apply, ht, hdel'] using hdel
  have hgone : ∀ t, l''.memory i = some t → t.active = false := by
    intro t' ht'
    rw [hbe.eq] at ht'
    split at ht'
    · obtain rfl := Option.some.inj ht'; rfl
    · contradiction
  have hc : State.Counts { s with loop := l'' } i := fun t' ht' ha => by simp [hgone t' ht'] at ha
  have hrem : State.remaining { s with loop := l'' } i = 0 := by
    rw [State.remaining]
    split
    case h_1 => rfl
    case h_2 t' ht' => simp [hgone t' ht']
  have hlt : i < l''.allocs := by
    rw [hbe.allocs]; exact lt_max_of_lt_right (Nat.lt_succ_self _)
  have hle := (Spends.run hb hr hinv' hc hlt).calls
  have hge := (Extends.run hr hinv').calls.sublist.count_le i
  simp only [hrem] at hle hge
  omega

-- Both timers have expired when the callback of the second one deletes the first one.
def bothExpire : List Act :=
  [.op (.add 1 1 0), .op (.add 1 1 0), .events 1000 0 [], .next]

theorem bothExpire_deleted : ∃ s s', Machine.run (step january) {} bothExpire = some s ∧
    Machine.run (step january) s [.op (.del 0), .return, .next, .next] = some s' ∧
    s'.calls.count 0 = s.calls.count 0 := by
  have hr : (Machine.run (step january) {}
      (bothExpire ++ [.op (.del 0), .return, .next, .next])).isSome := by decide +kernel
  obtain ⟨s', hs'⟩ := Option.isSome_iff_exists.mp hr
  obtain ⟨s, hs, hs'⟩ := Machine.run_append_iff.mp hs'
  have hb : ∀ a ∈ [Act.return, .next, .next], ¬a.Resets 0 := by simp [Act.Resets]
  exact ⟨s, s', hs, hs', deleted_not_called hs hb hs'⟩

end Rlibhv.Timers
