import Rlibhv.Event.Theorems.Timer

-- `hloop_process_timers` expires the timers that are due, and no others. A periodic timer expires
-- again and again until `cron_next_timeout` returns a time behind the limit.
namespace Rlibhv.Timers

open Heap
open Hloop (Became)

variable {cal : Calendar} {l l' l₁ : Hloop} {i j : Id} {c : Clock} {t t' t₁ : Htimer}
variable {limit n : Nat} {times times' : List Int} {order : List Id}

-- What becomes of a timer that expires.
def Htimer.expire (cal : Calendar) (limit : Nat) (times : List Int) (t : Htimer) :
    Option (List Int × Htimer) :=
  if countDown t.repeat' = 0 then
    some (times, { t with repeat' := 0, destroy := true, pending := true })
  else
    (reschedule cal limit times t).map fun (next, times) =>
      (times, { t with repeat' := countDown t.repeat', nextTimeout := next, pending := true })

theorem expireTimer_spec (cal : Calendar) (limit : Nat) (times : List Int) (hs : l.Sound)
    (hm : l.memory i = some t) (hr : (l.heaps c).root = some i) :
    (t.expire cal limit times = none ∧ expireTimer cal c limit i times l = none) ∨
    ∃ times' t' l', t.expire cal limit times = some (times', t') ∧
      expireTimer cal c limit i times l = some (times', l') ∧ l'.Sound ∧
      Became i (some t') l l' ∧ l'.npendings = l.npendings + (t.queued i).length ∧
      l'.pendings = Function.update l.pendings t.eventType.priority
        (t.queued i ++ l.pendings t.eventType.priority) := by
  obtain ⟨t', hm', hc, hd⟩ := (Hloop.mem_live hs.fresh).mp ((hs.heaps c).root_le hr).1
  obtain rfl := Option.some.inj (hm.symm.trans hm')
  let l₀ := l.modify i fun t => { t with repeat' := countDown t.repeat' }
  have hb₀ : Became i (some { t with repeat' := countDown t.repeat' }) l l₀ :=
    Hloop.became_modify hs.fresh hm fun t => { t with repeat' := countDown t.repeat' }
  have hs₀ : l₀.Sound := hs.alter hm hb₀ rfl (fun _ => rfl) rfl rfl rfl rfl
  have ht₀ := Hloop.timer_eq hb₀.eq
  rw [Htimer.expire, expireTimer, show l.modify i _ = l₀ from rfl]
  by_cases h0 : countDown t.repeat' = 0
  case pos =>
    obtain ⟨l₁, he, hs₁, hb₁, hl₁⟩ := htimerDel'_spec hs₀ hb₀.eq
    obtain ⟨hs', hb', hn, hpe⟩ := eventPending_spec hs₁ hb₁.eq
    refine .inr ⟨times, _, _, if_pos h0, ?_, hs', ?_, hn.trans <| by rw [hl₁.npendings]; rfl,
      hpe.trans <| by rw [hl₁.pendings]; rfl⟩
    · simp only [ht₀, h0, if_true, he]
      rfl
    · simpa only [h0] using (hb₀.trans hb₁).trans hb'
  case neg =>
    obtain ⟨h₁, he₁, hh₁⟩ := hs₀.heaps.dequeue hr
    have hc₀ : c = l₀.clock i := by rw [Hloop.clock, ht₀, hc]
    rw [hc₀] at hh₁
    have hh₁ := Hloop.Heaps.erase hs₀.fresh hh₁
    have hx : reschedule cal limit times (Hloop.timer { l₀ with heaps := h₁ } i) =
        reschedule cal limit times t := by
      rw [show Hloop.timer { l₀ with heaps := h₁ } i = _ from ht₀]
      rfl
    simp only [ht₀, h0, if_false, he₁, Option.bind_eq_bind, Option.bind_some, hx]
    cases hres : reschedule cal limit times t
    case none => exact .inl ⟨rfl, rfl⟩
    case some next =>
      obtain ⟨next, times'⟩ := next
      let l₂ := Hloop.modify { l₀ with heaps := h₁ } i ({ · with nextTimeout := next })
      have hb₂ : Became i (some { t with repeat' := countDown t.repeat', nextTimeout := next })
          l₀ l₂ :=
        (Hloop.became_modify hs₀.fresh hb₀.eq ({ · with nextTimeout := next })).of_eq rfl rfl
      have hh₂ : l₂.Heaps fun c => (l₀.live c).erase i := hh₁.congr rfl fun c j hj =>
        Hloop.deadline_eq <| hb₂.eq_of_ne <| Finset.ne_of_mem_erase hj
      obtain ⟨h₃, he₃, hh₃⟩ := hh₂.rearm c
      let l₃ := { l₂ with heaps := h₃ }
      have hb₃ : Became i (some { t with repeat' := countDown t.repeat', nextTimeout := next })
          l₀ l₃ := hb₂.of_eq rfl rfl
      have hs₃ : l₃.Sound := by
        refine hb₃.sound hs₀ ?_ ?_ ?_
        · simpa [Hloop.isLive, hc, hd] using hh₃
        · simp [hb₀.eq, l₃, l₂, Hloop.modify]
        · simp [hb₀.eq, l₃, l₂, Hloop.modify]
      obtain ⟨hs', hb', hn, hpe⟩ := eventPending_spec hs₃ hb₃.eq
      refine .inr ⟨times', _, _, rfl, ?_, hs', (hb₀.trans hb₃).trans hb', hn, hpe⟩
      simp only [Option.bind_some]
      rw [show Hloop.onHeap _ _ _ = _ from he₃]
      rfl

-- The new deadline is the first one on the timer's grid that is behind the limit.
theorem advance_spec {period : Nat} (limit next : Nat) (hp : 0 < period) :
    ∃ k, advance period limit next = some (next + k * period) ∧ limit < next + k * period ∧
      ∀ k' < k, next + k' * period ≤ limit := by
  induction next using advance.induct period limit
  case case1 => omega
  case case2 next hn _ hi =>
    obtain ⟨k, he, hlt, hm⟩ := hi
    have hk (k : Nat) : next + period + k * period = next + (k + 1) * period := by
      rw [Nat.add_mul, Nat.one_mul]; omega
    rw [hk] at hlt
    refine ⟨k + 1, ?_, hlt, fun k' hk' => ?_⟩
    · rw [advance, if_pos hn, if_neg (by omega), he, hk]
    · rcases k' with _ | k'
      · omega
      · exact hk k' ▸ hm k' (by omega)
  case case3 next hn => exact ⟨0, by rw [advance, if_neg hn]; simp, by omega, by omega⟩

theorem reschedule_timeout {timeout : Nat} (cal : Calendar) (limit : Nat) (ht : t.Ok)
    (he : t.eventType = .timeout timeout) :
    ∃ next, limit < next ∧ ∀ times, reschedule cal limit times t = some (next, times) := by
  have hp : 0 < timeout * 1000 := by have := ht.timeout timeout he; omega
  obtain ⟨k, ha, hlt, -⟩ := advance_spec limit t.nextTimeout hp
  exact ⟨_, hlt, fun times => by simp only [reschedule, he, ha, Option.map_some]⟩

-- With the answer `tt`, the next deadline of a timer is behind the limit.
def EventType.settled (cal : Calendar) (limit : Nat) (tt : Int) : EventType → Bool
  | timeout _                         => true
  | period minute hour day week month => limit < cronDeadline cal tt minute hour day week month

namespace Htimer

-- Whether a timer expires again.
def Due (limit : Nat) (t : Htimer) : Prop :=
  t.destroy = false ∧ t.nextTimeout ≤ limit

-- A timer expires until it is no longer due. For that, the answers in `times` are used up.
inductive Expires (cal : Calendar) (limit : Nat) : List Int → Htimer → Htimer → Prop
  | last {times : List Int} {t t' : Htimer} :
    t.expire cal limit times = some ([], t') → ¬t'.Due limit → Expires cal limit times t t'
  | again {times times' : List Int} {t t₁ t' : Htimer} :
    t.expire cal limit times = some ([], t₁) → t₁.Due limit → Expires cal limit times' t₁ t' →
    Expires cal limit (times ++ times') t t'

theorem expire_cases (h : t.expire cal limit times = some (times', t')) :
    (times' = times ∧ countDown t.repeat' = 0 ∧
      t' = { t with repeat' := 0, destroy := true, pending := true }) ∨
    ∃ next, reschedule cal limit times t = some (next, times') ∧ countDown t.repeat' ≠ 0 ∧
      t' = { t with repeat' := countDown t.repeat', nextTimeout := next, pending := true } := by
  rw [expire] at h
  split at h
  case isTrue h0 =>
    obtain ⟨rfl, rfl⟩ := Prod.mk.inj (Option.some.inj h)
    exact .inl ⟨rfl, h0, rfl⟩
  case isFalse h0 =>
    obtain ⟨⟨next, _⟩, hr, he⟩ := Option.map_eq_some_iff.mp h
    obtain ⟨rfl, rfl⟩ := Prod.mk.inj he
    exact .inr ⟨next, hr, h0, rfl⟩

-- The next deadline depends on one answer at most.
theorem Ok.reschedule_split {next : Nat} (ht : t.Ok)
    (h : reschedule cal limit times t = some (next, times')) :
    (times' = times ∧ reschedule cal limit [] t = some (next, []) ∧ limit < next) ∨
    ∃ tt, times = tt :: times' ∧ reschedule cal limit [tt] t = some (next, []) ∧
      (t.eventType.settled cal limit tt → limit < next) := by
  cases he : t.eventType
  case timeout timeout =>
    obtain ⟨next', hlt, ha⟩ := reschedule_timeout cal limit ht he
    obtain ⟨rfl, rfl⟩ := Prod.mk.inj (Option.some.inj ((ha times).symm.trans h))
    exact .inl ⟨rfl, ha [], hlt⟩
  case period =>
    cases times
    case nil => simp [reschedule, he] at h
    case cons tt times =>
      simp only [reschedule, he, Option.some.injEq, Prod.mk.injEq] at h
      obtain ⟨rfl, rfl⟩ := h
      exact .inr ⟨tt, rfl, by simp only [reschedule, he], by simp [EventType.settled]⟩

theorem Ok.expire_split (ht : t.Ok) (h : t.expire cal limit times = some (times', t')) :
    ∃ tts, times = tts ++ times' ∧ t.expire cal limit tts = some ([], t') := by
  rcases expire_cases h with ⟨rfl, h0, rfl⟩ | ⟨next, hr, h0, rfl⟩
  · exact ⟨[], rfl, by rw [expire, if_pos h0]⟩
  · rcases ht.reschedule_split hr with ⟨rfl, hr', -⟩ | ⟨tt, rfl, hr', -⟩
    · exact ⟨[], rfl, by rw [expire, if_neg h0, hr']; rfl⟩
    · exact ⟨[tt], rfl, by rw [expire, if_neg h0, hr']; rfl⟩

-- If a timer that has expired is still due, the answer for it was too early.
theorem Ok.expire_settled (ht : t.Ok) (h : t.expire cal limit times = some (times', t')) :
    (times' = times ∧ ¬t'.Due limit) ∨
    ∃ tt, times = tt :: times' ∧ (t.eventType.settled cal limit tt → ¬t'.Due limit) := by
  rcases expire_cases h with ⟨rfl, -, rfl⟩ | ⟨next, hr, -, rfl⟩
  · exact .inl ⟨rfl, by simp [Due]⟩
  · rcases ht.reschedule_split hr with ⟨rfl, -, hlt⟩ | ⟨tt, rfl, -, hlt⟩
    · exact .inl ⟨rfl, fun hd => by have : next ≤ limit := hd.2; omega⟩
    · exact .inr ⟨tt, rfl, fun hs hd => by have := hlt hs; have : next ≤ limit := hd.2; omega⟩

theorem Ok.expire_none (ht : t.Ok) (h : t.expire cal limit times = none) :
    t.eventType.clock = .real ∧ times = [] := by
  rw [expire] at h
  split at h
  case isTrue  => contradiction
  case isFalse =>
    rw [Option.map_eq_none_iff] at h
    cases he : t.eventType
    case timeout timeout =>
      obtain ⟨next, -, ha⟩ := reschedule_timeout cal limit ht he
      simp [ha] at h
    case period =>
      cases times
      case nil  => exact ⟨rfl, rfl⟩
      case cons => simp [reschedule, he] at h

-- A timer of the monotonic clock is not due any more, whatever the time of day is.
theorem Ok.expire_monotonic (ht : t.Ok) (cal : Calendar) (limit : Nat)
    (hc : t.eventType.clock = .monotonic) :
    ∃ t', ¬t'.Due limit ∧ ∀ times, t.expire cal limit times = some (times, t') := by
  by_cases h0 : countDown t.repeat' = 0
  case pos =>
    exact ⟨{ t with repeat' := 0, destroy := true, pending := true }, by simp [Due],
      fun times => by rw [expire, if_pos h0]⟩
  case neg =>
    cases he : t.eventType
    case timeout timeout =>
      obtain ⟨next, hlt, ha⟩ := reschedule_timeout cal limit ht he
      refine ⟨{ t with repeat' := countDown t.repeat', nextTimeout := next, pending := true },
        fun hd => ?_, fun times => by rw [expire, if_neg h0, ha]; rfl⟩
      have : next ≤ limit := hd.2
      omega
    case period => simp [he, EventType.clock] at hc

theorem Ok.expires_monotonic (ht : t.Ok) (hc : t.eventType.clock = .monotonic)
    (h : t.Expires cal limit times t') : t.expire cal limit [] = some ([], t') := by
  obtain ⟨t₀, hd₀, he₀⟩ := ht.expire_monotonic cal limit hc
  rcases h with ⟨he, -⟩ | ⟨he, hd, -⟩
  · obtain ⟨rfl, rfl⟩ := Prod.mk.inj (Option.some.inj ((he₀ _).symm.trans he))
    exact he
  · obtain ⟨-, rfl⟩ := Prod.mk.inj (Option.some.inj ((he₀ _).symm.trans he))
    exact absurd hd hd₀

-- What stays the same when a timer expires.
structure Fired (t t' : Htimer) : Prop where
  eventType : t'.eventType = t.eventType
  active    : t'.active = t.active
  pending   : t'.pending = true

theorem expire_fired (h : t.expire cal limit times = some (times', t')) : t.Fired t' := by
  rcases expire_cases h with ⟨-, -, rfl⟩ | ⟨next, -, -, rfl⟩ <;> exact ⟨rfl, rfl, rfl⟩

theorem Expires.fired (h : Expires cal limit times t t') : t.Fired t' := by
  induction h
  case last h _ => exact expire_fired h
  case again h _ _ hi =>
    have h := expire_fired h
    exact ⟨hi.eventType.trans h.eventType, hi.active.trans h.active, hi.pending⟩

theorem Ok.expire (ht : t.Ok) (hd : t.destroy = false)
    (h : t.expire cal limit times = some (times', t')) : t'.Ok := by
  have ha : t.active = true := by
    by_contra ha
    simp [ht.active (Bool.eq_false_of_not_eq_true ha)] at hd
  rcases expire_cases h with ⟨-, -, rfl⟩ | ⟨next, -, -, rfl⟩
  · exact ⟨by simp [ha], by simp, ht.timeout⟩
  · exact ⟨by simp [ha], by simp, ht.timeout⟩

end Htimer

namespace Hloop

-- The timers that expire when the loop gets to `limit`.
def due (l : Hloop) (c : Clock) (limit : Nat) : Finset Id :=
  (l.live c).filter fun i => l.deadline i ≤ limit

-- The timers in `order` have expired and have been made pending, in this order. Those that were
-- pending before have expired as well.
structure Expires (cal : Calendar) (c : Clock) (limit : Nat) (times : List Int) (order : List Id)
    (l l' : Hloop) : Prop where
  nodup     : order.Nodup
  mem       : ∀ i, i ∈ order ↔ i ∈ l.due c limit ∧ (l.timer i).pending = false
  sorted    : order.Pairwise fun i j => l.deadline i ≤ l.deadline j
  expired   : ∀ i ∈ l.due c limit, ∃ tts t', tts.Sublist times ∧
    (l.timer i).Expires cal limit tts t' ∧ l'.memory i = some t'
  same      : ∀ i, i ∉ l.due c limit → l'.memory i = l.memory i
  pendings  : l'.pendings =
    Function.update l.pendings c.priority (order.reverse ++ l.pendings c.priority)
  npendings : l'.npendings = l.npendings + order.length
  allocs    : l.allocs ≤ l'.allocs
  rest      : l'.due c limit = ∅

theorem mem_due (hf : l.Fresh) : i ∈ l.due c limit ↔
    ∃ t, l.memory i = some t ∧ t.eventType.clock = c ∧ t.Due limit := by
  rw [due, Finset.mem_filter, mem_live hf]
  constructor
  case mp =>
    rintro ⟨⟨t, ht, hc, hd⟩, hle⟩
    exact ⟨t, ht, hc, hd, by rwa [deadline_of_eq ht] at hle⟩
  case mpr =>
    rintro ⟨t, ht, hc, hd, hle⟩
    exact ⟨⟨t, ht, hc, hd⟩, by rwa [deadline_of_eq ht]⟩

theorem mem_due_of_eq (hf : l.Fresh) (hm : l.memory i = some t) :
    i ∈ l.due c limit ↔ t.eventType.clock = c ∧ t.Due limit := by
  simp [mem_due hf, hm]

theorem Became.mem_due (hb : Became i (some t') l l') (hf : l.Fresh) : j ∈ l'.due c limit ↔
    if j = i then t'.eventType.clock = c ∧ t'.Due limit else j ∈ l.due c limit := by
  split
  case isTrue hj  => rw [hj, mem_due_of_eq (hb.fresh hf) hb.eq]
  case isFalse hj => rw [Hloop.mem_due (hb.fresh hf), hb.eq_of_ne hj, ← Hloop.mem_due hf]

-- The timer with the earliest deadline expires before the others.
theorem Expires.cons {tts : List Int} (hx : l₁.Expires cal c limit times order l') (hf : l.Fresh)
    (hm : l.memory i = some t) (he : t.expire cal limit tts = some ([], t'))
    (hb : Became i (some t') l l₁) (hi : i ∈ l.due c limit)
    (hmin : ∀ j ∈ l.due c limit, l.deadline i ≤ l.deadline j)
    (hp : l₁.pendings =
      Function.update l.pendings c.priority (t.queued i ++ l.pendings c.priority))
    (hn : l₁.npendings = l.npendings + (t.queued i).length) :
    l.Expires cal c limit (tts ++ times) (t.queued i ++ order) l' := by
  have hti := timer_eq hm
  have hfired := Htimer.expire_fired he
  have hqueued (j : Id) : j ∈ t.queued i ↔ j = i ∧ (l.timer j).pending = false := by
    rw [Htimer.queued]
    split <;> simp_all
  have hni : i ∉ order := by simp [hx.mem, timer_eq hb.eq, hfired.pending]
  have htimer {j : Id} (hj : j ≠ i) : l₁.timer j = l.timer j := by rw [timer, timer, hb.eq_of_ne hj]
  have hdue {j : Id} (hj : j ≠ i) : j ∈ l₁.due c limit ↔ j ∈ l.due c limit := by
    rw [hb.mem_due hf, if_neg hj]
  have hmem {j : Id} (hj : j ∈ order) : j ≠ i ∧ j ∈ l.due c limit := by
    have hji : j ≠ i := fun h => hni (h ▸ hj)
    exact ⟨hji, (hdue hji).mp ((hx.mem j).mp hj).1⟩
  constructor
  case nodup =>
    refine List.nodup_append'.mpr ⟨?_, hx.nodup, fun j hj => ?_⟩
    · rw [Htimer.queued]; split <;> simp
    · rw [((hqueued j).mp hj).1]; exact hni
  case mem =>
    intro j
    rw [List.mem_append, hqueued]
    by_cases hj : j = i
    · subst hj; simp [hni, hi]
    · rw [hx.mem, hdue hj, htimer hj]; simp [hj]
  case sorted =>
    refine List.pairwise_append.mpr ⟨?_, ?_, fun j hj k hk => ?_⟩
    · rw [Htimer.queued]; split <;> simp
    · refine hx.sorted.imp_of_mem fun {j k} hj hk hjk => ?_
      rwa [deadline, deadline, htimer (hmem hj).1, htimer (hmem hk).1] at hjk
    · rw [((hqueued j).mp hj).1]; exact hmin k (hmem hk).2
  case expired =>
    intro j hj
    by_cases hji : j = i
    case neg =>
      obtain ⟨tts', t'', hs, hx', hm'⟩ := hx.expired j ((hdue hji).mpr hj)
      exact ⟨tts', t'', hs.trans (List.sublist_append_right _ _), htimer hji ▸ hx', hm'⟩
    case pos =>
      subst hji
      rw [hti]
      by_cases hd : t'.Due limit
      case neg =>
        refine ⟨tts, t', List.sublist_append_left _ _, .last he hd, ?_⟩
        rw [hx.same j (by simp [hb.mem_due hf, hd]), hb.eq]
      case pos =>
        have hj₁ : j ∈ l₁.due c limit := by
          rw [mem_due_of_eq (hb.fresh hf) hb.eq, hfired.eventType]
          exact ⟨((mem_due_of_eq hf hm).mp hj).1, hd⟩
        obtain ⟨tts', t'', hs, hx', hm'⟩ := hx.expired j hj₁
        rw [timer_eq hb.eq] at hx'
        exact ⟨tts ++ tts', t'', hs.append_left _, .again he hd hx', hm'⟩
  case same =>
    intro j hj
    have hji : j ≠ i := fun h => hj (h ▸ hi)
    rw [hx.same j (mt (hdue hji).mp hj), hb.eq_of_ne hji]
  case pendings =>
    have hrev : (t.queued i).reverse = t.queued i := by rw [Htimer.queued]; split <;> rfl
    rw [hx.pendings, hp, List.reverse_append, hrev]
    simp
  case npendings => rw [hx.npendings, hn, List.length_append]; omega
  case allocs    => exact (hb.allocs ▸ le_max_left _ _ : l.allocs ≤ l₁.allocs).trans hx.allocs
  case rest      => exact hx.rest

end Hloop

-- A round of the loop in `__hloop_process_timers`.
theorem processTimers_succ (cal : Calendar) (c : Clock) (limit fuel : Nat) (times : List Int)
    (hw : l.Wf) :
    (l.due c limit = ∅ ∧ processTimers cal c limit (fuel + 1) times l = some (0, times, l)) ∨
    ∃ i t, l.memory i = some t ∧ t.Ok ∧ i ∈ l.due c limit ∧
      (∀ j ∈ l.due c limit, l.deadline i ≤ l.deadline j) ∧
      ((t.expire cal limit times = none ∧ processTimers cal c limit (fuel + 1) times l = none) ∨
      ∃ times' t' l₁, t.expire cal limit times = some (times', t') ∧ l₁.Wf ∧
        Became i (some t') l l₁ ∧ l₁.npendings = l.npendings + (t.queued i).length ∧
        l₁.pendings =
          Function.update l.pendings c.priority (t.queued i ++ l.pendings c.priority) ∧
        processTimers cal c limit (fuel + 1) times l =
          (processTimers cal c limit fuel times' l₁).map fun r => (r.1 + 1, r.2)) := by
  rw [processTimers]
  cases hr : (l.heaps c).root
  case none =>
    have he := (hw.heaps c).root_eq_none.mp hr
    exact .inl ⟨by rw [Hloop.due, he]; rfl, rfl⟩
  case some i =>
    obtain ⟨hl, hm⟩ := (hw.heaps c).root_le hr
    simp only
    split
    case isTrue hlt =>
      refine .inl ⟨Finset.filter_false_of_mem fun j hj hle => ?_, rfl⟩
      have := hm j hj
      have : limit < l.deadline i := hlt
      omega
    case isFalse hle =>
      have hi : i ∈ l.due c limit := Finset.mem_filter.mpr ⟨hl, Nat.le_of_not_lt hle⟩
      obtain ⟨t, ht, hc, hd⟩ := (Hloop.mem_live hw.fresh).mp hl
      have hok := hw.ok i t ht
      refine .inr ⟨i, t, ht, hok, hi, fun j hj => hm j (Finset.mem_filter.mp hj).1, ?_⟩
      rcases expireTimer_spec cal limit times hw.toSound ht hr with
        ⟨hx, he⟩ | ⟨times', t', l₁, hx, he, hs, hb, hn, hp⟩
      · exact .inl ⟨hx, by rw [he]; rfl⟩
      · have hpr : t.eventType.priority = c.priority := by rw [EventType.priority, hc]
        have hw₁ : l₁.Wf := hb.wf hs hw <| by rintro _ ⟨⟩; exact hok.expire hd hx
        refine .inr ⟨times', t', l₁, hx, hw₁, hb, hn, hpr ▸ hp, ?_⟩
        simp only [he, Option.bind_eq_bind, Option.bind_some]
        cases processTimers cal c limit fuel times' l₁ <;> rfl

theorem processTimers_spec {fuel : Nat} (hw : l.Wf)
    (h : processTimers cal c limit fuel times l = some (n, times', l')) :
    l'.Wf ∧ ∃ order, l.Expires cal c limit times order l' := by
  induction fuel generalizing l times n
  case zero => contradiction
  case succ fuel hi =>
    rcases processTimers_succ cal c limit fuel times hw with
      ⟨hd, he⟩ | ⟨i, t, ht, hok, hdue, hmin, ⟨-, he⟩ | ⟨times₁, t', l₁, hx, hw₁, hb, hn, hp, he⟩⟩
    case inl =>
      obtain ⟨-, -, rfl⟩ : 0 = n ∧ times = times' ∧ l = l' := by
        simpa using he.symm.trans h
      refine ⟨hw, [], ?_⟩
      constructor
      all_goals simp [hd]
    case inr.inl => rw [he] at h; contradiction
    case inr.inr =>
      obtain ⟨⟨n', times₂, l₂⟩, h', hr⟩ := Option.map_eq_some_iff.mp (he ▸ h)
      obtain ⟨-, rfl, rfl⟩ : n' + 1 = n ∧ times₂ = times' ∧ l₂ = l' := by simpa using hr
      obtain ⟨hw', order, hx'⟩ := hi hw₁ h'
      obtain ⟨tts, rfl, hxt⟩ := hok.expire_split hx
      exact ⟨hw', _, hx'.cons hw.fresh ht hxt hb hdue hmin hp hn⟩

-- The loop returns if the answers are late enough, one for each periodic timer that is due.
theorem processTimers_isSome {fuel : Nat} (late : Int → Bool) (hw : l.Wf)
    (hf : (l.due c limit).card + times.length < fuel)
    (hl : ∀ tt, late tt → ∀ i ∈ l.due c limit, (l.timer i).eventType.settled cal limit tt)
    (he : c = .real → (l.due c limit).card ≤ times.countP late) :
    (processTimers cal c limit fuel times l).isSome := by
  induction fuel generalizing l times
  case zero => omega
  case succ fuel hi =>
    rcases processTimers_succ cal c limit fuel times hw with
      ⟨hd, hx⟩ | ⟨i, t, ht, hok, hdue, -, ⟨hx, -⟩ | ⟨times', t', l₁, hx, hw₁, hb, -, -, hp⟩⟩
    case inl => rw [hx]; rfl
    case inr.inl =>
      obtain ⟨hc, -⟩ := (Hloop.mem_due_of_eq hw.fresh ht).mp hdue
      obtain ⟨hr, rfl⟩ := hok.expire_none hx
      have := he (hc.symm.trans hr)
      have := Finset.card_pos.mpr ⟨i, hdue⟩
      simp only [List.countP_nil] at *
      omega
    case inr.inr =>
      have htype : (l.timer i).eventType = t'.eventType := by
        rw [Hloop.timer_eq ht, (Htimer.expire_fired hx).eventType]
      have hsub : l₁.due c limit ⊆ l.due c limit := fun j hj => by
        rw [hb.mem_due hw.fresh] at hj
        split at hj
        case isTrue h  => exact h ▸ hdue
        case isFalse h => exact hj
      have hl₁ (tt : Int) (htt : late tt) (j : Id) (hj : j ∈ l₁.due c limit) :
          (l₁.timer j).eventType.settled cal limit tt := by
        have := hl tt htt j (hsub hj)
        by_cases hji : j = i
        case pos => subst hji; rwa [Hloop.timer_eq hb.eq, ← htype]
        case neg => rwa [Hloop.timer, hb.eq_of_ne hji]
      have hcard := Finset.card_le_card hsub
      have hcard' (hd : ¬t'.Due limit) : (l₁.due c limit).card < (l.due c limit).card := by
        refine Finset.card_lt_card ⟨hsub, fun hsub' => hd ?_⟩
        have := hsub' hdue
        rw [hb.mem_due hw.fresh, if_pos rfl] at this
        exact this.2
      rw [hp, Option.isSome_map]
      rcases hok.expire_settled hx with ⟨rfl, hd⟩ | ⟨tt, rfl, hd⟩
      case inl =>
        have := hcard' hd
        exact hi hw₁ (by omega) hl₁ fun hc => (he hc).trans' hcard
      case inr =>
        rw [List.length_cons] at hf
        refine hi hw₁ (by omega) hl₁ fun hc => ?_
        have he := he hc
        by_cases htt : late tt
        case pos =>
          rw [List.countP_cons_of_pos htt] at he
          have := hcard' <| hd <| Hloop.timer_eq ht ▸ hl tt htt i hdue
          omega
        case neg => rw [List.countP_cons_of_neg htt] at he; omega

-- The timers of the monotonic clock leave the answers to the others.
theorem processTimers_monotonic {fuel : Nat} (hw : l.Wf)
    (h : processTimers cal .monotonic limit fuel times l = some (n, times', l')) :
    times' = times := by
  induction fuel generalizing l times n
  case zero => contradiction
  case succ fuel hi =>
    rcases processTimers_succ cal .monotonic limit fuel times hw with
      ⟨-, he⟩ | ⟨i, t, ht, hok, hdue, -, ⟨-, he⟩ | ⟨times₁, t', l₁, hx, hw₁, -, -, -, he⟩⟩
    case inl =>
      obtain ⟨-, rfl, -⟩ : 0 = n ∧ times = times' ∧ l = l' := by simpa using he.symm.trans h
      rfl
    case inr.inl => rw [he] at h; contradiction
    case inr.inr =>
      obtain ⟨⟨n', r⟩, h', hr⟩ := Option.map_eq_some_iff.mp (he ▸ h)
      obtain ⟨-, rfl⟩ : n' + 1 = n ∧ r = (times', l') := by simpa using hr
      obtain ⟨hc, -⟩ := (Hloop.mem_due_of_eq hw.fresh ht).mp hdue
      obtain ⟨t₁, -, hx'⟩ := hok.expire_monotonic cal limit hc
      obtain ⟨rfl, -⟩ := Prod.mk.inj (Option.some.inj ((hx' times).symm.trans hx))
      exact hi hw₁ h'

namespace Hloop

theorem due_card_le (hs : l.Sound) (c : Clock) (limit : Nat) :
    (l.due c limit).card ≤ (l.heaps c).nelts := by
  have hle : (l.due c limit).card ≤ (l.live c).card := Finset.card_filter_le _ _
  have := (hs.heaps c).card
  omega

-- The two clocks have timers of their own.
theorem notMem_due {c' : Clock} {limit' : Nat} (hf : l.Fresh) (hc : c' ≠ c)
    (hi : i ∈ l.due c limit) : i ∉ l.due c' limit' := by
  obtain ⟨t, ht, htc, -⟩ := (mem_due hf).mp hi
  rw [mem_due_of_eq hf ht]
  exact fun h => hc (h.1.symm.trans htc)

theorem Expires.due_of_ne {c' : Clock} {limit' : Nat} (hx : l.Expires cal c limit times order l')
    (hf : l.Fresh) (hf' : l'.Fresh) (hc : c' ≠ c) : l'.due c' limit' = l.due c' limit' := by
  ext j
  by_cases hj : j ∈ l.due c limit
  case neg => rw [mem_due hf, mem_due hf', hx.same j hj]
  case pos =>
    refine iff_of_false ?_ (notMem_due hf hc hj)
    obtain ⟨_, t', -, hx', hm'⟩ := hx.expired j hj
    obtain ⟨t, hm, htc, -⟩ := (mem_due hf).mp hj
    have htype := hx'.fired.eventType
    rw [timer_eq hm] at htype
    rw [mem_due_of_eq hf' hm', htype]
    exact fun h => hc (h.1.symm.trans htc)

-- All timers that are due expire, first those of the monotonic clock, once each, then the periodic
-- ones.
structure ExpiresAll (cal : Calendar) (now : Nat) (times : List Int) (order order' : List Id)
    (l l' : Hloop) : Prop where
  nodup     : (order ++ order').Nodup
  due       : order.toFinset = l.due .monotonic l.curHrtime
  due'      : order'.toFinset = l.due .real now
  sorted    : order.Pairwise fun i j => l.deadline i ≤ l.deadline j
  sorted'   : order'.Pairwise fun i j => l.deadline i ≤ l.deadline j
  expired   : ∀ i ∈ order, ∃ t',
    (l.timer i).expire cal l.curHrtime [] = some ([], t') ∧ l'.memory i = some t'
  expired'  : ∀ i ∈ order', ∃ tts t', tts.Sublist times ∧ (l.timer i).Expires cal now tts t' ∧
    l'.memory i = some t'
  same      : ∀ i, i ∉ order → i ∉ order' → l'.memory i = l.memory i
  highest   : l'.pendings .highest = order.reverse ++ l.pendings .highest
  high      : l'.pendings .high = order'.reverse ++ l.pendings .high
  npendings : l'.npendings = l.npendings + order.length + order'.length
  allocs    : l.allocs ≤ l'.allocs
  rest      : l'.due .monotonic l.curHrtime = ∅
  rest'     : l'.due .real now = ∅

-- Every periodic timer that is due gets an answer of `time` that is late enough for all of them.
def Enough (cal : Calendar) (now : Nat) (times : List Int) (l : Hloop) : Prop :=
  (l.due .real now).card ≤
    times.countP fun tt => ∀ i ∈ l.due .real now, (l.timer i).eventType.settled cal now tt

instance {now : Nat} : Decidable (l.Enough cal now times) :=
  inferInstanceAs <| Decidable (_ ≤ _)

end Hloop

theorem hloopProcessTimers_spec {now : Nat} (hw : l.Wf)
    (hq : ∀ i t, l.memory i = some t → t.pending = false)
    (h : hloopProcessTimers cal now times l = some (n, times', l')) :
    l'.Wf ∧ ∃ order order', l.ExpiresAll cal now times order order' l' := by
  simp only [hloopProcessTimers, Option.bind_eq_bind, Option.bind_eq_some_iff] at h
  obtain ⟨⟨n₁, times₁, l₁⟩, he₁, ⟨n₂, times₂, l₂⟩, he₂, hr⟩ := h
  obtain ⟨-, rfl, rfl⟩ : n₁ + n₂ = n ∧ times₂ = times' ∧ l₂ = l' := by simpa using hr
  obtain rfl := processTimers_monotonic hw he₁
  obtain ⟨hw₁, order, hx₁⟩ := processTimers_spec hw he₁
  obtain ⟨hw₂, order', hx₂⟩ := processTimers_spec hw₁ he₂
  have hdue : l₁.due .real now = l.due .real now := hx₁.due_of_ne hw.fresh hw₁.fresh (by decide)
  have hnp (i : Id) {c : Clock} {limit : Nat} (hi : i ∈ l.due c limit) :
      (l.timer i).pending = false := by
    obtain ⟨t, ht, -⟩ := (Hloop.mem_due hw.fresh).mp hi
    exact Hloop.timer_eq ht ▸ hq i t ht
  have hdisj (i : Id) (hi : i ∈ l.due .real now) : i ∉ l.due .monotonic l.curHrtime :=
    Hloop.notMem_due hw.fresh (by decide) hi
  have hsame (i : Id) (hi : i ∈ l.due .real now) : l₁.memory i = l.memory i :=
    hx₁.same i (hdisj i hi)
  have htimer (i : Id) (hi : i ∈ l.due .real now) : l₁.timer i = l.timer i := by
    rw [Hloop.timer, Hloop.timer, hsame i hi]
  have hmem (i : Id) : i ∈ order ↔ i ∈ l.due .monotonic l.curHrtime := by
    rw [hx₁.mem, and_iff_left_of_imp (hnp i)]
  have hmem' (i : Id) : i ∈ order' ↔ i ∈ l.due .real now := by
    rw [hx₂.mem, hdue]
    exact and_iff_left_of_imp fun hi => htimer i hi ▸ hnp i hi
  refine ⟨hw₂, order, order', ?_⟩
  constructor
  case nodup =>
    refine List.nodup_append'.mpr ⟨hx₁.nodup, hx₂.nodup, fun i hi hi' => ?_⟩
    exact hdisj i ((hmem' i).mp hi') ((hmem i).mp hi)
  case due     => ext i; rw [List.mem_toFinset, hmem]
  case due'    => ext i; rw [List.mem_toFinset, hmem']
  case sorted  => exact hx₁.sorted
  case sorted' =>
    refine hx₂.sorted.imp_of_mem fun {i j} hi hj hij => ?_
    rwa [Hloop.deadline_eq (hsame i ((hmem' i).mp hi)),
      Hloop.deadline_eq (hsame j ((hmem' j).mp hj))] at hij
  case expired =>
    intro i hi
    have hi := (hmem i).mp hi
    obtain ⟨t, ht, htc, -⟩ := (Hloop.mem_due hw.fresh).mp hi
    obtain ⟨_, t', -, hx', hm'⟩ := hx₁.expired i hi
    have hi₂ : i ∉ l₁.due .real now := fun h => hdisj i (hdue ▸ h) hi
    rw [Hloop.timer_eq ht] at hx' ⊢
    exact ⟨t', (hw.ok i t ht).expires_monotonic htc hx', (hx₂.same i hi₂).trans hm'⟩
  case expired' =>
    intro i hi
    have hi := (hmem' i).mp hi
    obtain ⟨tts, t', hs, hx', hm'⟩ := hx₂.expired i (hdue ▸ hi)
    exact ⟨tts, t', hs, htimer i hi ▸ hx', hm'⟩
  case same =>
    intro i hi hi'
    rw [hx₂.same i (by rwa [hdue, ← hmem']), hx₁.same i (by rwa [← hmem])]
  case highest   => rw [hx₂.pendings, hx₁.pendings]; simp [Clock.priority]
  case high      => rw [hx₂.pendings, hx₁.pendings]; simp [Clock.priority]
  case npendings => rw [hx₂.npendings, hx₁.npendings]
  case allocs    => exact hx₁.allocs.trans hx₂.allocs
  case rest      => exact (hx₂.due_of_ne hw₁.fresh hw₂.fresh (by decide)).trans hx₁.rest
  case rest'     => exact hx₂.rest

theorem hloopProcessTimers_isSome {now : Nat} (hw : l.Wf) (he : l.Enough cal now times) :
    (hloopProcessTimers cal now times l).isSome := by
  have hfuel {l : Hloop} {c : Clock} {limit : Nat} (hw : l.Wf) :
      (l.due c limit).card + times.length < (l.heaps c).nelts + times.length + 1 := by
    have := Hloop.due_card_le hw.toSound c limit
    omega
  have h₁ : (hloopProcessTimers' cal .monotonic l.curHrtime times l).isSome :=
    processTimers_isSome (fun _ => false) hw (hfuel hw) (by simp) (by simp)
  obtain ⟨⟨n₁, times₁, l₁⟩, he₁⟩ := Option.isSome_iff_exists.mp h₁
  obtain rfl := processTimers_monotonic hw he₁
  obtain ⟨hw₁, order, hx₁⟩ := processTimers_spec hw he₁
  have hdue : l₁.due .real now = l.due .real now := hx₁.due_of_ne hw.fresh hw₁.fresh (by decide)
  have htimer (i : Id) (hi : i ∈ l.due .real now) : l₁.timer i = l.timer i := by
    rw [Hloop.timer, Hloop.timer, hx₁.same i (Hloop.notMem_due hw.fresh (by decide) hi)]
  have h₂ : (hloopProcessTimers' cal .real now times₁ l₁).isSome := by
    refine processTimers_isSome
      (fun tt => ∀ i ∈ l.due .real now, (l.timer i).eventType.settled cal now tt) hw₁ (hfuel hw₁)
      (fun tt htt i hi => ?_) fun _ => by rw [hdue]; exact he
    rw [hdue] at hi
    rw [htimer i hi]
    exact of_decide_eq_true htt i hi
  obtain ⟨⟨n₂, times₂, l₂⟩, he₂⟩ := Option.isSome_iff_exists.mp h₂
  simp only [hloopProcessTimers, he₁, he₂, Option.bind_eq_bind, Option.bind_some]
  rfl

end Rlibhv.Timers
