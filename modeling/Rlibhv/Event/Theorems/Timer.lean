import Rlibhv.Event.Timer
import Rlibhv.Base.Theorems.Heap

-- What the operations on timers do to the timers, the heaps and the counters of a loop.
namespace Rlibhv.Timers

open Heap

-- The flags of a timer: what is not active is destroyed, and what is destroyed is only kept for the
-- rest of the pending events.
structure Htimer.Ok (t : Htimer) : Prop where
  active  : t.active = false → t.destroy = true
  destroy : t.destroy = true → t.pending = true
  timeout : ∀ n, t.eventType = .timeout n → 0 < n

namespace Hloop

variable {l l' : Hloop} {i j : Id} {c : Clock} {o : Option Htimer} {t : Htimer} {p : Htimer → Bool}
variable {f : Clock → Finset Id} {h : Heap Id}

-- The allocated timers with property `p`.
def those (p : Htimer → Bool) (l : Hloop) : Finset Id :=
  (Finset.range l.allocs).filter fun i => (l.memory i).any p

def isLive (c : Clock) (t : Htimer) : Bool :=
  t.eventType.clock = c && !t.destroy

-- The timers that belong into a heap.
def live (l : Hloop) (c : Clock) : Finset Id :=
  l.those (isLive c)

-- The heaps hold the timers in `f`, with the earliest deadlines on top.
def Heaps (l : Hloop) (f : Clock → Finset Id) : Prop :=
  ∀ c, Represents l.deadline (l.heaps c) (f c)

def Fresh (l : Hloop) : Prop :=
  ∀ i, l.allocs ≤ i → l.memory i = none

structure Sound (l : Hloop) : Prop where
  fresh    : l.Fresh
  heaps    : l.Heaps l.live
  ntimers  : l.ntimers = (l.those (!·.destroy)).card
  nactives : l.nactives = (l.those (·.active)).card

structure Wf (l : Hloop) : Prop extends Sound l where
  ok : ∀ i t, l.memory i = some t → Htimer.Ok t

theorem Wf.updateTime (hw : l.Wf) (now : Nat) : Wf { l with curHrtime := now } :=
  ⟨⟨hw.fresh, hw.heaps, hw.ntimers, hw.nactives⟩, hw.ok⟩

-- Only the timer at `i` changes, to `o`.
structure Became (i : Id) (o : Option Htimer) (l l' : Hloop) : Prop where
  memory : l'.memory = Function.update l.memory i o
  allocs : l'.allocs = max l.allocs (i + 1)

-- The lists of pending events stay the same.
structure SameLists (l l' : Hloop) : Prop where
  pendings  : l'.pendings = l.pendings
  npendings : l'.npendings = l.npendings

theorem SameLists.trans {l'' : Hloop} (h : SameLists l l') (h' : SameLists l' l'') :
    SameLists l l'' :=
  ⟨h'.pendings.trans h.pendings, h'.npendings.trans h.npendings⟩

theorem timer_eq (ht : l.memory i = some t) : l.timer i = t := by
  simp [timer, ht]

theorem mem_those (hf : l.Fresh) : i ∈ l.those p ↔ ∃ t, l.memory i = some t ∧ p t := by
  rw [those, Finset.mem_filter, Finset.mem_range, Option.any_eq_true]
  refine ⟨And.right, fun h => ⟨?_, h⟩⟩
  by_contra hi
  simp [hf i (by omega)] at h

theorem notMem_those (hm : l.memory i = none) : i ∉ l.those p := by
  simp [those, hm]

theorem mem_live (hf : l.Fresh) :
    i ∈ l.live c ↔ ∃ t, l.memory i = some t ∧ t.eventType.clock = c ∧ t.destroy = false := by
  simp [live, mem_those hf, isLive]

theorem deadline_eq (hm : l'.memory i = l.memory i) : l'.deadline i = l.deadline i := by
  rw [deadline, deadline, timer, timer, hm]

theorem deadline_of_eq (ht : l.memory i = some t) : l.deadline i = t.nextTimeout := by
  rw [deadline, timer_eq ht]

namespace Became

theorem eq (hb : Became i o l l') : l'.memory i = o := by
  simp [hb.memory]

theorem eq_of_ne (hb : Became i o l l') (hj : j ≠ i) : l'.memory j = l.memory j := by
  rw [hb.memory, Function.update_of_ne hj]

theorem fresh (hb : Became i o l l') (hf : l.Fresh) : l'.Fresh := by
  intro j hj
  rw [hb.allocs] at hj
  rw [hb.eq_of_ne (show j ≠ i by omega), hf j (by omega)]

theorem of_eq {l'' : Hloop} (hb : Became i o l l') (hm : l''.memory = l'.memory)
    (ha : l''.allocs = l'.allocs) : Became i o l l'' :=
  ⟨hm.trans hb.memory, ha.trans hb.allocs⟩

theorem trans {l'' : Hloop} {o' : Option Htimer} (hb : Became i o l l') (hb' : Became i o' l' l'') :
    Became i o' l l'' where
  memory := by rw [hb'.memory, hb.memory, Function.update_idem]
  allocs := by rw [hb'.allocs, hb.allocs]; omega

theorem those (hb : Became i o l l') (hf : l.Fresh) :
    l'.those p = if o.any p then insert i (l.those p) else (l.those p).erase i := by
  ext j
  rw [mem_those (hb.fresh hf)]
  by_cases hj : j = i
  · subst hj
    rw [hb.eq, ← Option.any_eq_true]
    split <;> simp_all
  · rw [hb.eq_of_ne hj, ← mem_those hf]
    split <;> simp [hj]

theorem card (hb : Became i o l l') (hf : l.Fresh) :
    (l'.those p).card + ((l.memory i).any p).toNat = (l.those p).card + (o.any p).toNat := by
  have hi : i ∈ l.those p ↔ (l.memory i).any p := by rw [mem_those hf, Option.any_eq_true]
  rw [hb.those hf]
  by_cases hm : i ∈ l.those p
  all_goals
    have hm' := hm
    rw [hi] at hm'
    split <;> simp_all
  exact Nat.sub_add_cancel (Finset.card_pos.mpr ⟨i, hm⟩)

theorem sound (hb : Became i o l l') (hs : Sound l)
    (hh : l'.Heaps fun c => if o.any (isLive c) then insert i (l.live c) else (l.live c).erase i)
    (hn : l'.ntimers + ((l.memory i).any (!·.destroy)).toNat = l.ntimers + (o.any (!·.destroy)).toNat)
    (ha : l'.nactives + ((l.memory i).any (·.active)).toNat = l.nactives + (o.any (·.active)).toNat) :
    Sound l' where
  fresh    := hb.fresh hs.fresh
  heaps c  := by rw [live, hb.those hs.fresh]; exact hh c
  ntimers  := by have := hs.ntimers; have := hb.card hs.fresh (p := (!·.destroy)); omega
  nactives := by have := hs.nactives; have := hb.card hs.fresh (p := (·.active)); omega

theorem wf (hb : Became i o l l') (hs : Sound l') (hw : Wf l) (ho : ∀ t, o = some t → t.Ok) :
    Wf l' where
  toSound := hs
  ok j t ht := by
    by_cases hj : j = i
    · exact ho t (by rw [← ht, hj, hb.eq])
    · exact hw.ok j t (by rw [← ht, hb.eq_of_ne hj])

end Became

namespace Heaps

theorem congr (hh : l.Heaps f) (he : l'.heaps = l.heaps)
    (hd : ∀ c, ∀ i ∈ f c, l'.deadline i = l.deadline i) : l'.Heaps f := by
  intro c
  rw [he]
  exact (hh c).congr (hd c)

theorem onHeap (hh : l.Heaps f) {F : Finset Id} {g : Heap Id → Option (Heap Id)}
    (hg : ∃ h', g (l.heaps c) = some h' ∧ Represents l.deadline h' F) :
    ∃ hs, l.onHeap c g = some { l with heaps := hs } ∧
      Heaps { l with heaps := hs } (Function.update f c F) := by
  obtain ⟨h', he, hr⟩ := hg
  refine ⟨Function.update l.heaps c h', by rw [Hloop.onHeap, he]; rfl, fun c' => ?_⟩
  show Represents l.deadline (Function.update l.heaps c h' c') (Function.update f c F c')
  by_cases hc : c' = c
  · subst hc; simpa using hr
  · simpa [hc] using hh c'

theorem insert (hh : l.Heaps f) (hi : i ∉ f c) :
    ∃ hs, l.onHeap c (heapInsert (some l.timersCompare) i) = some { l with heaps := hs } ∧
      Heaps { l with heaps := hs } (Function.update f c (Insert.insert i (f c))) :=
  hh.onHeap <| heapInsert_represents (hh c) hi

theorem remove (hh : l.Heaps f) (hi : i ∈ f c) :
    ∃ hs, l.onHeap c (heapRemove (some l.timersCompare) i) = some { l with heaps := hs } ∧
      Heaps { l with heaps := hs } (Function.update f c ((f c).erase i)) :=
  hh.onHeap <| heapRemove_represents (hh c) hi

theorem dequeue (hh : l.Heaps f) (hr : (l.heaps c).root = some i) :
    ∃ hs, l.onHeap c (heapDequeue (some l.timersCompare)) = some { l with heaps := hs } ∧
      Heaps { l with heaps := hs } (Function.update f c ((f c).erase i)) := by
  obtain ⟨j, h, hj, -, -, he, hh'⟩ := heapDequeue_represents (hh c) ⟨i, ((hh c).root_le hr).1⟩
  obtain rfl : i = j := Option.some.inj (hr.symm.trans hj)
  exact hh.onHeap ⟨h, he, hh'⟩

end Heaps

theorem lt_allocs (hf : l.Fresh) (hm : l.memory i = some t) : i < l.allocs := by
  by_contra hi
  simp [hf i (Nat.not_lt.mp hi)] at hm

-- A timer is in one heap only.
theorem Heaps.erase {hs : Clock → Heap Id} (hf : l.Fresh)
    (hh : Heaps { l with heaps := hs } <|
      Function.update l.live (l.clock i) ((l.live (l.clock i)).erase i)) :
    Heaps { l with heaps := hs } fun c => (l.live c).erase i := by
  intro c
  have hc := hh c
  by_cases hci : c = l.clock i
  · subst hci; simpa using hc
  · have hi : i ∉ l.live c := by
      rw [mem_live hf]
      rintro ⟨t', hm', hc', -⟩
      exact hci <| by rw [← hc', clock, timer_eq hm']
    show Represents _ _ ((l.live c).erase i)
    rw [Finset.erase_eq_of_notMem hi]
    simpa [hci] using hc

-- A timer that is in no heap is inserted into one of them.
theorem Heaps.rearm {f : Clock → Finset Id} (hh : l.Heaps fun c => (f c).erase i) (k : Clock) :
    ∃ hs, l.onHeap k (heapInsert (some l.timersCompare) i) = some { l with heaps := hs } ∧
      Heaps { l with heaps := hs } fun c => if k = c then Insert.insert i (f c) else (f c).erase i := by
  obtain ⟨hs, he, hh'⟩ := hh.insert (c := k) (Finset.notMem_erase _ _)
  refine ⟨hs, he, fun c => ?_⟩
  have hc := hh' c
  by_cases hkc : k = c
  · subst hkc
    have hf : Insert.insert i ((f k).erase i) = Insert.insert i (f k) := by
      ext j; by_cases hj : j = i <;> simp [hj]
    simpa [hf] using hc
  · simpa [hkc, Ne.symm hkc] using hc

namespace Sound

-- Flags change, but neither the heaps nor anything they depend on.
theorem alter (hs : Sound l) (hm : l.memory i = some t) {t' : Htimer} (hb : Became i (some t') l l')
    (hh : l'.heaps = l.heaps) (hl : ∀ c, isLive c t' = isLive c t)
    (ht : t'.nextTimeout = t.nextTimeout) (hn : l'.ntimers = l.ntimers)
    (hd : t'.destroy = t.destroy) (ha : l'.nactives + t.active.toNat = l.nactives + t'.active.toNat) :
    Sound l' := by
  refine hb.sound hs ?_ (by simp [hm, hn, hd]) (by simpa [hm] using ha)
  have hf : (fun c => if (some t').any (isLive c) then insert i (l.live c) else (l.live c).erase i) =
      l.live := by
    funext c
    have hi : i ∈ l.live c ↔ isLive c t := by simp [live, mem_those hs.fresh, hm]
    rw [Option.any_some, hl c]
    split
    case isTrue h  => exact Finset.insert_eq_of_mem (hi.mpr h)
    case isFalse h => exact Finset.erase_eq_of_notMem (mt hi.mp h)
  rw [hf]
  refine hs.heaps.congr hh fun c j _ => ?_
  by_cases hj : j = i
  · subst hj; rw [deadline_of_eq hb.eq, deadline_of_eq hm, ht]
  · exact deadline_eq (hb.eq_of_ne hj)

-- A destroyed timer is freed.
theorem free (hs : Sound l) (hm : l.memory i = some t) (hd : t.destroy = true) (ha : t.active = false)
    (hb : Became i none l l') (hh : l'.heaps = l.heaps) (hn : l'.ntimers = l.ntimers)
    (hn' : l'.nactives = l.nactives) : Sound l' := by
  refine hb.sound hs ?_ (by simp [hm, hn, hd]) (by simp [hm, hn', ha])
  have hi (c : Clock) : i ∉ l.live c := by simp [mem_live hs.fresh, hm, hd]
  simp only [Option.any_none, Bool.false_eq_true, if_false, Finset.erase_eq_of_notMem (hi _)]
  refine hs.heaps.congr hh fun c j hj => deadline_eq (hb.eq_of_ne ?_)
  rintro rfl
  exact hi c hj

end Sound

-- Replacing the timer at `i`.
theorem became_modify (hf : l.Fresh) (hm : l.memory i = some t) (g : Htimer → Htimer) :
    Became i (some (g t)) l (l.modify i g) := by
  have hi : i + 1 ≤ l.allocs := lt_allocs hf hm
  exact ⟨by rw [modify, hm]; rfl, (max_eq_left hi).symm⟩

end Hloop

open Hloop (Became SameLists)

variable {l : Hloop} {i : Id} {t : Htimer}

theorem addTimer_spec (hw : l.Wf) (ht : Htimer.Ok { t with active := true }) (hd : t.destroy = false)
    (ha : t.active = false) :
    ∃ l', addTimer t l = some (l.allocs, l') ∧ l'.Wf ∧
      Became l.allocs (some { t with active := true }) l l' ∧ SameLists l l' := by
  have hm := hw.fresh l.allocs le_rfl
  let l₁ := { l with memory := Function.update l.memory l.allocs (some t), allocs := l.allocs + 1 }
  have hh₁ : l₁.Heaps l.live := hw.heaps.congr rfl fun c i hi => by
    refine Hloop.deadline_eq <| Function.update_of_ne ?_ _ _
    rintro rfl
    exact Hloop.notMem_those hm hi
  obtain ⟨hs, he, hh⟩ := hh₁.insert (c := t.eventType.clock) (Hloop.notMem_those hm)
  let l' := { l₁ with
    memory   := Function.update l.memory l.allocs (some { t with active := true })
    heaps    := hs
    nactives := l.nactives + 1
    ntimers  := l.ntimers + 1 }
  have hb : Became l.allocs (some { t with active := true }) l l' := ⟨rfl, by simp [l', l₁]⟩
  refine ⟨l', ?_, ?_, hb, rfl, rfl⟩
  · have hadd : addTimer t l =
        (l₁.onHeap t.eventType.clock (heapInsert (some l₁.timersCompare) l.allocs)).bind fun l' =>
          some (l.allocs,
            { eventActive l.allocs l' with ntimers := (eventActive l.allocs l').ntimers + 1 }) := rfl
    rw [hadd, he]
    simp [eventActive, Hloop.timer, Hloop.modify, ha, l₁, l']
  · refine hb.wf (hb.sound hw.toSound (fun c => ?_) ?_ ?_) hw ?_
    case refine_1 =>
      have hh' : l'.Heaps _ := hh.congr rfl fun c i _ => by
        by_cases hi : i = l.allocs
        · subst hi; simp [Hloop.deadline, Hloop.timer, l', l₁]
        · exact Hloop.deadline_eq <| by simp [l', l₁, hi]
      have hc := hh' c
      by_cases hcc : c = t.eventType.clock
      · subst hcc
        simpa [Hloop.isLive, hd] using hc
      · simpa [Hloop.isLive, hd, hcc, Ne.symm hcc, Hloop.notMem_those hm, Hloop.live] using hc
    case refine_2 => simp [hm, hd, l']
    case refine_3 => simp [hm, l']
    case refine_4 => rintro _ ⟨⟩; exact ht

variable {l' : Hloop} {c : Clock}

theorem became_self (hf : l.Fresh) (hm : l.memory i = some t) : Became i (some t) l l := by
  have hi : i + 1 ≤ l.allocs := Hloop.lt_allocs hf hm
  exact ⟨by rw [← hm, Function.update_eq_self], (max_eq_left hi).symm⟩

theorem eventActive_spec (hs : l.Sound) (hm : l.memory i = some t) :
    (eventActive i l).Sound ∧ Became i (some { t with active := true }) l (eventActive i l) ∧
      SameLists l (eventActive i l) := by
  rw [eventActive, Hloop.timer_eq hm]
  split
  case isTrue ha  =>
    rw [show { t with active := true } = t by rw [← ha]]
    exact ⟨hs, became_self hs.fresh hm, rfl, rfl⟩
  case isFalse ha =>
    have hb : Became i (some { t with active := true }) l
        { l.modify i ({ · with active := true }) with nactives := l.nactives + 1 } :=
      (Hloop.became_modify hs.fresh hm ({ · with active := true })).of_eq rfl rfl
    refine ⟨hs.alter hm hb rfl (fun _ => rfl) rfl rfl rfl ?_, hb, rfl, rfl⟩
    simp [Bool.eq_false_of_not_eq_true ha]

theorem eventInactive_spec (hs : l.Sound) (hm : l.memory i = some t) :
    (eventInactive i l).Sound ∧ Became i (some { t with active := false }) l (eventInactive i l) ∧
      SameLists l (eventInactive i l) := by
  rw [eventInactive, Hloop.timer_eq hm]
  split
  case isTrue ha =>
    have hb : Became i (some { t with active := false }) l
        { l.modify i ({ · with active := false }) with nactives := l.nactives - 1 } :=
      (Hloop.became_modify hs.fresh hm ({ · with active := false })).of_eq rfl rfl
    refine ⟨hs.alter hm hb rfl (fun _ => rfl) rfl rfl rfl ?_, hb, rfl, rfl⟩
    have hpos : i ∈ l.those (·.active) := (Hloop.mem_those hs.fresh).mpr ⟨t, hm, ha⟩
    have := Finset.card_pos.mpr ⟨i, hpos⟩
    have := hs.nactives
    simp only [ha, Bool.toNat_true, Bool.toNat_false]
    omega
  case isFalse ha =>
    rw [show { t with active := false } = t by rw [← Bool.eq_false_of_not_eq_true ha]]
    exact ⟨hs, became_self hs.fresh hm, rfl, rfl⟩

-- Once it is inactive, a destroyed timer is freed unless it is pending.
theorem eventDel_spec (hs : l.Sound) (hm : l.memory i = some t) (hd : t.destroy = true) :
    (eventDel i l).Sound ∧
      Became i (if t.pending then some { t with active := false } else none) l (eventDel i l) ∧
      SameLists l (eventDel i l) := by
  obtain ⟨hs', hb, hl⟩ := eventInactive_spec hs hm
  rw [eventDel, Hloop.timer_eq hb.eq]
  split
  case isTrue  => exact ⟨hs', hb, hl⟩
  case isFalse =>
    have hb' : Became i none (eventInactive i l)
        { eventInactive i l with memory := Function.update (eventInactive i l).memory i none } :=
      ⟨rfl, (max_eq_left (Hloop.lt_allocs hs'.fresh hb.eq)).symm⟩
    exact ⟨hs'.free hb.eq hd rfl hb' rfl rfl rfl, hb.trans hb', hl.pendings, hl.npendings⟩

theorem htimerDel'_spec (hs : l.Sound) (hm : l.memory i = some t) :
    ∃ l', htimerDel' i l = some l' ∧ l'.Sound ∧ Became i (some { t with destroy := true }) l l' ∧
      SameLists l l' := by
  rw [htimerDel', Hloop.timer_eq hm]
  split
  case isTrue hd  =>
    rw [show { t with destroy := true } = t by rw [← hd]]
    exact ⟨l, rfl, hs, became_self hs.fresh hm, rfl, rfl⟩
  case isFalse hd =>
    have hd := Bool.eq_false_of_not_eq_true hd
    have hc : l.clock i = t.eventType.clock := by rw [Hloop.clock, Hloop.timer_eq hm]
    have hlive : i ∈ l.live (l.clock i) := (Hloop.mem_live hs.fresh).mpr ⟨t, hm, hc.symm, hd⟩
    obtain ⟨h, he, hh⟩ := hs.heaps.remove hlive
    let l' := { l.modify i ({ · with destroy := true }) with heaps := h, ntimers := l.ntimers - 1 }
    have hb : Became i (some { t with destroy := true }) l l' :=
      (Hloop.became_modify hs.fresh hm ({ · with destroy := true })).of_eq rfl rfl
    refine ⟨l', by rw [he]; rfl, hb.sound hs ?_ ?_ ?_, hb, rfl, rfl⟩
    · have hh' := Hloop.Heaps.erase hs.fresh hh
      have hh'' : l'.Heaps fun c => (l.live c).erase i := hh'.congr rfl fun c j hj =>
        Hloop.deadline_eq <| hb.eq_of_ne <| Finset.ne_of_mem_erase hj
      simpa [Hloop.isLive] using hh''
    · have hpos : i ∈ l.those (!·.destroy) := (Hloop.mem_those hs.fresh).mpr ⟨t, hm, by simp [hd]⟩
      have := Finset.card_pos.mpr ⟨i, hpos⟩
      have hn := hs.ntimers
      have hn' : l'.ntimers = l.ntimers - 1 := rfl
      simp only [hm, hd, Option.any_some, Bool.not_true, Bool.not_false, Bool.toNat_true,
        Bool.toNat_false]
      omega
    · simp [hm, l', Hloop.modify]

-- What a timer that expires adds to a list of pending events.
def Htimer.queued (i : Id) (t : Htimer) : List Id :=
  if t.pending then [] else [i]

theorem eventPending_spec (hs : l.Sound) (hm : l.memory i = some t) :
    (eventPending i l).Sound ∧ Became i (some { t with pending := true }) l (eventPending i l) ∧
      (eventPending i l).npendings = l.npendings + (t.queued i).length ∧
      (eventPending i l).pendings = Function.update l.pendings t.eventType.priority
        (t.queued i ++ l.pendings t.eventType.priority) := by
  rw [eventPending, Hloop.timer_eq hm, Htimer.queued]
  split
  case isTrue hp =>
    rw [show { t with pending := true } = t by rw [← hp]]
    exact ⟨hs, became_self hs.fresh hm, rfl, by simp⟩
  case isFalse hp =>
    have hb : Became i (some { t with pending := true }) l
        { l.modify i ({ · with pending := true }) with
          npendings := l.npendings + 1
          pendings  := Function.update l.pendings t.eventType.priority
            (i :: l.pendings t.eventType.priority) } :=
      (Hloop.became_modify hs.fresh hm ({ · with pending := true })).of_eq rfl rfl
    exact ⟨hs.alter hm hb rfl (fun _ => rfl) rfl rfl rfl rfl, hb, rfl, rfl⟩

-- What becomes of a timer that is reset.
def Htimer.reset (cur timeoutMs : Nat) (t : Htimer) : Htimer :=
  match t.eventType with
  | .period ..       => t
  | .timeout timeout =>
    let timeout := if timeoutMs > 0 then timeoutMs else timeout
    { eventType   := .timeout timeout
      repeat'     := if t.repeat' = 0 then 1 else t.repeat'
      nextTimeout := Rlibhv.nextTimeout cur timeout
      destroy     := false
      active      := true
      pending     := false }

theorem Htimer.Ok.reset {cur timeoutMs : Nat} (ht : t.Ok) : (t.reset cur timeoutMs).Ok := by
  rw [Htimer.reset]
  cases he : t.eventType
  case period  => exact ht
  case timeout n =>
    refine ⟨by simp, by simp, fun m hm => ?_⟩
    have := ht.timeout n he
    simp only [EventType.timeout.injEq] at hm
    split at hm <;> omega

-- Taking the timer at `i` from its heap, if it is still there, in order to reset it.
theorem disarm_spec (hw : l.Wf) (hm : l.memory i = some t) (hc : t.eventType.clock = .monotonic) :
    ∃ l₁, disarm i l = some l₁ ∧ l₁.Heaps (fun c => (l.live c).erase i) ∧ l₁.memory = l.memory ∧
      l₁.allocs = l.allocs ∧ l₁.ntimers = l.ntimers + t.destroy.toNat ∧ l₁.nactives = l.nactives ∧
      SameLists l l₁ ∧ l₁.curHrtime = l.curHrtime := by
  rw [disarm, Hloop.timer_eq hm]
  split
  case isTrue hd  =>
    refine ⟨_, rfl, ?_, rfl, rfl, by simp [hd], rfl, ⟨rfl, rfl⟩, rfl⟩
    have hi (c : Clock) : i ∉ l.live c := by simp [Hloop.mem_live hw.fresh, hm, hd]
    simp only [Finset.erase_eq_of_notMem (hi _)]
    exact hw.heaps
  case isFalse hd =>
    have hd := Bool.eq_false_of_not_eq_true hd
    have hci : .monotonic = l.clock i := by rw [Hloop.clock, Hloop.timer_eq hm, hc]
    have hlive : i ∈ l.live .monotonic := (Hloop.mem_live hw.fresh).mpr ⟨t, hm, hc, hd⟩
    obtain ⟨h, he, hh⟩ := hw.heaps.remove hlive
    rw [hci] at hh
    exact ⟨_, he, Hloop.Heaps.erase hw.fresh hh, rfl, rfl, by simp [hd], rfl, ⟨rfl, rfl⟩, rfl⟩

theorem htimerReset_spec (hw : l.Wf) (hm : l.memory i = some t) (timeoutMs : Nat) :
    ∃ l', htimerReset i timeoutMs l = some l' ∧ l'.Wf ∧ SameLists l l' ∧
      Became i (some (t.reset l.curHrtime timeoutMs)) l l' := by
  rw [htimerReset, Hloop.timer_eq hm]
  cases het : t.eventType
  case period =>
    refine ⟨l, rfl, hw, ⟨rfl, rfl⟩, ?_⟩
    rw [Htimer.reset, het]
    exact became_self hw.fresh hm
  case timeout timeout =>
    obtain ⟨l₁, he₁, hh₁, hm₁, ha₁, hn₁, hna₁, hl₁, hcur⟩ := disarm_spec hw hm (by rw [het]; rfl)
    let timeout' := if timeoutMs > 0 then timeoutMs else timeout
    let g (t : Htimer) : Htimer := { t with
      repeat'     := if t.repeat' = 0 then 1 else t.repeat'
      eventType   := .timeout timeout'
      nextTimeout := nextTimeout l.curHrtime timeout' }
    have hb₁ : Became i (some t) l l₁ := (became_self hw.fresh hm).of_eq hm₁ ha₁
    have hb₂ : Became i (some (g t)) l (l₁.modify i g) :=
      hb₁.trans <| Hloop.became_modify (hb₁.fresh hw.fresh) hb₁.eq g
    have hh₂ : (l₁.modify i g).Heaps fun c => (l.live c).erase i := hh₁.congr rfl fun c j hj =>
      Hloop.deadline_eq <| by simp [Hloop.modify, Finset.ne_of_mem_erase hj]
    obtain ⟨h₃, he₃, hh₃⟩ := hh₂.rearm .monotonic
    let l₃ := { l₁.modify i g with heaps := h₃ }
    have hb₃ : Became i (some (g t)) l l₃ := hb₂.of_eq rfl rfl
    let l₄ := l₃.modify i ({ · with destroy := false })
    have hb₄ : Became i (some { g t with destroy := false }) l l₄ :=
      hb₃.trans <| Hloop.became_modify (hb₃.fresh hw.fresh) hb₃.eq ({ · with destroy := false })
    have hs₄ : l₄.Sound := by
      refine hb₄.sound hw.toSound ?_ ?_ ?_
      · have hh₄ : l₄.Heaps _ := hh₃.congr rfl fun c j _ => by
          by_cases hj : j = i
          · rw [hj, Hloop.deadline_of_eq hb₄.eq, Hloop.deadline_of_eq hb₃.eq]
          · exact Hloop.deadline_eq <| (hb₄.eq_of_ne hj).trans (hb₃.eq_of_ne hj).symm
        intro c
        have hc := hh₄ c
        by_cases hcm : Clock.monotonic = c <;> simpa [Hloop.isLive, g, EventType.clock, hcm] using hc
      · have : l₄.ntimers = l₁.ntimers := rfl
        rw [this, hn₁, hm]
        cases hd : t.destroy <;> simp [hd]
      · have : l₄.nactives = l₁.nactives := rfl
        rw [this, hna₁, hm]
        rfl
    obtain ⟨hs₅, hb₅, hl₅⟩ := eventActive_spec hs₄ hb₄.eq
    have hb₆ := Hloop.became_modify hs₅.fresh hb₅.eq ({ · with pending := false })
    have hs₆ := hs₅.alter hb₅.eq hb₆ rfl (fun _ => rfl) rfl rfl rfl rfl
    have hb : Became i (some (t.reset l.curHrtime timeoutMs)) l (eventReset i l₃) := by
      rw [Htimer.reset, het]
      exact (hb₄.trans hb₅).trans hb₆
    have hl₆ : SameLists l (eventReset i l₃) :=
      ⟨hl₅.pendings.trans hl₁.pendings, hl₅.npendings.trans hl₁.npendings⟩
    refine ⟨eventReset i l₃, ?_, hb.wf hs₆ hw ?_, hl₆, hb⟩
    · have hg : (fun t : Htimer => { t with
          repeat'     := if t.repeat' = 0 then 1 else t.repeat'
          eventType   := .timeout timeout'
          nextTimeout := nextTimeout l₁.curHrtime timeout' }) = g := by rw [hcur]
      simp only [he₁, Option.bind_eq_bind, Option.bind_some]
      rw [hg, he₃]
      rfl
    · rintro _ ⟨⟩; exact (hw.ok i t hm).reset

theorem htimerDel_spec (hw : l.Wf) (hm : l.memory i = some t) :
    ∃ l', htimerDel i l = some l' ∧ l'.Wf ∧ SameLists l l' ∧
      Became i (if t.pending then some { t with active := false, destroy := true } else none) l l' := by
  rw [htimerDel, Hloop.timer_eq hm]
  have ht := hw.ok i t hm
  split
  case isTrue ha =>
    obtain ⟨l₁, he, hs₁, hb₁, hl₁⟩ := htimerDel'_spec hw.toSound hm
    obtain ⟨hs₂, hb₂, hl₂⟩ := eventDel_spec hs₁ hb₁.eq rfl
    refine ⟨_, by rw [he]; rfl, (hb₁.trans hb₂).wf hs₂ hw ?_, hl₁.trans hl₂, hb₁.trans hb₂⟩
    intro t' ht'
    split at ht'
    · obtain rfl := Option.some.inj ht'
      exact ⟨by simp, by simpa using ‹_›, ht.timeout⟩
    · contradiction
  case isFalse ha =>
    have ha := Bool.eq_false_of_not_eq_true ha
    have hd := ht.active ha
    have hp := ht.destroy hd
    refine ⟨l, rfl, hw, ⟨rfl, rfl⟩, ?_⟩
    rw [if_pos hp, show { t with active := false, destroy := true } = t by rw [← ha, ← hd]]
    exact became_self hw.fresh hm

theorem htimerAdd_spec (hw : l.Wf) {timeoutMs : Nat} (repeat' now : Nat) (h : 0 < timeoutMs) :
    ∃ l', htimerAdd timeoutMs repeat' now l = some (some l.allocs, l') ∧ l'.Wf ∧ SameLists l l' ∧
      Became l.allocs (some
        { eventType   := .timeout timeoutMs
          repeat'     := repeat'
          nextTimeout := nextTimeout now timeoutMs
          active      := true }) l l' := by
  obtain ⟨l', he, hw', hb, hl⟩ := addTimer_spec (hw.updateTime now)
    (t := { eventType := .timeout timeoutMs, repeat' := repeat', nextTimeout := nextTimeout now timeoutMs })
    ⟨by simp, by simp, by rintro _ ⟨⟩; exact h⟩ rfl rfl
  refine ⟨l', ?_, hw', ⟨hl.pendings, hl.npendings⟩, ⟨hb.memory, hb.allocs⟩⟩
  rw [htimerAdd, if_neg (by omega)]
  simp only [he, Option.bind_eq_bind, Option.bind_some]
  rfl

theorem htimerAddPeriod_spec (cal : Calendar) (hw : l.Wf) {minute hour day week month : Int}
    (repeat' : Nat) (tt : Int)
    (h : ¬(minute > 59 ∨ hour > 23 ∨ day > 31 ∨ week > 6 ∨ month > 12)) :
    ∃ l', htimerAddPeriod cal minute hour day week month repeat' tt l = some (some l.allocs, l') ∧
      l'.Wf ∧ SameLists l l' ∧
      Became l.allocs (some
        { eventType   := .period minute hour day week month
          repeat'     := repeat'
          nextTimeout := cronDeadline cal tt minute hour day week month
          active      := true }) l l' := by
  obtain ⟨l', he, hw', hb, hl⟩ := addTimer_spec hw
    (t := { eventType   := .period minute hour day week month
            repeat'     := repeat'
            nextTimeout := cronDeadline cal tt minute hour day week month }) ⟨by simp, by simp, by simp⟩ rfl rfl
  refine ⟨l', ?_, hw', hl, hb⟩
  rw [htimerAddPeriod, if_neg h]
  simp only [he, Option.bind_eq_bind, Option.bind_some]
  rfl

-- After its callback a timer is no longer pending, and freed if it is destroyed.
theorem finish_spec (hw : l.Wf) (hm : l.memory i = some t) :
    (finish i l).Wf ∧ SameLists l (finish i l) ∧
      Became i (if t.destroy then none else some { t with pending := false }) l (finish i l) := by
  have ht := hw.ok i t hm
  have hb := Hloop.became_modify hw.fresh hm ({ · with pending := false })
  have hs := hw.toSound.alter hm hb rfl (fun _ => rfl) rfl rfl rfl rfl
  rw [finish, Hloop.timer_eq hb.eq]
  split
  case isTrue hd =>
    obtain ⟨hs', hb', hl'⟩ := eventDel_spec hs hb.eq hd
    rw [if_neg (by simp)] at hb'
    exact ⟨(hb.trans hb').wf hs' hw (by simp), ⟨hl'.pendings, hl'.npendings⟩, hb.trans hb'⟩
  case isFalse hd =>
    refine ⟨hb.wf hs hw ?_, ⟨rfl, rfl⟩, hb⟩
    rintro _ ⟨⟩
    exact ⟨ht.active, fun h => absurd h hd, ht.timeout⟩

end Rlibhv.Timers
