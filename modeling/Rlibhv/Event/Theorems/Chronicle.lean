import Rlibhv.Event.Theorems.Wf

-- The trace tells the lives of all descriptors.
namespace Rlibhv

def Desc.life (d : Desc) : Life :=
  match d.kind with
  | .conn => .accepted
  | k     => .opened k

structure Chronicle (w : World) : Prop where
  alive  : ∀ {f d}, w.kernel.fds f = some d → life d.serial w.trace = some d.life
  gone   : ∀ {d}, d < w.kernel.next → (∀ f k, w.kernel.fds f ≠ some ⟨d, k⟩) →
    life d w.trace = some .gone
  unborn : ∀ {d}, w.kernel.next ≤ d → life d w.trace = some .unborn

namespace Chronicle

variable {K : Hio → Prop} {R : Fd → Hio → World → Prop} {f : Fd} {c : Serial} {io io' : Hio}
  {t : List Event} {w w' : World} {ev : CloseEvent}

-- Changes that neither open nor close a descriptor.
theorem of_fds_eq (h : Chronicle w) (hf : ∀ g, w'.kernel.fds g = w.kernel.fds g)
    (hn : w'.kernel.next = w.kernel.next) (ht : ∀ d, life d w'.trace = life d w.trace) :
    Chronicle w' where
  alive hd     := ht _ ▸ h.alive (hf _ ▸ hd)
  gone hd hg   := ht _ ▸ h.gone (hn ▸ hd) fun f k => hf f ▸ hg f k
  unborn hd    := ht _ ▸ h.unborn (hn ▸ hd)

theorem touch (h : Chronicle w) (hc : Conn f c io w) (ht : Touch f c io io' t w w') :
    Chronicle w' := by
  refine h.of_fds_eq (ht.toFrame.fds_eq ht.fdsSelf) ht.next fun d => ?_
  rw [ht.trace]
  by_cases hd : d = c
  case pos =>
    have hl : life c w.trace = some .accepted := h.alive hc.fds
    rw [hd, hl, life_append_data hl ht.data]
  case neg =>
    refine life_append_of_ne fun e he => ⟨?_, (ht.data e he).not_closeFailed⟩
    rw [(ht.data e he).subject_eq]
    exact fun he => hd (Option.some.inj he).symm

-- One descriptor is closed. `t` is what the trace tells about this.
theorem of_close {d : Desc} (h : Chronicle w) (hw : w.kernel.Coherent) (hd : w.kernel.fds f = some d)
    (hf : ∀ g ≠ f, w'.kernel.fds g = w.kernel.fds g) (hs : w'.kernel.fds f = none)
    (hn : w'.kernel.next = w.kernel.next) (ht : w'.trace = w.trace ++ t)
    (hc : ∀ e ∈ t, e.subject = some d.serial ∧ e.isCloseFailed = false)
    (hl : life d.serial (w.trace ++ t) = some .gone) : Chronicle w' := by
  have hne {d'} (hd' : d' ≠ d.serial) : life d' w'.trace = life d' w.trace := by
    rw [ht]
    refine life_append_of_ne fun e he => ⟨?_, (hc e he).right⟩
    rw [(hc e he).left]
    exact fun he => hd' (Option.some.inj he).symm
  constructor
  case alive =>
    intro g d' hd'
    have hg : g ≠ f := by
      intro hg
      simp [hg, hs] at hd'
    rw [hf g hg] at hd'
    rw [hne, h.alive hd']
    exact fun he => hg <| hw.unique hd' hd he
  case unborn =>
    intro d' hd'
    have hlt := hw.serial hd
    rw [hne, h.unborn (hn ▸ hd')]
    exact fun he => absurd (Nat.lt_of_lt_of_le (he ▸ hlt) (hn ▸ hd')) (Nat.lt_irrefl _)
  case gone =>
    intro d' hd' hg
    by_cases he : d' = d.serial
    case pos => rw [he, ht, hl]
    case neg =>
      rw [hne he]
      refine h.gone (hn ▸ hd') fun g k => ?_
      by_cases hgf : g = f
      case pos =>
        rw [hgf, hd]
        intro h
        exact he (congrArg Desc.serial (Option.some.inj h)).symm
      case neg => exact hf g hgf ▸ hg g k

theorem shut (h : Chronicle w) (hw : Wf w) (hc : Conn f c io w) (hs : Shut f c io w w') :
    Chronicle w' := by
  refine h.of_close hw.coherent hc.fds hs.fds hs.fdsSelf hs.next hs.trace ?_ ?_
  case refine_1 => simp [Event.subject, Event.isCloseFailed]
  case refine_2 =>
    have hl : life c w.trace = some .accepted := h.alive hc.fds
    simp [life_append, hl, Life.step, Life.next, Event.subject, Event.isCloseFailed]

-- One descriptor is opened.
theorem of_open {k : Kind} (h : Chronicle w) (hf : ∀ g ≠ f, w'.kernel.fds g = w.kernel.fds g)
    (hs : w'.kernel.fds f = some ⟨w.kernel.next, k⟩) (hfr : w.kernel.fds f = none)
    (hw : w.kernel.Coherent) (hn : w'.kernel.next = w.kernel.next + 1) (ht : w'.trace = w.trace ++ t)
    (hc : ∀ e ∈ t, e.subject = some w.kernel.next ∧ e.isCloseFailed = false)
    (hl : life w.kernel.next (w.trace ++ t) = some (Desc.life ⟨w.kernel.next, k⟩)) :
    Chronicle w' := by
  have hne {d'} (hd' : d' ≠ w.kernel.next) : life d' w'.trace = life d' w.trace := by
    rw [ht]
    refine life_append_of_ne fun e he => ⟨?_, (hc e he).right⟩
    rw [(hc e he).left]
    exact fun he => hd' (Option.some.inj he).symm
  constructor
  case alive =>
    intro g d' hd'
    by_cases hg : g = f
    case pos =>
      cases hs.symm.trans (hg ▸ hd')
      rw [ht, hl]
    case neg =>
      rw [hf g hg] at hd'
      rw [hne (Nat.ne_of_lt <| hw.serial hd'), h.alive hd']
  case unborn =>
    intro d' hd'
    have hlt : w.kernel.next < d' := by rwa [hn] at hd'
    rw [hne (Nat.ne_of_gt hlt), h.unborn (Nat.le_of_lt hlt)]
  case gone =>
    intro d' hd' hg
    have hd'' : d' ≠ w.kernel.next := by
      intro he
      exact hg f k (he ▸ hs)
    rw [hn] at hd'
    rw [hne hd'']
    refine h.gone (Nat.lt_of_le_of_ne (Nat.le_of_lt_succ hd') hd'') fun g k' => ?_
    by_cases hgf : g = f
    case pos => simp [hgf, hfr]
    case neg => exact hf g hgf ▸ hg g k'

theorem birth (h : Chronicle w) (hw : Wf w) (hb : Birth f w w') : Chronicle w' := by
  refine h.of_open hb.fds hb.fdsSelf hb.fresh hw.coherent hb.next hb.trace ?_ ?_
  case refine_1 => simp [Event.subject, Event.isCloseFailed]
  case refine_2 =>
    have hl : life w.kernel.next w.trace = some .unborn := h.unborn (Nat.le_refl _)
    simp [life_append, hl, Life.step, Life.next, Event.subject, Event.isCloseFailed, Desc.life]

theorem pop (h : Chronicle w) (hp : Pop ev w w') : Chronicle w' := by
  refine h.of_fds_eq (fun _ => hp.kernel ▸ rfl) (hp.kernel ▸ rfl) fun d => ?_
  cases hp.trace
  case inl ht => rw [ht]
  case inr ht =>
    rw [ht.right]
    exact life_append_of_ne (by simp [Event.subject, Event.isCloseFailed])

theorem flush (h : Chronicle w) (hw : Wf w) (hc : Conn f c io w) (hf : Flush K f c io w w') :
    Chronicle w' := by
  obtain ⟨_, _, _, ht, _, _, _, hs⟩ := hf
  cases hs
  case inl hs => exact hs ▸ h.touch hc ht
  case inr hs => exact (h.touch hc ht).shut (hw.touch hc ht) (ht.conn hc) hs.left

theorem aside (h : Chronicle w) (ha : Aside f w w') : Chronicle w' :=
  h.of_fds_eq (ha.toFrame.fds_eq ha.fdsSelf) ha.next fun _ => ha.trace ▸ rfl

theorem rest (h : Chronicle w) (hr : Rest w w') : Chronicle w' :=
  h.of_fds_eq (fun _ => hr.kernel ▸ rfl) (hr.kernel ▸ rfl) fun _ => hr.trace ▸ rfl

theorem effect (h : Chronicle w) (hw : Wf w) (he : Effect K R w w') : Chronicle w' := by
  cases he
  case aside ha => exact h.aside ha
  case rest hr  => exact h.rest hr
  case visit _ hc hv =>
    obtain ⟨_, _, _, _, ht, _, _, hs⟩ := hv
    cases hs
    case inl hs => exact hs ▸ h.touch hc ht
    case inr hs => exact (h.touch hc ht).shut (hw.touch hc ht) (ht.conn hc) hs.left
  case move hm =>
    cases hm
    case flush hc hf  => exact h.flush hw hc hf
    case birth hb     => exact h.birth hw hb
    case aside ha     => exact h.aside ha
    case event hp hcr =>
      cases hcr.effect
      case inl he => exact he ▸ h.pop hp
      case inr he =>
        obtain ⟨_, _, hc, hf⟩ := he
        exact (h.pop hp).flush (hw.pop hp) hc hf

end Chronicle

-- The posted closes and the connections that they are for. The ids tell connections apart as long as
-- they do not wrap around.
structure Owned (w : World) : Prop where
  ids    : ∀ f c io, Conn f c io w → io.id ≤ w.sId
  events : ∀ ev ∈ w.loop.customEvents.toList, ev.id ≤ w.sId
  owner  : ∀ ev ∈ w.loop.customEvents.toList, ∀ c io, Conn ev.io c io w → io.id = ev.id →
    ev.poster = some c
  done   : ∀ p c, .closeEvent p c ∈ w.trace → c = none ∨ c = p

namespace Owned

variable {K : Hio → Prop} {R : Fd → Hio → World → Prop} {f : Fd} {c : Serial} {io io' : Hio}
  {t : List Event} {w w' : World} {ev : CloseEvent}

theorem touch (h : Owned w) (hc : Conn f c io w) (ht : Touch f c io io' t w w') : Owned w' := by
  obtain ⟨n, hn, _⟩ := ht.posts
  constructor
  case ids =>
    intro g c₂ io₂ hc₂
    rw [ht.sId]
    cases hc₂.of_touch ht hc
    case inl hc₂ => exact h.ids g c₂ io₂ hc₂.right
    case inr hc₂ => exact hc₂.right.right ▸ ht.id_eq ▸ h.ids f c io hc
  case events =>
    intro ev he
    rw [hn] at he
    rw [ht.sId]
    cases List.mem_append.mp he
    case inl he => exact h.events ev he
    case inr he => exact List.eq_of_mem_replicate he ▸ h.ids f c io hc
  case owner =>
    intro ev he c₂ io₂ hc₂ hid
    rw [hn] at he
    cases hc₂.of_touch ht hc
    case inl hc₂ =>
      cases List.mem_append.mp he
      case inl he => exact h.owner ev he c₂ io₂ hc₂.right hid
      case inr he => exact absurd (List.eq_of_mem_replicate he ▸ rfl) hc₂.left
    case inr hc₂ =>
      obtain ⟨hf, hcc, hio⟩ := hc₂
      rw [hcc]
      cases List.mem_append.mp he
      case inl he => exact h.owner ev he c io (hf ▸ hc) (ht.id_eq ▸ hio ▸ hid)
      case inr he => exact List.eq_of_mem_replicate he ▸ rfl
  case done =>
    intro p q hm
    rw [ht.trace] at hm
    cases List.mem_append.mp hm
    case inl hm => exact h.done p q hm
    case inr hm => exact (ht.data _ hm).elim

theorem shut (h : Owned w) (hs : Shut f c io w w') : Owned w' where
  ids g c₂ io₂ hc₂           := hs.sId ▸ h.ids g c₂ io₂ (hc₂.of_shut hs).right
  events ev he               := hs.sId ▸ h.events ev (hs.events ▸ he)
  owner ev he c₂ io₂ hc₂ hid := h.owner ev (hs.events ▸ he) c₂ io₂ (hc₂.of_shut hs).right hid
  done p q hm                := h.done p q (by simpa [hs.trace] using hm)

-- Here the ids must not wrap around.
theorem birth (h : Owned w) (hb : Birth f w w') (hi : w'.sId < 2 ^ 32) : Owned w' := by
  have hid : (w.sId + 1) % 2 ^ 32 = w.sId + 1 := Nat.mod_eq_of_lt (hb.sId ▸ hi)
  constructor
  case ids =>
    intro g c₂ io₂ hc₂
    rw [hb.sId]
    cases hc₂.of_birth hb
    case inl hc₂ => exact Nat.le_succ_of_le <| h.ids g c₂ io₂ hc₂.right
    case inr hc₂ => exact Nat.le_of_eq <| hc₂.right.right.left.trans hid
  case events =>
    intro ev he
    rw [hb.sId]
    exact Nat.le_succ_of_le <| h.events ev (hb.events ▸ he)
  case owner =>
    intro ev he c₂ io₂ hc₂ hid'
    cases hc₂.of_birth hb
    case inl hc₂ => exact h.owner ev (hb.events ▸ he) c₂ io₂ hc₂.right hid'
    case inr hc₂ =>
      have hle := h.events ev (hb.events ▸ he)
      rw [←hid', hc₂.right.right.left, hid] at hle
      exact absurd hle (Nat.not_succ_le_self _)
  case done => exact fun p q hm => h.done p q (by simpa [hb.trace] using hm)

theorem aside (h : Owned w) (ha : Aside f w w') : Owned w' where
  ids g c₂ io₂ hc₂           := ha.sId ▸ h.ids g c₂ io₂ (hc₂.of_aside ha).right
  events ev he               := ha.sId ▸ h.events ev (ha.events ▸ he)
  owner ev he c₂ io₂ hc₂ hid := h.owner ev (ha.events ▸ he) c₂ io₂ (hc₂.of_aside ha).right hid
  done p q hm                := h.done p q (ha.trace ▸ hm)

theorem rest (h : Owned w) (hr : Rest w w') : Owned w' := by
  have hid {io io' : Hio} (he : io'.core = io.core) : io'.id = io.id := (congrArg Hio.id he).trans rfl
  constructor
  case ids =>
    intro g c₂ io₂ hc₂
    obtain ⟨io, hc, he⟩ := hc₂.of_rest hr
    exact hr.sId ▸ hid he ▸ h.ids g c₂ io hc
  case events => exact fun ev he => hr.sId ▸ h.events ev (hr.events ▸ he)
  case done   => exact fun p q hm => h.done p q (hr.trace ▸ hm)
  case owner =>
    intro ev he c₂ io₂ hc₂ hi
    obtain ⟨io, hc, hcore⟩ := hc₂.of_rest hr
    exact h.owner ev (hr.events ▸ he) c₂ io hc (hid hcore ▸ hi)

-- A close that is carried out is carried out on the connection that it was posted for.
theorem pop (h : Owned w) (hw : Wf w) (hp : Pop ev w w') : Owned w' := by
  have hm {ev'} (he : ev' ∈ w'.loop.customEvents.toList) : ev' ∈ w.loop.customEvents.toList := by
    rw [hp.loop, Queue.toList_popFront] at he
    exact List.mem_of_mem_tail he
  constructor
  case ids    => exact fun g c₂ io₂ hc₂ => hp.sId ▸ h.ids g c₂ io₂ (hc₂.of_pop hp)
  case events => exact fun ev he => hp.sId ▸ h.events ev (hm he)
  case owner  => exact fun ev he c₂ io₂ hc₂ hid => h.owner ev (hm he) c₂ io₂ (hc₂.of_pop hp) hid
  case done =>
    intro p q hq
    cases hp.trace
    case inl ht => exact h.done p q (ht ▸ hq)
    case inr ht =>
      rw [ht.right] at hq
      cases List.mem_append.mp hq
      case inl hq => exact h.done p q hq
      case inr hq =>
        obtain ⟨hp', hq'⟩ : p = ev.poster ∧ q = w.serial ev.io := by simpa using hq
        rw [hp', hq']
        cases hw.events ev hp.mem
        case inl hn => exact .inl (by simpa [World.kind, World.serial] using hn)
        case inr hn =>
          obtain ⟨d, hd, hdk⟩ := Option.map_eq_some_iff.mp hn
          obtain ⟨c, _⟩ := d
          cases hdk
          obtain ⟨io, hc⟩ := hw.conn hd
          rw [hc.serial_eq]
          exact .inr (h.owner ev hp.mem c io hc (hc.io_eq ▸ ht.left)).symm

theorem flush (h : Owned w) (hc : Conn f c io w) (hf : Flush K f c io w w') : Owned w' := by
  obtain ⟨_, _, _, ht, _, _, _, hs⟩ := hf
  cases hs
  case inl hs => exact hs ▸ h.touch hc ht
  case inr hs => exact (h.touch hc ht).shut hs.left

theorem effect (h : Owned w) (hw : Wf w) (he : Effect K R w w') (hi : w'.sId < 2 ^ 32) :
    Owned w' := by
  cases he
  case aside ha => exact h.aside ha
  case rest hr  => exact h.rest hr
  case visit _ hc hv =>
    obtain ⟨_, _, _, _, ht, _, _, hs⟩ := hv
    cases hs
    case inl hs => exact hs ▸ h.touch hc ht
    case inr hs => exact (h.touch hc ht).shut hs.left
  case move hm =>
    cases hm
    case flush hc hf  => exact h.flush hc hf
    case birth hb     => exact h.birth hb hi
    case aside ha     => exact h.aside ha
    case event hp hcr =>
      cases hcr.effect
      case inl he => exact he ▸ h.pop hw hp
      case inr he =>
        obtain ⟨_, _, hc, hf⟩ := he
        exact (h.pop hw hp).flush hc hf

end Owned

end Rlibhv
