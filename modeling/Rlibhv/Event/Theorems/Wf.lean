import Rlibhv.Event.Theorems.Effect

-- The invariant of the loop and the kernel.
namespace Rlibhv

-- The descriptor is closed or belongs to a connection, in contrast to the server's own descriptors.
def World.Client (w : World) (f : Fd) : Prop :=
  w.kind f = none ∨ w.kind f = some .conn

-- Open files are told apart by their serial numbers.
structure Kernel.Coherent (k : Kernel) : Prop where
  serial : ∀ {f d}, k.fds f = some d → d.serial < k.next
  unique : ∀ {f g d d'}, k.fds f = some d → k.fds g = some d' → d.serial = d'.serial → f = g

structure Wf (w : World) : Prop where
  serial  : ∀ {f d}, w.kernel.fds f = some d → d.serial < w.kernel.next
  unique  : ∀ {f g d d'}, w.kernel.fds f = some d → w.kernel.fds g = some d' →
    d.serial = d'.serial → f = g
  fits    : ∀ f, Fits (w.kind f) (w.loop.ios f)
  destroy : ∀ {f io}, w.loop.ios f = some io → io.destroy = false
  bound   : ∀ {f io}, w.loop.ios f = some io → f < w.loop.iosMaxsize
  epoll   : ∀ f, w.kind f = some .epoll ↔ w.loop.iowatcher = some f
  eventfd : ∀ f, w.kind f = some .eventfd ↔ w.loop.eventfds = some f
  watched : ∀ {f}, w.kind f = some .conn → w.loop.iowatcher.isSome ∧ w.loop.eventfds.isSome
  timers  : ∀ t ∈ w.loop.timers, w.Client t.io
  events  : ∀ ev ∈ w.loop.customEvents.toList, w.Client ev.io
  readbuf : w.loop.readbuf.len = 0 ∨ w.loop.readbuf.len = hloopReadBufsize
  count   : w.kernel.eventfdCount < 2 ^ 64

theorem kind_congr {f : Fd} {w w' : World} (h : w'.kernel.fds f = w.kernel.fds f) :
    w'.kind f = w.kind f := by
  simp [World.kind, h]

theorem client_congr {f : Fd} {w w' : World} (h : w'.kernel.fds f = w.kernel.fds f)
    (hc : w.Client f) : w'.Client f := by
  simpa [World.Client, kind_congr h] using hc

theorem Frame.fds_eq {f : Fd} {w w' : World} (h : Frame f w w')
    (hf : w'.kernel.fds f = w.kernel.fds f) (g : Fd) : w'.kernel.fds g = w.kernel.fds g := by
  by_cases hg : g = f
  case pos => exact hg ▸ hf
  case neg => exact h.fds g hg

namespace Wf

variable {f : Fd} {c : Serial} {io io' : Hio} {t : List Event} {w w' : World} {ev : CloseEvent}

theorem coherent (hw : Wf w) : w.kernel.Coherent :=
  ⟨hw.serial, hw.unique⟩

theorem conn (hw : Wf w) (h : w.kernel.fds f = some ⟨c, .conn⟩) : ∃ io, Conn f c io w := by
  have hk : w.kind f = some .conn := by simp [World.kind, h]
  have hf := hw.fits f
  cases hi : w.loop.ios f
  case none    => simp [hk, hi, Fits] at hf
  case some io =>
    have hl : io.Live := by simpa [hk, hi, Fits] using hf
    exact ⟨io, h, hi, hl, hw.watched hk |>.left, hw.watched hk |>.right⟩

theorem listen (hw : Wf w) (h : w.kind f = some .listen) :
    ∃ io, w.loop.ios f = some io ∧ io.Listening := by
  have hf := hw.fits f
  cases hi : w.loop.ios f
  case none    => simp [h, hi, Fits] at hf
  case some io => exact ⟨io, rfl, by simpa [h, hi, Fits] using hf⟩

-- The io that a new connection gets.
theorem closed_io (hw : Wf w) (h : w.kernel.fds f = none) :
    (w.io f).destroy = false ∧ (w.io f).priority = .normal := by
  have hf := hw.fits f
  cases hi : w.loop.ios f
  case none    => simp [World.io, hi]
  case some io =>
    have hd : io.Dead := by simpa [World.kind, h, hi, Fits] using hf
    rw [World.io_eq hi]
    exact ⟨hw.destroy hi, hd.priority⟩

-- Changes that leave the descriptors as they are.
theorem of_frame (hw : Wf w) (h : Frame f w w') (hf : w'.kernel.fds f = w.kernel.fds f)
    (hi : ∀ io', w'.loop.ios f = some io' → io'.destroy = false ∧ ∃ io, w.loop.ios f = some io)
    (hfit : Fits (w.kind f) (w'.loop.ios f)) (ht : ∀ t ∈ w'.loop.timers, w.Client t.io)
    (he : ∀ ev ∈ w'.loop.customEvents.toList, w.Client ev.io)
    (hc : w'.kernel.eventfdCount < 2 ^ 64) : Wf w' := by
  have hfds := h.fds_eq hf
  constructor
  case serial  => exact fun hd => h.next ▸ hw.serial (hfds _ ▸ hd)
  case unique  => exact fun hd hd' => hw.unique (hfds _ ▸ hd) (hfds _ ▸ hd')
  case epoll   => exact fun g => by rw [kind_congr (hfds g), h.iowatcher, hw.epoll]
  case eventfd => exact fun g => by rw [kind_congr (hfds g), h.eventfds, hw.eventfd]
  case watched =>
    intro g hg
    rw [h.iowatcher, h.eventfds]
    exact hw.watched (kind_congr (hfds g) ▸ hg)
  case timers  => exact fun t hm => client_congr (hfds _) <| ht t hm
  case events  => exact fun ev hm => client_congr (hfds _) <| he ev hm
  case readbuf => exact h.readbuf ▸ hw.readbuf
  case count   => exact hc
  case fits =>
    intro g
    rw [kind_congr (hfds g)]
    by_cases hg : g = f
    case pos => exact hg ▸ hfit
    case neg => exact h.ios g hg ▸ hw.fits g
  case destroy =>
    intro g io' hg
    by_cases he : g = f
    case pos => exact hi io' (he ▸ hg) |>.left
    case neg => exact hw.destroy (h.ios g he ▸ hg)
  case bound =>
    intro g io' hg
    rw [h.maxsize]
    by_cases he : g = f
    case pos =>
      obtain ⟨_, _, hi⟩ := hi io' (he ▸ hg)
      exact he ▸ hw.bound hi
    case neg => exact hw.bound (h.ios g he ▸ hg)

theorem touch (hw : Wf w) (hc : Conn f c io w) (h : Touch f c io io' t w w') : Wf w' := by
  have hcl : w.Client f := .inr hc.kind_eq
  refine hw.of_frame h.toFrame h.fdsSelf ?hi ?hfit ?ht ?he (h.count hw.count)
  case hi =>
    intro io'' hi
    cases h.iosSelf.symm.trans hi
    exact ⟨(congrArg Hio.destroy h.hard).trans (hw.destroy hc.ios :), io, hc.ios⟩
  case hfit =>
    rw [hc.kind_eq, h.iosSelf]
    exact h.conn hc |>.live
  case ht =>
    intro t ht
    cases h.timers t ht
    case inl h =>
      obtain ⟨t', ht', he⟩ := h
      exact he ▸ hw.timers t' ht'
    case inr h => exact h ▸ hcl
  case he =>
    intro ev he
    obtain ⟨n, hn, _⟩ := h.posts
    rw [hn] at he
    cases List.mem_append.mp he
    case inl he => exact hw.events ev he
    case inr he => exact List.eq_of_mem_replicate he ▸ hcl

theorem aside (hw : Wf w) (h : Aside f w w') : Wf w' := by
  refine hw.of_frame h.toFrame h.fdsSelf ?hi (h.fits <| hw.fits f) ?ht ?he ?hc
  case hi =>
    intro io' hi
    obtain ⟨io, ho⟩ := Option.isSome_iff_exists.mp <| h.isSome (by simp [hi])
    refine ⟨?_, io, ho⟩
    have := h.destroy <| World.io_eq ho ▸ hw.destroy ho
    exact World.io_eq hi ▸ this
  case ht =>
    intro t ht
    obtain ⟨t', ht', he⟩ := h.timers' t ht
    exact he ▸ hw.timers t' ht'
  case he => exact h.events ▸ hw.events
  case hc => exact Nat.lt_of_le_of_lt h.count hw.count

theorem rest (hw : Wf w) (h : Rest w w') : Wf w' := by
  have hk g : w'.kind g = w.kind g := kind_congr <| h.kernel ▸ rfl
  have hio {g io'} (hg : w'.loop.ios g = some io') :
      ∃ io, w.loop.ios g = some io ∧ io'.core = io.core := by
    have := hg ▸ h.ios g
    obtain ⟨io, hi, he⟩ := Option.map_eq_some_iff.mp this.symm
    exact ⟨io, hi, he.symm⟩
  constructor
  case serial  => exact h.kernel ▸ hw.serial
  case unique  => exact h.kernel ▸ hw.unique
  case epoll   => exact fun g => by rw [hk, h.iowatcher, hw.epoll]
  case eventfd => exact fun g => by rw [hk, h.eventfds, hw.eventfd]
  case watched =>
    intro g hg
    rw [h.iowatcher, h.eventfds]
    exact hw.watched (hk g ▸ hg)
  case events =>
    intro ev he
    simpa [World.Client, hk] using hw.events ev (h.events ▸ he)
  case readbuf => exact h.readbuf ▸ hw.readbuf
  case count   => exact h.kernel ▸ hw.count
  case fits    => exact fun g => hk g ▸ (hw.fits g).of_core (h.ios g)
  case timers =>
    intro t ht
    obtain ⟨t', ht', he⟩ := h.timers t ht
    simpa [World.Client, hk, he] using hw.timers t' ht'
  case destroy =>
    intro g io' hg
    obtain ⟨io, hi, he⟩ := hio hg
    exact (congrArg Hio.destroy he).trans (hw.destroy hi :)
  case bound =>
    intro g io' hg
    obtain ⟨io, hi, _⟩ := hio hg
    exact h.maxsize ▸ hw.bound hi

theorem pop (hw : Wf w) (h : Pop ev w w') : Wf w' := by
  have hk g : w'.kind g = w.kind g := kind_congr <| h.kernel ▸ rfl
  constructor
  case serial  => exact h.kernel ▸ hw.serial
  case unique  => exact h.kernel ▸ hw.unique
  case fits    => exact fun g => by simpa [hk, h.loop] using hw.fits g
  case destroy => exact fun hi => hw.destroy (by simpa [h.loop] using hi)
  case bound   => exact fun hi => by simpa [h.loop] using hw.bound (by simpa [h.loop] using hi)
  case epoll   => exact fun g => by simpa [hk, h.loop] using hw.epoll g
  case eventfd => exact fun g => by simpa [hk, h.loop] using hw.eventfd g
  case watched => exact fun hg => by simpa [h.loop] using hw.watched (hk _ ▸ hg)
  case timers  => simpa [World.Client, hk, h.loop] using hw.timers
  case readbuf => simpa [h.loop] using hw.readbuf
  case count   => exact h.kernel ▸ hw.count
  case events =>
    intro ev he
    simp only [h.loop, Queue.toList_popFront] at he
    simpa [World.Client, hk] using hw.events ev (List.mem_of_mem_tail he)

-- Changes that close a client's descriptor or open it again.
theorem of_outside (hw : Wf w) (h : Outside f w w') (hcl : w.Client f) (hcl' : w'.Client f)
    (hn : w.kernel.next ≤ w'.kernel.next)
    (hs : ∀ d, w'.kernel.fds f = some d → d.serial < w'.kernel.next ∧ w.kernel.next ≤ d.serial)
    (hi : ∃ io, w'.loop.ios f = some io ∧ Fits (w'.kind f) (some io) ∧ io.destroy = false)
    (hm : w.loop.iosMaxsize ≤ w'.loop.iosMaxsize ∧ f < w'.loop.iosMaxsize)
    (hwd : w'.kind f = some .conn → w.loop.iowatcher.isSome ∧ w.loop.eventfds.isSome)
    (he : w'.loop.customEvents = w.loop.customEvents)
    (hr : w'.loop.readbuf.len = 0 ∨ w'.loop.readbuf.len = hloopReadBufsize)
    (hc : w'.kernel.eventfdCount = w.kernel.eventfdCount) : Wf w' := by
  have hk {g} (hg : g ≠ f) : w'.kind g = w.kind g := kind_congr <| h.fds g hg
  have hown {g k} (h₁ : k ≠ .conn) : w'.kind g = some k ↔ w.kind g = some k := by
    by_cases hg : g = f
    case neg => rw [hk hg]
    case pos =>
      have (w : World) (hcl : w.Client f) : ¬w.kind f = some k := by
        cases hcl
        case inl hn => simp [hn]
        case inr hn => simpa [hn] using h₁.symm
      rw [hg]
      exact iff_of_false (this w' hcl') (this w hcl)
  have hclient {g} (hg : w.Client g) : w'.Client g := by
    by_cases he : g = f
    case pos => exact he ▸ hcl'
    case neg => simpa [World.Client, hk he] using hg
  obtain ⟨io, hio, hfit, hd⟩ := hi
  constructor
  case epoll   => exact fun g => by rw [hown (by simp), h.iowatcher, hw.epoll]
  case eventfd => exact fun g => by rw [hown (by simp), h.eventfds, hw.eventfd]
  case events  => exact fun ev hm => hclient <| hw.events ev (he ▸ hm)
  case readbuf => exact hr
  case count   => exact hc ▸ hw.count
  case serial =>
    intro g d hd
    by_cases hg : g = f
    case pos => exact hs d (hg ▸ hd) |>.left
    case neg => exact Nat.lt_of_lt_of_le (hw.serial (h.fds g hg ▸ hd)) hn
  case unique =>
    intro g g' d d' hd hd' he
    by_cases hg : g = f <;> by_cases hg' : g' = f
    case pos => rw [hg, hg']
    case neg =>
      have hlt := Nat.lt_of_lt_of_le (hw.serial (h.fds g' hg' ▸ hd')) (hs d (hg ▸ hd)).right
      exact absurd (he ▸ hlt) (Nat.lt_irrefl _)
    case pos =>
      have hlt := Nat.lt_of_lt_of_le (hw.serial (h.fds g hg ▸ hd)) (hs d' (hg' ▸ hd')).right
      exact absurd (he ▸ hlt) (Nat.lt_irrefl _)
    case neg => exact hw.unique (h.fds g hg ▸ hd) (h.fds g' hg' ▸ hd') he
  case fits =>
    intro g
    by_cases hg : g = f
    case pos => exact hg ▸ hio ▸ hfit
    case neg => exact hk hg ▸ h.ios g hg ▸ hw.fits g
  case destroy =>
    intro g io' hg
    by_cases he : g = f
    case pos =>
      cases hio.symm.trans (he ▸ hg)
      exact hd
    case neg => exact hw.destroy (h.ios g he ▸ hg)
  case bound =>
    intro g io' hg
    by_cases he : g = f
    case pos => exact he ▸ hm.right
    case neg => exact Nat.lt_of_lt_of_le (hw.bound (h.ios g he ▸ hg)) hm.left
  case watched =>
    intro g hg
    rw [h.iowatcher, h.eventfds]
    by_cases he : g = f
    case pos => exact hwd (he ▸ hg)
    case neg => exact hw.watched (hk he ▸ hg)
  case timers =>
    intro t ht
    cases h.timers t ht
    case inl ht =>
      obtain ⟨t', ht', he⟩ := ht
      exact hclient (he ▸ hw.timers t' ht')
    case inr ht => exact ht ▸ hcl'

theorem shut (hw : Wf w) (hc : Conn f c io w) (h : Shut f c io w w') : Wf w' := by
  have hk : w'.kind f = none := by simp [World.kind, h.fdsSelf]
  obtain ⟨io', hi, hd, _, hd'⟩ := h.iosSelf
  refine hw.of_outside h.toOutside (.inr hc.kind_eq) (.inl hk) (Nat.le_of_eq h.next.symm) ?hs ?hi
    ?hm ?hwd h.events (h.readbuf ▸ hw.readbuf) h.count
  case hs  => simp [h.fdsSelf]
  case hi  => exact ⟨io', hi, hk ▸ hd, hd'.trans <| hw.destroy hc.ios⟩
  case hm  => exact ⟨Nat.le_of_eq h.maxsize.symm, h.maxsize ▸ hw.bound hc.ios⟩
  case hwd => simp [hk]

theorem birth (hw : Wf w) (hr : w.loop.iowatcher.isSome ∧ w.loop.eventfds.isSome)
    (h : Birth f w w') : Wf w' := by
  have hk  : w.kind f = none := by simp [World.kind, h.fresh]
  have hk' : w'.kind f = some .conn := by simp [World.kind, h.fdsSelf]
  obtain ⟨io, hi, hl, _, _, _, hd, _⟩ := h.iosSelf
  refine hw.of_outside h.toOutside (.inl hk) (.inr hk') (by simp [h.next]) ?hs ⟨io, hi, hk' ▸ hl, hd⟩
    h.maxsize (fun _ => hr) h.events (.inr h.readbuf) h.count
  case hs =>
    intro d hd
    cases h.fdsSelf.symm.trans hd
    simp [h.next]

theorem flush {K : Hio → Prop} (hw : Wf w) (hc : Conn f c io w) (h : Flush K f c io w w') : Wf w' := by
  obtain ⟨_, _, _, ht, _, _, _, hs⟩ := h
  have hw₁ := hw.touch hc ht
  cases hs
  case inl hs => exact hs ▸ hw₁
  case inr hs => exact hw₁.shut (ht.conn hc) hs.left

theorem visit {K : Hio → Prop} (hw : Wf w) (hc : Conn f c io w) (h : Visit K f c io w w') : Wf w' := by
  obtain ⟨_, _, _, _, ht, _, _, hs⟩ := h
  have hw₁ := hw.touch hc ht
  cases hs
  case inl hs => exact hs ▸ hw₁
  case inr hs => exact hw₁.shut (ht.conn hc) hs.left

theorem move {K : Hio → Prop} (hw : Wf w) (h : Move K w w') : Wf w' := by
  cases h
  case flush hc h  => exact hw.flush hc h
  case birth hi h  => exact hw.birth hi h
  case aside _ _ h => exact hw.aside h
  case event hp hc =>
    have hw₁ := hw.pop hp
    cases hc.effect
    case inl h => exact h ▸ hw₁
    case inr h =>
      obtain ⟨_, _, hc, h⟩ := h
      exact hw₁.flush hc h

theorem effect {K : Hio → Prop} {R : Fd → Hio → World → Prop} (hw : Wf w) (h : Effect K R w w') : Wf w' := by
  cases h
  case move h       => exact hw.move h
  case aside h      => exact hw.aside h
  case rest h       => exact hw.rest h
  case visit _ hc h => exact hw.visit hc h

theorem moves {K : Hio → Prop} (hw : Wf w) (h : Moves K w w') : Wf w' := by
  induction h
  case refl       => exact hw
  case tail hm hi => exact hi.move hm

end Wf

-- Working on a connection does not concern the other descriptors.
theorem Flush.outside {K : Hio → Prop} {f g : Fd} {c : Serial} {io : Hio} {w w' : World}
    (h : Flush K f c io w w') (hg : g ≠ f) : w'.kernel.fds g = w.kernel.fds g ∧
      w'.loop.ios g = w.loop.ios g ∧ w'.kernel.interest g = w.kernel.interest g :=
  ⟨h.frame.fds g hg, h.frame.ios g hg, h.frame.interest g hg⟩

theorem Conn.ne_of_own {f g : Fd} {c : Serial} {io : Hio} {k : Kind} {w : World} (h : Conn f c io w)
    (hg : w.kind g = some k) (hk : k ≠ .conn) : g ≠ f := by
  intro he
  have := h.kind_eq
  rw [←he, hg] at this
  exact hk <| Option.some.inj this

-- The server's own descriptors are not closed or opened by callbacks. Neither is the io of the eventfd
-- changed, unless by the callback of the eventfd itself.
theorem Move.own {K : Hio → Prop} {g : Fd} {k : Kind} {w w' : World} (h : Move K w w')
    (hg : w.kind g = some k) (hk : k ≠ .conn) : w'.kernel.fds g = w.kernel.fds g ∧
      (k = .eventfd → w'.loop.ios g = w.loop.ios g ∧
        w'.kernel.interest g = w.kernel.interest g) := by
  cases h
  case flush hc h =>
    obtain ⟨hf, hi⟩ := h.outside <| hc.ne_of_own hg hk
    exact ⟨hf, fun _ => hi⟩
  case birth f _ h =>
    have hne : g ≠ f := by
      intro he
      simp [World.kind, he, h.fresh] at hg
    exact ⟨h.fds g hne, fun _ => ⟨h.ios g hne, h.interest g hne⟩⟩
  case aside f he _ h =>
    refine ⟨h.toFrame.fds_eq h.fdsSelf g, fun hk => ?_⟩
    have hne : g ≠ f := by
      intro hf
      exact he (hf ▸ hk ▸ hg)
    exact ⟨h.ios g hne, h.interest g hne⟩
  case event w₁ hp hc =>
    have hl : w₁.loop.ios g = w.loop.ios g := hp.loop ▸ rfl
    have hg₁ : w₁.kind g = some k := (kind_congr <| hp.kernel ▸ rfl).trans hg
    rw [←hl, ←hp.kernel]
    cases hc.effect
    case inl h => exact h ▸ ⟨rfl, fun _ => ⟨rfl, rfl⟩⟩
    case inr h =>
      obtain ⟨_, _, hcn, h⟩ := h
      obtain ⟨hf, hi⟩ := h.outside <| hcn.ne_of_own hg₁ hk
      exact ⟨hf, fun _ => hi⟩

theorem Moves.own {K : Hio → Prop} {g : Fd} {k : Kind} {w w' : World} (h : Moves K w w')
    (hg : w.kind g = some k) (hk : k ≠ .conn) : w'.kernel.fds g = w.kernel.fds g ∧
      (k = .eventfd → w'.loop.ios g = w.loop.ios g ∧
        w'.kernel.interest g = w.kernel.interest g) := by
  induction h
  case refl => exact ⟨rfl, fun _ => ⟨rfl, rfl⟩⟩
  case tail hm hi =>
    obtain ⟨hf, h⟩ := hm.own ((kind_congr hi.left).trans hg) hk
    refine ⟨hf.trans hi.left, fun he => ?_⟩
    exact ⟨(h he).left.trans (hi.right he).left, (h he).right.trans (hi.right he).right⟩

end Rlibhv
