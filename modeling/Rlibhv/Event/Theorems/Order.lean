import Rlibhv.Event.Theorems.Poll

-- What callbacks do to the order of the events that are still pending.
namespace Rlibhv

variable {K : Hio → Prop} {e f : Fd} {c d : Serial} {io : Hio} {hd : Pending} {todo : List Pending}
  {w w₁ w' : World}

-- No callback sets a pending flag.
def Subsides (w w' : World) : Prop :=
  ∀ g, (w'.io g).pending = true → (w.io g).pending = true

theorem Subsides.trans (h₁ : Subsides w w₁) (h₂ : Subsides w₁ w') : Subsides w w' :=
  fun g => h₁ g ∘ h₂ g

theorem Outside.subsides (h : Outside f w w') (hf : (w'.io f).pending = true → (w.io f).pending = true) :
    Subsides w w' := by
  intro g
  by_cases hg : g = f
  case pos => exact hg ▸ hf
  case neg => simp [World.io, h.ios g hg]

section

variable {io' : Hio} {t : List Event}

theorem Touch.subsides (h : Touch f c io io' t w w') (hc : Conn f c io w) : Subsides w w' := by
  refine h.toOutside.subsides ?_
  have hp : io'.pending = io.pending := (congrArg Hio.pending h.hard :)
  rw [World.io_eq h.iosSelf, hc.io_eq, hp]
  exact id

theorem Shut.subsides (h : Shut f c io w w') (hi : w.loop.ios f = some io) : Subsides w w' := by
  obtain ⟨io', hi', _, hp, _⟩ := h.iosSelf
  refine h.toOutside.subsides ?_
  rw [World.io_eq hi', World.io_eq hi, hp]
  exact id

theorem Visit.subsides (h : Visit K f c io w w') (hc : Conn f c io w) : Subsides w w' := by
  obtain ⟨_, _, _, _, ht, _, _, hs⟩ := h
  cases hs
  case inl hs => exact hs ▸ ht.subsides hc
  case inr hs => exact (ht.subsides hc).trans <| hs.left.subsides ht.iosSelf

theorem Flush.subsides (h : Flush K f c io w w') (hc : Conn f c io w) : Subsides w w' := by
  obtain ⟨_, _, _, ht, _, _, _, hs⟩ := h
  cases hs
  case inl hs => exact hs ▸ ht.subsides hc
  case inr hs => exact (ht.subsides hc).trans <| hs.left.subsides ht.iosSelf

theorem Move.subsides (h : Move K w w') : Subsides w w' := by
  cases h
  case flush hc h  => exact h.subsides hc
  case aside _ _ h => exact h.toOutside.subsides h.pending
  case birth h     =>
    obtain ⟨io, hi, _, _, _, _, _, hp⟩ := h.iosSelf
    refine h.toOutside.subsides ?_
    rw [World.io_eq hi, hp]
    exact id
  case event w₁ hp hc =>
    have h₁ : Subsides w w₁ := fun g => by simp [World.io, hp.loop]
    cases hc.effect
    case inl he => exact he ▸ h₁
    case inr he =>
      obtain ⟨_, _, hcn, h⟩ := he
      exact h₁.trans <| h.subsides hcn

theorem Moves.subsides (h : Moves K w w') : Subsides w w' := by
  induction h
  case refl       => exact fun _ => id
  case tail hm hi => exact hi.trans hm.subsides

end

theorem eventfdReadCb_moves' {n : Nat} (hw : Wf w) : Moves (fun _ => True) w (eventfdReadCb n w) :=
  (eventfdReadCb_moves (I := Wf) hw (fun _ => id) (fun _ _ h hm _ => h.move hm)
    fun _ _ _ _ _ _ _ _ => .inr True.intro).left

theorem Called.subsides (h : Called K f w w') (hw : Wf w) : Subsides w w' := by
  cases h
  case idle        => exact fun _ => id
  case visit hc hv => exact hv.subsides hc
  case accept hm   => exact hm.subsides
  case eventfd ha₁ hw₂ ha₂ _ =>
    subst hw₂
    exact (ha₁.toOutside.subsides ha₁.pending).trans <|
      (eventfdReadCb_moves' <| hw.aside ha₁.toAside).subsides.trans <|
        ha₂.toOutside.subsides ha₂.pending

theorem Dispatched.subsides (h : Dispatched K hd w w') (hw : Wf w) : Subsides w w' := by
  cases h
  case skip => exact fun _ => id
  case timer hm hw' =>
    cases hw'
    case inl hw' => exact hw' ▸ hm.subsides
    case inr hw' => exact fun g hg => hm.subsides g (hw' ▸ hg :)
  case io f w₁ _ _ hc =>
    refine (hc.subsides hw).trans <| Outside.modifyIo.subsides (f := f) fun hf => ?_
    cases hi : w₁.loop.ios f
    case none    => simp [World.modifyIo_of_none hi, World.io, hi] at hf
    case some io => simp [World.io_eq (World.ios_modifyIo_self hi)] at hf

theorem Dispatched.flags (h : Dispatched K hd w w') (hw : Wf w) (hf : Flags (hd :: todo) w) :
    Flags todo w' := by
  have hskip {g} (hg : .io g ∈ hd :: todo) (hne : .io g ≠ hd) : .io g ∈ todo :=
    (List.mem_cons.mp hg).resolve_left hne
  cases h
  case skip hn =>
    intro g hg
    refine hskip (hf g hg) fun he => ?_
    simp [hn g he.symm] at hg
  case io f w₁ he _ hc =>
    intro g hg
    by_cases hgf : g = f
    case pos =>
      -- The flag has just been reset.
      subst hgf
      cases hi : w₁.loop.ios g
      case none    => simp [World.modifyIo_of_none hi, World.io, hi] at hg
      case some io => simp [World.io_eq (World.ios_modifyIo_self hi)] at hg
    case neg =>
      rw [io_modifyIo_of_ne hgf] at hg
      exact hskip (hf g <| hc.subsides hw g hg) (by simpa [he] using hgf)
  case timer he hm hw' =>
    intro g hg
    refine hskip (hf g <| hm.subsides g ?_) (by simp [he])
    cases hw'
    case inl hw' => exact hw' ▸ hg
    case inr hw' => exact (hw' ▸ hg :)

-- The eventfd stays where it is, and only its own callback changes its io.
theorem Called.own (h : Called K f w w') (hw : Wf w) (he : w.kind e = some .eventfd) :
    w'.kernel.fds e = w.kernel.fds e ∧ w'.kernel.interest e = w.kernel.interest e ∧
      ((w.loop.ios e).isSome → (w'.loop.ios e).isSome) ∧ (f ≠ e → w'.loop.ios e = w.loop.ios e) := by
  cases h
  case idle => exact ⟨rfl, rfl, id, fun _ => rfl⟩
  case visit hc hv =>
    have hne : e ≠ f := hc.ne_of_own he (by simp)
    have hi := hv.frame.ios e hne
    exact ⟨hv.frame.fds e hne, hv.frame.interest e hne, hi ▸ id, fun _ => hi⟩
  case accept hm =>
    obtain ⟨hf, hi⟩ := hm.own he (by simp)
    obtain ⟨hi, hin⟩ := hi rfl
    exact ⟨hf, hin, hi ▸ id, fun _ => hi⟩
  case eventfd w₁ w₂ hf _ ha₁ hw₂ ha₂ _ =>
    have hef : f = e := Option.some.inj <| ((hw.eventfd f).mp hf).symm.trans ((hw.eventfd e).mp he)
    subst hef
    have hk₁ : w₁.kind f = some .eventfd := (kind_congr ha₁.fdsSelf).trans hf
    obtain ⟨hf₂, hi₂⟩ := (eventfdReadCb_moves' (n := _) (hw.aside ha₁.toAside)).own hk₁ (by simp)
    rw [←hw₂] at hf₂ hi₂
    exact ⟨ha₂.fdsSelf.trans <| hf₂.trans ha₁.fdsSelf,
      ha₂.interest'.trans <| (hi₂ rfl).right.trans ha₁.interest', fun _ => ha₂.ios', absurd rfl⟩

theorem Dispatched.own (h : Dispatched K hd w w') (hw : Wf w) (he : w.kind e = some .eventfd) :
    w'.kernel.fds e = w.kernel.fds e ∧ w'.kernel.interest e = w.kernel.interest e ∧
      ((w.loop.ios e).isSome → (w'.loop.ios e).isSome) ∧
      (hd ≠ .io e → w'.loop.ios e = w.loop.ios e) := by
  cases h
  case skip => exact ⟨rfl, rfl, id, fun _ => rfl⟩
  case timer hm hw' =>
    obtain ⟨hf, hi⟩ := hm.own he (by simp)
    obtain ⟨hi, hin⟩ := hi rfl
    cases hw'
    case inl hw' => exact hw' ▸ ⟨hf, hin, hi ▸ id, fun _ => hi⟩
    case inr hw' =>
      subst hw'
      exact ⟨hf, hin, fun hs => (hi ▸ hs :), fun _ => hi⟩
  case io f w₁ hfd _ hc =>
    obtain ⟨hf, hin, hs, hi⟩ := hc.own hw he
    refine ⟨hf, hin, fun h => ?_, fun hne => ?_⟩
    case refine_2 =>
      have hef : e ≠ f := fun he => hne <| hfd.trans <| he ▸ rfl
      rw [World.ios_modifyIo_of_ne hef]
      exact hi hef.symm
    case refine_1 =>
      obtain ⟨io, hio⟩ := Option.isSome_iff_exists.mp (hs h)
      by_cases hef : e = f
      case pos =>
        subst hef
        simp [World.ios_modifyIo_self hio]
      case neg => simp [World.ios_modifyIo_of_ne hef, hio]

theorem Dispatched.watched (h : Dispatched K hd w w') (hw : Wf w)
    (hk : ∀ g, w'.kind g = some .eventfd → w.kind g = some .eventfd) (hwt : Watched w) : Watched w' := by
  intro e he
  obtain ⟨_, hin, hs, _⟩ := h.own hw (hk e he)
  obtain ⟨hi, hr⟩ := hwt e (hk e he)
  exact ⟨hs hi, hin ▸ hr⟩

-- The counter of the eventfd

theorem Counted.quiet (h : Counted w) (hq : Quiet w w') : Counted w' := by
  rw [Counted, hq.events, hq.count]
  exact h

theorem Counted.move (h : Counted w) (hm : Move K w w') : Counted w' := by
  cases hm
  case flush hf     => exact h.quiet hf.quiet
  case birth hb     => exact h.quiet ⟨hb.events, hb.count⟩
  case aside hq _   => exact h.quiet hq
  case event w₁ hp hc =>
    have h₁ : Counted w₁ := by
      rw [Counted, hp.loop, hp.kernel, Queue.toList_popFront, List.length_tail]
      exact Nat.le_trans (Nat.sub_le _ _) h
    cases hc.effect
    case inl he => exact he ▸ h₁
    case inr he =>
      obtain ⟨_, _, _, hf⟩ := he
      exact h₁.quiet hf.quiet

theorem Counted.moves (h : Counted w) (hm : Moves K w w') : Counted w' := by
  induction hm
  case refl       => exact h
  case tail hm hi => exact hi.move hm

theorem Counted.visit (h : Counted w) (hv : Visit K f c io w w') : Counted w' := by
  obtain ⟨_, _, _, w₁, ht, _, _, hs⟩ := hv
  have h₁ : Counted w₁ := by
    obtain ⟨n, hn, hc⟩ := ht.posts
    rw [Counted, hn, hc, List.length_append, List.length_replicate]
    exact Nat.add_le_add_right h n
  cases hs
  case inl hs => exact hs ▸ h₁
  case inr hs => exact h₁.quiet ⟨hs.left.events, hs.left.count⟩

-- The callback of the eventfd empties the queue.
theorem Stirred.events_eq {n : Nat} {w₂ : World} (ha₁ : Stirred f w w₁) (hw : Wf w)
    (hw₂ : w₂ = eventfdReadCb n w₁) (ha₂ : Stirred f w₂ w') :
    w'.loop.customEvents.toList = w.loop.customEvents.toList.drop n := by
  rw [ha₂.events, hw₂, eventfdReadCb_events (hw.aside ha₁.toAside), ha₁.events]

theorem Called.counted (h : Called K f w w') (hw : Wf w) (hc : Counted w) : Counted w' := by
  cases h
  case idle       => exact hc
  case visit hv   => exact hc.visit hv
  case accept hm  => exact hc.moves hm
  case eventfd jo _ _ _ _ ha₁ hw₂ ha₂ hk =>
    have he := ha₁.events_eq hw hw₂ ha₂
    rw [Counted, he]
    cases hr : jo.revents.rd
    case true  => simp [List.drop_eq_nil_of_le hc]
    case false =>
      rw [hk hr]
      exact hc

theorem Dispatched.counted (h : Dispatched K hd w w') (hw : Wf w) (hc : Counted w) : Counted w' := by
  cases h
  case skip         => exact hc
  case io hcl       => exact hcl.counted hw hc
  case timer hm hw' =>
    have h₁ := hc.moves hm
    cases hw'
    case inl hw' => exact hw' ▸ h₁
    case inr hw' => exact hw' ▸ h₁

-- A connection that has lost bytes had done so before, unless it has just been visited.
def Inherited (w w' : World) : Prop :=
  ∀ g d io', Conn g d io' w' → Lossy d io' w' → ∃ io, Conn g d io w ∧ Lossy d io w

theorem Inherited.refl : Inherited w w :=
  fun _ _ io hc hl => ⟨io, hc, hl⟩

theorem Inherited.trans (h₁ : Inherited w w₁) (h₂ : Inherited w₁ w') : Inherited w w' := by
  intro g d io' hc hl
  obtain ⟨io, hc, hl⟩ := h₂ g d io' hc hl
  exact h₁ g d io hc hl

theorem Shut.inherited (h : Shut f c io w w') : Inherited w w' :=
  fun _ _ io' hc hl => ⟨io', (hc.of_shut h).right, hl.of_silent h.trace silent_closing rfl⟩

theorem Aside.inherited (h : Aside f w w') : Inherited w w' :=
  fun _ _ io' hc hl => ⟨io', (hc.of_aside h).right, hl.of_still h.trace rfl⟩

theorem Rest.inherited (h : Rest w w') : Inherited w w' := by
  intro g d io' hc hl
  obtain ⟨io, hc, he⟩ := hc.of_rest h
  have hq : io'.writeQueue = io.writeQueue := (congrArg Hio.writeQueue he :)
  exact ⟨io, hc, hl.of_still h.trace <| by simp [Hio.backlog, hq]⟩

theorem Flush.inherited (h : Flush K f c io w w') (hw : Wf w) (hc : Conn f c io w) : Inherited w w' := by
  obtain ⟨_, t, w₁, ht, _, hr, _, hs⟩ := h
  have h₁ : Inherited w w₁ := by
    intro g d io' hc' hl
    cases hc'.of_touch ht hc
    case inl hc' =>
      have hd := hc'.right.serial_ne hw hc hc'.left
      exact ⟨io', hc'.right, hl.of_data ht.trace ht.data hd⟩
    case inr hc' =>
      obtain ⟨rfl, rfl, rfl⟩ := hc'
      exact ⟨io, hc, by_contra fun hn => hr.lossless ht.trace hn hl⟩
  cases hs
  case inl hs => exact hs ▸ h₁
  case inr hs => exact h₁.trans hs.left.inherited

theorem Move.inherited (h : Move K w w') (hs : Sane w) : Inherited w w' := by
  cases h
  case flush hc hf  => exact hf.inherited hs.wf hc
  case aside _ _ ha => exact ha.inherited
  case birth hb     =>
    intro g d io' hc hl
    cases hc.of_birth hb
    case inl hc' => exact ⟨io', hc'.right, hl.of_silent hb.trace silent_accepting rfl⟩
    case inr hn =>
      obtain ⟨rfl, rfl, _⟩ := hn
      exact absurd hl <| hb.lossless hs.chronicle hc
  case event w₁ hp hc =>
    have h₁ : Inherited w w₁ := by
      intro g d io' hc hl
      refine ⟨io', hc.of_pop hp, ?_⟩
      cases hp.trace
      case inl ht => exact hl.of_still ht rfl
      case inr ht => exact hl.of_silent ht.right silent_closeEvent rfl
    cases hc.effect
    case inl he => exact he ▸ h₁
    case inr he =>
      obtain ⟨_, _, hcn, hf⟩ := he
      exact h₁.trans <| hf.inherited (hs.wf.pop hp) hcn

theorem Moves.inherited (h : Moves K w w') (hs : Sane w) : Inherited w w' := by
  suffices Sane w' ∧ Inherited w w' from this.right
  induction h
  case refl => exact ⟨hs, .refl⟩
  case tail hm hi =>
    obtain ⟨hs, hi⟩ := hi
    exact ⟨hs.effect (R := fun _ _ _ => True) <| .move hm, hi.trans <| hm.inherited hs⟩

theorem Visit.inherited {g : Fd} {io' : Hio} (h : Visit K f c io w w') (hw : Wf w) (hc : Conn f c io w)
    (hg : g ≠ f) (hc' : Conn g d io' w') (hl : Lossy d io' w') : ∃ io, Conn g d io w ∧ Lossy d io w := by
  obtain ⟨_, t, _, w₁, ht, _, _, hs⟩ := h
  have h₁ (hc' : Conn g d io' w₁) (hl : Lossy d io' w₁) : ∃ io, Conn g d io w ∧ Lossy d io w := by
    have hcn := hc'.of_outside ht.toOutside hg
    exact ⟨io', hcn, hl.of_data ht.trace ht.data <| hcn.serial_ne hw hc hg⟩
  cases hs
  case inl hs => exact h₁ (hs ▸ hc') (hs ▸ hl)
  case inr hs => exact h₁ (hc'.of_shut hs.left).right <| hl.of_silent hs.left.trace silent_closing rfl

theorem Called.inherited {g : Fd} {io' : Hio} (h : Called K f w w') (hs : Sane w)
    (hg : g ≠ f) (hc' : Conn g d io' w') (hl : Lossy d io' w') : ∃ io, Conn g d io w ∧ Lossy d io w := by
  cases h
  case idle        => exact ⟨io', hc', hl⟩
  case visit hc hv => exact hv.inherited hs.wf hc hg hc' hl
  case accept hm   => exact hm.inherited hs _ _ _ hc' hl
  case eventfd w₁ w₂ _ _ ha₁ hw₂ ha₂ _ =>
    have hs₁ : Sane w₁ := hs.effect (K := fun _ => True) (R := fun _ _ _ => True) <| .aside ha₁.toAside
    have hm : Inherited w₁ w₂ :=
      hw₂ ▸ (eventfdReadCb_moves' hs₁.wf).inherited hs₁
    exact (ha₁.toAside.inherited.trans hm).trans ha₂.toAside.inherited _ _ _ hc' hl

-- The connections that have lost bytes and are still going to be handled.
theorem Dispatched.inherited {g : Fd} {io' : Hio} (h : Dispatched K hd w w') (hs : Sane w)
    (hc' : Conn g d io' w') (hl : Lossy d io' w') (hp : io'.pending = true) :
    ∃ io, Conn g d io w ∧ Lossy d io w ∧ io.pending = true := by
  suffices hi : ∃ io, Conn g d io w ∧ Lossy d io w by
    obtain ⟨io, hc, hl⟩ := hi
    exact ⟨io, hc, hl, hc.io_eq ▸ h.subsides hs.wf g (hc'.io_eq ▸ hp)⟩
  cases h
  case skip => exact ⟨io', hc', hl⟩
  case timer hm hw' =>
    cases hw'
    case inl hw' => exact hm.inherited hs _ _ _ (hw' ▸ hc') (hw' ▸ hl)
    case inr hw' =>
      subst hw'
      exact (hm.inherited hs).trans freeTimer_rest.inherited _ _ _ hc' hl
  case io f w₁ _ _ hcl =>
    by_cases hg : g = f
    case pos =>
      -- Its flag has just been reset.
      subst hg
      cases hi : w₁.loop.ios g
      case none    => simpa [World.modifyIo_of_none hi, hi] using hc'.ios
      case some jo =>
        cases (World.ios_modifyIo_self hi).symm.trans hc'.ios
        simp at hp
    case neg =>
      have hr : Rest w₁ (w₁.modifyIo f fun io => { io with pending := false }) := .modifyIo fun _ => rfl
      obtain ⟨jo, hc₁, hl₁⟩ := hr.inherited _ _ _ hc' hl
      exact hcl.inherited hs hg hc₁ hl₁

-- When the eventfd is read, all posted closes are carried out.
theorem Dispatched.events_eq (h : Dispatched K (.io e) w w') (hw : Wf w) (hc : Counted w)
    (he : w.kind e = some .eventfd) (hh : Hit e w) : w'.loop.customEvents.toList = [] := by
  obtain ⟨jo, hj, hjp, hjr⟩ := hh
  cases h
  case skip hn => simpa [World.io_eq hj, hjp] using hn e rfl
  case timer hte _ _ => cases hte
  case io f w₁ hfe _ hcl =>
    cases hfe
    cases hcl
    case idle hn     => simp [hn he] at hj
    case visit hcn _ => simp [hcn.kind_eq] at he
    case accept hk _ => simp [hk] at he
    case eventfd hj' ha₁ hw₂ ha₂ _ =>
      cases hj.symm.trans hj'
      have hev := ha₁.events_eq hw hw₂ ha₂
      rw [if_pos hjr, List.drop_eq_nil_of_le hc] at hev
      exact hev

-- The close of a connection that has lost bytes stays ahead of the connection.
theorem Dispatched.awake (h : Dispatched K hd w w') (hs : Sane w) (hc : Counted w)
    (ha : Awake (hd :: todo) w) (ha' : Announced w') : Awake todo w' := by
  intro g d io' hc' hl' hp'
  obtain ⟨io, hcn, hl, hp⟩ := h.inherited hs hc' hl' hp'
  obtain ⟨e, he, hhit, hb⟩ := ha g d io hcn hl hp
  have hne : hd ≠ .io e := by
    rintro rfl
    obtain ⟨ev, hm, _⟩ := ha' _ _ _ hc' hl'
    simp [h.events_eq hs.wf hc he hhit] at hm
  obtain ⟨hf, _, _, hio⟩ := h.own hs.wf he
  obtain ⟨jo, hj, hh⟩ := hhit
  exact ⟨e, (kind_congr hf).trans he, ⟨jo, (hio hne).trans hj, hh⟩, hb.tail hne.symm⟩

-- A connection that has lost bytes is not called.
theorem Awake.lossless (h : Awake (.io f :: todo) w) (hc : Conn f c io w) (hp : io.pending = true) :
    ¬Lossy c io w := by
  intro hl
  obtain ⟨e, he, _, hb⟩ := h f c io hc hl hp
  refine hb.head_ne (fun hn => ?_) rfl
  cases hn
  simp [hc.kind_eq] at he

-- What is known when a connection is called.
def Heard (f : Fd) (io : Hio) (w : World) : Prop :=
  w.ans.recv ≠ .fail .msgsize ∧ CanPost w ∧ ∀ c, Conn f c io w → ¬Lossy c io w

structure Echoing (w : World) : Prop where
  sane      : Sane w
  sound     : Sound w
  announced : Announced w

theorem Echoing.effect (h : Echoing w) (he : Effect K Heard w w') : Echoing w' := by
  obtain ⟨hs, hsd, ha⟩ := h
  suffices Sound w' ∧ Announced w' from ⟨hs.effect he, this.left, this.right⟩
  cases he
  case aside he => exact ⟨hsd.aside he, ha.aside he⟩
  case rest he  => exact ⟨hsd.rest he, ha.rest he⟩
  case visit hr hc hv =>
    have hn := hr.right.right _ hc
    exact ⟨hsd.visit hs.wf hc hn hr.left hv, ha.visit hs.wf hc hn hr.left hr.right.left hv⟩
  case move he =>
    refine ⟨hsd.move hs he, ?_⟩
    cases he
    case flush hc hf  => exact ha.flush hs.wf hc hf
    case birth hb     => exact ha.birth hs.chronicle hb
    case aside _ _ he => exact ha.aside he
    case event hp hc  => exact ha.event hsd hs.wf hp hc

-- What holds at every point of an iteration.
structure Alert (w : World) : Prop extends Echoing w where
  counted : Counted w
  watched : Watched w

theorem Alert.rest (h : Alert w) (hr : Rest w w') : Alert w' where
  toEchoing := h.toEchoing.effect (K := fun _ => True) <| .rest hr
  counted   := h.counted.quiet ⟨hr.events, congrArg Kernel.eventfdCount hr.kernel⟩
  watched e he := by
    obtain ⟨hi, hin⟩ := h.watched e <| (kind_congr <| congrFun (congrArg Kernel.fds hr.kernel) e).symm.trans he
    refine ⟨?_, hr.kernel ▸ hin⟩
    have := congrArg Option.isSome (hr.ios e)
    simpa [hi] using this

-- What holds while the pending events in `todo` are still to be handled.
structure Ordered (todo : List Pending) (w : World) : Prop extends Alert w where
  flags : Flags todo w
  awake : Awake todo w

theorem Ordered.dispatch (h : Ordered (hd :: todo) w)
    (ht : w.loop.iowatcher.isSome ∧ w.loop.eventfds.isSome) (hm : w.ans.recv ≠ .fail .msgsize)
    (hp : CanPost w) : Ordered todo (dispatch hd w) := by
  have hdp := dispatch_dispatched (e := hd) h.sane.wf .trivial ht fun _ _ _ _ _ _ =>
    .of_forall fun _ => True.intro
  have he : Effects (fun _ => True) Heard w (Rlibhv.dispatch hd w) :=
    hdp.effects h.sane (fun _ h => h.wf) (fun _ _ h he _ => h.effect he) (fun _ _ _ _ _ _ _ _ => .inr True.intro)
      fun f c io hf hpd hc => by
        subst hf
        refine ⟨hm, hp, fun c' hc' => h.awake.lossless hc' (hc'.io_eq ▸ hpd)⟩
  have h' := he.invariant (fun _ _ h he => h.effect he) h.toEchoing
  have hkd g : (Rlibhv.dispatch hd w).kind g = some .eventfd ↔ w.kind g = some .eventfd := by
    rw [h'.sane.wf.eventfd, h.sane.wf.eventfd, he.outline.eventfds]
  exact { h' with
    counted := hdp.counted h.sane.wf h.counted
    watched := hdp.watched h.sane.wf (fun g => (hkd g).mp) h.watched
    flags   := hdp.flags h.sane.wf h.flags
    awake   := hdp.awake h.sane h.counted h.awake h'.announced }

end Rlibhv
