import Rlibhv.Event.Theorems.Stream

-- What the application gets depends on the stream only, not on the pieces in which recv returns it.
namespace Rlibhv.Reading

open Framing (Next Outcome deframe deframe_more deframe_stuck deframe_append)

variable {setting : UnpackSetting} {app : List Payload → Turn} {ps : List Payload}
variable {io io' : Io} {s bs buf : Payload} {bss : List Payload}

-- A read from an io that is open. The application is called back for packages.
def readPackages (app : List Payload → Turn) (io : Io) (bs : Payload) : Option Io :=
  if io.closed then none else nioRead (takeTurn app) bs io

-- What has become of the io after `s` has been received.
def Received (setting : UnpackSetting) (app : List Payload → Turn) (s : Payload) (io : Io) :
    Prop :=
  match deframe (setting.next (closing app)) [] s with
  | .more ps r    => Waiting setting app ps r io
  | .bad ps _     => io.closed = true ∧ io.error = some .overLimit ∧ io.reads = ps
  | .stopped ps r => io.closed = true ∧ io.reads = ps ∧ r = []
  | .stuck        => False

theorem Unpacked.received {res : Option Io}
    (h : Unpacked setting app res (deframe (setting.next (closing app)) [] s)) (he : res = some io) :
    Received setting app s io := by
  subst he
  rw [Received]
  cases ho : deframe (setting.next (closing app)) [] s
  all_goals rw [ho] at h
  case more ps r =>
    obtain ⟨io', he, hw⟩ := h
    exact Option.some.inj he ▸ hw
  case bad ps r =>
    obtain ⟨io', he, h⟩ := h
    exact Option.some.inj he ▸ h
  case stopped ps r =>
    by_cases hr : r = []
    case pos =>
      obtain ⟨io', he, hc, hp⟩ := h.1 hr
      obtain rfl := Option.some.inj he
      exact ⟨hc, hp, hr⟩
    case neg => exact absurd (h.2 hr) (by simp)
  case stuck => simp [Unpacked] at h

theorem next_nil (hv : setting.Valid) : setting.next (closing app) [] [] = .more := by
  rw [next_wanted setting [] (by simp [Wanted])]
  have ha := hv.accepted
  have hpos := hv.pos
  cases hm : setting.mode
  case none => exact absurd hm hv.mode
  case fixedLength n =>
    rw [hm] at ha
    simp [Mode.first, ha.1]
  case delimiter d n =>
    have hd := hv.delimiter d n hm
    simp [Mode.first, endOf, hd]
    omega
  case lengthField f =>
    rw [hm] at ha
    have h0 := (hv.lengthField f hm).1
    have ha : f.lengthFieldOffset + f.lengthFieldBytes ≤ f.bodyOffset := ha
    simp [Mode.first]
    omega

theorem Received.init (hv : setting.complete.Valid)
    (h : hioSetUnpack setting (hioReady buf) = some io) : Received setting.complete app [] io := by
  rw [Received, deframe_more (next_nil hv)]
  simp only [hioSetUnpack, hioUnsetUnpack, hioReady, if_pos hv.accepted, Option.some.injEq] at h
  have hpos := hv.pos
  have hr : hloopReadBufsize = 8192 := rfl
  by_cases hm : ∃ n, setting.complete.mode = .fixedLength n
  case pos =>
    obtain ⟨n, hm⟩ := hm
    have ha := hv.accepted
    rw [hm] at ha
    have hlen : setting.complete.bufsize = n := by rw [UnpackSetting.bufsize, hm]
    rw [hlen, hioAllocReadbuf, if_neg (by simpa using ha.2)] at h
    subst h
    refine ⟨⟨⟨rfl, rfl, rfl, rfl⟩, rfl, rfl, rfl, rfl, rfl, rfl, rfl, rfl, ?_, ?_, ?_, .inl rfl⟩, ?_⟩
    · simpa using ha.2
    · intro k hk
      rw [hm] at hk
      cases hk
      simp
    · exact fun hne => absurd hm (hne n)
    · simpa using Nat.pos_of_ne_zero ha.1
  case neg =>
    rw [not_exists] at hm
    have hlen : setting.complete.bufsize =
        min hloopReadBufsize setting.complete.packageMaxLength := by
      rw [UnpackSetting.bufsize]
      split
      case h_1 n hn => exact absurd hn (hm n)
      case h_2      => rfl
    rw [hlen, hioAllocReadbuf, if_neg (by simp)] at h
    subst h
    refine ⟨⟨⟨rfl, rfl, rfl, rfl⟩, rfl, rfl, rfl, rfl, rfl, rfl, rfl, rfl, ?_, ?_, ?_, .inl rfl⟩, ?_⟩
    · simp
    · exact fun k hk => absurd hk (hm k)
    · simp
    · simp
      omega

-- One more piece of the stream arrives.
theorem Received.read (h : Received setting app s io) (hv : setting.Valid)
    (hc : io.closed = false) (ha : Answer io bs) :
    Unpacked setting app (readPackages app io bs) (deframe (setting.next (closing app)) [] (s ++ bs)) := by
  rw [readPackages, if_neg (by simp [hc]), deframe_append (UnpackSetting.next_stable hv (closing app))]
  have hrest := Framing.next_rest (setting.next (closing app)) [] s
  rw [Received] at h
  cases ho : deframe (setting.next (closing app)) [] s
  all_goals rw [ho] at h hrest
  case more ps r =>
    have hw : Wanted (closing app) ps := by
      intro hs
      have hx := hrest.1
      rw [UnpackSetting.next, if_pos hs] at hx
      contradiction
    exact h.read hv hw hrest.1 ha
  case bad     => simp [hc] at h
  case stopped => simp [hc] at h
  case stuck   => exact h.elim

theorem answer_of_read (h : readPackages app io bs = some io') :
    io.closed = false ∧ Answer io bs := by
  rw [readPackages] at h
  split at h
  case isTrue => contradiction
  case isFalse hc =>
    simp only [nioRead, Option.ite_none_right_eq_some] at h
    obtain ⟨hg, -⟩ := h
    exact ⟨Bool.eq_false_of_not_eq_true hc, hg.2.2.2.1, by omega⟩

theorem Received.run (hv : setting.Valid) (h : Received setting app s io)
    (hr : Machine.run (readPackages app) io bss = some io') :
    Received setting app (s ++ bss.flatten) io' := by
  induction bss generalizing s io
  case nil =>
    simp only [Machine.run_nil, Option.some.injEq] at hr
    subst hr
    simpa using h
  case cons bs bss hi =>
    obtain ⟨io₁, he, hr⟩ := Machine.run_cons_iff.mp hr
    obtain ⟨hc, ha⟩ := answer_of_read he
    have h₁ := (h.read hv hc ha).received he
    rw [List.flatten_cons, ← List.append_assoc]
    exact hi h₁ hr

-- The callback gets the packages of the stream, and the buffer holds the beginning of the next one
-- and has room for more, until a callback closes the io or a package exceeds the limit.
theorem packages_received (hv : setting.complete.Valid)
    (h : hioSetUnpack setting (hioReady buf) = some io)
    (hr : Machine.run (readPackages app) io bss = some io') :
    Received setting.complete app bss.flatten io' :=
  (Received.init hv h).run hv hr

-- The default setting, with a smaller limit.
def defaultField : LengthField where
  bodyOffset        := 5
  lengthFieldOffset := 1
  lengthFieldBytes  := 4
  lengthAdjustment  := 0
  lengthFieldCoding := .bigEndian

def defaultSetting : UnpackSetting where
  mode             := .lengthField defaultField
  packageMaxLength := 64

theorem defaultSetting_valid : defaultSetting.complete.Valid where
  accepted := by decide
  pos      := by decide
  lt       := by decide
  mode     := by simp [UnpackSetting.complete, defaultSetting]
  delimiter _ _ h := by simp [UnpackSetting.complete, defaultSetting] at h
  lengthField f h := by
    obtain rfl : _ = f := by simpa [UnpackSetting.complete, defaultSetting] using h
    decide

-- A package arrives in three pieces, the last of which also holds the beginning of the next one.
def pieces : List Payload :=
  [[7, 0, 0, 0], [2], [1, 2, 7, 0]]

theorem pieces_received : ∃ io io', hioSetUnpack defaultSetting (hioReady []) = some io ∧
    Machine.run (readPackages fun _ => {}) io pieces = some io' ∧
    Received defaultSetting.complete (fun _ => {}) pieces.flatten io' := by
  have hr : ((hioSetUnpack defaultSetting (hioReady [])).bind fun io =>
      Machine.run (readPackages fun _ => {}) io pieces).isSome := by decide +kernel
  obtain ⟨io', hr⟩ := Option.isSome_iff_exists.mp hr
  obtain ⟨io, h, hr⟩ := Option.bind_eq_some_iff.mp hr
  exact ⟨io, io', h, hr, packages_received defaultSetting_valid h hr⟩

-- A read fails exactly when it gets to an empty package, which is delivered over and over again, or
-- when a callback closes the io although there are more bytes in the buffer, which has been freed
-- then.
theorem read_fails_iff (hv : setting.complete.Valid)
    (h : hioSetUnpack setting (hioReady buf) = some io)
    (hr : Machine.run (readPackages app) io bss = some io') (hc : io'.closed = false)
    (ha : Answer io' bs) :
    readPackages app io' bs = none ↔
      deframe (setting.complete.next (closing app)) [] (bss.flatten ++ bs) = .stuck ∨
      ∃ ps r, deframe (setting.complete.next (closing app)) [] (bss.flatten ++ bs) = .stopped ps r ∧
        r ≠ [] := by
  have hu := (packages_received hv h hr).read hv hc ha
  cases ho : deframe (setting.complete.next (closing app)) [] (bss.flatten ++ bs)
  all_goals rw [ho] at hu
  case more ps r =>
    obtain ⟨io₁, he, -⟩ := hu
    simp [he]
  case bad ps r =>
    obtain ⟨io₁, he, -⟩ := hu
    simp [he]
  case stopped ps r =>
    by_cases hr : r = []
    case pos =>
      obtain ⟨io₁, he, -⟩ := hu.1 hr
      simp [he, hr]
    case neg => simp [hu.2 hr, hr]
  case stuck => simp [show readPackages app io' bs = none from hu]

-- The length in the head and the length of the head add up to 0.
theorem emptyPackage_hangs : ∃ io io', hioSetUnpack defaultSetting (hioReady []) = some io ∧
    Machine.run (readPackages fun _ => {}) io [[7]] = some io' ∧
    readPackages (fun _ => {}) io' [0xFF, 0xFF, 0xFF, 0xFB] = none := by
  have hr : ((hioSetUnpack defaultSetting (hioReady [])).bind fun io =>
      (Machine.run (readPackages fun _ => {}) io [[7]]).filter fun io' =>
        !io'.closed && io'.tail + 4 ≤ io'.base.length).isSome := by decide +kernel
  obtain ⟨io', hr⟩ := Option.isSome_iff_exists.mp hr
  obtain ⟨io, h, hr⟩ := Option.bind_eq_some_iff.mp hr
  obtain ⟨hr, hio⟩ := Option.filter_eq_some_iff.mp hr
  simp only [Bool.and_eq_true, Bool.not_eq_true', decide_eq_true_eq] at hio
  have ha : Answer io' [0xFF, 0xFF, 0xFF, 0xFB] := ⟨by simp, hio.2⟩
  have hf := read_fails_iff defaultSetting_valid h hr hio.1 ha
  exact ⟨io, io', h, hr, hf.mpr <| .inl <| deframe_stuck (by decide)⟩

-- As long as there is unsent output, the first close is put off, but not the second one.
def hangingUp : List Payload → Turn :=
  fun _ => { unsent := true, hangsUp := true }

example : ((hioSetUnpack defaultSetting (hioReady [])).bind fun io =>
    readPackages hangingUp io [7, 0, 0, 0, 2, 1, 2, 7]).map (fun io => (io.closed, io.reads)) =
      some (false, [[7, 0, 0, 0, 2, 1, 2]]) := by
  decide +kernel

example : ((hioSetUnpack defaultSetting (hioReady [])).bind fun io =>
    readPackages hangingUp io [7, 0, 0, 0, 0, 7, 0, 0, 0, 0, 7]).isNone := by
  decide +kernel

end Rlibhv.Reading
