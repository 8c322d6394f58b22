import Rlibhv.Event.Unpack
import Rlibhv.Library.Framing

-- What the packages of a stream are.
namespace Rlibhv.Reading

open Framing (Next Stable)

variable {d s t r : Payload} {e n j bytes ret : Nat} {f : LengthField} {setting : UnpackSetting}

-- The number of bytes up to the end of the first delimiter.
def endOf (d : Payload) : Payload → Option Nat
  | []     => if d = [] then some 0 else none
  | b :: s => if d.isPrefixOf (b :: s) then some d.length else (endOf d s).map (· + 1)

def Mode.first (packageMaxLength : Nat) : Mode → Payload → Next
  | none, _          => .stop
  | fixedLength n, s => if n ≤ s.length then .package n else .more
  | delimiter d n, s =>
    match endOf (d.take n) s with
    | some e => if e ≤ packageMaxLength then .package e else .bad
    | .none  => if packageMaxLength ≤ s.length then .bad else .more
  | lengthField f, s =>
    if s.length < f.bodyOffset then .more else
      match f.packageLen s with
      | some (.value n) =>
        if n > packageMaxLength then .bad else if n ≤ s.length then .package n else .more
      | some .tooBig    => .bad
      | some .short     => .more
      | .none           => .stop

-- The application may hang up after any package.
def UnpackSetting.next (setting : UnpackSetting) (hangsUp : List Payload → Bool) (ps : List Payload)
    (s : Payload) : Next :=
  if ps ≠ [] ∧ hangsUp ps then .stop else setting.mode.first setting.packageMaxLength s

-- Settings for which the functions work: what `hio_set_unpack` asserts, lengths that are ints, a
-- delimiter that is not empty, a length field that is neither empty nor too long, a head that fits
-- into the largest buffer, and a varint that fits into the first one.
structure UnpackSetting.Valid (setting : UnpackSetting) : Prop where
  accepted    : setting.mode.Accepted setting.packageMaxLength
  pos         : 0 < setting.packageMaxLength
  lt          : setting.packageMaxLength < 2 ^ 31
  mode        : setting.mode ≠ .none
  delimiter   : ∀ d n, setting.mode = .delimiter d n → d.take n ≠ []
  lengthField : ∀ f, setting.mode = .lengthField f →
    0 < f.lengthFieldBytes ∧ f.bodyOffset ≤ setting.packageMaxLength ∧
    (f.lengthFieldCoding = .littleEndian → f.lengthFieldBytes ≤ 4) ∧
    (f.lengthFieldCoding = .varint →
      f.lengthFieldOffset + 10 ≤ min hloopReadBufsize setting.packageMaxLength)

theorem isPrefixOf_append (h : d.length ≤ s.length) : d.isPrefixOf (s ++ t) = d.isPrefixOf s := by
  rw [Bool.eq_iff_iff, List.isPrefixOf_iff_prefix, List.isPrefixOf_iff_prefix]
  exact ⟨fun hp => List.prefix_of_prefix_length_le hp (List.prefix_append s t) h,
    fun hp => hp.trans (List.prefix_append s t)⟩

theorem endOf_bounds (h : endOf d s = some e) : d.length ≤ e ∧ e ≤ s.length := by
  induction s generalizing e
  case nil =>
    rw [endOf] at h
    split at h <;> simp_all
  case cons b s hi =>
    rw [endOf] at h
    split at h
    case isTrue hp =>
      obtain rfl := Option.some.inj h
      exact ⟨le_rfl, (List.isPrefixOf_iff_prefix.mp hp).length_le⟩
    case isFalse =>
      obtain ⟨e, he, rfl⟩ := Option.map_eq_some_iff.mp h
      have := hi he
      rw [List.length_cons]
      omega

theorem endOf_append (h : endOf d s = some e) : endOf d (s ++ t) = some e := by
  induction s generalizing e
  case nil =>
    rw [endOf] at h
    split at h
    case isTrue hd =>
      obtain rfl := hd
      cases t <;> simp_all [endOf]
    case isFalse => contradiction
  case cons b s hi =>
    rw [endOf] at h
    rw [List.cons_append, endOf]
    split at h
    case isTrue hp =>
      have hle := (List.isPrefixOf_iff_prefix.mp hp).length_le
      rwa [← List.cons_append, isPrefixOf_append hle, if_pos hp]
    case isFalse hp =>
      obtain ⟨e, he, rfl⟩ := Option.map_eq_some_iff.mp h
      have hle : d.length ≤ (b :: s).length := by
        have := endOf_bounds he
        rw [List.length_cons]
        omega
      rw [← List.cons_append, isPrefixOf_append hle, if_neg hp, hi he]
      rfl

-- A delimiter that ends in the first part is found there.
theorem endOf_of_append (h : endOf d (s ++ t) = some e) (hs : e ≤ s.length) : endOf d s = some e := by
  cases he : endOf d s
  case some e' => rw [← h, endOf_append he]
  case none =>
    exfalso
    induction s generalizing e
    case nil =>
      obtain rfl : e = 0 := by simpa using hs
      have hd := (endOf_bounds h).1
      simp_all [endOf]
    case cons b s hi =>
      rw [endOf] at he
      rw [List.cons_append, endOf] at h
      split at he
      case isTrue => contradiction
      case isFalse hp =>
        split at h
        case isTrue hp' =>
          obtain rfl := Option.some.inj h
          rw [← List.cons_append, isPrefixOf_append hs] at hp'
          exact hp hp'
        case isFalse =>
          obtain ⟨e, he', rfl⟩ := Option.map_eq_some_iff.mp h
          exact hi he' (by simpa using hs) (by simpa using he)

-- Bytes that have been searched before need not be searched again, except for the last ones.
theorem endOf_resume (h : endOf d r = none) (hj : j + d.length ≤ r.length + 1) :
    endOf d (r ++ t) = (endOf d ((r ++ t).drop j)).map (· + j) := by
  induction j generalizing r
  case zero => simp
  case succ j hi =>
    cases r
    case nil =>
      obtain rfl : d = [] := List.length_eq_zero_iff.mp (by simp at hj; omega)
      simp [endOf] at h
    case cons b r =>
      rw [endOf] at h
      split at h
      case isTrue => contradiction
      case isFalse hp =>
        have hle : d.length ≤ (b :: r).length := by omega
        have hr : endOf d r = none := by simpa using h
        rw [List.cons_append, endOf, ← List.cons_append, isPrefixOf_append hle, if_neg hp,
          List.cons_append, List.drop_succ_cons, hi hr (by simp at hj; omega), Option.map_map]
        rfl

theorem varintDecode_append (hs : s ≠ [] ∨ bytes ≠ 0) (h : varintDecode bytes ret s ≠ some .short) :
    varintDecode bytes ret (s ++ t) = varintDecode bytes ret s := by
  induction s generalizing bytes ret
  case nil => simp_all [varintDecode]
  case cons b s hi =>
    rw [List.cons_append]
    simp only [varintDecode] at h ⊢
    split
    case isTrue => rfl
    case isFalse hb =>
      split
      case isTrue hlt =>
        rw [if_neg hb, if_pos hlt] at h
        exact hi (.inr (by omega)) h
      case isFalse => rfl

theorem varintDecode_ne_none (hs : s ≠ [] ∨ bytes ≠ 0) : varintDecode bytes ret s ≠ none := by
  induction s generalizing bytes ret
  case nil => simp_all [varintDecode]
  case cons b s hi =>
    simp only [varintDecode]
    split
    case isTrue  => simp
    case isFalse =>
      split
      case isTrue  => exact hi (.inr (by omega))
      case isFalse => simp

theorem length_of_short (h : varintDecode bytes ret s = some .short) (hb : bytes < 10) :
    bytes + s.length < 10 := by
  induction s generalizing bytes ret
  case nil => simpa using hb
  case cons b s hi =>
    simp only [varintDecode] at h
    split at h
    case isTrue => simp at h
    case isFalse =>
      split at h
      case isTrue hlt =>
        have := hi h hlt
        rw [List.length_cons]
        omega
      case isFalse => simp at h

theorem LengthField.drop_ne_nil (h0 : 0 < f.lengthFieldBytes)
    (ha : f.lengthFieldOffset + f.lengthFieldBytes ≤ f.bodyOffset) (hs : f.bodyOffset ≤ s.length) :
    s.drop f.lengthFieldOffset ≠ [] := by
  rw [Ne, List.drop_eq_nil_iff]
  omega

-- The head of a package decides about its length.
theorem LengthField.packageLen_append (h0 : 0 < f.lengthFieldBytes)
    (ha : f.lengthFieldOffset + f.lengthFieldBytes ≤ f.bodyOffset) (hs : f.bodyOffset ≤ s.length)
    (h : f.packageLen s ≠ some .short) : f.packageLen (s ++ t) = f.packageLen s := by
  have hd : (s ++ t).drop f.lengthFieldOffset = s.drop f.lengthFieldOffset ++ t :=
    List.drop_append_of_le_length (by omega)
  have hk : ((s ++ t).drop f.lengthFieldOffset).take f.lengthFieldBytes =
      (s.drop f.lengthFieldOffset).take f.lengthFieldBytes := by
    rw [hd, List.take_append_of_le_length]
    rw [List.length_drop]
    omega
  simp only [packageLen] at h ⊢
  rw [hk, hd]
  cases hc : f.lengthFieldCoding
  case bigEndian    => rfl
  case littleEndian => rfl
  case varint =>
    simp only [hc] at h ⊢
    rw [varintDecode_append (.inl (drop_ne_nil h0 ha hs))]
    intro hsh
    simp [hsh] at h

theorem LengthField.packageLen_ne_none (h0 : 0 < f.lengthFieldBytes)
    (ha : f.lengthFieldOffset + f.lengthFieldBytes ≤ f.bodyOffset) (hs : f.bodyOffset ≤ s.length) :
    f.packageLen s ≠ none := by
  simp only [packageLen]
  cases hc : f.lengthFieldCoding
  case bigEndian    => simp
  case littleEndian => simp
  case varint       => simpa using varintDecode_ne_none (.inl (drop_ne_nil h0 ha hs))

theorem Mode.first_stable (hv : setting.Valid) (s t : Payload) :
    (∀ n, setting.mode.first setting.packageMaxLength s = .package n →
      n ≤ s.length ∧ setting.mode.first setting.packageMaxLength (s ++ t) = .package n) ∧
    (setting.mode.first setting.packageMaxLength s = .bad →
      setting.mode.first setting.packageMaxLength (s ++ t) = .bad) ∧
    setting.mode.first setting.packageMaxLength s ≠ .stop := by
  have hlen : s.length ≤ (s ++ t).length := by simp
  cases hm : setting.mode
  case none => exact absurd hm hv.mode
  case fixedLength k =>
    simp only [first]
    split
    case isTrue hk => rw [if_pos (hk.trans hlen)]; simpa using hk
    case isFalse   => simp
  case delimiter d k =>
    simp only [first]
    cases he : endOf (d.take k) s
    case some e =>
      simp only [endOf_append he]
      split
      case isTrue  => simpa using (endOf_bounds he).2
      case isFalse => simp
    case none =>
      simp only
      split
      case isFalse => simp
      case isTrue hle =>
        refine ⟨by simp, fun _ => ?_, by simp⟩
        cases he' : endOf (d.take k) (s ++ t)
        case none   => exact if_pos (hle.trans hlen)
        case some e =>
          have hlt : ¬e ≤ s.length := fun hs => by simp [endOf_of_append he' hs] at he
          simp only
          rw [if_neg (by omega)]
  case lengthField f =>
    obtain ⟨h0, -⟩ := hv.lengthField f hm
    have ha := hv.accepted
    rw [hm] at ha
    simp only [first]
    by_cases hs : s.length < f.bodyOffset
    case pos => simp [hs]
    case neg =>
      rw [if_neg hs, if_neg (by omega)]
      rw [not_lt] at hs
      cases hp : f.packageLen s
      case none => exact absurd hp (LengthField.packageLen_ne_none h0 ha hs)
      case some l =>
        cases l
        case short => simp
        case tooBig =>
          rw [LengthField.packageLen_append h0 ha hs (by simp [hp]), hp]
          simp
        case value n =>
          rw [LengthField.packageLen_append h0 ha hs (by simp [hp]), hp]
          simp only
          split
          case isTrue  => simp
          case isFalse =>
            split
            case isTrue hn => rw [if_pos (hn.trans hlen)]; simpa using hn
            case isFalse   => simp

theorem UnpackSetting.next_stable (hv : setting.Valid) (hangsUp : List Payload → Bool) :
    Stable (setting.next hangsUp) := by
  constructor
  all_goals
    intro ps s t
    obtain ⟨hp, hb, hs⟩ := Mode.first_stable hv s t
    simp only [next]
    split
  case package.isTrue  => simp
  case package.isFalse => exact hp
  case bad.isTrue      => simp
  case bad.isFalse     => exact hb
  case stop.isTrue     => simp
  case stop.isFalse    => exact fun h => absurd h hs

end Rlibhv.Reading
