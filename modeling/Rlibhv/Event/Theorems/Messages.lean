import Rlibhv.Event.Theorems.Delivery

-- Packages that a peer has put together are taken apart again.
namespace Rlibhv.Reading

open Framing (deframe_packages)

variable {setting : UnpackSetting} {app : List Payload → Turn} {f : LengthField} {io io' : Io}
variable {buf r t : Payload}
variable {bss : List Payload} {k n j m ret : Nat}

-- The lowest digit of a number and the rest.
theorem shiftLeft_digits (n i j : Nat) :
    n <<< j = (n % 2 ^ i) <<< j ||| (n >>> i) <<< (i + j) := by
  have hn : n = (n >>> i) <<< i ||| n % 2 ^ i := by
    rw [← Nat.shiftLeft_add_eq_or_of_lt (Nat.mod_lt n (Nat.two_pow_pos i)), Nat.shiftLeft_eq,
      Nat.shiftRight_eq_div_pow]
    exact (Nat.div_add_mod' n (2 ^ i)).symm
  conv_lhs => rw [hn]
  rw [Nat.shiftLeft_or_distrib, ← Nat.shiftLeft_add, Nat.or_comm]

theorem toNat_digit (n : Nat) : (UInt8.ofNat n).toNat = n % 2 ^ 8 := by
  simp

theorem bigEndian_encode (h : n < 256 ^ k) :
    (Bytes.encode k n).reverse.foldl (fun m b => (m <<< 8 ||| b.toNat) % 2 ^ 32) 0 = n % 2 ^ 32 := by
  rw [List.foldl_reverse]
  induction k generalizing n
  case zero => simp_all [Bytes.encode]
  case succ k hi =>
    have h' : n / 256 < 256 ^ k := Nat.div_lt_of_lt_mul <| Nat.pow_succ' ▸ h
    rw [Bytes.encode, List.foldr_cons, hi h', toNat_digit,
      ← Nat.shiftLeft_add_eq_or_of_lt (Nat.mod_lt n (Nat.two_pow_pos 8)), Nat.shiftLeft_eq]
    omega

theorem littleEndian_encode (acc : Nat) (h : n < 256 ^ k) (hj : j + k ≤ 4) :
    ((Bytes.encode k n).zipIdx j).foldl
      (fun m p => m ||| (p.1.toNat <<< (p.2 * 8)) % 2 ^ 32) acc = acc ||| n <<< (j * 8) := by
  induction k generalizing n j acc
  case zero => simp_all [Bytes.encode]
  case succ k hi =>
    have h' : n / 256 < 256 ^ k := Nat.div_lt_of_lt_mul <| Nat.pow_succ' ▸ h
    have hlt : (n % 2 ^ 8) <<< (j * 8) < 2 ^ 32 := by
      rw [Nat.shiftLeft_eq]
      calc n % 2 ^ 8 * 2 ^ (j * 8)
          < 2 ^ 8 * 2 ^ (j * 8) :=
            Nat.mul_lt_mul_of_pos_right (Nat.mod_lt n (Nat.two_pow_pos 8)) (Nat.two_pow_pos _)
        _ = 2 ^ (8 + j * 8) := (Nat.pow_add 2 8 (j * 8)).symm
        _ ≤ 2 ^ 32 := Nat.pow_le_pow_right (by omega) (by omega)
    have hrest : n / 256 = n >>> 8 := by rw [Nat.shiftRight_eq_div_pow]
    rw [Bytes.encode, List.zipIdx_cons, List.foldl_cons, hi _ h' (by omega), toNat_digit,
      Nat.mod_eq_of_lt hlt, shiftLeft_digits n 8 (j * 8), Nat.or_assoc, hrest,
      show (j + 1) * 8 = 8 + j * 8 by omega]

theorem varint_digit : ∀ w < 128, (UInt8.ofNat (w ||| 0x80)).toNat &&& 0x7F = w ∧
    (UInt8.ofNat (w ||| 0x80)).toNat &&& 0x80 ≠ 0 ∧ (UInt8.ofNat w).toNat &&& 0x7F = w ∧
    (UInt8.ofNat w).toNat &&& 0x80 = 0 := by
  decide

theorem varintDecode_encode (h : m + (varintEncode n).length ≤ 10) :
    varintDecode m ret (varintEncode n ++ t) =
      some (.value (ret ||| n <<< (7 * m)) (m + (varintEncode n).length)) := by
  induction n using varintEncode.induct generalizing m ret
  case case1 n hn =>
    have hw : n &&& 0x7F = n % 2 ^ 7 := Nat.and_two_pow_sub_one_eq_mod n 7
    obtain ⟨-, -, hv, hz⟩ := varint_digit (n % 2 ^ 7) (Nat.mod_lt n (Nat.two_pow_pos 7))
    rw [varintEncode, if_pos hn, List.singleton_append, varintDecode, hw]
    simp only [hv, hz, if_true]
    rw [shiftLeft_digits n 7 (7 * m), hn]
    simp
  case case2 n hn hi =>
    have hw : n &&& 0x7F = n % 2 ^ 7 := Nat.and_two_pow_sub_one_eq_mod n 7
    obtain ⟨hv, hz, -, -⟩ := varint_digit (n % 2 ^ 7) (Nat.mod_lt n (Nat.two_pow_pos 7))
    rw [varintEncode, if_neg hn, List.length_cons] at h
    rw [varintEncode, if_neg hn, List.cons_append, varintDecode, hw]
    have hpos : 0 < (varintEncode (n >>> 7)).length := by
      rw [varintEncode]
      split <;> simp
    simp only [hv, hz, if_false]
    rw [if_pos (by omega), hi (by omega), Nat.or_assoc, show 7 * (m + 1) = 7 + 7 * m by omega,
      ← shiftLeft_digits n 7 (7 * m), List.length_cons]
    congr 2
    omega

theorem length_varintEncode (hk : 0 < k) (h : n < 2 ^ (7 * k)) : (varintEncode n).length ≤ k := by
  induction k generalizing n
  case zero => omega
  case succ k hi =>
    rw [varintEncode]
    split
    case isTrue => simp
    case isFalse hn =>
      have hk' : 0 < k := by
        by_contra hk0
        obtain rfl : k = 0 := by omega
        rw [Nat.shiftRight_eq_div_pow] at hn
        omega
      have h' : n >>> 7 < 2 ^ (7 * k) := by
        rw [Nat.shiftRight_eq_div_pow]
        refine Nat.div_lt_of_lt_mul ?_
        rwa [← Nat.pow_add, show 7 + 7 * k = 7 * (k + 1) by omega]
      have := hi hk' h'
      rw [List.length_cons]
      omega

-- The length field of a package.
def encodeLength (f : LengthField) (n : Nat) : Payload :=
  match f.lengthFieldCoding with
  | .bigEndian    => (Bytes.encode f.lengthFieldBytes n).reverse
  | .littleEndian => Bytes.encode f.lengthFieldBytes n
  | .varint       => varintEncode n

-- A package that consists of a head with a length field and of a body.
structure Package (f : LengthField) where
  before     : Payload
  bodyLen    : Nat
  after      : Payload
  body       : Payload
  before_eq  : before.length = f.lengthFieldOffset
  after_eq   : f.lengthFieldOffset + f.lengthFieldBytes + after.length = f.bodyOffset
  bodyLen_eq : bodyLen + f.lengthAdjustment = body.length
  bodyLen_lt : bodyLen < 2 ^ 32
  fits       : f.lengthFieldCoding ≠ .varint → bodyLen < 256 ^ f.lengthFieldBytes

namespace Package

def bytes (p : Package f) : Payload :=
  p.before ++ encodeLength f p.bodyLen ++ p.after ++ p.body

theorem length_bytes (p : Package f) : p.bytes.length + f.lengthFieldBytes =
    f.bodyOffset + (encodeLength f p.bodyLen).length + p.body.length := by
  have := p.before_eq
  have := p.after_eq
  simp only [bytes, List.length_append]
  omega

theorem total_eq (p : Package f) (h : p.bytes.length < 2 ^ 32) (headLen : Int)
    (hh : headLen = f.bodyOffset + (encodeLength f p.bodyLen).length - f.lengthFieldBytes) :
    f.total headLen p.bodyLen = p.bytes.length := by
  have hl := p.length_bytes
  have hb := p.bodyLen_eq
  rw [LengthField.total]
  omega

theorem packageLen_bytes (p : Package f) (h : p.bytes.length < 2 ^ 32)
    (hf : f.lengthFieldCoding = .littleEndian → f.lengthFieldBytes ≤ 4) :
    f.packageLen p.bytes = some (.value p.bytes.length) := by
  have hlp : p.bytes.drop f.lengthFieldOffset = encodeLength f p.bodyLen ++ (p.after ++ p.body) := by
    rw [bytes, List.append_assoc, List.append_assoc, ← p.before_eq, List.drop_left]
  have hmod := Nat.mod_eq_of_lt p.bodyLen_lt
  have htotal := p.total_eq h
  simp only [LengthField.packageLen, hlp]
  cases hc : f.lengthFieldCoding
  case bigEndian =>
    have he : encodeLength f p.bodyLen = (Bytes.encode f.lengthFieldBytes p.bodyLen).reverse := by
      rw [encodeLength, hc]
    have hlen : (encodeLength f p.bodyLen).length = f.lengthFieldBytes := by simp [he]
    simp only
    rw [← hlen, List.take_left, he, bigEndian_encode (p.fits (by simp [hc])), hmod,
      htotal _ (by omega)]
  case littleEndian =>
    have he : encodeLength f p.bodyLen = Bytes.encode f.lengthFieldBytes p.bodyLen := by
      rw [encodeLength, hc]
    have hlen : (encodeLength f p.bodyLen).length = f.lengthFieldBytes := by simp [he]
    have hz := littleEndian_encode (j := 0) 0 (p.fits (by simp [hc])) (by have := hf hc; omega)
    simp only
    rw [← hlen, List.take_left, he]
    simp only [Nat.zero_mul, Nat.shiftLeft_zero, Nat.zero_or] at hz
    rw [hz, htotal _ (by omega)]
  case varint =>
    have he : encodeLength f p.bodyLen = varintEncode p.bodyLen := by rw [encodeLength, hc]
    have hlen : (varintEncode p.bodyLen).length ≤ 5 :=
      length_varintEncode (by omega) (p.bodyLen_lt.trans (by decide))
    simp only
    rw [he, varintDecode_encode (by omega)]
    simp only [Option.map_some, Nat.zero_or, Nat.mul_zero, Nat.shiftLeft_zero, Nat.zero_add, hmod]
    rw [htotal _ (by rw [he])]

theorem first_eq (hv : setting.Valid) (hm : setting.mode = .lengthField f) (p : Package f)
    (hb : f.bodyOffset ≤ p.bytes.length) (h : p.bytes.length ≤ setting.packageMaxLength) :
    setting.mode.first setting.packageMaxLength p.bytes = .package p.bytes.length := by
  have hlt := hv.lt
  rw [hm, Mode.first, if_neg (by omega),
    p.packageLen_bytes (by omega) (hv.lengthField f hm).2.2.1]
  simp only
  rw [if_neg (by omega), if_pos le_rfl]

end Package

-- However the bytes of the packages are cut into pieces, and whatever part of the next package
-- follows, the application gets the packages as they have been sent, unless it hangs up.
theorem packages_round_trip (hv : setting.complete.Valid) (hm : setting.complete.mode = .lengthField f)
    (hn : ∀ ps, (app ps).hangsUp = false) (h : hioSetUnpack setting (hioReady buf) = some io)
    (hr : Machine.run (readPackages app) io bss = some io') (ps : List (Package f))
    (hp : ∀ p ∈ ps, f.bodyOffset ≤ p.bytes.length ∧
      p.bytes.length ≤ setting.complete.packageMaxLength)
    (hb : bss.flatten = (ps.map Package.bytes).flatten ++ r)
    (hmore : setting.complete.mode.first setting.complete.packageMaxLength r = .more) :
    Waiting setting.complete app (ps.map Package.bytes) r io' := by
  have hx := packages_received hv h hr
  have hw (ps : List Payload) : Wanted (closing app) ps := by simp [Wanted, closing, hn]
  have hd : Framing.deframe (setting.complete.next (closing app)) [] bss.flatten =
      .more ([] ++ ps.map Package.bytes) r := by
    rw [hb]
    refine deframe_packages (UnpackSetting.next_stable hv _) (fun qs q hq => ?_) fun qs => ?_
    · obtain ⟨p, hps, rfl⟩ := List.mem_map.mp hq
      obtain ⟨hle, hle'⟩ := hp p hps
      rw [next_wanted _ _ (hw qs), p.first_eq hv hm hle hle']
      refine ⟨?_, rfl⟩
      have h0 := (hv.lengthField f hm).1
      have ha := p.after_eq
      exact List.length_pos_iff.mp (by omega)
    · rw [next_wanted _ _ (hw qs), hmore]
  rw [Received, hd] at hx
  exact hx

def request : Package defaultField where
  before     := [7]
  bodyLen    := 2
  after      := []
  body       := [1, 2]
  before_eq  := by decide
  after_eq   := by decide
  bodyLen_eq := by decide
  bodyLen_lt := by decide
  fits _     := by decide

theorem request_round_trip : ∃ io io', hioSetUnpack defaultSetting (hioReady []) = some io ∧
    Machine.run (readPackages fun _ => {}) io pieces = some io' ∧
    Waiting defaultSetting.complete (fun _ => {}) ([request].map Package.bytes) [7, 0] io' := by
  have hr : ((hioSetUnpack defaultSetting (hioReady [])).bind fun io =>
      Machine.run (readPackages fun _ => {}) io pieces).isSome := by decide +kernel
  obtain ⟨io', hr⟩ := Option.isSome_iff_exists.mp hr
  obtain ⟨io, h, hr⟩ := Option.bind_eq_some_iff.mp hr
  have hp : ∀ p ∈ [request], defaultField.bodyOffset ≤ p.bytes.length ∧
      p.bytes.length ≤ defaultSetting.complete.packageMaxLength := by decide
  exact ⟨io, io', h, hr, packages_round_trip defaultSetting_valid rfl (fun _ => rfl) h hr _ hp
    (by decide) (by decide)⟩

end Rlibhv.Reading
