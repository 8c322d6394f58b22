import Mathlib.Data.List.Basic
import Mathlib.Data.Nat.ModEq

-- Little-endian encodings of natural numbers by a fixed number of bytes.
namespace Bytes

def encode : Nat → Nat → List UInt8
  | 0,     _ => []
  | k + 1, n => .ofNat n :: encode k (n / 256)

def decode : List UInt8 → Nat
  | []      => 0
  | b :: bs => b.toNat + 256 * decode bs

@[simp]
theorem length_encode {k n : Nat} : (encode k n).length = k := by
  induction k generalizing n <;> simp_all [encode]

theorem decode_encode {k n : Nat} (h : n < 256 ^ k) : decode (encode k n) = n := by
  induction k generalizing n
  case zero => simp_all [encode, decode]
  case succ k hi =>
    have h' : n / 256 < 256 ^ k := Nat.div_lt_of_lt_mul <| Nat.pow_succ' ▸ h
    simp only [encode, decode, hi h', UInt8.toNat_ofNat', Nat.reducePow]
    exact Nat.mod_add_div n 256

-- `write off bs dst` puts the bytes `bs` into the buffer `dst` from index `off` on.
def write (off : Nat) (bs dst : List UInt8) : List UInt8 :=
  dst.take off ++ bs ++ dst.drop (off + bs.length)

theorem take_write {bs bs' dst : List UInt8} : (write 0 (bs ++ bs') dst).take bs.length = bs := by
  simp [write, List.append_assoc]

end Bytes
