import Mathlib.Data.Nat.Digits.Defs

/-!
# Little-endian numbers in a buffer

## Main results

* `ofBytes_toBytes` — what is written in a width that holds it is read back
* `readAt_append` — a number written behind a head of known length is read at that length
-/

namespace AriOs.Arith

/-- The number that the bytes stand for, the least significant first. -/
def ofBytes (bytes : List UInt8) : Nat := Nat.ofDigits 256 (bytes.map UInt8.toNat)

/-- The lowest `width` bytes of a number. -/
def toBytes (width n : Nat) : List UInt8 :=
  (List.range width).map fun i => UInt8.ofNat (n / 256 ^ i)

/-- The number in the `width` bytes from `offset` on. -/
def readAt (width offset : Nat) (buf : List UInt8) : Nat := ofBytes ((buf.drop offset).take width)

variable {width offset n : Nat} {head rest : List UInt8}

@[simp] theorem length_toBytes : (toBytes width n).length = width := by simp [toBytes]

theorem toBytes_succ : toBytes (width + 1) n = UInt8.ofNat n :: toBytes width (n / 256) := by
  simp only [toBytes, List.range_succ_eq_map, List.map_cons, List.map_map, pow_zero, Nat.div_one]
  congr 1
  refine List.map_congr_left fun i _ => ?_
  rw [Function.comp_apply, Nat.pow_succ', Nat.div_div_eq_div_mul]

theorem ofBytes_toBytes (h : n < 256 ^ width) : ofBytes (toBytes width n) = n := by
  induction width generalizing n with
  | zero =>
    have : n = 0 := by simpa using h
    simp [this, toBytes, ofBytes]
  | succ width ih =>
    have hrest := ih (Nat.div_lt_of_lt_mul (by rwa [← Nat.pow_succ'] : n < 256 * 256 ^ width))
    rw [ofBytes] at hrest ⊢
    have hbyte : (UInt8.ofNat n).toNat = n % 256 := by simp
    rw [toBytes_succ, List.map_cons, Nat.ofDigits_cons, hrest, hbyte]
    exact Nat.mod_add_div n 256

theorem readAt_append (hhead : head.length = offset) (h : n < 256 ^ width) :
    readAt width offset (head ++ (toBytes width n ++ rest)) = n := by
  rw [readAt, ← hhead, List.drop_left, List.take_append_of_le_length (by simp),
    List.take_of_length_le (by simp), ofBytes_toBytes h]

end AriOs.Arith
