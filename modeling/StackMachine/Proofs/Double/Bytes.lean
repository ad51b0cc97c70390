import Mathlib.Tactic.Ring
import StackMachine.Double.Basic

/-!
# Doubles in the stream

The eight bytes of a double and the double of eight bytes are inverse to each other, for
all words, so that an operand keeps every bit on its way through a stream.

Main results:

- Theorem `ofBytes_toBytes`: a double is recovered from its bytes.
- Theorem `toBytes_ofBytes`: eight bytes are recovered from their double.
-/

namespace StackMachine.Double

/-- The number that bytes count, the lowest first. -/
def valueOf : List UInt8 → Nat
  | [] => 0
  | b :: bs => b.toNat + 256 * valueOf bs

/-- Bytes have a value below the power of 256 with their number. -/
theorem valueOf_lt : ∀ bytes : List UInt8, valueOf bytes < 256 ^ bytes.length
  | [] => by decide
  | b :: bs => by
    have ih := valueOf_lt bs
    have hb := b.toNat_lt
    simp only [valueOf, List.length_cons, pow_succ]
    omega

/-- The value of bytes after others is weighted by the number of the others. -/
theorem valueOf_append (bytes bytes' : List UInt8) :
    valueOf (bytes ++ bytes') = valueOf bytes + 256 ^ bytes.length * valueOf bytes' := by
  induction bytes with
  | nil => simp [valueOf]
  | cons b bs ih =>
    simp only [List.cons_append, valueOf, ih, List.length_cons, pow_succ]
    ring

/-- Shifting a word by a byte and adding one loses nothing while there is room. -/
theorem toNat_shiftLeft_or {w : UInt64} (b : UInt8) (hw : w.toNat < 256 ^ 7) :
    ((w <<< 8) ||| b.toUInt64).toNat = b.toNat + 256 * w.toNat := by
  have hb := b.toNat_lt
  have hshift : (w <<< 8).toNat = w.toNat <<< 8 := by
    rw [UInt64.toNat_shiftLeft, show UInt64.toNat 8 % 64 = 8 from rfl]
    exact Nat.mod_eq_of_lt (by rw [Nat.shiftLeft_eq]; omega)
  rw [UInt64.toNat_or, UInt8.toNat_toUInt64, hshift, ← Nat.shiftLeft_add_eq_or_of_lt hb,
    Nat.shiftLeft_eq]
  omega

/-- The word of at most eight bytes is the number they count. -/
theorem toNat_bits_ofBytes : ∀ {bytes : List UInt8}, bytes.length ≤ 8 →
    (ofBytes bytes).bits.toNat = valueOf bytes
  | [], _ => rfl
  | b :: bs, hlen => by
    have ih : (ofBytes bs).bits.toNat = valueOf bs := toNat_bits_ofBytes (by simp at hlen; omega)
    have hlt : valueOf bs < 256 ^ 7 :=
      Nat.lt_of_lt_of_le (valueOf_lt bs)
        (Nat.pow_le_pow_right (by decide) (by rw [List.length_cons] at hlen; omega))
    rw [← ih] at hlt
    exact (toNat_shiftLeft_or b hlt).trans (by rw [valueOf, ← ih])

/-- A byte of a word is a digit of its number in base 256. -/
theorem toNat_byte (w : UInt64) {i : Nat} (hi : i < 8) :
    (w >>> (8 * i).toUInt64).toUInt8.toNat = w.toNat / 2 ^ (8 * i) % 256 := by
  have hmod : (8 * i).toUInt64.toNat % 64 = 8 * i := by
    have : (8 * i).toUInt64.toNat = 8 * i := Nat.mod_eq_of_lt (by omega)
    omega
  rw [UInt64.toNat_toUInt8, UInt64.toNat_shiftRight, hmod, Nat.shiftRight_eq_div_pow]

@[simp] theorem length_toBytes (v : Double) : v.toBytes.length = width := by
  simp [toBytes, wordBytes]

/-- The lowest bytes of a word count its remainder. -/
theorem valueOf_range (w : UInt64) : ∀ {n : Nat}, n ≤ 8 →
    valueOf ((List.range n).map fun i => (w >>> (8 * i).toUInt64).toUInt8) = w.toNat % 256 ^ n
  | 0, _ => (Nat.mod_one _).symm
  | n + 1, hn => by
    have hpow : 2 ^ (8 * n) = 256 ^ n := Nat.pow_mul 2 8 n
    rw [List.range_succ, List.map_append, valueOf_append, valueOf_range w (by omega)]
    rw [List.length_map, List.length_range, List.map_singleton, valueOf, valueOf,
      toNat_byte w (by omega), hpow, Nat.mod_pow_succ, Nat.mul_zero, Nat.add_zero]

/-- The bytes of a double count its word. -/
theorem valueOf_toBytes (v : Double) : valueOf v.toBytes = v.bits.toNat :=
  (valueOf_range v.bits (Nat.le_refl 8)).trans (Nat.mod_eq_of_lt v.bits.toNat_lt)

/-- As many bytes with the same value are the same. -/
theorem valueOf_inj : ∀ {bytes bytes' : List UInt8}, bytes.length = bytes'.length →
    valueOf bytes = valueOf bytes' → bytes = bytes'
  | [], [], _, _ => rfl
  | b :: bs, c :: cs, hlen, hval => by
    have hb := b.toNat_lt
    have hc := c.toNat_lt
    simp only [valueOf] at hval
    have hhead : b = c := UInt8.toNat_inj.mp (by omega)
    have htail : bs = cs := valueOf_inj (by simpa using hlen) (by omega)
    rw [hhead, htail]

/-- A double is recovered from its bytes. -/
@[simp] theorem ofBytes_toBytes (v : Double) : ofBytes v.toBytes = v := by
  apply Double.ext
  apply UInt64.toNat_inj.mp
  rw [toNat_bits_ofBytes (by simp [width]), valueOf_toBytes]

/-- Eight bytes are recovered from their double. -/
theorem toBytes_ofBytes {bytes : List UInt8} (hlen : bytes.length = width) :
    (ofBytes bytes).toBytes = bytes := by
  apply valueOf_inj (by simp [hlen])
  rw [valueOf_toBytes, toNat_bits_ofBytes (by simp [hlen, width])]

end StackMachine.Double
