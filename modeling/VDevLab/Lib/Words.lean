import Mathlib.Algebra.Group.Nat.Defs
import Mathlib.Data.List.Basic

/-!
# Fixed-width words in memory

A word is a number of bytes in the byte order of the machine. What one
program stores and another loads on the same machine is the same number,
whichever order that is.
-/

namespace Words

inductive Order
  | little
  | big
  deriving DecidableEq

/-- The low `width` bytes of `n`, least significant first. -/
def littleBytes : Nat → Nat → List UInt8
  | 0, _ => []
  | width + 1, n => UInt8.ofNat (n % 256) :: littleBytes width (n / 256)

def littleValue : List UInt8 → Nat
  | [] => 0
  | b :: bs => b.toNat + 256 * littleValue bs

def store (order : Order) (width n : Nat) : List UInt8 :=
  match order with
  | .little => littleBytes width n
  | .big => (littleBytes width n).reverse

def load (order : Order) (bytes : List UInt8) : Nat :=
  match order with
  | .little => littleValue bytes
  | .big => littleValue bytes.reverse

theorem littleValue_littleBytes {width n : Nat} (h : n < 256 ^ width) :
    littleValue (littleBytes width n) = n := by
  induction width generalizing n with
  | zero =>
    simp only [Nat.pow_zero] at h
    simp only [littleBytes, littleValue]
    omega
  | succ width ih =>
    have hdiv : n / 256 < 256 ^ width := by
      rw [Nat.pow_succ] at h
      omega
    have hbyte : (UInt8.ofNat (n % 256)).toNat = n % 256 := by
      simp
    rw [littleBytes, littleValue, ih hdiv, hbyte]
    omega

theorem length_littleBytes (width n : Nat) : (littleBytes width n).length = width := by
  induction width generalizing n with
  | zero => rfl
  | succ width ih => rw [littleBytes, List.length_cons, ih]

@[simp] theorem length_store (order : Order) (width n : Nat) :
    (store order width n).length = width := by
  cases order <;> simp [store, length_littleBytes]

/-- What was stored is loaded. -/
theorem load_store (order : Order) {width n : Nat} (h : n < 256 ^ width) :
    load order (store order width n) = n := by
  cases order with
  | little => exact littleValue_littleBytes h
  | big => rw [store, load, List.reverse_reverse, littleValue_littleBytes h]

end Words
