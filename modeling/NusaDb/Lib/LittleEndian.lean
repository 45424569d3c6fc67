import Mathlib

/-!
# Little-endian numbers

A number as a fixed count of bytes, lowest first, and reading it back.
-/

namespace NusaDb

/-- The low `width` bytes of `v`, lowest first. -/
def leBytes : Nat → Nat → List (Fin 256)
  | 0, _ => []
  | width + 1, v => ⟨v % 256, Nat.mod_lt _ (by decide)⟩ :: leBytes width (v / 256)

def ofLe : List (Fin 256) → Nat
  | [] => 0
  | b :: bs => b.val + 256 * ofLe bs

@[simp] lemma length_leBytes (width v : Nat) : (leBytes width v).length = width := by
  induction width generalizing v with
  | zero => rfl
  | succ width ih => simp [leBytes, ih]

lemma ofLe_leBytes (width v : Nat) : ofLe (leBytes width v) = v % 256 ^ width := by
  induction width generalizing v with
  | zero =>
    show 0 = v % 1
    omega
  | succ width ih =>
    show v % 256 + 256 * ofLe (leBytes width (v / 256)) = v % 256 ^ (width + 1)
    rw [ih, Nat.pow_succ, mul_comm (256 ^ width) 256, Nat.mod_mul]

lemma ofLe_leBytes_of_lt {width v : Nat} (h : v < 256 ^ width) : ofLe (leBytes width v) = v := by
  rw [ofLe_leBytes, Nat.mod_eq_of_lt h]

end NusaDb
