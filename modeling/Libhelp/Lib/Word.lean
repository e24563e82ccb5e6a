import Mathlib.Algebra.Group.Nat.Defs
import Mathlib.Tactic.Common

/-!
# Arithmetic of `size_t` and of addresses
-/

/-- Addition of `size_t` and of addresses. -/
def add64 (x y : ℕ) : ℕ :=
  (x + y) % 2 ^ 64

/-- Subtraction of `size_t` and of addresses. -/
def sub64 (x y : ℕ) : ℕ :=
  (x + (2 ^ 64 - y % 2 ^ 64)) % 2 ^ 64

section Exact

variable {x y : ℕ}

theorem add64_eq (bound : x + y < 2 ^ 64) : add64 x y = x + y :=
  Nat.mod_eq_of_lt bound

theorem sub64_eq (ordered : y ≤ x) (bound : x < 2 ^ 64) : sub64 x y = x - y := by
  unfold sub64
  omega

end Exact
