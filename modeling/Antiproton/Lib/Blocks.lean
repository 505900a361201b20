import Mathlib.Algebra.Ring.Nat
import Mathlib.Data.List.Basic

/-!
# Antiproton.Lib.Blocks

Addresses written as groups of a fixed width, and the blocks of them that share their leading bits.
-/

namespace Blocks

/-- The address starts with the first `bits` bits of the block's; `w` is the width of a group. -/
def under (w : Nat) : Nat → List Nat → List Nat → Bool
  | bits, p :: ps, g :: gs =>
    if w ≤ bits then g == p && under w (bits - w) ps gs else g / 2 ^ (w - bits) == p / 2 ^ (w - bits)
  | _, _, _ => true

/-- A block: its address, and how many bits of it count. -/
structure Block where
  start : List Nat
  bits : Nat

def Block.holds (w : Nat) (b : Block) (g : List Nat) : Bool := under w b.bits b.start g

end Blocks
