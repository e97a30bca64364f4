import Mathlib.Algebra.Order.Field.Basic
import Mathlib.Algebra.Order.Ring.Rat

/-!
# Number formats without laws

What a program computes with: the operations, the comparisons and the literals of a number format. No law is assumed, so
what is proved of a program over `Arith α` holds of it however the operations round, overflow or answer on infinities
and on values that are not numbers. Doubles are one format, with the `max` and `min` of JavaScript; an ordered field is
another, where every operation is exact.
-/

/-- The operations of a number format. -/
class Arith (α : Type) extends Add α, Sub α, Mul α, Div α, Neg α, LT α, LE α where
  lit : ℚ → α
  abs : α → α
  max : α → α → α
  min : α → α → α
  decLt : DecidableLT α
  decLe : DecidableLE α

namespace Arith

attribute [reducible, instance] decLt decLe

/-- Doubles. A literal is the nearest double of a quotient of integers below `2 ^ 53`, as their rounded quotient is; a
NaN is passed on by `max` and `min`, and `-0` is below `0`. -/
instance : Arith Float where
  lit q := Float.ofInt q.num / Float.ofNat q.den
  abs := Float.abs
  max a b :=
    if a.isNaN then a else if b.isNaN then b
    else if a < b then b else if b < a then a else if a.toBits = 0x8000000000000000 then b else a
  min a b :=
    if a.isNaN then a else if b.isNaN then b
    else if a < b then a else if b < a then b else if a.toBits = 0x8000000000000000 then a else b
  decLt := inferInstance
  decLe := inferInstance

/-- Exact arithmetic. -/
@[reducible] def exact (α : Type) [Field α] [LinearOrder α] : Arith α where
  lit q := (q : α)
  abs x := |x|
  max := Max.max
  min := Min.min
  decLt := inferInstance
  decLe := inferInstance

example : (lit 0.3 : Float) = 0.3 := by decide +kernel

end Arith
