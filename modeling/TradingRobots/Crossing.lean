/-
Crossing two programs at one point: each child has the head of one parent and the tail of the other, and the larger of
the two register counts. Parents of which one is shorter than two instructions are not cut, and nothing is drawn.
-/
import TradingRobots.Program

namespace TradingRobots.Crossing

open TradingRobots.Random

/-- the children of a cut before a position -/
def cutAt (point : Nat) (first second : List Instruction) : List Instruction × List Instruction :=
  (first.take point ++ second.drop point, second.take point ++ first.drop point)

def cross (first second : Program) (s : Stream) : (Program × Program) × Stream :=
  let registers := max first.registers second.registers
  let common := min first.length second.length
  if common ≤ 1 then ((⟨first.instructions, registers⟩, ⟨second.instructions, registers⟩), s)
  else
    let (k, s) := s.below (common - 1)
    let (a, b) := cutAt (k + 1) first.instructions second.instructions
    ((⟨a, registers⟩, ⟨b, registers⟩), s)

end TradingRobots.Crossing
