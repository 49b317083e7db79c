/-
Mutating a program. Before each instruction a fresh one may come in; the instruction itself may be left out, or replaced
by a fresh one; after the last there is one more place for a fresh one. Insertions stop at the greatest length and
omissions at the least. Whether anything happens is drawn each time, also where the length forbids it.
-/
import TradingRobots.Settings

namespace TradingRobots

/-- the chance of each kind of change, per instruction -/
structure MutationRates where
  newInstruction : Float
  instructionMutation : Float
  skipInstruction : Float
deriving DecidableEq, Repr

def EvolutionSettings.mutationRates (e : EvolutionSettings) : MutationRates :=
  ⟨e.newInstruction, e.instructionMutation, e.skipInstruction⟩

namespace Mutation

open TradingRobots.Random

/-- draws whether something of a given chance happens -/
def chance (rate : Float) (s : Stream) : Bool × Stream :=
  let (u, s) := s.unit
  (u < rate, s)

/-- a fresh instruction, if its chance came up and there is room -/
def insertion (bounds : ProgramBounds) (rates : MutationRates) (registers length : Nat) (s : Stream) :
    List Instruction × Stream :=
  let (wanted, s) := chance rates.newInstruction s
  if wanted && length < bounds.maximumLength then
    let (fresh, s) := bounds.randomInstruction registers s
    ([fresh], s)
  else ([], s)

/-- the instruction, a fresh one in its place, or nothing; the length counts all that is kept and still to come -/
def retention (bounds : ProgramBounds) (rates : MutationRates) (registers length : Nat) (i : Instruction)
    (s : Stream) : List Instruction × Stream :=
  let (skipped, s) := chance rates.skipInstruction s
  if skipped && bounds.minimumLength ≤ length - 1 then ([], s)
  else
    let (replaced, s) := chance rates.instructionMutation s
    if replaced then
      let (fresh, s) := bounds.randomInstruction registers s
      ([fresh], s)
    else ([i], s)

/-- goes through the source; done is the number of instructions already written -/
def revise (bounds : ProgramBounds) (rates : MutationRates) (registers : Nat) :
    Nat → List Instruction → Stream → List Instruction × Stream
  | done, [], s => insertion bounds rates registers done s
  | done, i :: rest, s =>
    let (before, s) := insertion bounds rates registers (done + (rest.length + 1)) s
    let done := done + before.length
    let (kept, s) := retention bounds rates registers (done + (rest.length + 1)) i s
    let (tail, s) := revise bounds rates registers (done + kept.length) rest s
    (before ++ kept ++ tail, s)

/-- a mutated copy with the same register count -/
def mutate (bounds : ProgramBounds) (rates : MutationRates) (p : Program) (s : Stream) : Program × Stream :=
  let (instructions, s) := revise bounds rates p.registers 0 p.instructions s
  (⟨instructions, p.registers⟩, s)

end Mutation

end TradingRobots
