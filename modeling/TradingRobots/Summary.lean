/-
A snapshot of a population for reports: its size, weights, the share that predicts, its children and program lengths.
-/
import TradingRobots.Population

namespace TradingRobots

structure Summary where
  size : Nat
  desiredSize : Nat
  meanWeight : Float
  maximumWeight : Float
  predicting : Nat
  children : Nat
  meanLength : Float
deriving DecidableEq, Repr

namespace Summary

/-- the mean of a sum over a number of robots -/
def mean (total : Float) (size : Nat) : Float :=
  if size = 0 then 0.0 else total / Binary64.ofCount size

def ofPopulation (p : Population) (rule : WeightRule) : Summary :=
  let weights := p.robots.map fun r => r.weight rule
  { size := p.size
    desiredSize := p.desiredSize
    meanWeight := mean (weights.foldl (· + ·) 0.0) p.size
    maximumWeight := weights.foldl Binary64.larger 0.0
    predicting := p.robots.countP Robot.isPredicting
    children := p.robots.foldl (fun n r => n + r.children) 0
    meanLength := mean (Binary64.ofCount (p.robots.foldl (fun n r => n + r.program.length) 0)) p.size }

def predictingShare (s : Summary) : Float :=
  if s.size = 0 then 0.0 else Binary64.ofCount s.predicting / Binary64.ofCount s.size

/-- figures with their names, one to a line -/
def text (s : Summary) : String :=
  "size " ++ toString s.size ++ "\n" ++
  "desired_size " ++ toString s.desiredSize ++ "\n" ++
  "mean_weight " ++ Number.fixed 4 s.meanWeight ++ "\n" ++
  "max_weight " ++ Number.fixed 4 s.maximumWeight ++ "\n" ++
  "predicting_share " ++ Number.fixed 4 s.predictingShare ++ "\n" ++
  "total_children " ++ toString s.children ++ "\n" ++
  "mean_length " ++ Number.fixed 2 s.meanLength ++ "\n"

end Summary

end TradingRobots
