/-
Faults: everything that can go wrong between loading settings and saving a population, with the line that tells of it.
A fault of a part is kept whole, so a reader can still tell which part it came from.

A breakdown is a fault that nothing was prepared for. Work that breaks down is not taken up again.
-/
import TradingRobots.Engine
import TradingRobots.PopulationFile
import TradingRobots.PriceFile
import TradingRobots.Settings.Store

namespace TradingRobots

inductive Fault where
  | settings (defect : SettingsDefect)
  | priceFile (defect : PriceFileDefect)
  | dataset (defect : DatasetDefect)
  | market (defect : MarketDefect)
  | run (defect : RunDefect)
  | program (defect : ProgramDefect)
  | population (defect : PopulationDefect)
  | populationFile (defect : FileDefect)
deriving DecidableEq, Repr

namespace Fault

def configurationLead : String := "Configuration error: "

def loadingLead : String := "Data loading error: "

def persistenceLead : String := "Persistence error: "

def message : Fault → String
  | settings defect => configurationLead ++ defect.message
  | priceFile defect => loadingLead ++ defect.message
  | dataset defect => loadingLead ++ defect.message
  | market defect => loadingLead ++ defect.message
  | run (.settings violation) => configurationLead ++ violation.message
  | run defect => loadingLead ++ defect.message
  | program defect => validationLead ++ defect.message
  | population defect => validationLead ++ defect.message
  | populationFile (.population defect) => validationLead ++ defect.message
  | populationFile defect => persistenceLead ++ defect.message

def isBreakdown : Fault → Bool
  | settings .unreachable => true
  | priceFile (.text .loneMark) => true
  | run .breakdown => true
  | population (.last _) => true
  | _ => false

end Fault

end TradingRobots
