import TradingRobots.Breeding
import TradingRobots.CommandLine.Options
import TradingRobots.CommandLine.Session
import TradingRobots.Crossing
import TradingRobots.Cycle
import TradingRobots.Dataset
import TradingRobots.Death
import TradingRobots.Disk
import TradingRobots.Engine
import TradingRobots.Execution
import TradingRobots.Fault
import TradingRobots.Instruction
import TradingRobots.Instruction.Form
import TradingRobots.Journal
import TradingRobots.Json.Reading
import TradingRobots.Json.Value
import TradingRobots.Ledger
import TradingRobots.Main
import TradingRobots.Market
import TradingRobots.Mutation
import TradingRobots.NameTable
import TradingRobots.Number.Binary64
import TradingRobots.Number.Decimal
import TradingRobots.Number.Logarithm
import TradingRobots.Number.Power
import TradingRobots.Number.Reading
import TradingRobots.Number.Root
import TradingRobots.Number.Rounding
import TradingRobots.Number.Scaled
import TradingRobots.Number.Text
import TradingRobots.Population
import TradingRobots.PopulationFile
import TradingRobots.PriceFile
import TradingRobots.PriceFile.CellKind
import TradingRobots.PriceFile.CellValue
import TradingRobots.PriceFile.Cells
import TradingRobots.PriceFile.Column
import TradingRobots.PriceFile.Frame
import TradingRobots.PriceFile.Packed
import TradingRobots.PriceFile.Portion
import TradingRobots.Program
import TradingRobots.Proofs.Breeding.Births
import TradingRobots.Proofs.Breeding.Count
import TradingRobots.Proofs.Breeding.Frame
import TradingRobots.Proofs.Breeding.Lineage
import TradingRobots.Proofs.Breeding.Marks
import TradingRobots.Proofs.Cycle.Accounting
import TradingRobots.Proofs.Cycle.Heritage
import TradingRobots.Proofs.Cycle.Lifecycle
import TradingRobots.Proofs.Disk.Writing
import TradingRobots.Proofs.Engine.Attribution
import TradingRobots.Proofs.Engine.Bars
import TradingRobots.Proofs.Engine.Completion
import TradingRobots.Proofs.Engine.LoadingOrder
import TradingRobots.Proofs.Engine.NoLookAhead
import TradingRobots.Proofs.Engine.Prefix
import TradingRobots.Proofs.Engine.Records
import TradingRobots.Proofs.Engine.RunScores
import TradingRobots.Proofs.Engine.Runs
import TradingRobots.Proofs.Engine.Scoring
import TradingRobots.Proofs.Execution.Budget
import TradingRobots.Proofs.Execution.Dispatch
import TradingRobots.Proofs.Execution.Factor
import TradingRobots.Proofs.Execution.Finite
import TradingRobots.Proofs.Execution.NormalForm
import TradingRobots.Proofs.Execution.Reach
import TradingRobots.Proofs.Execution.Sight
import TradingRobots.Proofs.Execution.Widened
import TradingRobots.Proofs.Json.Indented
import TradingRobots.Proofs.Json.Numerals
import TradingRobots.Proofs.Json.Strings
import TradingRobots.Proofs.Json.Taken
import TradingRobots.Proofs.Ledger.Agreement
import TradingRobots.Proofs.Ledger.Entries
import TradingRobots.Proofs.Ledger.Figures
import TradingRobots.Proofs.Market.Assembly
import TradingRobots.Proofs.Market.Hindsight
import TradingRobots.Proofs.Market.Loading
import TradingRobots.Proofs.Market.Rows
import TradingRobots.Proofs.Market.Views
import TradingRobots.Proofs.Number.Counts
import TradingRobots.Proofs.Number.Digits
import TradingRobots.Proofs.Number.Extent
import TradingRobots.Proofs.Number.Monotone
import TradingRobots.Proofs.Number.Nearest
import TradingRobots.Proofs.Number.Neutral
import TradingRobots.Proofs.Number.Order
import TradingRobots.Proofs.Number.Plain
import TradingRobots.Proofs.Number.Powers
import TradingRobots.Proofs.Number.Rounding
import TradingRobots.Proofs.Number.Shortest
import TradingRobots.Proofs.Number.Sign
import TradingRobots.Proofs.Number.Sizes
import TradingRobots.Proofs.Number.Stored
import TradingRobots.Proofs.Number.Sums
import TradingRobots.Proofs.Number.Unpacked
import TradingRobots.Proofs.Population.Codec
import TradingRobots.Proofs.Population.Deaths
import TradingRobots.Proofs.Population.Files
import TradingRobots.Proofs.Population.History
import TradingRobots.Proofs.Population.Passes
import TradingRobots.Proofs.Population.Protection
import TradingRobots.Proofs.Population.Ranking
import TradingRobots.Proofs.Population.Reordering
import TradingRobots.Proofs.Population.Size
import TradingRobots.Proofs.Population.Sound
import TradingRobots.Proofs.PriceFile.Rows
import TradingRobots.Proofs.Program.Admitted
import TradingRobots.Proofs.Program.Edits
import TradingRobots.Proofs.Program.Exchange
import TradingRobots.Proofs.Program.Variation
import TradingRobots.Proofs.Random.Constant
import TradingRobots.Proofs.Random.Draw
import TradingRobots.Proofs.Random.Unit
import TradingRobots.Proofs.Robot.Bookkeeping
import TradingRobots.Proofs.Safety.Cycle
import TradingRobots.Proofs.Safety.Drawing
import TradingRobots.Proofs.Safety.Execution
import TradingRobots.Proofs.Safety.Guarded
import TradingRobots.Proofs.Safety.Run
import TradingRobots.Proofs.Settings.Fields
import TradingRobots.Proofs.Settings.History
import TradingRobots.Proofs.Settings.Interleaving
import TradingRobots.Proofs.Settings.Layers
import TradingRobots.Proofs.Settings.Saved
import TradingRobots.Proofs.Timeline.Index
import TradingRobots.Proofs.Timeline.Range
import TradingRobots.Proofs.Timeline.Scan
import TradingRobots.Proofs.Timeline.Search
import TradingRobots.Proofs.Timeline.Shared
import TradingRobots.Proofs.Toml.Documents
import TradingRobots.Proofs.Toml.Scalars
import TradingRobots.Proofs.Vote.Monotone
import TradingRobots.Proofs.Weight.Mean
import TradingRobots.Proofs.Weight.Order
import TradingRobots.Proofs.Weight.Sound
import TradingRobots.Proofs.Wheel.Entries
import TradingRobots.Proofs.Wheel.Exact
import TradingRobots.Proofs.Wheel.Rounded
import TradingRobots.Random.Draw
import TradingRobots.Random.Sources
import TradingRobots.Random.Stream
import TradingRobots.Registers
import TradingRobots.Robot
import TradingRobots.Sampling
import TradingRobots.Settings
import TradingRobots.Settings.Conversion
import TradingRobots.Settings.Field
import TradingRobots.Settings.Layers
import TradingRobots.Settings.Listing
import TradingRobots.Settings.Route
import TradingRobots.Settings.Store
import TradingRobots.Signal
import TradingRobots.Summary
import TradingRobots.Text.Numerals
import TradingRobots.Text.Quoted
import TradingRobots.Text.Unshown
import TradingRobots.Timeline
import TradingRobots.Toml.Reading
import TradingRobots.Toml.Scalars
import TradingRobots.Toml.Tables
import TradingRobots.Toml.Value
import TradingRobots.Vote
import TradingRobots.Weight
import TradingRobots.Wheel
import TradingRobots.Window
