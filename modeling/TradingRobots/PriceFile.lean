/-
Price files: text files of numbers with a comma between them, one dataset each. A dataset is named after its file. A
folder is loaded file by file in the order of the names; the first file that is no dataset ends it. What bears the name
of a price file and is a folder cannot be read.
-/
import TradingRobots.Disk
import TradingRobots.PriceFile.Frame

namespace TradingRobots

/-- why price files are not loaded -/
inductive PriceFileDefect where
  | noFolder (path : String)
  | noFile (path : String)
  | noPriceFiles (folder : String)
  | text (defect : TextDefect)
  | frame (defect : FrameDefect)
  | dataset (defect : DatasetDefect)
deriving DecidableEq, Repr

def PriceFileDefect.message : PriceFileDefect → String
  | noFolder path => "No folder " ++ path
  | noFile path => "No file " ++ path
  | noPriceFiles folder => "No CSV files in " ++ folder
  | text defect => defect.message
  | frame defect => defect.message
  | dataset defect => defect.message

/-- what is known of a file that was loaded -/
structure FileRecord where
  name : String
  path : String
  rows : Nat
  /-- the column of time points counts too -/
  columns : Nat
  range : Option (Int × Int)
deriving DecidableEq, Repr

def FileRecord.of (path : String) (d : Dataset) : FileRecord where
  name := d.name
  path := path
  rows := d.rowCount
  columns := d.columns.length + 1
  range := do some (← d.times.head?, ← d.times.getLast?)

namespace PriceFile

/-- the dataset of a file's text -/
def ofText (path text : String) (leastRows : Nat) : Except PriceFileDefect Dataset :=
  match Frame.ofText text with
  | .error defect => .error (.text defect)
  | .ok frame =>
    match frame.check path leastRows with
    | .error defect => .error (.frame defect)
    | .ok () =>
      match frame.dataset (Path.stem path) with
      | .error defect => .error (.dataset defect)
      | .ok d => .ok d

def load (disk : Disk) (path : String) (leastRows : Nat) : Except PriceFileDefect Dataset :=
  match disk.findExpanded? path with
  | none => .error (.noFile path)
  | some (.folder _) => .error (.text .unreadable)
  | some (.file text) => ofText path text leastRows

/-- the paths of the price files in a folder, in order -/
def paths? (disk : Disk) (folder : String) : Option (List String) :=
  (disk.entries? folder).map fun names =>
    ((names.filter fun name => Path.extension? name = some "csv").mergeSort fun a b => !(b < a)).map
      (Path.join folder)

/-- loads files one after the other -/
def loadAll (disk : Disk) (leastRows : Nat) : List String → Except PriceFileDefect (List Dataset)
  | [] => .ok []
  | path :: rest => do
    let d ← load disk path leastRows
    let others ← loadAll disk leastRows rest
    .ok (d :: others)

/-- loads the price files of a folder -/
def loadFolder (disk : Disk) (folder : String) (leastRows : Nat) : Except PriceFileDefect (List Dataset) :=
  match paths? disk folder with
  | none => .error (.noFolder folder)
  | some [] => .error (.noPriceFiles folder)
  | some paths => loadAll disk leastRows paths

end PriceFile

end TradingRobots
