/-
How packed data begin. A file that begins so is not taken for text, whatever it holds.
-/

namespace TradingRobots.PriceFile

/-- the first bytes of packed data -/
def packedLeads : List (List UInt8) := [
  [0x1F, 0x8B],
  [0x78, 0x01], [0x78, 0x5E], [0x78, 0x9C], [0x78, 0xDA],
  [0x28, 0xB5, 0x2F, 0xFD]]

/-- how many bytes must be there for a file to be packed -/
def leastPacked : Nat := 4

def looksPacked (text : List Char) : Bool :=
  let start := (text.take leastPacked).flatMap String.utf8EncodeChar
  leastPacked ≤ start.length && packedLeads.any fun lead => lead.isPrefixOf start

end TradingRobots.PriceFile
