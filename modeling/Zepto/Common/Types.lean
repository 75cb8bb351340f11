import Zepto.Lib.Word

/-!
# Common types

Symbol, node and table ids have the widths of the source; timestamps and column values are
signed 64-bit numbers, kept as integers.
-/

namespace Zepto

/-- `SymbolId`, an interned symbol. -/
abbrev SymbolId := BitVec 32

/-- `NodeId`, a node of the cluster. -/
abbrev NodeId := BitVec 32

/-- The id a table gets in the schema registry; 0 is the legacy table. -/
abbrev TableId := BitVec 16

/-- `static_cast<SymbolId>` of an `int64`. -/
def toSymbolId (n : Int) : SymbolId := .ofInt 32 n

instance neZero_word32 : NeZero (2 ^ 32) := ⟨by decide⟩

def nsPerHour : Int := 3600000000000

end Zepto
