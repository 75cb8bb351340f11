import Zepto.Catalog.Registry
import Zepto.Lib.Stream

/-!
# The catalog file

What `save_to` writes and how `load_from_checked` reads it. The reader has no parser: it matches
braces and brackets, finds the members of an object by their names and reads their values. A
position in the file is the text from there on.
-/

namespace Zepto.Catalog

open Zepto.Lib
open Zepto.Storage (ColumnType)

/-! ## Writing -/

def escape (c : Char) : List Char :=
  if c = '"' then ['\\', '"']
  else if c = '\\' then ['\\', '\\']
  else if c = '\n' then ['\\', 'n']
  else if c = '\r' then ['\\', 'r']
  else if c = '\t' then ['\\', 't']
  else [c]

def jsonStr (s : List Char) : List Char := '"' :: s.flatMap escape ++ ['"']

def commas : List (List Char) → List Char
  | [] => []
  | [t] => t
  | t :: ts => t ++ ',' :: commas ts

def member (m : String × List Char) : List Char := '"' :: m.1.toList ++ '"' :: ':' :: m.2

def object (members : List (String × List Char)) : List Char :=
  '{' :: commas (members.map member) ++ ['}']

def array (items : List (List Char)) : List Char := '[' :: commas items ++ [']']

def flag (b : Bool) : List Char := decimal (if b then 1 else 0)

def typeNumber : ColumnType → Nat
  | .int32 => 0
  | .int64 => 1
  | .float32 => 2
  | .float64 => 3
  | .timestampNs => 4
  | .symbol => 5
  | .bool => 6
  | .string => 7

def modeNumber : TablePlacementMode → Nat
  | .hashByTableAndSymbol => 0
  | .hashByTable => 1
  | .pinnedNode => 2

def columnText (c : ColumnDef) : List Char :=
  object [("name", jsonStr c.name), ("type", decimal (typeNumber c.type))]

def tableText (s : TableSchema) : List Char :=
  object
    [("name", jsonStr s.tableName),
     ("table_id", decimal s.tableId.toNat),
     ("ttl_ns", decimalInt s.ttlNs.toInt),
     ("has_data", flag s.hasData),
     ("placement_configured", flag s.placement.configured),
     ("placement_policy", decimal (modeNumber s.placement.mode)),
     ("placement_node_id", decimal s.placement.nodeId.toNat),
     ("columns", array (s.columns.map columnText))]

/-- The file `save_to` writes, the tables in the order of the map. -/
def saveTo (nextTableId : TableId) (snap : List TableSchema) : List Char :=
  object [("next_table_id", decimal nextTableId.toNat), ("tables", array (snap.map tableText))]

/-! ## Finding the way through the text -/

def isWs (c : Char) : Bool := c = ' ' || c = '\n' || c = '\r' || c = '\t'

/-- `skip_ws` to the end of the text. -/
def skipWs (t : List Char) : List Char := t.dropWhile isWs

/-- `skip_ws` to an end `n` bytes away: the distance left, and the text. -/
def skipWsTo : Nat → List Char → Nat × List Char
  | n + 1, c :: t => if isWs c then skipWsTo n t else (n + 1, c :: t)
  | n, t => (n, t)

/-- Where the scan stands: outside of a string, in one, or in one after a backslash. -/
inductive Scan where
  | outside
  | inString
  | escaped
  deriving DecidableEq

def Scan.next (c : Char) : Scan :=
  if c = '\\' then .escaped else if c = '"' then .outside else .inString

/-- How far the delimiter is that closes `depth` open ones. -/
def matchFrom (opening closing : Char) : Nat → Scan → List Char → Option Nat
  | _, _, [] => none
  | depth, .escaped, _ :: t => (matchFrom opening closing depth .inString t).map (· + 1)
  | depth, .inString, c :: t => (matchFrom opening closing depth (.next c) t).map (· + 1)
  | depth, .outside, c :: t =>
    if c = '"' then (matchFrom opening closing depth .inString t).map (· + 1)
    else if c = opening then (matchFrom opening closing (depth + 1) .outside t).map (· + 1)
    else if c = closing then
      if depth = 1 then some 0 else (matchFrom opening closing (depth - 1) .outside t).map (· + 1)
    else (matchFrom opening closing depth .outside t).map (· + 1)

def matchDelimiter (opening closing : Char) : List Char → Option Nat
  | [] => none
  | c :: t => if c = opening then (matchFrom opening closing 1 .outside t).map (· + 1) else none

def jsonMatchBrace : List Char → Option Nat := matchDelimiter '{' '}'

def jsonMatchBracket : List Char → Option Nat := matchDelimiter '[' ']'

/-- The search for a member: the depths, and inside a string its text so far. -/
def findMember (key : List Char) :
    Int → Int → Scan → List Char → List Char → Option (List Char)
  | _, _, _, _, [] => none
  | objects, arrays, .outside, raw, c :: t =>
    if c = '{' then findMember key (objects + 1) arrays .outside raw t
    else if c = '}' then findMember key (objects - 1) arrays .outside raw t
    else if c = '[' then findMember key objects (arrays + 1) .outside raw t
    else if c = ']' then findMember key objects (arrays - 1) .outside raw t
    else if c = '"' then findMember key objects arrays .inString [] t
    else findMember key objects arrays .outside raw t
  | objects, arrays, .escaped, raw, c :: t =>
    findMember key objects arrays .inString (raw ++ [c]) t
  | objects, arrays, .inString, raw, c :: t =>
    if c = '\\' then findMember key objects arrays .escaped (raw ++ [c]) t
    else if c = '"' then
      if objects = 1 ∧ arrays = 0 ∧ raw = key then
        -- A string that no colon follows is a value, and the search goes on.
        match skipWs t with
        | ':' :: v => some (skipWs v)
        | _ => findMember key objects arrays .outside [] t
      else findMember key objects arrays .outside [] t
    else findMember key objects arrays .inString (raw ++ [c]) t

def jsonFindMemberValue (key : String) (t : List Char) : Option (List Char) :=
  findMember key.toList 0 0 .outside [] t

/-! ## Values -/

def escaped (c : Char) : Option Char :=
  if c = 'n' then some '\n'
  else if c = 'r' then some '\r'
  else if c = 't' then some '\t'
  else if c = '"' then some '"'
  else if c = '\\' then some '\\'
  else none

def readString : Bool → List Char → Option (List Char × List Char)
  | _, [] => none
  | true, c :: t =>
    match escaped c with
    | none => none
    | some d => (readString false t).map fun r => (d :: r.1, r.2)
  | false, c :: t =>
    if c = '"' then some ([], t)
    else if c = '\\' then readString true t
    else if c.toNat < 0x20 then none
    else (readString false t).map fun r => (c :: r.1, r.2)

/-- The first byte after the blanks, if there is one, is among these. -/
def endsAt (stops : List Char) (t : List Char) : Bool :=
  match skipWs t with
  | [] => true
  | c :: _ => c ∈ stops

def jsonExtractString (key : String) (obj : List Char) : Option (List Char) :=
  match jsonFindMemberValue key obj with
  | some ('"' :: t) =>
    match readString false t with
    | some (s, t) => if endsAt [',', '}'] t then some s else none
    | none => none
  | _ => none

/-- Digits up to the first other byte; nothing past the limit. -/
def readDigits (limit : Nat) : Nat → List Char → Option (Nat × List Char)
  | v, [] => some (v, [])
  | v, c :: t =>
    if c.isDigit then
      if v > (limit - (c.toNat - 48)) / 10 then none
      else readDigits limit (v * 10 + (c.toNat - 48)) t
    else some (v, c :: t)

def readSign : List Char → Bool × List Char
  | '-' :: t => (true, t)
  | t => (false, t)

/-- `json_find_int_gen_` for a type with this maximum. -/
def jsonFindIntGen (unsigned : Bool) (limit : Nat) (key : String) (t : List Char) : Option Int :=
  match jsonFindMemberValue key t with
  | none => none
  | some v =>
    let (neg, v) := readSign v
    if ¬(v.head?.any Char.isDigit) then none
    else if neg ∧ unsigned then none
    else
      match readDigits (if neg then limit + 1 else limit) 0 v with
      | none => none
      | some (n, rest) =>
        if endsAt [',', '}', ']'] rest then some (if neg then -n else n) else none

def jsonFindInt (key : String) (t : List Char) : Option Nat :=
  (jsonFindIntGen true (2 ^ 32 - 1) key t).map Int.toNat

def jsonFindInt64 (key : String) (t : List Char) : Option Int :=
  jsonFindIntGen false (2 ^ 63 - 1) key t

/-! ## Reading -/

/-- The objects of an array whose end is `n` bytes away, read by `item`; a round takes a byte. -/
def readObjects {σ : Type} (item : σ → List Char → Option σ) :
    Nat → Nat → List Char → σ → Option σ
  | 0, n, _, acc => if n = 0 then some acc else none
  | rounds + 1, n, t, acc =>
    let (n, t) := skipWsTo n t
    if n = 0 then some acc
    else
      match jsonMatchBrace t with
      | none => none
      | some stop =>
        if stop > n then none
        else
          match item acc (t.take (stop + 1)) with
          | none => none
          | some acc =>
            let (n, t) := skipWsTo (n - (stop + 1)) (t.drop (stop + 1))
            if n = 0 then some acc
            else if t.head? ≠ some ',' then none
            else
              let (n, t) := skipWsTo (n - 1) t.tail
              if n = 0 then none else readObjects item rounds n t acc

/-- The objects of the array at the text, up to its bracket `stop` bytes away. -/
def readArray {σ : Type} (item : σ → List Char → Option σ) (t : List Char) (stop : Nat) (acc : σ) :
    Option σ :=
  readObjects item (stop - 1) (stop - 1) t.tail acc

/-- The column type of a number, up to `STRING`. -/
def columnTypeOf : Nat → Option ColumnType
  | 0 => some .int32
  | 1 => some .int64
  | 2 => some .float32
  | 3 => some .float64
  | 4 => some .timestampNs
  | 5 => some .symbol
  | 6 => some .bool
  | 7 => some .string
  | _ => none

def modeOf : Nat → Option TablePlacementMode
  | 0 => some .hashByTableAndSymbol
  | 1 => some .hashByTable
  | 2 => some .pinnedNode
  | _ => none

def readColumn (columns : List ColumnDef) (obj : List Char) : Option (List ColumnDef) := do
  let name ← jsonExtractString "name" obj
  guard (name ≠ [] ∧ name ∉ columns.map ColumnDef.name)
  let type ← columnTypeOf (← jsonFindInt "type" obj)
  pure (columns ++ [⟨name, type⟩])

/-- The placement of a table; a member that is missing or no number leaves the default. -/
def readPlacement (obj : List Char) : Option TablePlacementOptions := do
  let configured := (jsonFindInt "placement_configured" obj).getD 0
  guard (configured ≤ 1)
  let mode ← modeOf ((jsonFindInt "placement_policy" obj).getD 0)
  let nodeId := BitVec.ofNat 32 ((jsonFindInt "placement_node_id" obj).getD 0)
  guard ¬(configured ≠ 0 ∧ mode = .pinnedNode ∧ nodeId = 0)
  pure { configured := configured ≠ 0, mode, nodeId }

/-- The tables read so far: `parsed_tables`, `parsed_ids` and `max_id`. -/
structure Parsed where
  tables : Tables := ∅
  ids : List TableId := []
  maxId : Nat := 0

def readTable (parsed : Parsed) (obj : List Char) : Option Parsed := do
  let columnsLeft ← jsonFindMemberValue "columns" obj
  let columnsRight ← jsonMatchBracket columnsLeft
  -- Only the closing brace may follow the columns.
  guard (skipWs (columnsLeft.drop (columnsRight + 1)) = ['}'])
  let name ← jsonExtractString "name" obj
  guard (name ≠ [])
  let tableId ← jsonFindInt "table_id" obj
  guard (tableId ≠ 0 ∧ tableId ≤ 65535)
  let ttlNs ← jsonFindInt64 "ttl_ns" obj
  guard (0 ≤ ttlNs)
  let hasData ← jsonFindInt "has_data" obj
  guard (hasData ≤ 1)
  let id := BitVec.ofNat 16 tableId
  guard ((parsed.tables.lookup name).isNone ∧ id ∉ parsed.ids)
  let placement ← readPlacement obj
  let columns ← readArray readColumn columnsLeft columnsRight []
  let schema : TableSchema :=
    { tableName := name, columns, ttlNs := .ofInt 64 ttlNs, hasData := hasData ≠ 0,
      tableId := id, placement }
  pure
    { tables := parsed.tables.insert name schema
      ids := id :: parsed.ids
      maxId := max parsed.maxId tableId }

def readCatalog (s : List Char) : Option Registry := do
  let root := skipWs s
  let rootEnd ← jsonMatchBrace root
  guard (skipWs (root.drop (rootEnd + 1)) = [])
  let loadedNext ← jsonFindInt "next_table_id" root
  guard (loadedNext ≠ 0 ∧ loadedNext ≤ 65535)
  let tables ← jsonFindMemberValue "tables" root
  -- Positions are counted from the start of the root object.
  let left := root.length - tables.length
  guard (left ≤ rootEnd)
  let stop ← jsonMatchBracket tables
  guard (left + stop ≤ rootEnd)
  -- Only the closing brace may follow the tables.
  guard (left + stop + 1 ≤ rootEnd ∧
    (skipWsTo (rootEnd - (left + stop + 1)) (tables.drop (stop + 1))).1 = 0)
  let parsed ← readArray readTable tables stop {}
  pure
    { tables := parsed.tables
      nextTableId := .ofNat 16 (min (max loadedNext (parsed.maxId + 1)) 65535) }

inductive CatalogFile where
  | missing
  | unreadable
  | bytes (s : List Char)
  deriving DecidableEq

inductive SchemaCatalogLoadResult where
  | loaded
  | notFound
  | invalid
  deriving DecidableEq

def loadFromChecked (reg : Registry) : CatalogFile → SchemaCatalogLoadResult × Registry
  | .missing => (.notFound, reg)
  | .unreadable => (.invalid, reg)
  | .bytes s =>
    match readCatalog s with
    | some loaded => (.loaded, loaded)
    | none => (.invalid, reg)

end Zepto.Catalog
