import Zepto.Sql.Ast
import Zepto.Storage.Partition

/-!
# Value expressions

`evalArith` computes a value expression at a row in `int64` arithmetic, `evalArithF64` in doubles
(`evalArithBoth` is the recursion they share), `evalArithConst` without a row. A failed number
conversion (`std::stoll`) throws, so they return `Except`. Every use of the clock within one
statement sees the same `now`.
-/

namespace Zepto.Sql

open Zepto.Lib Zepto.Storage

/-- What an evaluation reads besides the row: the clock, in nanoseconds. -/
structure Env where
  now : Int

/-! ## Text conversions -/

def isSpace (c : Char) : Bool :=
  c = ' ' || c = '\t' || c = '\n' || c = '\r' || c.toNat = 11 || c.toNat = 12

def digitsValue (ds : List Char) : Int :=
  ds.foldl (fun acc d => acc * 10 + (d.toNat - '0'.toNat : Nat)) 0

/-- `std::stoll`: blanks, a sign, at least one digit; the rest is ignored. -/
def stoll (s : List Char) : Except String Int :=
  let s := s.dropWhile isSpace
  let (neg, s) := match s with
    | '-' :: s => (true, s)
    | '+' :: s | s => (false, s)
  let ds := s.takeWhile Char.isDigit
  if ds.isEmpty then .error "stoll"
  else
    let v := if neg then -digitsValue ds else digitsValue ds
    if int64Min ≤ v ∧ v ≤ int64Max then .ok v else .error "stoll"

/-- `date_trunc_bucket`: the nanoseconds of a unit, 0 for an unknown one. -/
def dateTruncBucket (unit : String) : Int :=
  if unit = "ns" then 1
  else if unit = "us" then 1000
  else if unit = "ms" then 1000000
  else if unit = "s" then 1000000000
  else if unit = "min" then 60000000000
  else if unit = "hour" then 3600000000000
  else if unit = "day" then 86400000000000
  else if unit = "week" then 604800000000000
  else 1

/-- The nanoseconds of a normalised unit, 1 for an unknown one. -/
def intervalUnitNs (unit : String) : Int :=
  if unit ∈ ["n", "ns", "nanosecond"] then 1
  else if unit ∈ ["u", "us", "microsecond"] then 1000
  else if unit ∈ ["ms", "millisecond"] then 1000000
  else if unit ∈ ["second", "sec", "s"] then 1000000000
  else if unit ∈ ["minute", "min", "m"] then 60000000000
  else if unit ∈ ["hour", "h"] then 3600000000000
  else if unit ∈ ["day", "d"] then 86400000000000
  else if unit ∈ ["week", "w"] then 604800000000000
  else 1

/-- Lower case, without trailing blanks and without a plural `s`. -/
def normalizeUnit (unit : List Char) : String :=
  let unit := (unit.map .toLower).reverse.dropWhile (· = ' ')
  let keep := unit = ['s', 'n'] ∨ unit = ['s', 'm']
  .ofList (match unit with
    | 's' :: rest => if keep then unit.reverse else rest.reverse
    | _ => unit.reverse)

/-- `INTERVAL 'N unit'` in nanoseconds: split at the first blank, or after the digits, or one whole
unit. -/
def intervalNs (text : String) : Except String Int := do
  let cs := text.toList
  let digits := cs.takeWhile Char.isDigit
  let (n, unit) ←
    if ' ' ∈ cs then do
      let n ← stoll (cs.takeWhile (· ≠ ' '))
      pure (n, (cs.dropWhile (· ≠ ' ')).tail)
    else if 0 < digits.length ∧ digits.length < cs.length then do
      let n ← stoll digits
      pure (n, cs.drop digits.length)
    else pure (1, cs)
  pure (wrap64 (n * intervalUnitNs (normalizeUnit unit)))

/-- `SUBSTR` on the decimal text of a number; 0 if the result is none. -/
def substrValue (arg : Int) (start : Int) (len : Option Int) : Int :=
  let s := (toString arg).toList
  let pos := (max start 1 - 1).toNat
  if s.length ≤ pos then 0
  else
    let n := match len with
      | none => s.length - pos
      | some l => unsigned 64 l
    match stoll ((s.drop pos).take n) with
    | .ok v => v
    | .error _ => 0

/-- The text `SUBSTR` starts at; an empty one means 1. -/
def substrStart (start : String) : Except String Int :=
  if start.isEmpty then .ok 1 else stoll start.toList

/-! ## Arithmetic -/

/-- An `int64` operation; overflow wraps, division by zero is 0. -/
def ArithOp.apply (op : ArithOp) (l r : Int) : Int :=
  match op with
  | .add => wrap64 (l + r)
  | .sub => wrap64 (l - r)
  | .mul => wrap64 (l * r)
  | .div => if r ≠ 0 then wrap64 (l.tdiv r) else 0

/-- A double operation; division by zero is 0. -/
def ArithOp.applyF64 (op : ArithOp) (l r : Float) : Float :=
  match op with
  | .add => l + r
  | .sub => l - r
  | .mul => l * r
  | .div => if r != doubleOfInt 0 then l / r else doubleOfInt 0

def degToRad (degrees : Float) : Float :=
  degrees * 3.141592653589793238462643383279502884 / 180.0

/-- The great-circle distance in metres; 0 unless all coordinates are finite. -/
def distanceM (lat1 lon1 lat2 lon2 : Float) : Float :=
  if !lat1.isFinite || !lon1.isFinite || !lat2.isFinite || !lon2.isFinite then doubleOfInt 0
  else
    let sinDlat := .sin (degToRad (lat2 - lat1) / 2.0)
    let sinDlon := .sin (degToRad (lon2 - lon1) / 2.0)
    let a := sinDlat * sinDlat +
      .cos (degToRad lat1) * .cos (degToRad lat2) * sinDlon * sinDlon
    let clamped := if a < 0.0 then 0.0 else if 1.0 < a then 1.0 else a
    6371008.8 * 2.0 * Float.atan2 (.sqrt clamped) (.sqrt (1.0 - clamped))

/-- `std::llround`, halves away from zero. -/
def llround (x : Float) : Int :=
  match x.toModel.unpack with
  | .finite s m e _ =>
    let mag := if 0 ≤ e then m * 2 ^ e.toNat else (m + 2 ^ ((-e).toNat - 1)) / 2 ^ (-e).toNat
    s.apply mag
  | _ => 0

/-- `spatial_distance_to_i64`. -/
def distanceToI64 (meters : Float) : Int :=
  if !meters.isFinite then 0
  else if doubleOfInt int64Max ≤ meters then int64Max
  else llround meters

/-- A column as `int64` words, whatever its type: `col_ptr(part, col)[idx]`. -/
def colWord (part : Partition) (col : String) (idx : Nat) : Option Int :=
  (part.getColumn col).bind fun c => c.data.map fun _ => c.rawI64 part.mem idx

/-- Both readings of a function computed in `int64`. -/
def asBoth (v : Except String Int) : Except String Int × Except String Float :=
  (v, v.map doubleOfInt)

/-- `eval_arith` and `eval_arith_as_f64`, which call each other: columns as `int64` words, or by
type. -/
def evalArithBoth (env : Env) (part : Partition) (idx : Nat) :
    ArithExpr → Except String Int × Except String Float
  | .literal v vf isFloat => (.ok v, .ok (if isFloat then vf else doubleOfInt v))
  | .column _ col =>
    if col = "symbol" then asBoth (.ok part.symbolValue)
    else
      (.ok ((colWord part col idx).getD 0),
        .ok (match part.getColumn col with
          | some c => c.readF64 part.mem idx
          | none => doubleOfInt 0))
  | .binary op l r =>
    let l := evalArithBoth env part idx l
    let r := evalArithBoth env part idx r
    (do pure (op.apply (← l.1) (← r.1)), do pure (op.applyF64 (← l.2) (← r.2)))
  | .distance _ a b c d =>
    let meters := do
      pure (distanceM (← (evalArithBoth env part idx a).2) (← (evalArithBoth env part idx b).2)
        (← (evalArithBoth env part idx c).2) (← (evalArithBoth env part idx d).2))
    (meters.map distanceToI64, meters)
  | .within a b c d r =>
    asBoth do
      let radius ← (evalArithBoth env part idx r).2
      -- the distance is computed only for a radius that can hold a point
      if !radius.isFinite || radius < doubleOfInt 0 then pure 0
      else
        let meters := distanceM (← (evalArithBoth env part idx a).2)
          (← (evalArithBoth env part idx b).2) (← (evalArithBoth env part idx c).2)
          (← (evalArithBoth env part idx d).2)
        pure (if meters ≤ radius then 1 else 0)
  | .now => asBoth (.ok env.now)
  | .interval text => asBoth (intervalNs text)
  | .dateTrunc unit arg =>
    asBoth do
      let v ← (evalArithBoth env part idx arg).1
      pure (v.tdiv (dateTruncBucket unit) * dateTruncBucket unit)
  | .epochS arg => asBoth do pure ((← (evalArithBoth env part idx arg).1).tdiv 1000000000)
  | .epochMs arg => asBoth do pure ((← (evalArithBoth env part idx arg).1).tdiv 1000000)
  | .substr arg start =>
    asBoth do
      let v ← (evalArithBoth env part idx arg).1
      pure (substrValue v (← substrStart start) none)
  | .substrLen arg start len =>
    asBoth do
      let v ← (evalArithBoth env part idx arg).1
      let s ← substrStart start
      -- a start past the end gives 0 before the length is looked at
      if (toString v).toList.length ≤ (max s 1 - 1).toNat then pure 0
      else pure (substrValue v s (some (← (evalArithBoth env part idx len).1)))

def evalArith (env : Env) (part : Partition) (idx : Nat) (e : ArithExpr) : Except String Int :=
  (evalArithBoth env part idx e).1

/-- `eval_arith_as_f64`. -/
def evalArithF64 (env : Env) (part : Partition) (idx : Nat) (e : ArithExpr) :
    Except String Float :=
  (evalArithBoth env part idx e).2

/-- `eval_arith_const`: columns are 0, `SUBSTR` and distances their first argument. -/
def evalArithConst (env : Env) : ArithExpr → Except String Int
  | .literal v _ _ => .ok v
  | .column _ _ => .ok 0
  | .binary op l r => do
    let lv ← evalArithConst env l
    let rv ← evalArithConst env r
    pure (op.apply lv rv)
  | .now => .ok env.now
  | .interval text => intervalNs text
  | .dateTrunc unit arg => do
    let v ← evalArithConst env arg
    pure (v.tdiv (dateTruncBucket unit) * dateTruncBucket unit)
  | .epochS arg => do
    let v ← evalArithConst env arg
    pure (v.tdiv 1000000000)
  | .epochMs arg => do
    let v ← evalArithConst env arg
    pure (v.tdiv 1000000)
  | .substr arg _ | .substrLen arg _ _ => evalArithConst env arg
  | .distance _ a _ _ _ | .within a _ _ _ _ => evalArithConst env a

end Zepto.Sql
