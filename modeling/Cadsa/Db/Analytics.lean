import Mathlib.Data.Rat.Floor
import Mathlib.Data.List.Dedup
import Mathlib.Data.List.Sort
import Cadsa.Db.Users

/-! The query helpers of `db/duckdb_manager.py` that the alerts use. Their arguments are Python
values, since nothing checks what a caller passes; averages and percentiles are rationals. -/
namespace Cadsa.Analytics
open Db
set_option autoImplicit false

/-- A row of `requests`: the columns that the queries read. -/
structure Request where
  ts : Time
  host : String
  remoteIp : String
  method : Option String
  status : Option ℤ
  statusClass : Option String
  path : Option String
  countryCode : Option String
  responseBytes : Option ℤ
  requestBytes : Option ℤ
  durationMs : Option ℤ
  deriving DecidableEq

structure RequestFilter where
  host : Option String
  remoteIp : Option String
  method : Option String
  statusClass : Option String
  path : Option String
  countryCode : Option String
  deriving DecidableEq

/-- What a caller may pass as an argument. -/
inductive Value
  | none
  | str (s : String)
  | datetime (t : Time)
  | filter (f : RequestFilter)
  deriving DecidableEq

def Value.ofHost : Option String → Value
  | some host => .str host
  | Option.none => .none

inductive QueryError
  | attributeError (message : String)
  | conversionException
  deriving DecidableEq

inductive Condition
  | between (fromTs toTs : Value)
  | host (host : String)
  | remoteIp (remoteIp : String)
  | method (method : String)
  | statusClass (statusClass : String)
  | pathLike (pattern : String)
  | countryCode (countryCode : String)
  deriving DecidableEq

/-- A filter that is there and not empty adds its condition. -/
def whenSet (value : Option String) (condition : String → Condition) : List Condition :=
  match value with
  | some s => if s = "" then [] else [condition s]
  | Option.none => []

def noHost (type : String) : QueryError := .attributeError ("'" ++ type ++ "' object has no attribute 'host'")

/-- `upper` is that of ASCII letters; the filters of the pages have no others where it is used. -/
def buildWhere (fromTs toTs f : Value) : Except QueryError (List Condition) :=
  let conditions := [Condition.between fromTs toTs]
  match f with
  | .none => .ok conditions
  | .str s => if s = "" then .ok conditions else .error (noHost "str")
  | .datetime _ => .error (noHost "datetime.datetime")
  | .filter f => .ok (conditions ++ whenSet f.host .host ++ whenSet f.remoteIp .remoteIp ++
      whenSet f.method (fun s => .method s.toUpper) ++ whenSet f.statusClass .statusClass ++
      whenSet f.path (fun s => .pathLike ("%" ++ s ++ "%")) ++ whenSet f.countryCode (fun s => .countryCode s.toUpper))

/-! ## `SELECT` -/

/-- `LIKE` without an escape character. -/
def like : List Char → List Char → Bool
  | [], s => s.isEmpty
  | '%' :: p, s => s.tails.any (like p)
  | c :: p, d :: s => (c = '_' || c = d) && like p s
  | _ :: _, [] => false

/-- A NULL bound selects nothing. -/
def Value.timestamp : Value → Except QueryError (Option Time)
  | .none => .ok Option.none
  | .datetime t => .ok (some t)
  | .str _ | .filter _ => .error .conversionException

def Condition.select (rows : List Request) : Condition → Except QueryError (List Request)
  | .between fromTs toTs => do
    let fromTs ← fromTs.timestamp
    let toTs ← toTs.timestamp
    match fromTs, toTs with
    | some a, some b => pure (rows.filter fun r => a ≤ r.ts && r.ts ≤ b)
    | _, _ => pure []
  | .host s => pure (rows.filter (·.host = s))
  | .remoteIp s => pure (rows.filter (·.remoteIp = s))
  | .method s => pure (rows.filter (·.method = some s))
  | .statusClass s => pure (rows.filter (·.statusClass = some s))
  | .pathLike pattern => pure (rows.filter fun r => r.path.any fun path => like pattern.toList path.toList)
  | .countryCode s => pure (rows.filter (·.countryCode = some s))

def select (rows : List Request) (conditions : List Condition) : Except QueryError (List Request) :=
  conditions.foldlM Condition.select rows

/-- `PERCENTILE_CONT`: linear between the two nearest ranks; NULL over no rows. -/
def percentileCont (p : ℚ) (xs : List ℤ) : Option ℚ :=
  let sorted := xs.mergeSort
  let position := p * ((sorted.length : ℚ) - 1)
  let below : ℚ := sorted.getD ⌊position⌋.toNat 0
  let above : ℚ := sorted.getD ⌈position⌉.toNat 0
  if sorted.length = 0 then none else some (below + (position - ⌊position⌋) * (above - below))

/-- `int(x or 0)`. -/
def intOrZero (x : Option ℚ) : ℤ := (x.getD 0).num.tdiv (x.getD 0).den

/-- The nearest integer, the even one of two: `CAST(… AS INTEGER)`, and `round` of Python. -/
def castInteger (x : ℚ) : ℤ :=
  let rest := x - ⌊x⌋
  if rest < 1 / 2 ∨ rest = 1 / 2 ∧ ⌊x⌋ % 2 = 0 then ⌊x⌋ else ⌊x⌋ + 1

/-- `round(x, digits)`. -/
def roundTo (digits : ℕ) (x : ℚ) : ℚ := castInteger (x * 10 ^ digits) / 10 ^ digits

example : roundTo 4 (1 / 32) = 312 / 10000 := by decide +kernel

def statusIn (low high : ℤ) (r : Request) : Bool := r.status.any fun s => low ≤ s && s < high

structure Overview where
  totalRequests : ℕ
  uniqueIps : ℕ
  bytesOut : ℤ
  bytesIn : ℤ
  errorRate : ℚ
  p50Ms : ℤ
  req2xx : ℕ
  req3xx : ℕ
  req4xx : ℕ
  req5xx : ℕ

/-- `AVG(CASE WHEN status >= 400 …)`, which is 0 over no rows. -/
def errorShare (rows : List Request) : ℚ := (rows.countP fun r => r.status.any (400 ≤ ·)) / rows.length

def queryOverview (requests : List Request) (fromTs toTs f : Value) : Except QueryError Overview := do
  let conditions ← buildWhere fromTs toTs f
  let rows ← select requests conditions
  pure {
    totalRequests := rows.length
    uniqueIps := (rows.map (·.remoteIp)).dedup.length
    bytesOut := (rows.map (·.responseBytes.getD 0)).sum
    bytesIn := (rows.map (·.requestBytes.getD 0)).sum
    errorRate := roundTo 4 (errorShare rows)
    p50Ms := intOrZero (percentileCont (1 / 2) (rows.filterMap (·.durationMs)))
    req2xx := rows.countP (statusIn 200 300)
    req3xx := rows.countP (statusIn 300 400)
    req4xx := rows.countP (statusIn 400 500)
    req5xx := rows.countP fun r => r.status.any (500 ≤ ·) }

structure Performance where
  ts : Time
  p50 : ℤ
  p75 : ℤ
  p90 : ℤ
  p95 : ℤ
  p99 : ℤ

/-- The intervals that the callers' buckets name. -/
def interval : Value → Except QueryError Time
  | .str "1 minute" => .ok (minutes 1)
  | .str "15 minutes" => .ok (minutes 15)
  | .str "1 hour" => .ok (minutes 60)
  | .str "8 hours" => .ok (minutes 480)
  | .str "1 day" => .ok (minutes 1440)
  | _ => .error .conversionException

def queryPerformance (requests : List Request) (fromTs toTs bucket f : Value) :
    Except QueryError (List Performance) := do
  let conditions ← buildWhere fromTs toTs f
  let width ← interval bucket
  let rows ← select requests conditions
  let rows := rows.filter (·.durationMs.isSome)
  let buckets := ((rows.map fun r => r.ts / width * width).dedup).mergeSort
  pure (buckets.map fun b =>
    let durations := (rows.filter fun r => r.ts / width * width = b).filterMap (·.durationMs)
    let percentile (p : ℚ) : ℤ := intOrZero (percentileCont p durations)
    { ts := b, p50 := percentile (1 / 2), p75 := percentile (3 / 4), p90 := percentile (9 / 10),
      p95 := percentile (19 / 20), p99 := percentile (99 / 100) })

end Cadsa.Analytics
