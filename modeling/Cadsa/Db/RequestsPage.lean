import Mathlib.Data.String.Basic
import Mathlib.Order.WithBot
import Cadsa.Db.Timeseries
import Cadsa.Lib.Paging
import Cadsa.Lib.Table

/-! `query_requests_page` and the request log it is paged through. The database may return rows that tie in
the `ORDER BY` key in any order, which is an argument of each query. -/
namespace Cadsa.RequestsPage
open Db Analytics Paging Tables OrderDual
set_option autoImplicit false

/-- A row of `requests`: its key, and the columns that only a page shows. -/
structure StoredRequest extends Request where
  id : ℕ
  uri : Option String
  userAgent : Option String
  uaBrowser : Option String
  uaOs : Option String
  uaDevice : Option String
  countryName : Option String
  city : Option String
  referer : Option String
  tlsVersion : Option String
  httpProto : Option String
  isBot : Bool
  threatScore : ℤ
  deriving DecidableEq

abbrev RequestsTable := Table ℕ StoredRequest StoredRequest.id

structure PageRow where
  id : ℕ
  ts : String
  host : String
  remoteIp : String
  method : Option String
  uri : Option String
  path : Option String
  status : Option ℤ
  durationMs : Option ℤ
  responseBytes : Option ℤ
  requestBytes : Option ℤ
  userAgent : Option String
  uaBrowser : Option String
  uaOs : Option String
  uaDevice : Option String
  countryCode : Option String
  countryName : Option String
  city : Option String
  referer : Option String
  tlsVersion : Option String
  httpProto : Option String
  isBot : Bool
  threatScore : ℤ

/-! ## The order -/

/-- What a column and a direction order the rows by. -/
structure SortKey where
  κ : Type
  order : LinearOrder κ
  of : StoredRequest → κ

attribute [instance] SortKey.order

/-- NULL comes last in both directions. -/
def column {α : Type} [LinearOrder α] (get : StoredRequest → Option α) (descending : Bool) : SortKey :=
  if descending then ⟨WithTop αᵒᵈ, inferInstance, fun r => (get r).map toDual⟩ else ⟨WithTop α, inferInstance, get⟩

def byTs (descending : Bool) : SortKey := column (fun r => some r.ts) descending

def allowedSort : List (String × (Bool → SortKey)) :=
  [("ts", byTs), ("host", column fun r => some r.host), ("remote_ip", column fun r => some r.remoteIp),
    ("method", column fun r => r.method), ("status", column fun r => r.status),
    ("duration_ms", column fun r => r.durationMs), ("response_bytes", column fun r => r.responseBytes),
    ("country_code", column fun r => r.countryCode)]

def sortKey (sortBy sortDir : String) : SortKey :=
  ((allowedSort.lookup sortBy).getD byTs) (sortDir.toLower = "desc")

theorem sortKey_eq {sortBy sortDir : String} {c : Bool → SortKey} (hc : allowedSort.lookup sortBy = some c)
    (hdir : sortDir.toLower = "desc") : sortKey sortBy sortDir = c true := by
  rw [sortKey, hc, decide_eq_true hdir]
  rfl

abbrev SortKey.OrderBy (k : SortKey) := Paging.OrderBy k.of

/-! ## The query -/

section
variable (isoformat : Time → String)

def pageRow (r : StoredRequest) : PageRow where
  id := r.id
  ts := isoformat r.ts
  host := r.host
  remoteIp := r.remoteIp
  method := r.method
  uri := r.uri
  path := r.path
  status := r.status
  durationMs := r.durationMs
  responseBytes := r.responseBytes
  requestBytes := r.requestBytes
  userAgent := r.userAgent
  uaBrowser := r.uaBrowser
  uaOs := r.uaOs
  uaDevice := r.uaDevice
  countryCode := r.countryCode
  countryName := r.countryName
  city := r.city
  referer := r.referer
  tlsVersion := r.tlsVersion
  httpProto := r.httpProto
  isBot := r.isBot
  threatScore := r.threatScore

def queryRequestsPage (requests : RequestsTable) (fromTs toTs : Time) (f : Option RequestFilter) (offset limit : ℕ)
    (sortBy sortDir : String) (db : (sortKey sortBy sortDir).OrderBy) : Except QueryError (List PageRow × ℕ) := do
  let conditions ← buildWhere (.datetime fromTs) (.datetime toTs) (.ofFilter f)
  let rows := requests.rows.filter fun r => conditions.all (·.holds r.toRequest)
  pure ((((db.run rows).drop offset).take limit).map (pageRow isoformat), rows.length)

structure Response where
  total : ℕ
  page : ℕ
  limit : ℕ
  data : List PageRow

def getRequests (requests : RequestsTable) (fromTs toTs : Time) (f : Option RequestFilter) (page limit : ℕ)
    (sortBy sortDir : String) (db : (sortKey sortBy sortDir).OrderBy) : Except QueryError Response := do
  let offset := (page - 1) * limit
  let (rows, total) ← queryRequestsPage isoformat requests fromTs toTs f offset limit sortBy sortDir db
  pure ⟨total, page, limit, rows⟩

/-! ## Paging through -/

def matching (requests : RequestsTable) (fromTs toTs : Time) (f : Option RequestFilter) : List StoredRequest :=
  requests.rows.filter fun r => (conditionsOf fromTs toTs f).all (·.holds r.toRequest)

/-- `Math.ceil(total / limit)`. -/
def totalPages (total limit : ℕ) : ℕ := (total + limit - 1) / limit

/-- Whatever order the database chooses at each query, the pages show the matching rows, each once. -/
def EveryRowOnce (requests : RequestsTable) (fromTs toTs : Time) (f : Option RequestFilter) (limit : ℕ)
    (sortBy sortDir : String) : Prop :=
  ∀ choice : ℕ → (sortKey sortBy sortDir).OrderBy, ∃ data : ℕ → List PageRow,
    (∀ k < totalPages (matching requests fromTs toTs f).length limit,
      getRequests isoformat requests fromTs toTs f (k + 1) limit sortBy sortDir (choice k) =
        .ok ⟨(matching requests fromTs toTs f).length, k + 1, limit, data k⟩) ∧
    ((List.range (totalPages (matching requests fromTs toTs f).length limit)).flatMap data).Perm
      ((matching requests fromTs toTs f).map (pageRow isoformat))

/-- The condition under which it does: no two matching rows of one sort key stand on the two sides of a
page boundary. -/
def PagesSeparated (requests : RequestsTable) (fromTs toTs : Time) (f : Option RequestFilter) (limit : ℕ)
    (sortBy sortDir : String) : Prop :=
  Separated (sortKey sortBy sortDir).of limit (matching requests fromTs toTs f)

variable {requests : RequestsTable} {fromTs toTs : Time} {f : Option RequestFilter} {limit : ℕ} {sortBy sortDir : String}

theorem getRequests_eq (db : (sortKey sortBy sortDir).OrderBy) (k : ℕ) :
    getRequests isoformat requests fromTs toTs f (k + 1) limit sortBy sortDir db =
      .ok ⟨(matching requests fromTs toTs f).length, k + 1, limit,
        (page limit k (db.run (matching requests fromTs toTs f))).map (pageRow isoformat)⟩ := by
  rw [getRequests, queryRequestsPage, buildWhere_eq]
  rfl

theorem le_totalPages (total : ℕ) (hl : 1 ≤ limit) : total ≤ totalPages total limit * limit := by
  have hdiv := Nat.lt_div_mul_add (a := total + limit - 1) hl
  rw [totalPages]
  omega

theorem matching_ids_nodup : ((matching requests fromTs toTs f).map StoredRequest.id).Nodup :=
  requests.nodup.sublist (List.filter_sublist.map StoredRequest.id)

theorem separated_of_everyRowOnce (hl : 1 ≤ limit)
    (h : EveryRowOnce isoformat requests fromTs toTs f limit sortBy sortDir) :
    PagesSeparated requests fromTs toTs f limit sortBy sortDir := by
  refine separated_of_nodup hl (le_totalPages _ hl) fun choice hc => ?_
  obtain ⟨data, hdata, hperm⟩ := h fun k => OrderBy.giving (hc k)
  have hpages : (List.range (totalPages (matching requests fromTs toTs f).length limit)).flatMap data =
      (pages limit (totalPages (matching requests fromTs toTs f).length limit) choice).map (pageRow isoformat) := by
    rw [pages, List.map_flatMap]
    refine List.flatMap_congr fun k hk => ?_
    have hpage := hdata k (List.mem_range.mp hk)
    rw [getRequests_eq, OrderBy.run_giving] at hpage
    exact (congrArg Response.data (Except.ok.inj hpage)).symm
  rw [hpages] at hperm
  have hids := hperm.map PageRow.id
  rw [List.map_map, List.map_map] at hids
  exact List.Nodup.of_map _ (hids.nodup_iff.mpr matching_ids_nodup)

/-- **Pages of independent queries.** They show every matching row once, in every order that the database
may choose, if and only if no tie in the sort key goes across a page boundary. -/
theorem every_row_once_iff (hl : 1 ≤ limit) : EveryRowOnce isoformat requests fromTs toTs f limit sortBy sortDir ↔
    PagesSeparated requests fromTs toTs f limit sortBy sortDir := by
  refine ⟨separated_of_everyRowOnce isoformat hl, fun hs choice => ?_⟩
  refine ⟨_, fun k _ => getRequests_eq isoformat (choice k) k, ?_⟩
  have hperm := pages_perm hs (le_totalPages _ hl) fun k => (choice k).ordered (matching requests fromTs toTs f)
  have hrows := hperm.map (pageRow isoformat)
  rwa [pages, List.map_flatMap] at hrows

end

/-! ## Two requests -/

def stored (id : ℕ) (ts : Time) : StoredRequest where
  toRequest := ⟨ts, "a.example", "10.0.0.1", some "GET", some 200, some "2xx", some "/", none, none, none, none⟩
  id := id
  uri := some "/"
  userAgent := none
  uaBrowser := none
  uaOs := none
  uaDevice := none
  countryName := none
  city := none
  referer := none
  tlsVersion := none
  httpProto := none
  isBot := false
  threatScore := 0

def twoRequests : RequestsTable := ⟨[stored 1 0, stored 2 1000000], by decide⟩

/-- `isoformat` of the first seconds of 1970. -/
def isoformatSeconds (ts : Time) : String := "1970-01-01T00:00:0" ++ toString (ts / 1000000)

theorem matching_twoRequests : matching twoRequests 0 1000000 none = [stored 1 0, stored 2 1000000] := by decide

theorem every_row_once_by_ts : EveryRowOnce isoformatSeconds twoRequests 0 1000000 none 1 "ts" "desc" := by
  refine (every_row_once_iff isoformatSeconds (le_refl 1)).mpr ?_
  have hkey : sortKey "ts" "desc" = byTs true := sortKey_eq rfl (by decide +kernel)
  rw [PagesSeparated, hkey, matching_twoRequests]
  refine separated_of_injective Nat.one_pos (List.pairwise_pair.mpr fun he => ?_)
  have hts := Option.some.inj he
  exact absurd hts (by decide)

/-- Both rows have status 200, so that each of two queries may put either first. -/
theorem tie_across_pages : ¬ EveryRowOnce isoformatSeconds twoRequests 0 1000000 none 1 "status" "desc" := by
  intro h
  have hs := separated_of_everyRowOnce isoformatSeconds (le_refl 1) h
  have hkey : sortKey "status" "desc" = column (fun r => r.status) true := sortKey_eq rfl (by decide +kernel)
  rw [PagesSeparated, hkey, matching_twoRequests] at hs
  have hsorted : sortedKeys (column (fun r => r.status) true).of [stored 1 0, stored 2 1000000] =
      List.replicate 2 (some (toDual 200)) := by
    refine sortedKeys_replicate fun r hr => ?_
    rcases List.mem_pair.mp hr with rfl | rfl <;> rfl
  refine hs 1 Nat.one_pos (by decide) ?_
  rw [hsorted]
  rfl

end Cadsa.RequestsPage
