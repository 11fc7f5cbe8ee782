import Stdb.Common

/-!
# The interface of `NBTreeExtentsList`

The column store keeps one `NBTreeExtentsList` per series.  `nbtree.h` is not among the
sources, so the column store is modelled over any tree type `T` with the operations it calls,
gathered in `NBTreeOps`.  Every result about the column store holds for every such interface.

The queries the store builds operators with (`scan`, `filter`, `aggregate` and the others) are
`NBTreeQueries`, over operator types left abstract.

`LogTree` is one interface, modelled from the spec (§4.2): a tree that records its appends in
order and refuses a timestamp below the last one unless duplicates are allowed, and whose
operators record the call that built them.  Only the concrete runs of the model use it.
-/

namespace Stdb

/-- A block address, `LogicAddr`. -/
abbrev LogicAddr := ℕ

/-- `NBTreeAppendResult`. -/
inductive NBTreeAppendResult
  | ok
  | okFlushNeeded
  | failBadValue
  | failBadId
deriving Repr, DecidableEq

/-- `NBTreeExtentsList::RepairStatus`. -/
inductive RepairStatus
  | ok
  | repair
  | skip
deriving Repr, DecidableEq

/-- The operations of `NBTreeExtentsList` the column store calls. -/
structure NBTreeOps (T : Type) where
  /-- The constructor `NBTreeExtentsList(id, rescue_points, blockstore)`. -/
  create : ParamId → List LogicAddr → T
  /-- The static `repair_status(rescue_points)`. -/
  repairStatus : List LogicAddr → RepairStatus
  /-- `force_init()`. -/
  forceInit : T → T
  /-- `is_initialized()`. -/
  isInitialized : T → Bool
  /-- `close()`: the final rescue points, and the tree afterwards. -/
  close : T → List LogicAddr × T
  /-- `append(ts, value, allow_duplicates)`; the two-argument `append(ts, value)` is this with
  `allow_duplicates = false`. -/
  append : T → Timestamp → Double → Bool → NBTreeAppendResult × T
  /-- `append(ts, data, size)`: an event body. -/
  appendBlob : T → Timestamp → List UInt8 → NBTreeAppendResult × T
  /-- `get_roots()`: the current rescue points. -/
  getRoots : T → List LogicAddr

/-- The query operations of `NBTreeExtentsList` the column store calls, over the operator types
`R` (`RealValuedOperator`), `B` (`BinaryDataOperator`) and `A` (`AggregateOperator`) and the
filter types `VF` (`ValueFilter`) and `AF` (`AggregateFilter`). -/
structure NBTreeQueries (T R B A VF AF : Type) where
  /-- `get_id()`. -/
  getId : T → ParamId
  /-- `search(begin, end)`. -/
  search : T → Timestamp → Timestamp → R
  /-- `search_binary(begin, end)`. -/
  searchBinary : T → Timestamp → Timestamp → B
  /-- `filter_binary(begin, end, expr)`. -/
  filterBinary : T → Timestamp → Timestamp → String → B
  /-- `filter(begin, end, filter)`. -/
  filter : T → Timestamp → Timestamp → VF → R
  /-- `aggregate(begin, end)`. -/
  aggregate : T → Timestamp → Timestamp → A
  /-- `group_aggregate(begin, end, step)`. -/
  groupAggregate : T → Timestamp → Timestamp → Timestamp → A
  /-- `group_aggregate_filter(begin, end, step, filter)`. -/
  groupAggregateFilter : T → Timestamp → Timestamp → Timestamp → AF → A
  /-- `ValueFilter::mask`. -/
  mask : VF → ℕ
  /-- `AggregateFilter::bitmap`. -/
  bitmap : AF → ℕ

/-- A value stored in a tree: a number or an event body. -/
inductive TreeValue
  | float (v : Double)
  | blob (b : List UInt8)
deriving Repr, DecidableEq

/-- Modelled from the spec: `NBTreeExtentsList` (§4.2), whose sources are not given.  The tree
records its id, its rescue points, whether it is initialised, and every accepted append. -/
structure LogTree where
  id : ParamId
  rescuePoints : List LogicAddr
  initialized : Bool
  entries : List (Timestamp × TreeValue)
deriving Repr, DecidableEq

namespace LogTree

/-- The last timestamp appended, `0` for an empty tree. -/
def lastTimestamp (t : LogTree) : Timestamp := (t.entries.getLast?.map (·.1)).getD 0

/-- Modelled from the spec: an append below the last timestamp fails with `FAIL_BAD_VALUE`
unless duplicates are allowed (recovery); every other append is recorded. -/
def appendValue (t : LogTree) (ts : Timestamp) (v : TreeValue) (allowDuplicates : Bool) :
    NBTreeAppendResult × LogTree :=
  if ts < t.lastTimestamp ∧ allowDuplicates = false then (.failBadValue, t)
  else (.ok, { t with entries := t.entries ++ [(ts, v)] })

/-- Modelled from the spec: the operations of `NBTreeExtentsList` on a `LogTree`.  Repair is
never needed and closing publishes the tree's rescue points. -/
def ops : NBTreeOps LogTree where
  create id rp := ⟨id, rp, false, []⟩
  repairStatus _ := .ok
  forceInit t := { t with initialized := true }
  isInitialized t := t.initialized
  close t := (t.rescuePoints, { t with initialized := false })
  append t ts v dup := t.appendValue ts (.float v) dup
  appendBlob t ts b := t.appendValue ts (.blob b) false
  getRoots t := t.rescuePoints

instance : Inhabited LogTree := ⟨⟨0, [], false, []⟩⟩

/-- Modelled from the spec: an operator over a `LogTree`, recorded as the call that built it and
the id of the tree it was built on. -/
inductive Query
  | search (id : ParamId) (tBegin tEnd : Timestamp)
  | searchBinary (id : ParamId) (tBegin tEnd : Timestamp)
  | filterBinary (id : ParamId) (tBegin tEnd : Timestamp) (expr : String)
  | filter (id : ParamId) (tBegin tEnd : Timestamp) (mask : ℕ)
  | aggregate (id : ParamId) (tBegin tEnd : Timestamp)
  | groupAggregate (id : ParamId) (tBegin tEnd step : Timestamp)
  | groupAggregateFilter (id : ParamId) (tBegin tEnd step : Timestamp) (bitmap : ℕ)
deriving Repr, DecidableEq

/-- Modelled from the spec: the queries of a `LogTree`, with a filter given by its mask or
bitmap. -/
def queries : NBTreeQueries LogTree Query Query Query ℕ ℕ where
  getId t := t.id
  search t b e := .search t.id b e
  searchBinary t b e := .searchBinary t.id b e
  filterBinary t b e expr := .filterBinary t.id b e expr
  filter t b e f := .filter t.id b e f
  aggregate t b e := .aggregate t.id b e
  groupAggregate t b e step := .groupAggregate t.id b e step
  groupAggregateFilter t b e step f := .groupAggregateFilter t.id b e step f
  mask f := f
  bitmap f := f

end LogTree

end Stdb
