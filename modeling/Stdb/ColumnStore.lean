import Stdb.NBTree
import Mathlib.Logic.Function.Basic

/-!
# `ColumnStore` and `CStoreSession`

`ColumnStore` (`column_store.cc`) owns the table `columns_` from series ids to trees and the
table `rescue_points_` of rescue points to publish.  Trees are shared objects (`shared_ptr`):
a session's cache holds the same object as `columns_`.  The model keeps the objects in a heap,
`trees`, indexed by allocation order, and the tables map ids to heap references, so that two
references to one tree are visibly the same reference.

The `unordered_map`s are association lists in their iteration order (`IdMap`): `open_or_restore`
and `close` iterate them, and what they do depends on that order.  Logging, the memory
statistics of `close()` and the mutex are left out: none changes the state.
-/

namespace Stdb

/-- An `unordered_map` keyed by series id, as its iteration order lists it. -/
abbrev IdMap (β : Type) := List (ParamId × β)

namespace IdMap

variable {β : Type}

/-- `map[k] = v`: overwrite the entry of `k`, or add one. -/
def assign (m : IdMap β) (k : ParamId) (v : β) : IdMap β :=
  if (m.lookup k).isSome then m.map fun p => if p.1 = k then (k, v) else p else m ++ [(k, v)]

/-- `map.insert({k, v})`: no effect when `k` is present. -/
def insert (m : IdMap β) (k : ParamId) (v : β) : IdMap β :=
  if (m.lookup k).isSome then m else m ++ [(k, v)]

theorem lookup_append_of_ne {m : IdMap β} {k k' : ParamId} {v : β} (h : k' ≠ k) :
    (m ++ [(k, v)]).lookup k' = m.lookup k' := by
  have : (k' == k) = false := by simpa using h
  simp [List.lookup_append, List.lookup_cons, this]

theorem lookup_append_of_eq_some {m l : IdMap β} {k : ParamId} {v : β} (h : m.lookup k = some v) :
    (m ++ l).lookup k = some v := by
  simp [List.lookup_append, h]

end IdMap

/-- The argument of `open_or_restore`: an `unordered_map<ParamId, vector<LogicAddr>>` in its
iteration order.  Its keys are distinct. -/
structure RescueMapping where
  entries : List (ParamId × List LogicAddr)
  nodup : (entries.map Prod.fst).Nodup

/-- The state of a `ColumnStore` over trees of type `T`. -/
structure ColumnStore (T : Type) where
  /-- The tree objects, by allocation order. -/
  trees : ℕ → T
  /-- The next allocation. -/
  next : ℕ
  /-- `columns_`: each series id with the reference of its tree. -/
  columns : IdMap ℕ
  /-- `rescue_points_`. -/
  rescuePoints : IdMap (List LogicAddr)

namespace ColumnStore

variable {T : Type} (ops : NBTreeOps T)

/-- The constructor: no columns. -/
def empty [Inhabited T] : ColumnStore T := ⟨fun _ => default, 0, [], []⟩

/-- Replace the tree at reference `r`. -/
def setTree (st : ColumnStore T) (r : ℕ) (t : T) : ColumnStore T :=
  { st with trees := Function.update st.trees r t }

/-- `columns_[id] = tree` for an id that is not a column: a fresh object is allocated. -/
def insertColumn (st : ColumnStore T) (id : ParamId) (t : T) : ColumnStore T :=
  { st with
    trees := Function.update st.trees st.next t, next := st.next + 1,
    columns := st.columns ++ [(id, st.next)] }

section Fields

variable (st : ColumnStore T) (r : ℕ) (t : T) (id : ParamId)

@[simp] theorem setTree_trees : (st.setTree r t).trees = Function.update st.trees r t := rfl
@[simp] theorem setTree_next : (st.setTree r t).next = st.next := rfl
@[simp] theorem setTree_columns : (st.setTree r t).columns = st.columns := rfl
@[simp] theorem setTree_rescuePoints : (st.setTree r t).rescuePoints = st.rescuePoints := rfl

@[simp] theorem insertColumn_trees :
    (st.insertColumn id t).trees = Function.update st.trees st.next t := rfl
@[simp] theorem insertColumn_next : (st.insertColumn id t).next = st.next + 1 := rfl
@[simp] theorem insertColumn_columns :
    (st.insertColumn id t).columns = st.columns ++ [(id, st.next)] := rfl
@[simp] theorem insertColumn_rescuePoints :
    (st.insertColumn id t).rescuePoints = st.rescuePoints := rfl

end Fields

/-! ### `open_or_restore` -/

/-- One entry of `open_or_restore` once the clash check passed: the tree built from the entry's
rescue points becomes the column; it is initialised when `force_init` is set or repair is
needed, and closed again (its rescue points recorded) unless `force_init` is set.  The flag
says whether the id needs recovery. -/
def restoreEntry (forceInit : Bool) (st : ColumnStore T) (id : ParamId)
    (rescuePoints : List LogicAddr) : ColumnStore T × Bool :=
  let status := ops.repairStatus rescuePoints
  let r := st.next
  let st := st.insertColumn id (ops.create id rescuePoints)
  if forceInit = true ∨ status = .repair then
    let st := st.setTree r (ops.forceInit (st.trees r))
    if forceInit = false then
      let (rplist, t) := ops.close (st.trees r)
      ({ st.setTree r t with rescuePoints := st.rescuePoints.assign id rplist },
        status = .repair)
    else (st, status = .repair)
  else (st, false)

/-- The loop of `open_or_restore` over the mapping, with the list `ids2recover` so far.  An id
that is already a column stops it with `BadArg`. -/
def openOrRestoreLoop (forceInit : Bool) :
    List (ParamId × List LogicAddr) → ColumnStore T → List ParamId →
      (Status × List ParamId) × ColumnStore T
  | [], st, ids2recover => ((.ok, ids2recover), st)
  | (id, rescuePoints) :: rest, st, ids2recover =>
    if (st.columns.lookup id).isSome then ((.badArg, []), st)
    else
      let (st', needsRecovery) := restoreEntry ops forceInit st id rescuePoints
      openOrRestoreLoop forceInit rest st'
        (if needsRecovery then ids2recover ++ [id] else ids2recover)

/-- `open_or_restore(mapping, force_init)`. -/
def openOrRestore (st : ColumnStore T) (mapping : RescueMapping) (forceInit : Bool) :
    (Status × List ParamId) × ColumnStore T :=
  openOrRestoreLoop ops forceInit mapping.entries st []

/-! What `open_or_restore` does to one entry and to a run of fresh entries, stated without the
loop: the tree each entry leaves behind, the rescue points it records, and the ids to recover. -/

/-- The tree `open_or_restore` leaves for an entry: built from the entry's own rescue points,
force-initialised when `force_init` is set or repair is needed, and closed again unless
`force_init` is set. -/
def openedTree (forceInit : Bool) (id : ParamId) (rescuePoints : List LogicAddr) : T :=
  let t := ops.create id rescuePoints
  if forceInit = true ∨ ops.repairStatus rescuePoints = .repair then
    if forceInit = false then (ops.close (ops.forceInit t)).2 else ops.forceInit t
  else t

/-- `rescue_points_` after an entry: a tree repaired without `force_init` is closed, and its
rescue points are recorded. -/
def recordRescuePoints (forceInit : Bool) (m : IdMap (List LogicAddr))
    (entry : ParamId × List LogicAddr) : IdMap (List LogicAddr) :=
  if forceInit = false ∧ ops.repairStatus entry.2 = .repair then
    m.assign entry.1 (ops.close (ops.forceInit (ops.create entry.1 entry.2))).1
  else m

/-- The ids of the entries whose rescue points need repair, in order. -/
def repairIds (entries : List (ParamId × List LogicAddr)) : List ParamId :=
  (entries.filter fun e => ops.repairStatus e.2 = .repair).map Prod.fst

/-- The entries of the mapping, in iteration order, before the first id that is already a
column of `st`. -/
def freshEntries (st : ColumnStore T) (mapping : RescueMapping) : List (ParamId × List LogicAddr) :=
  mapping.entries.takeWhile fun e => st.columns.lookup e.1 = none

/-- The store after restoring a run of entries one after the other. -/
def restoreAll (forceInit : Bool) (entries : List (ParamId × List LogicAddr))
    (st : ColumnStore T) : ColumnStore T :=
  entries.foldl (fun st e => (restoreEntry ops forceInit st e.1 e.2).1) st

section Restore

variable {ops} (forceInit : Bool)

theorem restoreEntry_eq (st : ColumnStore T) (id : ParamId) (rp : List LogicAddr) :
    restoreEntry ops forceInit st id rp =
      ({ st.insertColumn id (openedTree ops forceInit id rp) with
          rescuePoints := recordRescuePoints ops forceInit st.rescuePoints (id, rp) },
        decide (ops.repairStatus rp = .repair)) := by
  unfold restoreEntry openedTree recordRescuePoints
  cases forceInit <;> cases ops.repairStatus rp <;> simp [setTree, insertColumn]

@[simp] theorem restoreAll_nil (st : ColumnStore T) : restoreAll ops forceInit [] st = st := rfl

theorem restoreAll_cons (st : ColumnStore T) (e : ParamId × List LogicAddr) (es) :
    restoreAll ops forceInit (e :: es) st =
      restoreAll ops forceInit es (restoreEntry ops forceInit st e.1 e.2).1 := rfl

theorem restoreAll_columns (es : List (ParamId × List LogicAddr)) (st : ColumnStore T) :
    (restoreAll ops forceInit es st).columns =
      st.columns ++ (es.map Prod.fst).zip (List.range' st.next es.length) := by
  induction es generalizing st with
  | nil => simp
  | cons e es ih => simp [restoreAll_cons, ih, restoreEntry_eq, List.range'_succ]

theorem restoreAll_next (es : List (ParamId × List LogicAddr)) (st : ColumnStore T) :
    (restoreAll ops forceInit es st).next = st.next + es.length := by
  induction es generalizing st with
  | nil => rfl
  | cons e es ih => simp [restoreAll_cons, ih, restoreEntry_eq]; omega

/-- The trees allocated before the run are left alone. -/
theorem restoreAll_trees_of_lt (es : List (ParamId × List LogicAddr)) (st : ColumnStore T)
    {r : ℕ} (hr : r < st.next) : (restoreAll ops forceInit es st).trees r = st.trees r := by
  induction es generalizing st with
  | nil => rfl
  | cons e es ih =>
    rw [restoreAll_cons, ih _ (by simp [restoreEntry_eq]; omega)]
    simp [restoreEntry_eq, Function.update_noteq hr.ne]

/-- The `i`-th entry of the run gets the `i`-th fresh reference, holding its opened tree. -/
theorem restoreAll_trees_fresh (es : List (ParamId × List LogicAddr)) (st : ColumnStore T)
    (i : ℕ) (h : i < es.length) :
    (restoreAll ops forceInit es st).trees (st.next + i) = openedTree ops forceInit es[i].1 es[i].2 := by
  induction es generalizing st i with
  | nil => simp at h
  | cons e es ih =>
    rw [restoreAll_cons]
    cases i with
    | zero =>
      rw [restoreAll_trees_of_lt _ _ _ (by simp [restoreEntry_eq])]
      simp [restoreEntry_eq]
    | succ i =>
      rw [show st.next + (i + 1) = (restoreEntry ops forceInit st e.1 e.2).1.next + i by
        simp [restoreEntry_eq]; omega]
      simpa using ih _ i (by simpa using h)

theorem restoreAll_rescuePoints (es : List (ParamId × List LogicAddr)) (st : ColumnStore T) :
    (restoreAll ops forceInit es st).rescuePoints =
      es.foldl (recordRescuePoints ops forceInit) st.rescuePoints := by
  induction es generalizing st with
  | nil => rfl
  | cons e es ih => simp [restoreAll_cons, ih, restoreEntry_eq]

/-- The loop restores the entries up to the first one whose id is already a column (as the
store `st₀` it started from has them), and reports them all, or fails with `BadArg` and an empty
list.  The ids of the mapping are distinct, so an entry never clashes with one restored before
it. -/
theorem openOrRestoreLoop_eq (st₀ : ColumnStore T) (es : List (ParamId × List LogicAddr))
    (st : ColumnStore T) (ids : List ParamId) (hnodup : (es.map Prod.fst).Nodup)
    (hsame : ∀ e ∈ es, st.columns.lookup e.1 = st₀.columns.lookup e.1) :
    openOrRestoreLoop ops forceInit es st ids =
      (if ∀ e ∈ es, st₀.columns.lookup e.1 = none
        then (.ok, ids ++ repairIds ops es) else (.badArg, []),
       restoreAll ops forceInit (es.takeWhile fun e => st₀.columns.lookup e.1 = none) st) := by
  induction es generalizing st ids with
  | nil => simp [openOrRestoreLoop, repairIds]
  | cons e es ih =>
    obtain ⟨id, rp⟩ := e
    simp only [List.map_cons, List.nodup_cons, List.mem_map] at hnodup
    have hid := hsame (id, rp) (List.mem_cons_self _ _)
    cases hfresh : st₀.columns.lookup id with
    | some r => simp [openOrRestoreLoop, hid, hfresh, -List.lookup_eq_none_iff]
    | none =>
      have hrest : ∀ e ∈ es, (restoreEntry ops forceInit st id rp).1.columns.lookup e.1 =
          st₀.columns.lookup e.1 := fun e he => by
        rw [restoreEntry_eq, insertColumn_columns,
          IdMap.lookup_append_of_ne fun h => hnodup.1 ⟨e, he, h⟩]
        exact hsame e (List.mem_cons_of_mem _ he)
      simp only [openOrRestoreLoop, hid, hfresh, Option.isSome_none, Bool.false_eq_true,
        if_false]
      rw [ih _ _ hnodup.2 hrest]
      simp only [List.forall_mem_cons, hfresh, true_and]
      by_cases hr : ops.repairStatus rp = .repair <;>
        simp [restoreEntry_eq, hfresh, repairIds, List.filter_cons, hr, restoreAll_cons]

end Restore

/-- `open_or_restore` restores the entries of the mapping, in the map's iteration order, up to
the first id that is already a column.  With no such id it returns `Ok` and the ids whose rescue
points need repair; otherwise `BadArg` and an empty list, and the entries before the clash stay
restored.  Either way `columns_` keeps its bindings and gains the restored ids, bound to fresh
trees opened from their own rescue points, and `rescue_points_` records the trees closed after
repair. -/
theorem openOrRestore_outcome (st : ColumnStore T) (mapping : RescueMapping) (forceInit : Bool) :
    (st.openOrRestore ops mapping forceInit).1 =
      (if ∀ e ∈ mapping.entries, st.columns.lookup e.1 = none
        then (.ok, repairIds ops mapping.entries) else (.badArg, [])) ∧
    ((∀ e ∈ mapping.entries, st.columns.lookup e.1 = none) →
      st.freshEntries mapping = mapping.entries) ∧
    (st.openOrRestore ops mapping forceInit).2.columns = st.columns ++
      ((st.freshEntries mapping).map Prod.fst).zip
        (List.range' st.next (st.freshEntries mapping).length) ∧
    (∀ i (h : i < (st.freshEntries mapping).length),
      (st.openOrRestore ops mapping forceInit).2.trees (st.next + i) =
        openedTree ops forceInit (st.freshEntries mapping)[i].1 (st.freshEntries mapping)[i].2) ∧
    (∀ r < st.next, (st.openOrRestore ops mapping forceInit).2.trees r = st.trees r) ∧
    (st.openOrRestore ops mapping forceInit).2.next = st.next + (st.freshEntries mapping).length ∧
    (st.openOrRestore ops mapping forceInit).2.rescuePoints =
      (st.freshEntries mapping).foldl (recordRescuePoints ops forceInit) st.rescuePoints := by
  rw [openOrRestore, openOrRestoreLoop_eq forceInit st mapping.entries st [] mapping.nodup
    fun _ _ => rfl]
  exact ⟨by simp, fun h => List.takeWhile_eq_self_iff.mpr (by simpa using h),
    restoreAll_columns .., restoreAll_trees_fresh _ _ _, fun _ => restoreAll_trees_of_lt _ _ _,
    restoreAll_next .., restoreAll_rescuePoints ..⟩

/-- A clash does not leave `columns_` as it was when a fresh id comes first in the mapping's
iteration order: a store holding column `5`, given the mapping `[(1, []), (5, [])]`, returns
`BadArg` with column `1` added. -/
theorem openOrRestore_clash_after_fresh_id :
    ¬ ∀ (st : ColumnStore LogTree) (mapping : RescueMapping) (forceInit : Bool),
      (∃ e ∈ mapping.entries, (st.columns.lookup e.1).isSome) →
        (st.openOrRestore LogTree.ops mapping forceInit).1.1 = .badArg ∧
        (st.openOrRestore LogTree.ops mapping forceInit).2.columns = st.columns ∧
        (st.openOrRestore LogTree.ops mapping forceInit).2.rescuePoints = st.rescuePoints := by
  intro h
  have hclash := h (empty.insertColumn 5 (LogTree.ops.create 5 [])) ⟨[(1, []), (5, [])], by decide⟩
    false ⟨(5, []), by simp, by simp [empty]⟩
  rw [openOrRestore, openOrRestoreLoop_eq false _ _ _ [] (by decide) fun _ _ => rfl,
    restoreAll_columns] at hclash
  simp [empty] at hclash

/-! ### Columns: creation and closing -/

/-- `create_new_column(id)`. -/
def createNewColumn (st : ColumnStore T) (id : ParamId) : Status × ColumnStore T :=
  if (st.columns.lookup id).isSome then (.badArg, st)
  else
    let r := st.next
    let st := st.insertColumn id (ops.create id [])
    (.ok, st.setTree r (ops.forceInit (st.trees r)))

/-- One column of `close()` and `close(ids)`: an initialised tree is closed and its rescue
points go to the result. -/
def closeColumn (acc : IdMap (List LogicAddr) × ColumnStore T) (column : ParamId × ℕ) :
    IdMap (List LogicAddr) × ColumnStore T :=
  if ops.isInitialized (acc.2.trees column.2) then
    let (addrlist, t) := ops.close (acc.2.trees column.2)
    (acc.1.assign column.1 addrlist, acc.2.setTree column.2 t)
  else acc

/-- `close()`: every column, in the iteration order of `columns_`. -/
def close (st : ColumnStore T) : IdMap (List LogicAddr) × ColumnStore T :=
  st.columns.foldl (closeColumn ops) ([], st)

/-- One id of `close(ids)`: an id that is not a column is skipped. -/
def closeId (acc : IdMap (List LogicAddr) × ColumnStore T) (id : ParamId) :
    IdMap (List LogicAddr) × ColumnStore T :=
  match acc.2.columns.lookup id with
  | some r => closeColumn ops acc (id, r)
  | none => acc

/-- `close(ids)`. -/
def closeIds (st : ColumnStore T) (ids : List ParamId) : IdMap (List LogicAddr) × ColumnStore T :=
  ids.foldl (closeId ops) ([], st)

theorem createNewColumn_columns (st : ColumnStore T) (id : ParamId) :
    (st.createNewColumn ops id).2.columns =
      if (st.columns.lookup id).isSome then st.columns else st.columns ++ [(id, st.next)] := by
  unfold createNewColumn; split <;> rfl

/-- A fold whose step leaves `columns_` alone leaves it alone. -/
theorem foldl_columns {α : Type}
    (f : IdMap (List LogicAddr) × ColumnStore T → α → IdMap (List LogicAddr) × ColumnStore T)
    (hf : ∀ acc a, (f acc a).2.columns = acc.2.columns) (l : List α)
    (acc : IdMap (List LogicAddr) × ColumnStore T) :
    (l.foldl f acc).2.columns = acc.2.columns := by
  induction l generalizing acc with
  | nil => rfl
  | cons a l ih => rw [List.foldl_cons, ih, hf]

theorem closeColumn_columns (acc : IdMap (List LogicAddr) × ColumnStore T) (c : ParamId × ℕ) :
    (closeColumn ops acc c).2.columns = acc.2.columns := by
  unfold closeColumn; split <;> rfl

theorem close_columns (st : ColumnStore T) : (st.close ops).2.columns = st.columns :=
  foldl_columns _ (closeColumn_columns ops) _ _

theorem closeIds_columns (st : ColumnStore T) (ids : List ParamId) :
    (st.closeIds ops ids).2.columns = st.columns :=
  foldl_columns _ (fun acc id => by unfold closeId; split <;> simp [closeColumn_columns]) _ _

/-! ### Writes -/

/-- `sample.payload.size - sizeof(Sample)`, computed in `size_t` and stored in a `u32`. -/
def eventSize (sizeofSample : ℕ) (p : Payload) : ℕ := u32 (p.size + 2 ^ 64 - sizeofSample)

/-- The payload dispatch of `ColumnStore::write` and of the cached path of
`CStoreSession::write`: a float goes to `append(ts, value)`, an event body to
`append(ts, data, size)`; any other payload is not appended and the result stays `OK`. -/
def appendSample (sizeofSample : ℕ) (t : T) (sample : Sample) : NBTreeAppendResult × T :=
  match sample.payload.type with
  | .float => ops.append t sample.timestamp sample.payload.float64 false
  | .event =>
    ops.appendBlob t sample.timestamp
      (sample.payload.data.take (eventSize sizeofSample sample.payload))
  | .other _ => (.ok, t)

/-- The `rescue_points` output: the new roots when a block was flushed, otherwise untouched. -/
def flushed (res : NBTreeAppendResult) (t : T) : Option (List LogicAddr) :=
  if res = .okFlushNeeded then some (ops.getRoots t) else none

/-- `ColumnStore::write(sample, rescue_points, cache_or_null)`: the result, the rescue-point
output, the store, and the cache with the tree added (`none` for a null cache). -/
def write (sizeofSample : ℕ) (st : ColumnStore T) (sample : Sample) (cache : Option (IdMap ℕ)) :
    NBTreeAppendResult × Option (List LogicAddr) × ColumnStore T × Option (IdMap ℕ) :=
  match st.columns.lookup sample.paramid with
  | some r =>
    let (res, t) := appendSample ops sizeofSample (st.trees r) sample
    (res, flushed ops res t, st.setTree r t, cache.map (·.insert sample.paramid r))
  | none => (.failBadId, none, st, cache)

theorem write_columns (sizeofSample : ℕ) (st : ColumnStore T) (sample : Sample)
    (cache : Option (IdMap ℕ)) : (st.write ops sizeofSample sample cache).2.2.1.columns = st.columns := by
  unfold write; split <;> rfl

/-- `ColumnStore::recovery_write(sample, allow_duplicates)`. -/
def recoveryWrite (st : ColumnStore T) (sample : Sample) (allowDuplicates : Bool) :
    NBTreeAppendResult × ColumnStore T :=
  match st.columns.lookup sample.paramid with
  | some r =>
    let (res, t) := ops.append (st.trees r) sample.timestamp sample.payload.float64 allowDuplicates
    (res, st.setTree r t)
  | none => (.failBadId, st)

theorem recoveryWrite_columns (st : ColumnStore T) (sample : Sample) (allowDuplicates : Bool) :
    (st.recoveryWrite ops sample allowDuplicates).2.columns = st.columns := by
  unfold recoveryWrite; split <;> rfl

/-- On a float sample, `recovery_write` without duplicates does what `write` does, result and
store: the two paths differ only in the payload dispatch that `recovery_write` omits. -/
theorem recoveryWrite_eq_write_of_float (sizeofSample : ℕ) (st : ColumnStore T) (sample : Sample)
    (h : sample.payload.type = .float) :
    st.recoveryWrite ops sample false =
      ((st.write ops sizeofSample sample none).1, (st.write ops sizeofSample sample none).2.2.1) := by
  unfold recoveryWrite write appendSample
  rw [h]
  cases st.columns.lookup sample.paramid <;> rfl

/-- A store with column `9`, to replay into. -/
def recoveredStore : ColumnStore LogTree := (empty.createNewColumn LogTree.ops 9).2

/-- An event for column `9` at time `100` with the three-byte body `[1, 2, 3]`. -/
def eventSample : Sample := ⟨9, 100, ⟨.event, 43, .indeterminate, [1, 2, 3]⟩⟩

/-- An event replayed by `recovery_write` is stored as the `float64` field of its payload, where
`write` stores the event body. -/
theorem recoveryWrite_stores_event_as_float :
    (recoveredStore.recoveryWrite LogTree.ops eventSample false).1 = .ok ∧
    ((recoveredStore.recoveryWrite LogTree.ops eventSample false).2.trees 0).entries =
      [(100, .float .indeterminate)] ∧
    (recoveredStore.write LogTree.ops 40 eventSample none).1 = .ok ∧
    ((recoveredStore.write LogTree.ops 40 eventSample none).2.2.1.trees 0).entries =
      [(100, .blob [1, 2, 3])] := by
  decide

end ColumnStore

/-- The cache lookup of `CStoreSession::write` for a float or an event: a hit appends to the
cached tree, a miss goes through `ColumnStore::write` with the cache.  The two branches of the
source differ only in the `append` they call, which `appendSample` chooses. -/
def CStoreSession.writeThroughCache {T : Type} (ops : NBTreeOps T) (sizeofSample : ℕ)
    (st : ColumnStore T) (cache : IdMap ℕ) (sample : Sample) :
    NBTreeAppendResult × Option (List LogicAddr) × ColumnStore T × IdMap ℕ :=
  match cache.lookup sample.paramid with
  | some r =>
    let (res, t) := ColumnStore.appendSample ops sizeofSample (st.trees r) sample
    (res, ColumnStore.flushed ops res t, st.setTree r t, cache)
  | none =>
    let (res, out, st', cache') := st.write ops sizeofSample sample (some cache)
    (res, out, st', cache'.getD cache)

/-- `CStoreSession::write(sample, rescue_points)` of a session whose tree cache is `cache`: the
result, the rescue-point output, the store and the cache. -/
def CStoreSession.write {T : Type} (ops : NBTreeOps T) (sizeofSample : ℕ) (st : ColumnStore T)
    (cache : IdMap ℕ) (sample : Sample) :
    NBTreeAppendResult × Option (List LogicAddr) × ColumnStore T × IdMap ℕ :=
  match sample.payload.type with
  | .other _ => (.failBadValue, none, st, cache)
  | _ => CStoreSession.writeThroughCache ops sizeofSample st cache sample

end Stdb
