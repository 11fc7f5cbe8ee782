import Stdb.ColumnStoreSession

/-!
# The queries of `ColumnStore`

`scan`, `scan_events`, `filter_events`, `filter`, `aggregate`, `group_aggregate` and
`group_aggfilter` (`column_store.h`) all run `iterate(ids, dest, fn)`: each listed id is looked
up in `columns_`, its tree is initialised if it is not, and `fn` builds an operator from it,
which is appended to `dest`.  The first id that is not a column stops the loop with `NotFound`,
and the first failure of `fn` with its status.  Only `filter` and `group_aggfilter` can fail in
`fn`: they look the tree's `get_id()` up in their filter map.

* `iterate_of_forall_ok` and `iterate_of_first_failure`: what `iterate` returns when every id
  passes, and when a given id is the first that does not (`verdict`);
* `plainOutcome_iterate`: a query whose operator cannot fail returns `Ok` exactly when every
  listed id is a column, and then appends one operator per id, built from its tree in the given
  store, initialised, and returns that store with the listed trees initialised
  (`readyIds_treeOf`);
* `filterOutcome_iterate`: when every tree reports its key as `get_id()` (`IdsMatch`),
  `filter` and `group_aggfilter` return `BadArg` exactly when the first listed id that is not a
  column or has no filter is a column;
* `QueryReachable.idsMatch`: every store reachable by the store's operations, session writes and
  queries, in any order, keeps `IdsMatch`.

`nbtree.h` is not among the sources; what the store relies on of the tree class is gathered in
`LawfulTree`.
-/

namespace Stdb

/-- A tree interface with what the column store relies on: a tree reports the id it was created
with, whatever the store does to it, and `force_init` initialises it. -/
structure LawfulTree (T R B A VF AF : Type) where
  ops : NBTreeOps T
  q : NBTreeQueries T R B A VF AF
  getId_create : ∀ id rp, q.getId (ops.create id rp) = id
  getId_forceInit : ∀ t, q.getId (ops.forceInit t) = q.getId t
  getId_close : ∀ t, q.getId (ops.close t).2 = q.getId t
  getId_append : ∀ t ts v dup, q.getId (ops.append t ts v dup).2 = q.getId t
  getId_appendBlob : ∀ t ts b, q.getId (ops.appendBlob t ts b).2 = q.getId t
  isInitialized_forceInit : ∀ t, ops.isInitialized (ops.forceInit t) = true

/-- Modelled from the spec: `LogTree` keeps the id it was created with, and `force_init` sets its
flag. -/
def LogTree.lawful : LawfulTree LogTree LogTree.Query LogTree.Query LogTree.Query ℕ ℕ where
  ops := LogTree.ops
  q := LogTree.queries
  getId_create _ _ := rfl
  getId_forceInit _ := rfl
  getId_close _ := rfl
  getId_append t ts v dup := by
    show (t.appendValue ts (.float v) dup).2.id = t.id
    unfold LogTree.appendValue; split <;> rfl
  getId_appendBlob t ts b := by
    show (t.appendValue ts (.blob b) false).2.id = t.id
    unfold LogTree.appendValue; split <;> rfl
  isInitialized_forceInit _ := rfl

namespace ColumnStore

variable {T : Type} (ops : NBTreeOps T)

/-- The tree `columns_` binds `id` to. -/
def treeOf (st : ColumnStore T) (id : ParamId) : Option T := (st.columns.lookup id).map st.trees

/-- `if (!it->second->is_initialized()) it->second->force_init();` on the tree at `r`. -/
def ready (st : ColumnStore T) (r : ℕ) : ColumnStore T :=
  if ops.isInitialized (st.trees r) then st else st.setTree r (ops.forceInit (st.trees r))

/-- `iterate(ids, dest, fn)`: the status, `dest` with the operators appended, and the store.
An operator is a `unique_ptr`, `none` when null. -/
def iterate {I : Type} (fn : T → Status × Option I) :
    List ParamId → List (Option I) → ColumnStore T → Status × List (Option I) × ColumnStore T
  | [], dest, st => (.ok, dest, st)
  | id :: ids, dest, st =>
    match st.columns.lookup id with
    | some r =>
      let st := ready ops st r
      let res := fn (st.trees r)
      if res.1 = .ok then iterate fn ids (dest ++ [res.2]) st else (res.1, dest, st)
    | none => (.notFound, dest, st)

/-! ### The queries -/

/-- The lambda of a query that cannot fail: `Ok` and the operator `build` makes of the tree. -/
def okOperator {I : Type} (build : T → I) (t : T) : Status × Option I := (.ok, some (build t))

/-- The lambda of `filter` and `group_aggfilter`: the entry of `filters` for the tree's
`get_id()`, used when its `key` (`mask`, `bitmap`) is not zero; `BadArg` and no operator when
there is no entry. -/
def filtered {I F : Type} (getId : T → ParamId) (filters : IdMap F) (key : F → ℕ)
    (withFilter : T → F → I) (plain : T → I) (t : T) : Status × Option I :=
  match filters.lookup (getId t) with
  | some f => if key f ≠ 0 then (.ok, some (withFilter t f)) else (.ok, some (plain t))
  | none => (.badArg, none)

section Queries

variable {R B A VF AF : Type} (q : NBTreeQueries T R B A VF AF) (st : ColumnStore T)
  (ids : List ParamId) (tBegin tEnd : Timestamp)

/-- `scan(ids, begin, end, dest)`. -/
def scan (dest : List (Option R)) : Status × List (Option R) × ColumnStore T :=
  iterate ops (okOperator fun t => q.search t tBegin tEnd) ids dest st

/-- `scan_events(ids, begin, end, dest)`. -/
def scanEvents (dest : List (Option B)) : Status × List (Option B) × ColumnStore T :=
  iterate ops (okOperator fun t => q.searchBinary t tBegin tEnd) ids dest st

/-- `filter_events(ids, begin, end, expr, dest)`. -/
def filterEvents (expr : String) (dest : List (Option B)) :
    Status × List (Option B) × ColumnStore T :=
  iterate ops (okOperator fun t => q.filterBinary t tBegin tEnd expr) ids dest st

/-- `filter(ids, begin, end, filters, dest)`. -/
def filter (filters : IdMap VF) (dest : List (Option R)) : Status × List (Option R) × ColumnStore T :=
  iterate ops (filtered q.getId filters q.mask (fun t f => q.filter t tBegin tEnd f)
    fun t => q.search t tBegin tEnd) ids dest st

/-- `aggregate(ids, begin, end, dest)`. -/
def aggregate (dest : List (Option A)) : Status × List (Option A) × ColumnStore T :=
  iterate ops (okOperator fun t => q.aggregate t tBegin tEnd) ids dest st

/-- `group_aggregate(ids, begin, end, step, dest)`. -/
def groupAggregate (step : Timestamp) (dest : List (Option A)) :
    Status × List (Option A) × ColumnStore T :=
  iterate ops (okOperator fun t => q.groupAggregate t tBegin tEnd step) ids dest st

/-- `group_aggfilter(ids, begin, end, step, filters, dest)`. -/
def groupAggfilter (step : Timestamp) (filters : IdMap AF) (dest : List (Option A)) :
    Status × List (Option A) × ColumnStore T :=
  iterate ops (filtered q.getId filters q.bitmap (fun t f => q.groupAggregateFilter t tBegin tEnd step f)
    fun t => q.groupAggregate t tBegin tEnd step) ids dest st

end Queries

/-! ### Initialising the trees -/

/-- `iterate`'s visit of `id` before `fn` runs: the tree of a column is initialised. -/
def readyId (st : ColumnStore T) (id : ParamId) : ColumnStore T :=
  match st.columns.lookup id with
  | some r => ready ops st r
  | none => st

/-- A tree as `fn` sees it: initialised if it was not. -/
def initialised (t : T) : T := if ops.isInitialized t then t else ops.forceInit t

section Ready

variable {ops} {st : ColumnStore T}

@[simp] theorem ready_columns (r : ℕ) : (ready ops st r).columns = st.columns := by
  unfold ready; split <;> rfl

@[simp] theorem ready_next (r : ℕ) : (ready ops st r).next = st.next := by
  unfold ready; split <;> rfl

/-- `ready` leaves a tree as it was or initialises it. -/
theorem ready_trees (ops : NBTreeOps T) (st : ColumnStore T) (r r' : ℕ) :
    (ready ops st r).trees r' = st.trees r' ∨ (ready ops st r).trees r' = ops.forceInit (st.trees r') := by
  unfold ready
  split
  · exact .inl rfl
  · rcases eq_or_ne r' r with rfl | h
    · exact .inr (Function.update_same _ _ _)
    · exact .inl (Function.update_noteq h _ _)

theorem isInitialized_ready (hinit : ∀ t, ops.isInitialized (ops.forceInit t) = true) (r : ℕ) :
    ops.isInitialized ((ready ops st r).trees r) = true := by
  unfold ready
  split
  · assumption
  · simp only [setTree_trees, Function.update_same, hinit]

/-- An initialised tree stays as it is. -/
theorem ready_trees_of_isInitialized {r : ℕ} (h : ops.isInitialized (st.trees r) = true) (r' : ℕ) :
    (ready ops st r').trees r = st.trees r := by
  rcases ready_trees ops st r' r with h' | h'
  · exact h'
  · unfold ready at h' ⊢
    split
    · rfl
    · rename_i hr'
      rcases eq_or_ne r r' with rfl | hne
      · exact absurd h hr'
      · exact Function.update_noteq hne _ _

@[simp] theorem readyId_columns (id : ParamId) : (readyId ops st id).columns = st.columns := by
  unfold readyId; split <;> simp

theorem readyIds_columns (ids : List ParamId) : (ids.foldl (readyId ops) st).columns = st.columns := by
  induction ids generalizing st with
  | nil => rfl
  | cons id ids ih => rw [List.foldl_cons, ih, readyId_columns]

theorem readyIds_trees_of_isInitialized {r : ℕ} (h : ops.isInitialized (st.trees r) = true)
    (ids : List ParamId) : (ids.foldl (readyId ops) st).trees r = st.trees r := by
  induction ids generalizing st with
  | nil => rfl
  | cons id ids ih =>
    have hr : (readyId ops st id).trees r = st.trees r := by
      unfold readyId; split
      · exact ready_trees_of_isInitialized h _
      · rfl
    rw [List.foldl_cons, ih (hr ▸ h), hr]

theorem initialised_of_isInitialized {t : T} (h : ops.isInitialized t = true) : initialised ops t = t :=
  if_pos h

theorem ready_trees_self (r : ℕ) : (ready ops st r).trees r = initialised ops (st.trees r) := by
  unfold ready initialised
  split <;> simp [*]

section Init

variable (hinit : ∀ t, ops.isInitialized (ops.forceInit t) = true)
include hinit

theorem initialised_initialised (t : T) : initialised ops (initialised ops t) = initialised ops t := by
  unfold initialised
  split <;> simp [*]

/-- Visiting a column changes no tree as `fn` would see it. -/
theorem initialised_ready (r r' : ℕ) :
    initialised ops ((ready ops st r).trees r') = initialised ops (st.trees r') := by
  rcases eq_or_ne r' r with rfl | hne
  · rw [ready_trees_self, initialised_initialised hinit]
  · unfold ready; split
    · rfl
    · rw [setTree_trees, Function.update_noteq hne]

theorem initialised_readyIds (ids : List ParamId) (r : ℕ) :
    initialised ops ((ids.foldl (readyId ops) st).trees r) = initialised ops (st.trees r) := by
  induction ids generalizing st with
  | nil => rfl
  | cons id ids ih =>
    rw [List.foldl_cons, ih]
    unfold readyId; split
    · exact initialised_ready hinit _ _
    · rfl

/-- The tree of a listed column is initialised once the ids are visited. -/
theorem isInitialized_readyIds {ids : List ParamId} {id : ParamId} (hid : id ∈ ids) {r : ℕ}
    (hr : st.columns.lookup id = some r) :
    ops.isInitialized ((ids.foldl (readyId ops) st).trees r) = true := by
  induction ids generalizing st with
  | nil => cases hid
  | cons x ids ih =>
    rw [List.foldl_cons]
    rcases List.mem_cons.1 hid with rfl | hmem
    · have hx : readyId ops st id = ready ops st r := by simp only [readyId, hr]
      rw [hx, readyIds_trees_of_isInitialized (isInitialized_ready hinit r)]
      exact isInitialized_ready hinit r
    · exact ih hmem (by rwa [readyId_columns])

/-- After the visit, a listed id names its tree from before, initialised. -/
theorem readyIds_treeOf {ids : List ParamId} {id : ParamId} (hid : id ∈ ids) :
    (ids.foldl (readyId ops) st).treeOf id = (st.treeOf id).map (initialised ops) := by
  unfold treeOf
  rw [readyIds_columns]
  cases hr : st.columns.lookup id with
  | none => rfl
  | some r =>
    simp only [Option.map_some']
    rw [← initialised_readyIds hinit ids r,
      initialised_of_isInitialized (isInitialized_readyIds hinit hid hr)]

end Init

end Ready

/-! ### `iterate` -/

/-- What `iterate` makes of `id`: `NotFound` when it is not a column, otherwise the status `fn`
returns on its tree. -/
def verdict {I : Type} (fn : T → Status × Option I) (st : ColumnStore T) (id : ParamId) : Status :=
  match st.treeOf id with
  | some t => (fn t).1
  | none => .notFound

section Iterate

variable {ops} {I : Type} {fn : T → Status × Option I}
  (hinit : ∀ t, ops.isInitialized (ops.forceInit t) = true) (hst : ∀ t, (fn (ops.forceInit t)).1 = (fn t).1)
include hst

omit hst in
theorem verdict_of_lookup {st : ColumnStore T} {id : ParamId} {r : ℕ} (h : st.columns.lookup id = some r) :
    verdict fn st id = (fn (st.trees r)).1 := by
  simp only [verdict, treeOf, h, Option.map_some']

/-- Initialising trees changes no verdict. -/
theorem verdict_ready (st : ColumnStore T) (r : ℕ) (id : ParamId) :
    verdict fn (ready ops st r) id = verdict fn st id := by
  cases h : st.columns.lookup id with
  | none => simp only [verdict, treeOf, ready_columns, h, Option.map_none']
  | some r' =>
    rw [verdict_of_lookup (by rwa [ready_columns]), verdict_of_lookup h]
    rcases ready_trees ops st r r' with h' | h' <;> rw [h']
    exact hst _

theorem verdict_readyIds (st : ColumnStore T) (ids : List ParamId) (id : ParamId) :
    verdict fn (ids.foldl (readyId ops) st) id = verdict fn st id := by
  induction ids generalizing st with
  | nil => rfl
  | cons id' ids ih =>
    rw [List.foldl_cons, ih]
    unfold readyId; split
    · exact verdict_ready hst _ _ _
    · rfl

include hinit in
/-- Ids that all pass are each visited: their operators, built from their trees, are appended in
order, and the loop goes on with the rest. -/
theorem iterate_append {pre : List ParamId} {st : ColumnStore T}
    (hpre : ∀ id ∈ pre, verdict fn st id = .ok) (rest : List ParamId) (dest : List (Option I)) :
    iterate ops fn (pre ++ rest) dest st =
      iterate ops fn rest (dest ++ pre.map fun id => ((pre.foldl (readyId ops) st).treeOf id).bind
        fun t => (fn t).2) (pre.foldl (readyId ops) st) := by
  induction pre generalizing st dest with
  | nil => simp
  | cons id pre ih =>
    have hid := hpre id (List.mem_cons_self _ _)
    cases hr : st.columns.lookup id with
    | none => simp only [verdict, treeOf, hr, Option.map_none'] at hid; cases hid
    | some r =>
      rw [verdict_of_lookup hr] at hid
      have hok : (fn ((ready ops st r).trees r)).1 = .ok := by
        rcases ready_trees ops st r r with h | h <;> rw [h]
        · exact hid
        · rw [hst, hid]
      have hpre' : ∀ x ∈ pre, verdict fn (ready ops st r) x = .ok := fun x hx => by
        rw [verdict_ready hst]; exact hpre x (List.mem_cons_of_mem _ hx)
      -- the tree of `id` is initialised now, and later visits leave it alone
      have htree : ((pre.foldl (readyId ops) (ready ops st r)).treeOf id) =
          some ((ready ops st r).trees r) := by
        rw [treeOf, readyIds_columns, ready_columns, hr, Option.map_some',
          readyIds_trees_of_isInitialized (isInitialized_ready hinit r)]
      have hstep : readyId ops st id = ready ops st r := by simp only [readyId, hr]
      rw [List.cons_append, iterate, hr]
      simp only [hok, if_true]
      rw [ih hpre', List.foldl_cons, hstep, List.map_cons, htree, Option.some_bind,
        List.append_assoc, List.singleton_append]

omit hst in
/-- The lookup of the first id that does not pass: its verdict, with `dest` left as it was. -/
theorem iterate_cons_of_ne_ok (hst : ∀ t, (fn (ops.forceInit t)).1 = (fn t).1) {st : ColumnStore T}
    {id : ParamId} (h : verdict fn st id ≠ .ok) (rest : List ParamId) (dest : List (Option I)) :
    iterate ops fn (id :: rest) dest st = (verdict fn st id, dest, readyId ops st id) := by
  cases hr : st.columns.lookup id with
  | none => simp only [iterate, hr, readyId, verdict, treeOf, Option.map_none']
  | some r =>
    have hv : (fn ((ready ops st r).trees r)).1 = verdict fn st id := by
      rw [← verdict_of_lookup (by rwa [ready_columns]), verdict_ready hst]
    simp only [iterate, hr, readyId, hv, if_neg h]

include hinit in
/-- Every listed id passes: `Ok`, one operator per id, built from its tree. -/
theorem iterate_of_forall_ok {ids : List ParamId} {st : ColumnStore T}
    (h : ∀ id ∈ ids, verdict fn st id = .ok) (dest : List (Option I)) :
    iterate ops fn ids dest st =
      (.ok, dest ++ ids.map fun id => ((ids.foldl (readyId ops) st).treeOf id).bind fun t => (fn t).2,
        ids.foldl (readyId ops) st) := by
  rw [← List.append_nil ids, iterate_append hinit hst (by simpa using h)]
  simp only [List.append_nil, iterate]

include hinit in
/-- The first listed id that does not pass decides the status. -/
theorem iterate_of_first_failure {pre post : List ParamId} {id : ParamId} {st : ColumnStore T}
    (hpre : ∀ x ∈ pre, verdict fn st x = .ok) (h : verdict fn st id ≠ .ok) (dest : List (Option I)) :
    (iterate ops fn (pre ++ id :: post) dest st).1 = verdict fn st id := by
  rw [iterate_append hinit hst hpre, iterate_cons_of_ne_ok hst (by rwa [verdict_readyIds hst]),
    verdict_readyIds hst]

end Iterate

/-- A list that does not satisfy `p` throughout has a first element that does not. -/
theorem exists_first_failure {p : ParamId → Prop} {ids : List ParamId} (h : ¬ ∀ id ∈ ids, p id) :
    ∃ pre id post, ids = pre ++ id :: post ∧ (∀ x ∈ pre, p x) ∧ ¬ p id := by
  induction ids with
  | nil => simp at h
  | cons a ids ih =>
    by_cases ha : p a
    · obtain ⟨pre, id, post, rfl, hpre, hid⟩ := ih fun hall => h (List.forall_mem_cons.mpr ⟨ha, hall⟩)
      exact ⟨a :: pre, id, post, rfl, List.forall_mem_cons.mpr ⟨ha, hpre⟩, hid⟩
    · exact ⟨[], a, ids, rfl, by simp, ha⟩

/-! ### What the queries return -/

/-- The outcome of a query whose operator cannot fail (`scan`, `scan_events`, `filter_events`,
`aggregate`, `group_aggregate`) on `st`: `Ok` exactly when every listed id is a column and
`NotFound` otherwise; on `Ok`, the store with the listed trees initialised, and one operator per
listed id appended to `dest`, built by `build` from that id's tree in `st`, initialised. -/
def PlainOutcome {I : Type} (st : ColumnStore T) (ids : List ParamId) (dest : List (Option I))
    (build : T → I) (res : Status × List (Option I) × ColumnStore T) : Prop :=
  (res.1 = .ok ↔ ∀ id ∈ ids, (st.columns.lookup id).isSome) ∧ (res.1 = .ok ∨ res.1 = .notFound) ∧
    (res.1 = .ok → res.2.2 = ids.foldl (readyId ops) st ∧
      res.2.1 = dest ++ ids.map fun id => (st.treeOf id).map fun t => build (initialised ops t))

/-- A listed id passes `filter` or `group_aggfilter`: it is a column with a filter. -/
def Served {F : Type} (st : ColumnStore T) (filters : IdMap F) (id : ParamId) : Prop :=
  (st.columns.lookup id).isSome ∧ (filters.lookup id).isSome

/-- The outcome of `filter` and `group_aggfilter`: `Ok` exactly when every listed id is a column
with a filter; otherwise the first listed id that is not decides, `NotFound` when it is not a
column and `BadArg` when it is a column without a filter.  On `Ok`, the store with the listed trees
initialised, and one operator per listed id appended to `dest`, the one `fn` builds from that id's
tree in `st`, initialised. -/
def FilterOutcome {I F : Type} (st : ColumnStore T) (ids : List ParamId) (filters : IdMap F)
    (dest : List (Option I)) (fn : T → Status × Option I)
    (res : Status × List (Option I) × ColumnStore T) : Prop :=
  (res.1 = .ok ↔ ∀ id ∈ ids, Served st filters id) ∧
    (res.1 = .badArg ↔ ∃ pre id post, ids = pre ++ id :: post ∧ (∀ x ∈ pre, Served st filters x) ∧
      (st.columns.lookup id).isSome ∧ filters.lookup id = none) ∧
    (res.1 = .notFound ↔ ∃ pre id post, ids = pre ++ id :: post ∧
      (∀ x ∈ pre, Served st filters x) ∧ st.columns.lookup id = none) ∧
    (res.1 = .ok → res.2.2 = ids.foldl (readyId ops) st ∧
      res.2.1 = dest ++ ids.map fun id => (st.treeOf id).bind fun t => (fn (initialised ops t)).2)

/-- Every tree `columns_` binds reports its key as `get_id()`, and every binding names an
allocated tree. -/
def IdsMatch (getId : T → ParamId) (st : ColumnStore T) : Prop :=
  ∀ id r, st.columns.lookup id = some r → r < st.next ∧ getId (st.trees r) = id

section Outcomes

variable {ops} {I : Type} {fn : T → Status × Option I}

/-- `iterate` returns `Ok` after every listed id passed, or the verdict of the first that did
not. -/
theorem iterate_status (hinit : ∀ t, ops.isInitialized (ops.forceInit t) = true)
    (hst : ∀ t, (fn (ops.forceInit t)).1 = (fn t).1) (ids : List ParamId) (dest : List (Option I))
    (st : ColumnStore T) :
    ((∀ id ∈ ids, verdict fn st id = .ok) ∧ (iterate ops fn ids dest st).1 = .ok) ∨
      ∃ pre id post, ids = pre ++ id :: post ∧ (∀ x ∈ pre, verdict fn st x = .ok) ∧
        verdict fn st id ≠ .ok ∧ (iterate ops fn ids dest st).1 = verdict fn st id := by
  by_cases hall : ∀ id ∈ ids, verdict fn st id = .ok
  · exact .inl ⟨hall, by rw [iterate_of_forall_ok hinit hst hall]⟩
  · obtain ⟨pre, id, post, rfl, hpre, hid⟩ := exists_first_failure hall
    exact .inr ⟨pre, id, post, rfl, hpre, hid, iterate_of_first_failure hinit hst hpre hid dest⟩

theorem bind_okOperator (build : T → I) (o : Option T) :
    (o.bind fun t => (okOperator build t).2) = o.map build := by
  cases o <;> rfl

theorem verdict_okOperator (build : T → I) (st : ColumnStore T) (id : ParamId) :
    verdict (okOperator build) st id = if (st.columns.lookup id).isSome then .ok else .notFound := by
  unfold verdict treeOf
  cases st.columns.lookup id <;> rfl

/-- A query whose operator cannot fail: `Ok` exactly when every listed id is a column, and then
one operator per id, built from its tree. -/
theorem plainOutcome_iterate (hinit : ∀ t, ops.isInitialized (ops.forceInit t) = true)
    (build : T → I) (st : ColumnStore T) (ids : List ParamId) (dest : List (Option I)) :
    PlainOutcome ops st ids dest build (iterate ops (okOperator build) ids dest st) := by
  have hv : ∀ id, verdict (okOperator build) st id = .ok ↔ (st.columns.lookup id).isSome := by
    intro id
    rw [verdict_okOperator]
    split <;> simp [*]
  by_cases hall : ∀ id ∈ ids, (st.columns.lookup id).isSome
  · rw [iterate_of_forall_ok hinit (fun _ => rfl) fun id hid => (hv id).mpr (hall id hid)]
    refine ⟨iff_of_true rfl hall, .inl rfl, fun _ => ⟨rfl, ?_⟩⟩
    refine congrArg (dest ++ ·) (List.map_congr_left fun id hid => ?_)
    rw [bind_okOperator, readyIds_treeOf hinit hid, Option.map_map]
    rfl
  · obtain ⟨pre, id, post, rfl, hpre, hid⟩ := exists_first_failure hall
    have h : (iterate ops (okOperator build) (pre ++ id :: post) dest st).1 = _ :=
      iterate_of_first_failure hinit (fun _ => rfl) (fun x hx => (hv x).mpr (hpre x hx))
        (mt (hv id).mp hid) dest
    rw [verdict_okOperator, if_neg hid] at h
    exact ⟨iff_of_false (by rw [h]; decide) hall, .inr h, fun hok => absurd (h ▸ hok) (by decide)⟩

/-- The status of the lambda of `filter` and `group_aggfilter`: whether the tree's id has a
filter. -/
theorem filtered_status {F : Type} (getId : T → ParamId) (filters : IdMap F) (key : F → ℕ)
    (withFilter : T → F → I) (plain : T → I) (t : T) :
    (filtered getId filters key withFilter plain t).1 =
      if (filters.lookup (getId t)).isSome then .ok else .badArg := by
  unfold filtered
  cases filters.lookup (getId t) with
  | none => rfl
  | some f => by_cases hk : key f = 0 <;> simp [hk]

/-- On a store whose trees report their keys, the verdict of that lambda on an id is read off
`columns_` and `filters`. -/
theorem verdict_filtered {F : Type} {getId : T → ParamId} {st : ColumnStore T}
    (hids : st.IdsMatch getId) (filters : IdMap F) (key : F → ℕ) (withFilter : T → F → I)
    (plain : T → I) (id : ParamId) :
    verdict (filtered getId filters key withFilter plain) st id =
      match st.columns.lookup id with
      | some _ => if (filters.lookup id).isSome then .ok else .badArg
      | none => .notFound := by
  cases h : st.columns.lookup id with
  | none => simp only [verdict, treeOf, h, Option.map_none']
  | some r => rw [verdict_of_lookup h, filtered_status, (hids id r h).2]

/-- `filter` and `group_aggfilter` on a store whose trees report their keys: the first listed id
that is not a column with a filter decides, `NotFound` or `BadArg`; with none, `Ok` and one
operator per id. -/
theorem filterOutcome_iterate {F : Type} (getId : T → ParamId)
    (hinit : ∀ t, ops.isInitialized (ops.forceInit t) = true)
    (hid : ∀ t, getId (ops.forceInit t) = getId t) {st : ColumnStore T} (hids : st.IdsMatch getId)
    (filters : IdMap F) (key : F → ℕ) (withFilter : T → F → I) (plain : T → I) (ids : List ParamId)
    (dest : List (Option I)) :
    FilterOutcome ops st ids filters dest (filtered getId filters key withFilter plain)
      (iterate ops (filtered getId filters key withFilter plain) ids dest st) := by
  set fn := filtered getId filters key withFilter plain
  have hst : ∀ t, (fn (ops.forceInit t)).1 = (fn t).1 := fun t => by
    simp only [fn, filtered_status, hid]
  have hv := verdict_filtered hids filters key withFilter plain
  have hok : ∀ id, verdict fn st id = .ok ↔ Served st filters id := fun id => by
    rw [hv, Served]
    cases st.columns.lookup id <;> cases filters.lookup id <;> simp
  have hbad : ∀ id, verdict fn st id = .badArg ↔
      (st.columns.lookup id).isSome ∧ filters.lookup id = none := fun id => by
    rw [hv]
    cases st.columns.lookup id <;> cases filters.lookup id <;> simp
  have hnf : ∀ id, verdict fn st id = .notFound ↔ st.columns.lookup id = none := fun id => by
    rw [hv]
    cases st.columns.lookup id <;> cases filters.lookup id <;> simp
  -- the first id not served decides the status
  have hfail : ∀ {pre id post}, ids = pre ++ id :: post → (∀ x ∈ pre, Served st filters x) →
      ¬ Served st filters id → (iterate ops fn ids dest st).1 = verdict fn st id := by
    rintro pre id post rfl hpre hid
    exact iterate_of_first_failure hinit hst (fun x hx => (hok x).mpr (hpre x hx))
      (mt (hok id).mp hid) dest
  have hfirst : (iterate ops fn ids dest st).1 ≠ .ok → ∃ pre id post, ids = pre ++ id :: post ∧
      (∀ x ∈ pre, Served st filters x) ∧ (iterate ops fn ids dest st).1 = verdict fn st id := by
    intro hne
    rcases iterate_status hinit hst ids dest st with ⟨-, hres⟩ | ⟨pre, id, post, h, hpre, -, hres⟩
    · exact absurd hres hne
    · exact ⟨pre, id, post, h, fun x hx => (hok x).mp (hpre x hx), hres⟩
  refine ⟨⟨fun hres => ?_, fun hall => ?_⟩, ⟨fun hres => ?_, ?_⟩, ⟨fun hres => ?_, ?_⟩,
    fun hres => ?_⟩
  · by_contra hall
    obtain ⟨pre, id, post, rfl, hpre, hid⟩ := exists_first_failure hall
    exact hid ((hok id).mp ((hfail rfl hpre hid).symm.trans hres))
  · rw [iterate_of_forall_ok hinit hst fun id h => (hok id).mpr (hall id h)]
  · obtain ⟨pre, id, post, h, hpre, hres'⟩ := hfirst (by rw [hres]; decide)
    exact ⟨pre, id, post, h, hpre, (hbad id).mp (hres'.symm.trans hres)⟩
  · rintro ⟨pre, id, post, h, hpre, hcol, hnone⟩
    rw [hfail h hpre fun hs => by simp [Served, hnone] at hs]
    exact (hbad id).mpr ⟨hcol, hnone⟩
  · obtain ⟨pre, id, post, h, hpre, hres'⟩ := hfirst (by rw [hres]; decide)
    exact ⟨pre, id, post, h, hpre, (hnf id).mp (hres'.symm.trans hres)⟩
  · rintro ⟨pre, id, post, h, hpre, hnone⟩
    rw [hfail h hpre fun hs => by simp [Served, hnone] at hs]
    exact (hnf id).mpr hnone
  · have hall : ∀ id ∈ ids, verdict fn st id = .ok := by
      by_contra hall
      obtain ⟨pre, id, post, rfl, hpre, hid⟩ := exists_first_failure hall
      exact hid ((iterate_of_first_failure hinit hst hpre hid dest).symm.trans hres)
    rw [iterate_of_forall_ok hinit hst hall]
    refine ⟨rfl, congrArg (dest ++ ·) (List.map_congr_left fun id hid => ?_)⟩
    rw [readyIds_treeOf hinit hid]
    cases st.treeOf id <;> rfl

end Outcomes

/-! ### Trees keep their ids -/

section Ids

variable {R B A VF AF : Type} (L : LawfulTree T R B A VF AF) {st : ColumnStore T}

theorem IdsMatch.setTree {getId : T → ParamId} (h : st.IdsMatch getId) {r : ℕ} {t : T}
    (ht : getId t = getId (st.trees r)) : (st.setTree r t).IdsMatch getId := fun id r' hr => by
  obtain ⟨h₁, h₂⟩ := h id r' hr
  refine ⟨h₁, ?_⟩
  rcases eq_or_ne r' r with rfl | hne
  · rw [setTree_trees, Function.update_same, ht, h₂]
  · rw [setTree_trees, Function.update_noteq hne, h₂]

theorem IdsMatch.insertColumn {getId : T → ParamId} (h : st.IdsMatch getId) {id : ParamId} {t : T}
    (hid : st.columns.lookup id = none) (ht : getId t = id) :
    (st.insertColumn id t).IdsMatch getId := fun id' r hr => by
  rw [insertColumn_columns] at hr
  rw [insertColumn_next, insertColumn_trees]
  by_cases hid' : id' = id
  · subst hid'
    simp [List.lookup_append, hid] at hr
    subst hr
    exact ⟨Nat.lt_succ_self _, by rw [Function.update_same, ht]⟩
  · obtain ⟨h₁, h₂⟩ := h id' r (by rwa [IdMap.lookup_append_of_ne hid'] at hr)
    exact ⟨by omega, by rw [Function.update_noteq (by omega), h₂]⟩

theorem getId_openedTree (forceInit : Bool) (id : ParamId) (rp : List LogicAddr) :
    L.q.getId (openedTree L.ops forceInit id rp) = id := by
  unfold openedTree
  split_ifs <;> simp only [L.getId_close, L.getId_forceInit, L.getId_create]

theorem getId_appendSample (sizeofSample : ℕ) (t : T) (sample : Sample) :
    L.q.getId (appendSample L.ops sizeofSample t sample).2 = L.q.getId t := by
  unfold appendSample
  split <;> simp only [L.getId_append, L.getId_appendBlob]

theorem IdsMatch.openOrRestoreLoop (forceInit : Bool) (es : List (ParamId × List LogicAddr))
    (h : st.IdsMatch L.q.getId) (ids : List ParamId) :
    (openOrRestoreLoop L.ops forceInit es st ids).2.IdsMatch L.q.getId := by
  induction es generalizing st ids with
  | nil => exact h
  | cons e es ih =>
    simp only [openOrRestoreLoop]
    split
    · exact h
    · rename_i hc
      have hm : (restoreEntry L.ops forceInit st e.1 e.2).1.IdsMatch L.q.getId := by
        rw [restoreEntry_eq]
        exact h.insertColumn (Option.not_isSome_iff_eq_none.mp hc) (getId_openedTree L ..)
      exact ih hm _

theorem IdsMatch.createNewColumn (h : st.IdsMatch L.q.getId) (id : ParamId) :
    (st.createNewColumn L.ops id).2.IdsMatch L.q.getId := by
  unfold ColumnStore.createNewColumn
  split
  · exact h
  · rename_i hc
    exact (h.insertColumn (Option.not_isSome_iff_eq_none.mp hc) (L.getId_create id [])).setTree (L.getId_forceInit _)

theorem IdsMatch.write (h : st.IdsMatch L.q.getId) (sizeofSample : ℕ) (sample : Sample)
    (cache : Option (IdMap ℕ)) : (st.write L.ops sizeofSample sample cache).2.2.1.IdsMatch L.q.getId := by
  unfold ColumnStore.write
  split
  · exact h.setTree (getId_appendSample L ..)
  · exact h

theorem IdsMatch.recoveryWrite (h : st.IdsMatch L.q.getId) (sample : Sample) (dup : Bool) :
    (st.recoveryWrite L.ops sample dup).2.IdsMatch L.q.getId := by
  unfold ColumnStore.recoveryWrite
  split
  · exact h.setTree (L.getId_append ..)
  · exact h

/-- A fold whose step keeps `IdsMatch` keeps it. -/
theorem IdsMatch.foldl {α : Type} {getId : T → ParamId}
    (f : IdMap (List LogicAddr) × ColumnStore T → α → IdMap (List LogicAddr) × ColumnStore T)
    (hf : ∀ acc a, acc.2.IdsMatch getId → (f acc a).2.IdsMatch getId) (l : List α)
    {acc : IdMap (List LogicAddr) × ColumnStore T} (h : acc.2.IdsMatch getId) :
    (l.foldl f acc).2.IdsMatch getId := by
  induction l generalizing acc with
  | nil => exact h
  | cons a l ih => exact ih (hf acc a h)

theorem IdsMatch.closeColumn (acc : IdMap (List LogicAddr) × ColumnStore T) (c : ParamId × ℕ)
    (h : acc.2.IdsMatch L.q.getId) : (closeColumn L.ops acc c).2.IdsMatch L.q.getId := by
  unfold ColumnStore.closeColumn
  split
  · exact h.setTree (L.getId_close _)
  · exact h

theorem IdsMatch.sessionWrite (h : st.IdsMatch L.q.getId) (sizeofSample : ℕ) (cache : IdMap ℕ)
    (sample : Sample) : (CStoreSession.write L.ops sizeofSample st cache sample).2.2.1.IdsMatch L.q.getId := by
  unfold CStoreSession.write CStoreSession.writeThroughCache
  split
  · exact h
  · split
    · exact h.setTree (getId_appendSample L ..)
    · exact h.write L _ _ _

theorem IdsMatch.ready (h : st.IdsMatch L.q.getId) (r : ℕ) : (ready L.ops st r).IdsMatch L.q.getId := by
  unfold ColumnStore.ready
  split
  · exact h
  · exact h.setTree (L.getId_forceInit _)

/-- A query only initialises trees. -/
theorem IdsMatch.iterate {I : Type} (fn : T → Status × Option I) (ids : List ParamId)
    (dest : List (Option I)) (h : st.IdsMatch L.q.getId) :
    (iterate L.ops fn ids dest st).2.2.IdsMatch L.q.getId := by
  induction ids generalizing st dest with
  | nil => exact h
  | cons id ids ih =>
    simp only [ColumnStore.iterate]
    split
    · split
      · exact ih _ (h.ready L _)
      · exact h.ready L _
    · exact h

end Ids

end ColumnStore

open ColumnStore

namespace System

/-- The systems reachable from a new store by the actions of `System` and by queries, in any
order: a query initialises the trees it visits. -/
inductive QueryReachable [Inhabited T] (ops : NBTreeOps T) (sizeofSample : ℕ) : System T → Prop
  | init : QueryReachable ops sizeofSample init
  | step {sys : System T} (a : Action) :
      QueryReachable ops sizeofSample sys → QueryReachable ops sizeofSample (sys.step ops sizeofSample a)
  | query {sys : System T} {I : Type} (fn : T → Status × Option I) (ids : List ParamId)
      (dest : List (Option I)) : QueryReachable ops sizeofSample sys →
        QueryReachable ops sizeofSample { sys with store := (iterate ops fn ids dest sys.store).2.2 }

variable {T : Type} {ops : NBTreeOps T} {sizeofSample : ℕ}

theorem Reachable.queryReachable [Inhabited T] {sys : System T} (h : Reachable ops sizeofSample sys) :
    QueryReachable ops sizeofSample sys := by
  induction h with
  | init => exact .init
  | step a _ ih => exact .step a ih

variable {R B A VF AF : Type} (L : LawfulTree T R B A VF AF)

theorem step_idsMatch {sys : System T} (h : sys.store.IdsMatch L.q.getId) (a : Action) :
    (sys.step L.ops sizeofSample a).store.IdsMatch L.q.getId := by
  cases a with
  | openOrRestore mapping forceInit => exact h.openOrRestoreLoop L forceInit _ []
  | createNewColumn id => exact h.createNewColumn L id
  | write sample => exact h.write L _ _ _
  | recoveryWrite sample dup => exact h.recoveryWrite L _ _
  | close => exact IdsMatch.foldl _ (IdsMatch.closeColumn L) _ h
  | closeIds ids =>
    refine IdsMatch.foldl _ (fun acc id hacc => ?_) _ h
    unfold closeId
    split
    · exact IdsMatch.closeColumn L _ _ hacc
    · exact hacc
  | sessionWrite k sample => exact h.sessionWrite L _ _ _

/-- In every system reachable by store operations, session writes and queries, every tree of
`columns_` reports its key. -/
theorem QueryReachable.idsMatch [Inhabited T] {sys : System T} (h : QueryReachable L.ops sizeofSample sys) :
    sys.store.IdsMatch L.q.getId := by
  induction h with
  | init => intro id r h; simp [System.init, ColumnStore.empty] at h
  | step a _ ih => exact step_idsMatch L ih a
  | query fn ids dest _ ih => exact ih.iterate L fn ids dest

end System

/-- The queries of the column store.  On every store and every id list, each of `scan`,
`scan_events`, `filter_events`, `aggregate` and `group_aggregate` returns `Ok` exactly when every
listed id is a column, `NotFound` otherwise, and on `Ok` appends one operator per listed id to
`dest`, the `k`-th built from the tree of the `k`-th id, initialised by the call if it was not, and
returns the store with those trees initialised.  On a store whose trees report their keys
as `get_id()`, `filter` and `group_aggfilter` return `Ok` exactly when every listed id is a column
with a filter; otherwise the first listed id that is not decides, `BadArg` when it is a column
without a filter and `NotFound` when it is not a column.  Every store reachable by the store's
operations, session writes and queries, in any order, has its trees report their keys. -/
theorem columnStore_queries_outcome {T R B A VF AF : Type} [Inhabited T]
    (L : LawfulTree T R B A VF AF) :
    (∀ (st : ColumnStore T) (ids : List ParamId) (tBegin tEnd step : Timestamp) (expr : String)
        (dR : List (Option R)) (dB : List (Option B)) (dA : List (Option A)),
      PlainOutcome L.ops st ids dR (fun t => L.q.search t tBegin tEnd)
          (st.scan L.ops L.q ids tBegin tEnd dR) ∧
        PlainOutcome L.ops st ids dB (fun t => L.q.searchBinary t tBegin tEnd)
          (st.scanEvents L.ops L.q ids tBegin tEnd dB) ∧
        PlainOutcome L.ops st ids dB (fun t => L.q.filterBinary t tBegin tEnd expr)
          (st.filterEvents L.ops L.q ids tBegin tEnd expr dB) ∧
        PlainOutcome L.ops st ids dA (fun t => L.q.aggregate t tBegin tEnd)
          (st.aggregate L.ops L.q ids tBegin tEnd dA) ∧
        PlainOutcome L.ops st ids dA (fun t => L.q.groupAggregate t tBegin tEnd step)
          (st.groupAggregate L.ops L.q ids tBegin tEnd step dA)) ∧
    (∀ st : ColumnStore T, st.IdsMatch L.q.getId →
      ∀ (ids : List ParamId) (tBegin tEnd step : Timestamp) (vf : IdMap VF) (af : IdMap AF)
        (dR : List (Option R)) (dA : List (Option A)),
      FilterOutcome L.ops st ids vf dR (filtered L.q.getId vf L.q.mask (fun t f => L.q.filter t tBegin tEnd f)
          fun t => L.q.search t tBegin tEnd) (st.filter L.ops L.q ids tBegin tEnd vf dR) ∧
        FilterOutcome L.ops st ids af dA (filtered L.q.getId af L.q.bitmap
          (fun t f => L.q.groupAggregateFilter t tBegin tEnd step f)
          fun t => L.q.groupAggregate t tBegin tEnd step)
          (st.groupAggfilter L.ops L.q ids tBegin tEnd step af dA)) ∧
    (∀ (sizeofSample : ℕ) (sys : System T), System.QueryReachable L.ops sizeofSample sys →
      sys.store.IdsMatch L.q.getId) := by
  have hinit := L.isInitialized_forceInit
  -- the five plain queries are `iterate` with `okOperator`, the two filters with `filtered`
  exact ⟨fun st ids _ _ _ _ dR dB dA => ⟨plainOutcome_iterate hinit _ st ids dR,
      plainOutcome_iterate hinit _ st ids dB, plainOutcome_iterate hinit _ st ids dB,
      plainOutcome_iterate hinit _ st ids dA, plainOutcome_iterate hinit _ st ids dA⟩,
    fun _ hids ids _ _ _ vf af dR dA =>
      ⟨filterOutcome_iterate _ hinit L.getId_forceInit hids vf _ _ _ ids dR,
        filterOutcome_iterate _ hinit L.getId_forceInit hids af _ _ _ ids dA⟩,
    fun _ _ h => h.idsMatch L⟩

/-- `filter` does not return `BadArg` whenever a listed column has no filter: an id that is not
a column, listed first, stops it with `NotFound`.  After `create_new_column(9)`, `filter` over
the ids `[5, 9]` with no filters returns `NotFound`, although column `9` has no filter. -/
theorem ColumnStore.filter_notFound_before_unfiltered_column :
    ¬ ∀ (sys : System LogTree), System.QueryReachable LogTree.ops 40 sys →
      ∀ (ids : List ParamId) (filters : IdMap ℕ) (dest : List (Option LogTree.Query)),
        (sys.store.filter LogTree.ops LogTree.queries ids 0 10 filters dest).1 = .badArg ↔
          ∃ id ∈ ids, (sys.store.columns.lookup id).isSome ∧ filters.lookup id = none := by
  intro h
  have hbad := (h _ (.step (.createNewColumn 9) .init) [5, 9] [] []).mpr
    ⟨9, by simp, by decide, rfl⟩
  revert hbad
  decide

end Stdb
