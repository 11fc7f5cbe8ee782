import Stdb.ColumnStoreQuery
import Mathlib.Data.List.Nodup

/-!
# The table of `columns_` and closing the store

`columns_` is an `unordered_map`: one tree per id.  The model lists it as an association list
of ids and heap references, so the map's uniqueness is an invariant of the model, not a given.
`WellFormed` states it, with the heap's own: no id listed twice, no tree shared by two ids, and
every reference allocated.

* `QueryReachable.wellFormed`: every system reachable by any interleaving of store
  operations, session writes and queries has a well-formed table, for every tree class (and its
  session caches agree with it, `QueryReachable.wellFormed_coherent`);
* `close_eq`: on a well-formed table `close()` returns one entry per initialised column, in the
  iteration order of `columns_`, with the rescue points closing its tree gives, and closes
  exactly those trees;
* `closeIds_eq_close`: `close(ids)` on distinct ids is `close()` restricted to them: the same
  entry for each listed id, none for any other, and the same trees closed.
-/

namespace Stdb

namespace ColumnStore

variable {T : Type} (ops : NBTreeOps T)

/-- The table invariant: `columns_` maps each id once, no two ids share a tree, and every
reference names an allocated tree. -/
structure WellFormed (st : ColumnStore T) : Prop where
  /-- No id is listed twice. -/
  ids_nodup : (st.columns.map Prod.fst).Nodup
  /-- No tree is the column of two ids. -/
  refs_nodup : (st.columns.map Prod.snd).Nodup
  /-- Every reference is below the next allocation. -/
  refs_lt : ∀ c ∈ st.columns, c.2 < st.next

/-- `st'` has the table of `st`: the same columns and the same next allocation.  The operations
that only replace trees keep it. -/
def SameTable (st st' : ColumnStore T) : Prop := st'.columns = st.columns ∧ st'.next = st.next

variable {ops}

theorem SameTable.refl (st : ColumnStore T) : SameTable st st := ⟨rfl, rfl⟩

theorem SameTable.trans {st₁ st₂ st₃ : ColumnStore T} (h₁ : SameTable st₁ st₂)
    (h₂ : SameTable st₂ st₃) : SameTable st₁ st₃ :=
  ⟨h₂.1.trans h₁.1, h₂.2.trans h₁.2⟩

theorem sameTable_setTree (st : ColumnStore T) (r : ℕ) (t : T) : SameTable st (st.setTree r t) :=
  ⟨rfl, rfl⟩

theorem WellFormed.of_sameTable {st st' : ColumnStore T} (h : st.WellFormed)
    (hs : SameTable st st') : st'.WellFormed where
  ids_nodup := hs.1 ▸ h.ids_nodup
  refs_nodup := hs.1 ▸ h.refs_nodup
  refs_lt c hc := hs.2 ▸ h.refs_lt c (hs.1 ▸ hc)

/-- Columns added for fresh, distinct ids at fresh references, one after the other. -/
theorem WellFormed.append_fresh {st st' : ColumnStore T} (h : st.WellFormed) {ks : List ParamId}
    (hk : ks.Nodup) (hfresh : ∀ k ∈ ks, st.columns.lookup k = none)
    (hc : st'.columns = st.columns ++ ks.zip (List.range' st.next ks.length))
    (hn : st'.next = st.next + ks.length) : st'.WellFormed := by
  have hlen : (List.range' st.next ks.length).length = ks.length := List.length_range' ..
  refine ⟨?_, ?_, ?_⟩
  · rw [hc, List.map_append, List.map_fst_zip _ _ hlen.ge]
    refine List.nodup_append.2 ⟨h.ids_nodup, hk, fun a ha hb => ?_⟩
    obtain ⟨c, hc', rfl⟩ := List.mem_map.1 ha
    simpa using List.lookup_eq_none_iff.1 (hfresh _ hb) c hc'
  · rw [hc, List.map_append, List.map_snd_zip _ _ hlen.le]
    refine List.nodup_append.2 ⟨h.refs_nodup, List.nodup_range' _ _, fun a ha hb => ?_⟩
    obtain ⟨c, hc', rfl⟩ := List.mem_map.1 ha
    have := h.refs_lt c hc'
    have := (List.mem_range'_1.1 hb).1
    omega
  · intro c hm
    rw [hc, List.mem_append] at hm
    rw [hn]
    rcases hm with hm | hm
    · exact lt_of_lt_of_le (h.refs_lt c hm) (Nat.le_add_right _ _)
    · exact (List.mem_range'_1.1 (List.of_mem_zip hm).2).2

/-! ### Each operation keeps the table well formed -/

theorem sameTable_ready (st : ColumnStore T) (r : ℕ) : SameTable st (ready ops st r) :=
  ⟨ready_columns r, ready_next r⟩

theorem sameTable_write (sizeofSample : ℕ) (st : ColumnStore T) (sample : Sample)
    (cache : Option (IdMap ℕ)) : SameTable st (st.write ops sizeofSample sample cache).2.2.1 := by
  unfold write; split
  · exact sameTable_setTree ..
  · exact .refl _

theorem sameTable_recoveryWrite (st : ColumnStore T) (sample : Sample) (dup : Bool) :
    SameTable st (st.recoveryWrite ops sample dup).2 := by
  unfold recoveryWrite; split
  · exact sameTable_setTree ..
  · exact .refl _

theorem sameTable_closeColumn (acc : IdMap (List LogicAddr) × ColumnStore T) (c : ParamId × ℕ) :
    SameTable acc.2 (closeColumn ops acc c).2 := by
  unfold closeColumn; split
  · exact sameTable_setTree ..
  · exact .refl _

theorem sameTable_closeId (acc : IdMap (List LogicAddr) × ColumnStore T) (id : ParamId) :
    SameTable acc.2 (closeId ops acc id).2 := by
  unfold closeId; split
  · exact sameTable_closeColumn ..
  · exact .refl _

/-- A fold whose every step keeps the table keeps it. -/
theorem sameTable_foldl {α : Type}
    (f : IdMap (List LogicAddr) × ColumnStore T → α → IdMap (List LogicAddr) × ColumnStore T)
    (hf : ∀ acc a, SameTable acc.2 (f acc a).2) (l : List α)
    (acc : IdMap (List LogicAddr) × ColumnStore T) : SameTable acc.2 (l.foldl f acc).2 := by
  induction l generalizing acc with
  | nil => exact .refl _
  | cons a l ih => exact (hf acc a).trans (ih _)

theorem sameTable_sessionWrite (sizeofSample : ℕ) (st : ColumnStore T) (cache : IdMap ℕ)
    (sample : Sample) : SameTable st (CStoreSession.write ops sizeofSample st cache sample).2.2.1 := by
  unfold CStoreSession.write CStoreSession.writeThroughCache
  split
  · exact .refl _
  · split
    · exact sameTable_setTree ..
    · exact sameTable_write ..

theorem sameTable_iterate {I : Type} (fn : T → Status × Option I) (ids : List ParamId)
    (dest : List (Option I)) (st : ColumnStore T) : SameTable st (iterate ops fn ids dest st).2.2 := by
  induction ids generalizing st dest with
  | nil => exact .refl _
  | cons id ids ih =>
    simp only [iterate]
    split
    · split
      · exact (sameTable_ready _ _).trans (ih _ _)
      · exact sameTable_ready _ _
    · exact .refl _

theorem WellFormed.createNewColumn {st : ColumnStore T} (h : st.WellFormed) (id : ParamId) :
    (st.createNewColumn ops id).2.WellFormed := by
  unfold ColumnStore.createNewColumn
  split
  · exact h
  · rename_i hc
    exact h.append_fresh (List.nodup_singleton id)
      (fun k hk => List.mem_singleton.1 hk ▸ Option.not_isSome_iff_eq_none.mp hc) rfl rfl

theorem WellFormed.openOrRestore {st : ColumnStore T} (h : st.WellFormed) (mapping : RescueMapping)
    (forceInit : Bool) : (st.openOrRestore ops mapping forceInit).2.WellFormed := by
  rw [ColumnStore.openOrRestore, openOrRestoreLoop_eq forceInit st mapping.entries st []
    mapping.nodup fun _ _ => rfl]
  refine h.append_fresh (mapping.nodup.sublist
    ((List.takeWhile_sublist fun e => decide (st.columns.lookup e.1 = none)).map _))
    (fun k hk => ?_) ?_ ?_
  · obtain ⟨e, he, rfl⟩ := List.mem_map.1 hk
    simpa using List.mem_takeWhile_imp he
  · rw [restoreAll_columns, List.length_map]
  · rw [restoreAll_next, List.length_map]

end ColumnStore

namespace System

variable {T : Type} {ops : NBTreeOps T} {sizeofSample : ℕ}

open ColumnStore

/-- Every action keeps the table well formed. -/
theorem step_wellFormed {sys : System T} (h : sys.store.WellFormed) (a : Action) :
    (sys.step ops sizeofSample a).store.WellFormed := by
  cases a with
  | openOrRestore mapping forceInit => exact h.openOrRestore mapping forceInit
  | createNewColumn id => exact h.createNewColumn id
  | write sample => exact h.of_sameTable (sameTable_write ..)
  | recoveryWrite sample dup => exact h.of_sameTable (sameTable_recoveryWrite ..)
  | close => exact h.of_sameTable (sameTable_foldl _ sameTable_closeColumn ..)
  | closeIds ids => exact h.of_sameTable (sameTable_foldl _ sameTable_closeId ..)
  | sessionWrite k sample => exact h.of_sameTable (sameTable_sessionWrite ..)

/-- The invariant of every reachable system: a well-formed table, and session caches that agree
with it. -/
theorem QueryReachable.wellFormed_coherent [Inhabited T] {sys : System T}
    (h : QueryReachable ops sizeofSample sys) : sys.store.WellFormed ∧ sys.Coherent := by
  induction h with
  | init =>
    refine ⟨⟨List.nodup_nil, List.nodup_nil, fun _ h => absurd h (List.not_mem_nil _)⟩, ?_⟩
    intro k id r h; simp [System.init] at h
  | step a _ ih => exact ⟨step_wellFormed ih.1 a, step_coherent ih.2 a⟩
  | query fn ids dest _ ih =>
    exact ⟨ih.1.of_sameTable (sameTable_iterate ..),
      fun k => (ih.2 k).mono (extends_of_columns_eq (sameTable_iterate ..).1)⟩

/-- In every system reachable by store operations, session writes and queries, in any order,
`columns_` lists each id once, no two ids share a tree, and every tree it names is allocated. -/
theorem QueryReachable.wellFormed [Inhabited T] {sys : System T}
    (h : QueryReachable ops sizeofSample sys) : sys.store.WellFormed :=
  h.wellFormed_coherent.1

/-- Columns `1` and `2` created, then a session write to `1` and a scan of both. -/
def twoColumns : System LogTree :=
  let sys := (init.step LogTree.ops 40 (.createNewColumn 1)).step LogTree.ops 40 (.createNewColumn 2)
  let sys := sys.step LogTree.ops 40 (.sessionWrite 0 ⟨1, 5, ⟨.float, 40, .ofU64 3, []⟩⟩)
  { sys with store := (iterate LogTree.ops (okOperator LogTree.queries.search) [1, 2] [] sys.store).2.2 }

theorem twoColumns_queryReachable : QueryReachable LogTree.ops 40 twoColumns :=
  .query _ _ _ (.step _ (.step _ (.step _ .init)))

theorem wellFormed_twoColumns :
    QueryReachable LogTree.ops 40 twoColumns ∧ twoColumns.store.WellFormed :=
  ⟨twoColumns_queryReachable, twoColumns_queryReachable.wellFormed⟩

end System

namespace ColumnStore

variable {T : Type} (ops : NBTreeOps T)

/-! ### `close()` -/

/-- The entries of the result for the columns `l` of `st`, in order: each initialised tree's id
with the rescue points closing it gives. -/
def closedPoints (st : ColumnStore T) (l : IdMap ℕ) : IdMap (List LogicAddr) :=
  (l.filter fun c => ops.isInitialized (st.trees c.2)).map fun c => (c.1, (ops.close (st.trees c.2)).1)

/-- The heap after closing the columns `l` of `st`: each initialised tree among them closed, every
other tree as it was. -/
def closedTrees (st : ColumnStore T) (l : IdMap ℕ) (r : ℕ) : T :=
  if r ∈ l.map Prod.snd ∧ ops.isInitialized (st.trees r) = true then (ops.close (st.trees r)).2
  else st.trees r

variable {ops}

theorem closedPoints_congr {st st' : ColumnStore T} {l : IdMap ℕ}
    (h : ∀ c ∈ l, st'.trees c.2 = st.trees c.2) : closedPoints ops st' l = closedPoints ops st l := by
  unfold closedPoints
  rw [List.filter_congr fun c hc => by rw [h c hc]]
  exact List.map_congr_left fun c hc => by rw [h c (List.mem_of_mem_filter hc)]

theorem closedTrees_nil (st : ColumnStore T) : closedTrees ops st [] = st.trees :=
  funext fun r => if_neg fun h => absurd h.1 (List.not_mem_nil r)

theorem closedTrees_cons_of_isInitialized (st : ColumnStore T) {id r : ℕ} {l : IdMap ℕ}
    (hr : r ∉ l.map Prod.snd) (hi : ops.isInitialized (st.trees r) = true) :
    closedTrees ops (st.setTree r (ops.close (st.trees r)).2) l = closedTrees ops st ((id, r) :: l) := by
  funext r'
  rcases eq_or_ne r' r with rfl | hne
  · simp only [closedTrees, hr, false_and, if_false, setTree_trees, Function.update_same,
      List.map_cons, List.mem_cons, true_or, hi, and_self, if_true]
  · simp only [closedTrees, setTree_trees, Function.update_noteq hne, List.map_cons,
      List.mem_cons, hne, false_or]

theorem closedTrees_cons_of_not_isInitialized (st : ColumnStore T) {id r : ℕ} {l : IdMap ℕ}
    (hi : ops.isInitialized (st.trees r) = false) :
    closedTrees ops st ((id, r) :: l) = closedTrees ops st l := by
  funext r'
  rcases eq_or_ne r' r with rfl | hne
  · simp only [closedTrees, hi, Bool.false_eq_true, and_false, if_false]
  · simp only [closedTrees, List.map_cons, List.mem_cons, hne, false_or]

/-- The loop of `close()` over columns with distinct ids and distinct trees, from any result so
far that holds none of their ids. -/
theorem foldl_closeColumn (l : IdMap ℕ) (hk : (l.map Prod.fst).Nodup) (hr : (l.map Prod.snd).Nodup)
    (acc : IdMap (List LogicAddr) × ColumnStore T) (hfresh : ∀ c ∈ l, acc.1.lookup c.1 = none) :
    l.foldl (closeColumn ops) acc =
      (acc.1 ++ closedPoints ops acc.2 l, { acc.2 with trees := closedTrees ops acc.2 l }) := by
  induction l generalizing acc with
  | nil => simp only [List.foldl_nil, closedPoints, List.filter_nil, List.map_nil, List.append_nil,
      closedTrees_nil]
  | cons c l ih =>
    obtain ⟨id, r⟩ := c
    simp only [List.map_cons, List.nodup_cons, List.mem_map] at hk hr
    rw [List.foldl_cons]
    cases hi : ops.isInitialized (acc.2.trees r)
    case false =>
      have hc : closeColumn ops acc (id, r) = acc := by simp only [closeColumn, hi]; rfl
      rw [hc, ih hk.2 hr.2 acc fun c hc => hfresh c (List.mem_cons_of_mem _ hc),
        closedTrees_cons_of_not_isInitialized acc.2 hi]
      simp only [closedPoints, List.filter_cons, hi, Bool.false_eq_true, if_false]
    case true =>
      have hc : closeColumn ops acc (id, r) = (acc.1 ++ [(id, (ops.close (acc.2.trees r)).1)],
          acc.2.setTree r (ops.close (acc.2.trees r)).2) := by
        simp only [closeColumn, hi, if_true, IdMap.assign, hfresh (id, r) (List.mem_cons_self _ _),
          Option.isSome_none, Bool.false_eq_true, if_false]
      have hfresh' : ∀ c ∈ l, (acc.1 ++ [(id, (ops.close (acc.2.trees r)).1)]).lookup c.1 = none :=
        fun c hc => by
          rw [IdMap.lookup_append_of_ne fun h => hk.1 ⟨c, hc, h⟩]
          exact hfresh c (List.mem_cons_of_mem _ hc)
      rw [hc, ih hk.2 hr.2 _ hfresh', closedPoints_congr fun c hc => Function.update_noteq
        (fun h => hr.1 ⟨c, hc, h⟩) _ _,
        closedTrees_cons_of_isInitialized acc.2 (fun h => hr.1 (List.mem_map.1 h)) hi]
      simp only [closedPoints, List.filter_cons, hi, if_true, List.map_cons, List.append_assoc,
        List.singleton_append]
      rfl

/-- On a well-formed table, `close()` returns one entry per initialised column, in the iteration
order of `columns_`, holding the rescue points closing its tree gives, and closes exactly those
trees; the table and `rescue_points_` are left as they were. -/
theorem close_eq {st : ColumnStore T} (h : st.WellFormed) :
    st.close ops =
      (closedPoints ops st st.columns, { st with trees := closedTrees ops st st.columns }) :=
  foldl_closeColumn st.columns h.ids_nodup h.refs_nodup ([], st) fun _ _ => rfl

/-- An entry of the result, looked up by id. -/
theorem lookup_closedPoints (st : ColumnStore T) {l : IdMap ℕ} (hk : (l.map Prod.fst).Nodup)
    (id : ParamId) : (closedPoints ops st l).lookup id = (l.lookup id).bind fun r =>
      if ops.isInitialized (st.trees r) then some (ops.close (st.trees r)).1 else none := by
  induction l with
  | nil => rfl
  | cons c l ih =>
    obtain ⟨k, r⟩ := c
    simp only [List.map_cons, List.nodup_cons] at hk
    have ih := ih hk.2
    simp only [closedPoints, List.filter_cons] at ih ⊢
    rcases eq_or_ne id k with rfl | hne
    · have hl : l.lookup id = none :=
        List.lookup_eq_none_iff.2 fun p hp =>
          bne_iff_ne.2 fun h => hk.1 (by rw [h]; exact List.mem_map_of_mem _ hp)
      cases hi : ops.isInitialized (st.trees r) <;>
        simp only [hi, Bool.false_eq_true, if_false, if_true, List.map_cons, List.lookup_cons_self,
          List.lookup_cons, beq_self_eq_true, ih, hl, Option.none_bind, Option.some_bind]
    · have hb : (id == k) = false := by simpa using hne
      split <;> simp only [List.map_cons, List.lookup_cons, hb, ih]

/-! ### `close(ids)` -/

/-- The columns `close(ids)` visits: each listed id that is a column, with its tree. -/
def closeSelection (st : ColumnStore T) (ids : List ParamId) : IdMap ℕ :=
  ids.filterMap fun id => (st.columns.lookup id).map fun r => (id, r)

theorem mem_closeSelection {st : ColumnStore T} {ids : List ParamId} {c : ParamId × ℕ} :
    c ∈ closeSelection st ids ↔ c.1 ∈ ids ∧ st.columns.lookup c.1 = some c.2 := by
  obtain ⟨id, r⟩ := c
  simp only [closeSelection, List.mem_filterMap, Option.map_eq_some', Prod.mk.injEq]
  constructor
  · rintro ⟨id', hm, r', hr, rfl, rfl⟩; exact ⟨hm, hr⟩
  · rintro ⟨hm, hr⟩; exact ⟨id, hm, r, hr, rfl, rfl⟩

theorem map_fst_closeSelection (st : ColumnStore T) (ids : List ParamId) :
    (closeSelection st ids).map Prod.fst = ids.filter fun id => (st.columns.lookup id).isSome := by
  induction ids with
  | nil => rfl
  | cons id ids ih =>
    simp only [closeSelection, List.filterMap_cons, List.filter_cons] at ih ⊢
    cases st.columns.lookup id <;> simp [ih]

theorem lookup_closeSelection (st : ColumnStore T) (ids : List ParamId) (id : ParamId) :
    (closeSelection st ids).lookup id = if id ∈ ids then st.columns.lookup id else none := by
  induction ids with
  | nil => rfl
  | cons id' ids ih =>
    simp only [closeSelection, List.filterMap_cons, List.mem_cons] at ih ⊢
    rcases eq_or_ne id id' with rfl | hne
    · cases hl : st.columns.lookup id <;> simp [hl, ih]
    · have hb : (id == id') = false := by simpa using hne
      cases st.columns.lookup id' <;> simp [List.lookup_cons, hb, hne, ih]

/-- The columns `close(ids)` visits on a well-formed table, for distinct ids, have distinct ids
and distinct trees. -/
theorem WellFormed.closeSelection_nodup {st : ColumnStore T} (h : st.WellFormed) {ids : List ParamId}
    (hids : ids.Nodup) :
    ((closeSelection st ids).map Prod.fst).Nodup ∧ ((closeSelection st ids).map Prod.snd).Nodup := by
  have hk : ((closeSelection st ids).map Prod.fst).Nodup := by
    rw [map_fst_closeSelection]; exact hids.filter _
  refine ⟨hk, (hk.of_map _).map_on fun x hx y hy hxy => ?_⟩
  have hsub : ∀ c ∈ closeSelection st ids, c ∈ st.columns := fun c hc =>
    mem_of_lookup_eq_some (mem_closeSelection.1 hc).2
  exact List.inj_on_of_nodup_map h.refs_nodup (hsub x hx) (hsub y hy) hxy

/-- The loop of `close(ids)` is the loop of `close()` over the columns it visits. -/
theorem foldl_closeId (st : ColumnStore T) (ids : List ParamId)
    (acc : IdMap (List LogicAddr) × ColumnStore T) (hc : acc.2.columns = st.columns) :
    ids.foldl (closeId ops) acc = (closeSelection st ids).foldl (closeColumn ops) acc := by
  induction ids generalizing acc with
  | nil => rfl
  | cons id ids ih =>
    simp only [List.foldl_cons, closeSelection, List.filterMap_cons]
    unfold closeId
    rw [hc]
    cases hl : st.columns.lookup id with
    | none => exact ih acc hc
    | some r => exact ih _ ((closeColumn_columns ops acc _).trans hc)

/-- On a well-formed table, `close(ids)` on distinct ids is `close()` restricted to them: it
returns for each listed id the entry `close()` returns for it, and no other entry; it closes the
tree of each listed id as `close()` does, and leaves every other tree as it was. -/
theorem closeIds_eq_close {st : ColumnStore T} (h : st.WellFormed) {ids : List ParamId}
    (hids : ids.Nodup) :
    (∀ id, (st.closeIds ops ids).1.lookup id = if id ∈ ids then (st.close ops).1.lookup id else none) ∧
    (∀ id ∈ ids, ∀ r, st.columns.lookup id = some r →
      (st.closeIds ops ids).2.trees r = (st.close ops).2.trees r) ∧
    (∀ r, (∀ id ∈ ids, st.columns.lookup id ≠ some r) → (st.closeIds ops ids).2.trees r = st.trees r) := by
  obtain ⟨hk, hr⟩ := h.closeSelection_nodup hids
  have hci : st.closeIds ops ids = (closedPoints ops st (closeSelection st ids),
      { st with trees := closedTrees ops st (closeSelection st ids) }) := by
    rw [closeIds, foldl_closeId st ids ([], st) rfl]
    exact foldl_closeColumn _ hk hr ([], st) fun _ _ => rfl
  rw [hci, close_eq h]
  refine ⟨fun id => ?_, fun id hid r hl => ?_, fun r hr' => ?_⟩
  · rw [lookup_closedPoints st hk, lookup_closedPoints st h.ids_nodup, lookup_closeSelection]
    split <;> rfl
  · have hs : r ∈ (closeSelection st ids).map Prod.snd :=
      List.mem_map.2 ⟨(id, r), mem_closeSelection.2 ⟨hid, hl⟩, rfl⟩
    have hc : r ∈ st.columns.map Prod.snd := List.mem_map.2 ⟨(id, r), mem_of_lookup_eq_some hl, rfl⟩
    simp only [closedTrees, hs, hc, true_and]
  · have hs : r ∉ (closeSelection st ids).map Prod.snd := fun hm => by
      obtain ⟨c, hc, rfl⟩ := List.mem_map.1 hm
      exact hr' c.1 (mem_closeSelection.1 hc).1 (mem_closeSelection.1 hc).2
    simp only [closedTrees, hs, false_and, if_false]

end ColumnStore

namespace System

variable {T : Type} {ops : NBTreeOps T} {sizeofSample : ℕ}

open ColumnStore

/-- In every system reachable by store operations, session writes and queries, `close(ids)` on
distinct ids is `close()` restricted to them: the same entry for each listed id and none for any
other, the same tree closed for each listed id, every other tree left as it was. -/
theorem closeIds_of_queryReachable [Inhabited T] {sys : System T}
    (h : QueryReachable ops sizeofSample sys) {ids : List ParamId} (hids : ids.Nodup) :
    (∀ id, (sys.store.closeIds ops ids).1.lookup id =
      if id ∈ ids then (sys.store.close ops).1.lookup id else none) ∧
    (∀ id ∈ ids, ∀ r, sys.store.columns.lookup id = some r →
      (sys.store.closeIds ops ids).2.trees r = (sys.store.close ops).2.trees r) ∧
    (∀ r, (∀ id ∈ ids, sys.store.columns.lookup id ≠ some r) →
      (sys.store.closeIds ops ids).2.trees r = sys.store.trees r) :=
  closeIds_eq_close h.wellFormed_coherent.1 hids

example : (twoColumns.store.close LogTree.ops).1 = [(1, []), (2, [])] := by decide

theorem closeIds_of_queryReachable_twoColumns :
    QueryReachable LogTree.ops 40 twoColumns ∧ [2, 7].Nodup ∧
      (∀ id, (twoColumns.store.closeIds LogTree.ops [2, 7]).1.lookup id =
        if id ∈ [2, 7] then (twoColumns.store.close LogTree.ops).1.lookup id else none) ∧
      (∀ id ∈ [2, 7], ∀ r, twoColumns.store.columns.lookup id = some r →
        (twoColumns.store.closeIds LogTree.ops [2, 7]).2.trees r =
          (twoColumns.store.close LogTree.ops).2.trees r) ∧
      (∀ r, (∀ id ∈ [2, 7], twoColumns.store.columns.lookup id ≠ some r) →
        (twoColumns.store.closeIds LogTree.ops [2, 7]).2.trees r = twoColumns.store.trees r) :=
  ⟨twoColumns_queryReachable, by decide,
    closeIds_of_queryReachable twoColumns_queryReachable (by decide)⟩

end System

end Stdb
