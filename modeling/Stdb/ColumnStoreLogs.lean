import Stdb.ColumnStoreClose

/-!
# The column store as a map of append logs

What `ColumnStore` is for: each series id names one log, the values written to the series, in
order.  This module states that purpose as an abstract machine over such maps of logs and shows
that the store implements it, for every tree class whose trees keep an append log (`LogSpec`;
`nbtree.h` is not among the sources, and what the store relies on of it is gathered there).

* `logs`: the abstraction, each column of `columns_` with the log of its tree;
* `logStep`: the machine: `create_new_column` adds an empty log, a write appends its value to
  the log of its own series when that log accepts it, `open_or_restore` adds the logs of the
  trees it restores, and closing changes no log;
* `logs_step`: on a well-formed table with coherent caches each action moves the logs as the
  machine does; queries change no log (`logs_iterate`);
* `QueryReachable.logs_run`: from every reachable system, any sequence of actions leaves the
  logs the machine's run predicts: a write reaches the log of its own series and no other, once;
* `QueryReachable.sessionWrite_stored`: a write through a session reports `OK` or
  `OK_FLUSH_NEEDED` exactly when its series exists and its log accepts the value, so a write
  that reports success was appended.

The routing rests on `WellFormed`: no two ids share a tree, so replacing the tree of one column
changes the log of that column only (`WellFormed.ref_eq_iff`).
-/

namespace Stdb

namespace ColumnStore

variable {T : Type}

/-- An entry of a log: a timestamp and the value appended at it. -/
abbrev LogEntry := Timestamp × TreeValue

/-- An append result that stored the value. -/
def stored : NBTreeAppendResult → Bool
  | .ok | .okFlushNeeded => true
  | .failBadValue | .failBadId => false

/-- A tree class read as the log of the values each tree accepted.  Whether a tree accepts a value
at a timestamp is decided by its log; an accepted append stores the value and records it at the
end of the log, a refused one changes nothing; `force_init` and `close` keep the log, and a new
tree without rescue points has an empty one. -/
structure LogSpec (ops : NBTreeOps T) where
  contents : T → List LogEntry
  accepts : List LogEntry → Timestamp → Bool → Bool
  contents_create : ∀ id, contents (ops.create id []) = []
  contents_forceInit : ∀ t, contents (ops.forceInit t) = contents t
  contents_close : ∀ t, contents (ops.close t).2 = contents t
  append : ∀ t ts v dup, stored (ops.append t ts v dup).1 = accepts (contents t) ts dup ∧
    contents (ops.append t ts v dup).2 =
      if accepts (contents t) ts dup then contents t ++ [(ts, .float v)] else contents t
  appendBlob : ∀ t ts b, stored (ops.appendBlob t ts b).1 = accepts (contents t) ts false ∧
    contents (ops.appendBlob t ts b).2 =
      if accepts (contents t) ts false then contents t ++ [(ts, .blob b)] else contents t

variable {ops : NBTreeOps T} (L : LogSpec ops)

/-! ### The abstraction and the machine -/

/-- What the store holds: each column of `columns_`, in its iteration order, with the log of its
tree. -/
def logs (st : ColumnStore T) : IdMap (List LogEntry) :=
  st.columns.map fun c => (c.1, L.contents (st.trees c.2))

/-- An append of `(ts, v)` to the log of `id`, when that log accepts it. -/
def appendLog (m : IdMap (List LogEntry)) (id : ParamId) (ts : Timestamp) (v : TreeValue)
    (dup : Bool) : IdMap (List LogEntry) :=
  m.map fun c => if c.1 = id ∧ L.accepts c.2 ts dup = true then (c.1, c.2 ++ [(ts, v)]) else c

/-- The value a write appends for a sample: its `float64` field for a float, its body cut at its
size for an event, none for another payload. -/
def sampleValue (sizeofSample : ℕ) (sample : Sample) : Option TreeValue :=
  match sample.payload.type with
  | .float => some (.float sample.payload.float64)
  | .event => some (.blob (sample.payload.data.take (eventSize sizeofSample sample.payload)))
  | .other _ => none

/-- The log machine: what each action of the system does to the logs. -/
def logStep (sizeofSample : ℕ) (m : IdMap (List LogEntry)) : Action → IdMap (List LogEntry)
  | .openOrRestore mapping forceInit =>
    m ++ (mapping.entries.takeWhile fun e => m.lookup e.1 = none).map fun e =>
      (e.1, L.contents (openedTree ops forceInit e.1 e.2))
  | .createNewColumn id => if (m.lookup id).isSome then m else m ++ [(id, [])]
  | .write sample | .sessionWrite _ sample =>
    match sampleValue sizeofSample sample with
    | some v => appendLog L m sample.paramid sample.timestamp v false
    | none => m
  | .recoveryWrite sample dup =>
    appendLog L m sample.paramid sample.timestamp (.float sample.payload.float64) dup
  | .close | .closeIds _ => m

/-- The machine over a sequence of actions. -/
def logRun (sizeofSample : ℕ) (m : IdMap (List LogEntry)) (as : List Action) :
    IdMap (List LogEntry) :=
  as.foldl (logStep L sizeofSample) m

theorem lookup_map_snd {β γ : Type} (g : β → γ) (l : IdMap β) (id : ParamId) :
    (l.map fun c => (c.1, g c.2)).lookup id = (l.lookup id).map g := by
  induction l with
  | nil => rfl
  | cons c l ih =>
    obtain ⟨k, b⟩ := c
    simp only [List.map_cons, List.lookup_cons]
    cases id == k <;> simp [ih]

/-- The logs list the ids of `columns_`. -/
theorem lookup_logs (st : ColumnStore T) (id : ParamId) :
    (logs L st).lookup id = (st.columns.lookup id).map fun r => L.contents (st.trees r) :=
  lookup_map_snd (fun r => L.contents (st.trees r)) st.columns id

/-- An append to an id with no log changes nothing. -/
theorem appendLog_of_lookup_none {m : IdMap (List LogEntry)} {id : ParamId}
    (hl : m.lookup id = none) (ts : Timestamp) (v : TreeValue) (dup : Bool) :
    appendLog L m id ts v dup = m := by
  conv_rhs => rw [← List.map_id m]
  refine List.map_congr_left fun c hc => ?_
  have hne : c.1 ≠ id := fun e => by simpa [e] using List.lookup_eq_none_iff.1 hl c hc
  simp [hne]

/-! ### Operations that keep every log -/

/-- `st'` has the columns of `st`, and each of its trees the log of the tree it replaces. -/
def KeepsLogs (st st' : ColumnStore T) : Prop :=
  st'.columns = st.columns ∧ ∀ r, L.contents (st'.trees r) = L.contents (st.trees r)

theorem KeepsLogs.refl (st : ColumnStore T) : KeepsLogs L st st := ⟨rfl, fun _ => rfl⟩

theorem KeepsLogs.trans {st₁ st₂ st₃ : ColumnStore T} (h₁ : KeepsLogs L st₁ st₂)
    (h₂ : KeepsLogs L st₂ st₃) : KeepsLogs L st₁ st₃ :=
  ⟨h₂.1.trans h₁.1, fun r => (h₂.2 r).trans (h₁.2 r)⟩

theorem KeepsLogs.logs_eq {st st' : ColumnStore T} (h : KeepsLogs L st st') : logs L st' = logs L st := by
  simp only [logs, h.1, h.2]

theorem keepsLogs_setTree (st : ColumnStore T) {r : ℕ} {t : T}
    (ht : L.contents t = L.contents (st.trees r)) : KeepsLogs L st (st.setTree r t) := by
  refine ⟨rfl, fun r' => ?_⟩
  rcases eq_or_ne r' r with rfl | hne
  · simp only [setTree_trees, Function.update_same, ht]
  · simp only [setTree_trees, Function.update_noteq hne]

theorem keepsLogs_ready (st : ColumnStore T) (r : ℕ) : KeepsLogs L st (ready ops st r) := by
  unfold ready
  split
  · exact .refl L _
  · exact keepsLogs_setTree L _ (L.contents_forceInit _)

theorem keepsLogs_closeColumn (acc : IdMap (List LogicAddr) × ColumnStore T) (c : ParamId × ℕ) :
    KeepsLogs L acc.2 (closeColumn ops acc c).2 := by
  unfold closeColumn
  split
  · exact keepsLogs_setTree L _ (L.contents_close _)
  · exact .refl L _

theorem keepsLogs_closeId (acc : IdMap (List LogicAddr) × ColumnStore T) (id : ParamId) :
    KeepsLogs L acc.2 (closeId ops acc id).2 := by
  unfold closeId
  split
  · exact keepsLogs_closeColumn L _ _
  · exact .refl L _

theorem keepsLogs_foldl {α : Type}
    (f : IdMap (List LogicAddr) × ColumnStore T → α → IdMap (List LogicAddr) × ColumnStore T)
    (hf : ∀ acc a, KeepsLogs L acc.2 (f acc a).2) (l : List α)
    (acc : IdMap (List LogicAddr) × ColumnStore T) : KeepsLogs L acc.2 (l.foldl f acc).2 := by
  induction l generalizing acc with
  | nil => exact .refl L _
  | cons a l ih => exact (hf acc a).trans L (ih _)

/-- A query changes no log: it only initialises the trees it visits. -/
theorem logs_iterate {I : Type} (fn : T → Status × Option I) (ids : List ParamId)
    (dest : List (Option I)) (st : ColumnStore T) : logs L (iterate ops fn ids dest st).2.2 = logs L st := by
  suffices h : KeepsLogs L st (iterate ops fn ids dest st).2.2 from h.logs_eq
  induction ids generalizing st dest with
  | nil => exact .refl L _
  | cons id ids ih =>
    simp only [iterate]
    split
    · split
      · exact (keepsLogs_ready L _ _).trans L (ih _ _)
      · exact keepsLogs_ready L _ _
    · exact .refl L _

/-! ### Writes reach the log of their own series -/

/-- On a well-formed table the column `(id, r)` is the only one with id `id` and the only one
with tree `r`. -/
theorem WellFormed.ref_eq_iff {st : ColumnStore T} (h : st.WellFormed) {id : ParamId} {r : ℕ}
    (hl : st.columns.lookup id = some r) {c : ParamId × ℕ} (hc : c ∈ st.columns) :
    c.2 = r ↔ c.1 = id := by
  have hm := mem_of_lookup_eq_some hl
  constructor
  · intro he; rw [List.inj_on_of_nodup_map h.refs_nodup hc hm he]
  · intro he; rw [List.inj_on_of_nodup_map h.ids_nodup hc hm he]

/-- The tree of the column of `id` replaced by one whose log is the old log with `(ts, v)`
appended when it accepts it: the logs gain that append, and only that. -/
theorem logs_setTree_append {st : ColumnStore T} (h : st.WellFormed) {id : ParamId} {r : ℕ}
    (hl : st.columns.lookup id = some r) {t : T} {ts : Timestamp} {v : TreeValue} {dup : Bool}
    (ht : L.contents t = if L.accepts (L.contents (st.trees r)) ts dup
      then L.contents (st.trees r) ++ [(ts, v)] else L.contents (st.trees r)) :
    logs L (st.setTree r t) = appendLog L (logs L st) id ts v dup := by
  simp only [logs, appendLog, List.map_map, setTree_columns, setTree_trees]
  refine List.map_congr_left fun c hc => ?_
  simp only [Function.comp]
  by_cases hr : c.2 = r
  · -- the column written to
    have hid := (h.ref_eq_iff hl hc).1 hr
    rw [hr, Function.update_same, ht, hid]
    split_ifs <;> simp_all
  · -- every other column keeps its tree
    have hid : c.1 ≠ id := fun e => hr ((h.ref_eq_iff hl hc).2 e)
    simp [Function.update_noteq hr, hid]

/-- The payload dispatch appends the sample's value, as the log spec says. -/
theorem appendSample_logged (sizeofSample : ℕ) (t : T) {sample : Sample} {v : TreeValue}
    (hv : sampleValue sizeofSample sample = some v) :
    stored (appendSample ops sizeofSample t sample).1 = L.accepts (L.contents t) sample.timestamp false ∧
    L.contents (appendSample ops sizeofSample t sample).2 =
      if L.accepts (L.contents t) sample.timestamp false
      then L.contents t ++ [(sample.timestamp, v)] else L.contents t := by
  cases hty : sample.payload.type with
  | float =>
    simp only [sampleValue, hty, Option.some.injEq] at hv
    simp only [appendSample, hty, ← hv]; exact L.append ..
  | event =>
    simp only [sampleValue, hty, Option.some.injEq] at hv
    simp only [appendSample, hty, ← hv]; exact L.appendBlob ..
  | other c => simp only [sampleValue, hty] at hv; cases hv

theorem appendSample_of_none (sizeofSample : ℕ) (t : T) {sample : Sample}
    (hv : sampleValue sizeofSample sample = none) : appendSample ops sizeofSample t sample = (.ok, t) := by
  cases hty : sample.payload.type with
  | float | event => simp only [sampleValue, hty] at hv; cases hv
  | other c => simp only [appendSample, hty]

/-- `ColumnStore::write`: the value of a float or an event goes to the log of its own series when
that log accepts it; nothing else changes. -/
theorem logs_write (sizeofSample : ℕ) {st : ColumnStore T} (h : st.WellFormed) (sample : Sample)
    (cache : Option (IdMap ℕ)) :
    logs L (st.write ops sizeofSample sample cache).2.2.1 =
      match sampleValue sizeofSample sample with
      | some v => appendLog L (logs L st) sample.paramid sample.timestamp v false
      | none => logs L st := by
  cases hl : st.columns.lookup sample.paramid with
  | none =>
    have hn : (logs L st).lookup sample.paramid = none := by rw [lookup_logs, hl]; rfl
    simp only [write, hl]
    split <;> simp only [appendLog_of_lookup_none L hn]
  | some r =>
    simp only [write, hl]
    split
    · rename_i v hv
      exact logs_setTree_append L h hl (appendSample_logged L sizeofSample _ hv).2
    · rename_i hv
      rw [appendSample_of_none sizeofSample _ hv]
      exact (keepsLogs_setTree L st rfl).logs_eq

/-- `ColumnStore::recovery_write`: the `float64` field goes to the log of its own series when
that log accepts it, duplicates allowed or not; nothing else changes. -/
theorem logs_recoveryWrite {st : ColumnStore T} (h : st.WellFormed) (sample : Sample) (dup : Bool) :
    logs L (st.recoveryWrite ops sample dup).2 =
      appendLog L (logs L st) sample.paramid sample.timestamp (.float sample.payload.float64) dup := by
  unfold recoveryWrite
  cases hl : st.columns.lookup sample.paramid with
  | none =>
    have hn : (logs L st).lookup sample.paramid = none := by rw [lookup_logs, hl]; rfl
    rw [appendLog_of_lookup_none L hn]
  | some r => exact logs_setTree_append L h hl (L.append ..).2

/-! ### New columns -/

/-- A column added at a fresh reference adds its log at the end. -/
theorem logs_insertColumn {st : ColumnStore T} (hlt : ∀ c ∈ st.columns, c.2 < st.next)
    (id : ParamId) (t : T) : logs L (st.insertColumn id t) = logs L st ++ [(id, L.contents t)] := by
  simp only [logs, insertColumn_columns, insertColumn_trees, List.map_append, List.map_cons,
    List.map_nil, Function.update_same]
  refine congrArg (· ++ _) (List.map_congr_left fun c hc => ?_)
  rw [Function.update_noteq (hlt c hc).ne]

theorem refs_lt_insertColumn {st : ColumnStore T} (hlt : ∀ c ∈ st.columns, c.2 < st.next)
    (id : ParamId) (t : T) : ∀ c ∈ (st.insertColumn id t).columns, c.2 < (st.insertColumn id t).next := by
  intro c hc
  simp only [insertColumn_columns, List.mem_append, List.mem_singleton, insertColumn_next] at hc ⊢
  rcases hc with hc | rfl
  · exact Nat.lt_succ_of_lt (hlt c hc)
  · exact Nat.lt_succ_self _

/-- `create_new_column(id)`: an empty log for a new id. -/
theorem logs_createNewColumn {st : ColumnStore T} (h : st.WellFormed) (id : ParamId) :
    logs L (st.createNewColumn ops id).2 =
      if ((logs L st).lookup id).isSome then logs L st else logs L st ++ [(id, [])] := by
  have hsome : ((logs L st).lookup id).isSome = (st.columns.lookup id).isSome := by
    rw [lookup_logs]; cases st.columns.lookup id <;> rfl
  rw [hsome]
  unfold createNewColumn
  split
  · rfl
  · dsimp only
    rw [(keepsLogs_setTree L _ (L.contents_forceInit _)).logs_eq, logs_insertColumn L h.refs_lt,
      L.contents_create]

theorem logs_restoreEntry (forceInit : Bool) {st : ColumnStore T}
    (hlt : ∀ c ∈ st.columns, c.2 < st.next) (id : ParamId) (rp : List LogicAddr) :
    logs L (restoreEntry ops forceInit st id rp).1 =
      logs L st ++ [(id, L.contents (openedTree ops forceInit id rp))] := by
  rw [restoreEntry_eq]; exact logs_insertColumn L hlt _ _

theorem refs_lt_restoreEntry (forceInit : Bool) {st : ColumnStore T}
    (hlt : ∀ c ∈ st.columns, c.2 < st.next) (id : ParamId) (rp : List LogicAddr) :
    ∀ c ∈ (restoreEntry ops forceInit st id rp).1.columns, c.2 < (restoreEntry ops forceInit st id rp).1.next := by
  rw [restoreEntry_eq]; exact refs_lt_insertColumn hlt id (openedTree ops forceInit id rp)

/-- Restoring a run of entries adds their logs, as their opened trees hold them, in order. -/
theorem logs_restoreAll (forceInit : Bool) (es : List (ParamId × List LogicAddr))
    {st : ColumnStore T} (hlt : ∀ c ∈ st.columns, c.2 < st.next) :
    logs L (restoreAll ops forceInit es st) =
      logs L st ++ es.map fun e => (e.1, L.contents (openedTree ops forceInit e.1 e.2)) := by
  induction es generalizing st with
  | nil => simp
  | cons e es ih =>
    rw [restoreAll_cons, @ih _ (refs_lt_restoreEntry forceInit hlt _ _),
      logs_restoreEntry L forceInit hlt, List.map_cons, List.append_assoc, List.singleton_append]

/-- `open_or_restore`: the logs of the entries restored before the first clash are added, each as
its opened tree holds it; every other log is kept. -/
theorem logs_openOrRestore {st : ColumnStore T} (h : st.WellFormed) (mapping : RescueMapping)
    (forceInit : Bool) :
    logs L (st.openOrRestore ops mapping forceInit).2 =
      logs L st ++ (mapping.entries.takeWhile fun e => (logs L st).lookup e.1 = none).map fun e =>
        (e.1, L.contents (openedTree ops forceInit e.1 e.2)) := by
  -- the logs name the columns, so both read the same entries as fresh
  have hfresh : (fun e : ParamId × List LogicAddr => decide ((logs L st).lookup e.1 = none)) =
      fun e => decide (st.columns.lookup e.1 = none) :=
    funext fun e => by simp only [lookup_logs, Option.map_eq_none']
  rw [openOrRestore, openOrRestoreLoop_eq forceInit st mapping.entries st [] mapping.nodup
    fun _ _ => rfl, hfresh]
  exact logs_restoreAll L forceInit _ h.refs_lt

end ColumnStore

/-- Modelled from the spec: a `LogTree` accepts a value at or after its last timestamp, and any
value when duplicates are allowed. -/
def LogTree.accepts (log : List ColumnStore.LogEntry) (ts : Timestamp) (dup : Bool) : Bool :=
  dup || !decide (ts < (log.getLast?.map (·.1)).getD 0)

theorem LogTree.appendValue_logged (t : LogTree) (ts : Timestamp) (v : TreeValue) (dup : Bool) :
    ColumnStore.stored (t.appendValue ts v dup).1 = LogTree.accepts t.entries ts dup ∧
    (t.appendValue ts v dup).2.entries =
      if LogTree.accepts t.entries ts dup then t.entries ++ [(ts, v)] else t.entries := by
  unfold LogTree.appendValue LogTree.accepts LogTree.lastTimestamp
  by_cases h : ts < (t.entries.getLast?.map (·.1)).getD 0 <;> cases dup <;>
    simp [h, ColumnStore.stored]

/-- Modelled from the spec: a `LogTree`'s log is its entries. -/
def LogTree.logSpec : ColumnStore.LogSpec LogTree.ops where
  contents t := t.entries
  accepts := LogTree.accepts
  contents_create _ := rfl
  contents_forceInit _ := rfl
  contents_close _ := rfl
  append t ts v dup := t.appendValue_logged ts (.float v) dup
  appendBlob t ts b := t.appendValue_logged ts (.blob b) false

namespace System

/-- The system after a sequence of actions. -/
def run {T : Type} (sys : System T) (ops : NBTreeOps T) (sizeofSample : ℕ) (as : List Action) :
    System T :=
  as.foldl (fun sys a => sys.step ops sizeofSample a) sys

variable {T : Type} {ops : NBTreeOps T} {sizeofSample : ℕ} (L : ColumnStore.LogSpec ops)

open ColumnStore

/-- A session write of a float or an event on a coherent cache is `ColumnStore::write`; of any
other payload it changes nothing. -/
theorem sessionWrite_store {st : ColumnStore T} {cache : IdMap ℕ} (hc : CacheCoherent st cache)
    (sample : Sample) :
    (CStoreSession.write ops sizeofSample st cache sample).2.2.1 =
      match sampleValue sizeofSample sample with
      | some _ => (st.write ops sizeofSample sample none).2.2.1
      | none => st := by
  cases hty : sample.payload.type with
  | float =>
    simp only [sampleValue, hty]
    exact congrArg (·.2.2) (CStoreSession.write_eq_write ops sizeofSample hc (.inl hty)).1
  | event =>
    simp only [sampleValue, hty]
    exact congrArg (·.2.2) (CStoreSession.write_eq_write ops sizeofSample hc (.inr hty)).1
  | other c => simp only [sampleValue, hty, CStoreSession.write]

/-- One action on a well-formed table with coherent caches moves the logs as the machine does. -/
theorem logs_step {sys : System T} (h : sys.store.WellFormed) (hc : sys.Coherent) (a : Action) :
    logs L (sys.step ops sizeofSample a).store = logStep L sizeofSample (logs L sys.store) a := by
  cases a with
  | openOrRestore mapping forceInit => exact logs_openOrRestore L h mapping forceInit
  | createNewColumn id => exact logs_createNewColumn L h id
  | write sample => exact logs_write L sizeofSample h sample none
  | recoveryWrite sample dup => exact logs_recoveryWrite L h sample dup
  | close => exact (keepsLogs_foldl L _ (keepsLogs_closeColumn L) _ _).logs_eq
  | closeIds ids => exact (keepsLogs_foldl L _ (keepsLogs_closeId L) _ _).logs_eq
  | sessionWrite k sample =>
    show logs L (CStoreSession.write ops sizeofSample sys.store (sys.sessions k) sample).2.2.1 = _
    have hw := logs_write L sizeofSample h sample none
    rw [sessionWrite_store (hc k)]
    simp only [logStep]
    rcases hv : sampleValue sizeofSample sample with _ | v
    · simp only [hv]
    · simpa only [hv] using hw

/-- From every system reachable by store operations, session writes and queries, any sequence
of actions leaves the logs the log machine's run predicts: each write of a float or an event
reaches the log of its own series and no other, appended once when that log accepts it; a new
column starts an empty log, restoring adds the restored logs, and closing changes none. -/
theorem QueryReachable.logs_run [Inhabited T] {sys : System T}
    (h : QueryReachable ops sizeofSample sys) (as : List Action) :
    logs L (sys.run ops sizeofSample as).store =
      logRun L sizeofSample (logs L sys.store) as := by
  obtain ⟨hw, hc⟩ := h.wellFormed_coherent
  clear h
  induction as generalizing sys with
  | nil => rfl
  | cons a as ih =>
    simp only [run, List.foldl_cons, logRun] at ih ⊢
    rw [ih (step_wellFormed hw a) (step_coherent hc a), logs_step L hw hc a]

/-- `twoColumns`, then a float to column `2` at time `7` and a session write of an event to
column `1` at time `4`: the log of `2` gains the float, the event is refused by the log of `1`,
whose last timestamp is `5`. -/
theorem logs_run_twoColumns :
    QueryReachable LogTree.ops 40 twoColumns ∧
      logs LogTree.logSpec (twoColumns.run LogTree.ops 40
          [.write ⟨2, 7, ⟨.float, 40, .ofU64 8, []⟩⟩,
            .sessionWrite 1 ⟨1, 4, ⟨.event, 42, .indeterminate, [9, 9]⟩⟩]).store =
        logRun LogTree.logSpec 40 (logs LogTree.logSpec twoColumns.store)
          [.write ⟨2, 7, ⟨.float, 40, .ofU64 8, []⟩⟩,
            .sessionWrite 1 ⟨1, 4, ⟨.event, 42, .indeterminate, [9, 9]⟩⟩] :=
  ⟨twoColumns_queryReachable, QueryReachable.logs_run LogTree.logSpec twoColumns_queryReachable _⟩

example : logRun LogTree.logSpec 40 (logs LogTree.logSpec twoColumns.store)
    [.write ⟨2, 7, ⟨.float, 40, .ofU64 8, []⟩⟩,
      .sessionWrite 1 ⟨1, 4, ⟨.event, 42, .indeterminate, [9, 9]⟩⟩] =
    [(1, [(5, .float (.ofU64 3))]), (2, [(7, .float (.ofU64 8))])] := by decide

/-- In every system reachable by store operations, session writes and queries, a write of a float
or an event through any session reports `OK` or `OK_FLUSH_NEEDED` exactly when its series is a
column and the series' log accepts the value at its timestamp; with `QueryReachable.logs_run`,
a write that reports success has been appended to the log of its series. -/
theorem QueryReachable.sessionWrite_stored [Inhabited T] {sys : System T}
    (h : QueryReachable ops sizeofSample sys) (k : ℕ) {sample : Sample} {v : TreeValue}
    (hv : sampleValue sizeofSample sample = some v) :
    stored (CStoreSession.write ops sizeofSample sys.store (sys.sessions k) sample).1 =
      ((logs L sys.store).lookup sample.paramid).any fun log => L.accepts log sample.timestamp false := by
  have hty : sample.payload.type = .float ∨ sample.payload.type = .event := by
    cases hty : sample.payload.type with
    | float => exact .inl rfl
    | event => exact .inr rfl
    | other c => simp only [sampleValue, hty] at hv; cases hv
  rw [congrArg (·.1) (CStoreSession.write_eq_write ops sizeofSample (h.wellFormed_coherent.2 k) hty).1,
    lookup_logs]
  unfold ColumnStore.write
  cases sys.store.columns.lookup sample.paramid with
  | none => rfl
  | some r => exact (appendSample_logged L sizeofSample _ hv).1

theorem sessionWrite_stored_twoColumns :
    QueryReachable LogTree.ops 40 twoColumns ∧
      sampleValue 40 ⟨1, 4, ⟨.event, 42, .indeterminate, [9, 9]⟩⟩ = some (.blob [9, 9]) ∧
      stored (CStoreSession.write LogTree.ops 40 twoColumns.store (twoColumns.sessions 1)
          ⟨1, 4, ⟨.event, 42, .indeterminate, [9, 9]⟩⟩).1 =
        ((logs LogTree.logSpec twoColumns.store).lookup 1).any
          fun log => LogTree.logSpec.accepts log 4 false :=
  ⟨twoColumns_queryReachable, rfl,
    QueryReachable.sessionWrite_stored LogTree.logSpec twoColumns_queryReachable 1 rfl⟩

end System

end Stdb
