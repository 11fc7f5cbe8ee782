import Stdb.ColumnStore

/-!
# Sessions over a shared column store

A `CStoreSession` keeps `cache_`, the trees it has written to, keyed by series id.  A cache hit
appends to the cached tree without looking at `columns_`, which is right only while every cache
entry names the tree `columns_` binds the id to.  This module models the whole system, one store
and any number of sessions, with each store operation and each session write as an action:

* no action removes or rebinds a binding of `columns_` (`step_extends`);
* so in every reachable system each cache entry agrees with `columns_` (`Reachable.coherent`);
* so writing samples through a session gives the same results, rescue-point outputs and trees
  as writing them with `ColumnStore::write` and no cache (`cstoreSession_write_agrees`).
-/

namespace Stdb

variable {T : Type} (ops : NBTreeOps T) (sizeofSample : ℕ)

namespace ColumnStore

/-- `st'` keeps every binding of `columns_` that `st` has. -/
def Extends (st st' : ColumnStore T) : Prop :=
  ∀ id r, st.columns.lookup id = some r → st'.columns.lookup id = some r

theorem extends_of_columns_append {st st' : ColumnStore T} {l : IdMap ℕ}
    (h : st'.columns = st.columns ++ l) : Extends st st' := fun _ _ hr => by
  rw [h]; exact IdMap.lookup_append_of_eq_some hr

theorem extends_of_columns_eq {st st' : ColumnStore T} (h : st'.columns = st.columns) :
    Extends st st' := fun _ _ hr => by rw [h]; exact hr

/-- A session's cache agrees with `columns_`. -/
def CacheCoherent (st : ColumnStore T) (cache : IdMap ℕ) : Prop :=
  ∀ id r, cache.lookup id = some r → st.columns.lookup id = some r

theorem CacheCoherent.mono {st st' : ColumnStore T} {cache : IdMap ℕ}
    (hc : CacheCoherent st cache) (hext : Extends st st') : CacheCoherent st' cache :=
  fun id r h => hext id r (hc id r h)

/-- `cache_or_null->insert({id, tree})` with the tree `columns_` binds `id` to keeps the cache
coherent. -/
theorem CacheCoherent.insert {st : ColumnStore T} {cache : IdMap ℕ} {id r : ℕ}
    (hc : CacheCoherent st cache) (h : st.columns.lookup id = some r) :
    CacheCoherent st (cache.insert id r) := by
  intro id' r' h'
  unfold IdMap.insert at h'
  split at h'
  · exact hc _ _ h'
  · rw [List.lookup_append] at h'
    cases hl : cache.lookup id' with
    | some _ => rw [hl] at h'; exact hc _ _ (hl.trans h')
    | none =>
      by_cases hid : id' = id
      · subst hid; simpa [hl, List.lookup_cons, h] using h'
      · have hne : (id' == id) = false := by simpa using hid
        simp [hl, List.lookup_cons, hne] at h'

end ColumnStore

open ColumnStore

/-! ### One session write -/

section Write

variable {st : ColumnStore T} {cache : IdMap ℕ} {sample : Sample}

theorem CStoreSession.write_columns :
    (CStoreSession.write ops sizeofSample st cache sample).2.2.1.columns = st.columns := by
  unfold CStoreSession.write CStoreSession.writeThroughCache
  split
  · rfl
  · split
    · rfl
    · exact ColumnStore.write_columns ..

/-- With a coherent cache, a session write of a float or an event gives the result, the
rescue-point output and the store that `ColumnStore::write` with no cache gives, and leaves the
cache coherent with the new store. -/
theorem CStoreSession.write_eq_write (hc : CacheCoherent st cache)
    (htype : sample.payload.type = .float ∨ sample.payload.type = .event) :
    let sw := CStoreSession.write ops sizeofSample st cache sample
    let w := st.write ops sizeofSample sample none
    (sw.1, sw.2.1, sw.2.2.1) = (w.1, w.2.1, w.2.2.1) ∧ CacheCoherent sw.2.2.1 sw.2.2.2 := by
  have hcached : CStoreSession.write ops sizeofSample st cache sample =
      CStoreSession.writeThroughCache ops sizeofSample st cache sample := by
    rcases htype with h | h <;> simp only [CStoreSession.write, h]
  simp only [hcached, CStoreSession.writeThroughCache]
  cases hcache : cache.lookup sample.paramid with
  | some r =>
    have hcol := hc _ _ hcache
    refine ⟨by simp [ColumnStore.write, hcol], CacheCoherent.mono hc ?_⟩
    exact extends_of_columns_eq rfl
  | none =>
    cases hcol : st.columns.lookup sample.paramid with
    | some r =>
      refine ⟨by simp [ColumnStore.write, hcol], ?_⟩
      simp only [ColumnStore.write, hcol, Option.map_some', Option.getD_some]
      exact (hc.insert hcol).mono (extends_of_columns_eq rfl)
    | none =>
      refine ⟨by simp [ColumnStore.write, hcol], ?_⟩
      simpa only [ColumnStore.write, hcol, Option.getD_some] using hc

/-- Every session write, whatever the payload, leaves the cache coherent. -/
theorem CStoreSession.write_coherent (hc : CacheCoherent st cache) :
    CacheCoherent (CStoreSession.write ops sizeofSample st cache sample).2.2.1
      (CStoreSession.write ops sizeofSample st cache sample).2.2.2 := by
  cases htype : sample.payload.type with
  | other c => simpa only [CStoreSession.write, htype] using hc
  | float => exact (CStoreSession.write_eq_write ops sizeofSample hc (.inl htype)).2
  | event => exact (CStoreSession.write_eq_write ops sizeofSample hc (.inr htype)).2

end Write

/-- Writing samples one after the other through a session whose cache is `cache`: each write's
result and rescue-point output, the final store and the final cache. -/
def CStoreSession.writeAll (st : ColumnStore T) (cache : IdMap ℕ) :
    List Sample → List (NBTreeAppendResult × Option (List LogicAddr)) × ColumnStore T × IdMap ℕ
  | [] => ([], st, cache)
  | sample :: rest =>
    let (res, out, st', cache') := CStoreSession.write ops sizeofSample st cache sample
    let (outs, st'', cache'') := writeAll st' cache' rest
    ((res, out) :: outs, st'', cache'')

/-- Writing samples one after the other with `ColumnStore::write` and no cache. -/
def ColumnStore.writeAll (st : ColumnStore T) :
    List Sample → List (NBTreeAppendResult × Option (List LogicAddr)) × ColumnStore T
  | [] => ([], st)
  | sample :: rest =>
    let (res, out, st', _) := st.write ops sizeofSample sample none
    let (outs, st'') := writeAll st' rest
    ((res, out) :: outs, st'')

theorem CStoreSession.writeAll_eq {st : ColumnStore T} {cache : IdMap ℕ}
    (hc : CacheCoherent st cache) (samples : List Sample)
    (htype : ∀ s ∈ samples, s.payload.type = .float ∨ s.payload.type = .event) :
    (CStoreSession.writeAll ops sizeofSample st cache samples).1 =
        (ColumnStore.writeAll ops sizeofSample st samples).1 ∧
      (CStoreSession.writeAll ops sizeofSample st cache samples).2.1 =
        (ColumnStore.writeAll ops sizeofSample st samples).2 := by
  induction samples generalizing st cache with
  | nil => exact ⟨rfl, rfl⟩
  | cons sample rest ih =>
    obtain ⟨heq, hc'⟩ := CStoreSession.write_eq_write ops sizeofSample hc
      (htype sample (List.mem_cons_self _ _))
    simp only [Prod.mk.injEq] at heq
    obtain ⟨h1, h2⟩ := ih hc' fun s hs => htype s (List.mem_cons_of_mem _ hs)
    simp only [CStoreSession.writeAll, ColumnStore.writeAll, ← heq.1, ← heq.2.1, ← heq.2.2]
    exact ⟨by rw [h1], h2⟩

/-! ### The system -/

/-- A store and the caches of its sessions; a session that has not written has an empty
cache. -/
structure System (T : Type) where
  store : ColumnStore T
  sessions : ℕ → IdMap ℕ

/-- The operations on the system: the store's own, and a write through session `session`. -/
inductive Action
  | openOrRestore (mapping : RescueMapping) (forceInit : Bool)
  | createNewColumn (id : ParamId)
  | write (sample : Sample)
  | recoveryWrite (sample : Sample) (allowDuplicates : Bool)
  | close
  | closeIds (ids : List ParamId)
  | sessionWrite (session : ℕ) (sample : Sample)

namespace System

/-- A new store with its sessions. -/
def init [Inhabited T] : System T := ⟨ColumnStore.empty, fun _ => []⟩

/-- One action. -/
def step (sys : System T) : Action → System T
  | .openOrRestore mapping forceInit =>
    { sys with store := (sys.store.openOrRestore ops mapping forceInit).2 }
  | .createNewColumn id => { sys with store := (sys.store.createNewColumn ops id).2 }
  | .write sample => { sys with store := (sys.store.write ops sizeofSample sample none).2.2.1 }
  | .recoveryWrite sample allowDuplicates =>
    { sys with store := (sys.store.recoveryWrite ops sample allowDuplicates).2 }
  | .close => { sys with store := (sys.store.close ops).2 }
  | .closeIds ids => { sys with store := (sys.store.closeIds ops ids).2 }
  | .sessionWrite k sample =>
    let w := CStoreSession.write ops sizeofSample sys.store (sys.sessions k) sample
    ⟨w.2.2.1, Function.update sys.sessions k w.2.2.2⟩

/-- The systems reachable from a new store by any sequence of actions. -/
inductive Reachable [Inhabited T] : System T → Prop
  | init : Reachable init
  | step {sys : System T} (a : Action) : Reachable sys → Reachable (sys.step ops sizeofSample a)

/-- Every cache of the system agrees with `columns_`. -/
def Coherent (sys : System T) : Prop := ∀ k, CacheCoherent sys.store (sys.sessions k)

variable {ops sizeofSample}

/-- The store operations keep every binding of `columns_`. -/
theorem step_extends (sys : System T) (a : Action) (ha : ∀ k sample, a ≠ .sessionWrite k sample) :
    Extends sys.store (sys.step ops sizeofSample a).store := by
  cases a with
  | openOrRestore mapping forceInit =>
    apply extends_of_columns_append
    rw [step, openOrRestore, openOrRestoreLoop_eq forceInit sys.store _ _ [] mapping.nodup
      fun _ _ => rfl]
    exact restoreAll_columns ..
  | createNewColumn id =>
    intro id' r h
    rw [step, createNewColumn_columns]
    split
    · exact h
    · exact IdMap.lookup_append_of_eq_some h
  | write sample => exact extends_of_columns_eq (write_columns ..)
  | recoveryWrite sample dup => exact extends_of_columns_eq (recoveryWrite_columns ..)
  | close => exact extends_of_columns_eq (close_columns ..)
  | closeIds ids => exact extends_of_columns_eq (closeIds_columns ..)
  | sessionWrite k sample => exact absurd rfl (ha k sample)

theorem step_coherent {sys : System T} (hc : sys.Coherent) (a : Action) :
    (sys.step ops sizeofSample a).Coherent := by
  cases a with
  | sessionWrite k sample =>
    intro k'
    show CacheCoherent (CStoreSession.write ops sizeofSample sys.store (sys.sessions k) sample).2.2.1
      (Function.update sys.sessions k _ k')
    rcases eq_or_ne k' k with rfl | hk
    · rw [Function.update_same]; exact CStoreSession.write_coherent ops sizeofSample (hc k')
    · rw [Function.update_noteq hk]
      exact (hc k').mono (extends_of_columns_eq (CStoreSession.write_columns ..))
  | _ => exact fun k => (hc k).mono (step_extends sys _ (by simp))

theorem Reachable.coherent [Inhabited T] {sys : System T} (h : Reachable ops sizeofSample sys) :
    sys.Coherent := by
  induction h with
  | init => intro k id r h; simp [System.init] at h
  | step a _ ih => exact step_coherent ih a

end System

/-- In every system reachable by any interleaving of store operations and session writes,
writing a sequence of float and event samples through any session gives the same results and
rescue-point outputs, and leaves the same store (the same trees with the same appends), as
writing them with `ColumnStore::write` and no cache. -/
theorem cstoreSession_write_agrees [Inhabited T] {sys : System T}
    (hsys : System.Reachable ops sizeofSample sys) (k : ℕ) (samples : List Sample)
    (htype : ∀ s ∈ samples, s.payload.type = .float ∨ s.payload.type = .event) :
    (CStoreSession.writeAll ops sizeofSample sys.store (sys.sessions k) samples).1 =
        (ColumnStore.writeAll ops sizeofSample sys.store samples).1 ∧
      (CStoreSession.writeAll ops sizeofSample sys.store (sys.sessions k) samples).2.1 =
        (ColumnStore.writeAll ops sizeofSample sys.store samples).2 :=
  CStoreSession.writeAll_eq ops sizeofSample (hsys.coherent k) samples htype

/-- A system where session `0` has cached column `9` after a float write. -/
def cachedSystem : System LogTree :=
  (System.init.step LogTree.ops 40 (.createNewColumn 9)).step LogTree.ops 40
    (.sessionWrite 0 ⟨9, 100, ⟨.float, 40, .ofU64 5, []⟩⟩)

/-- An event and a float for column `9`. -/
def replaySamples : List Sample :=
  [⟨9, 200, ⟨.event, 42, .indeterminate, [7, 8]⟩⟩, ⟨9, 300, ⟨.float, 40, .ofU64 6, []⟩⟩]

theorem cstoreSession_write_agrees_cached_column :
    System.Reachable LogTree.ops 40 cachedSystem ∧
      (∀ s ∈ replaySamples, s.payload.type = .float ∨ s.payload.type = .event) ∧
      (CStoreSession.writeAll LogTree.ops 40 cachedSystem.store (cachedSystem.sessions 0)
          replaySamples).1 = (ColumnStore.writeAll LogTree.ops 40 cachedSystem.store replaySamples).1 ∧
      (CStoreSession.writeAll LogTree.ops 40 cachedSystem.store (cachedSystem.sessions 0)
          replaySamples).2.1 = (ColumnStore.writeAll LogTree.ops 40 cachedSystem.store replaySamples).2 :=
  have hreach : System.Reachable LogTree.ops 40 cachedSystem := .step _ (.step _ .init)
  have htype : ∀ s ∈ replaySamples, s.payload.type = .float ∨ s.payload.type = .event := by decide
  ⟨hreach, htype, cstoreSession_write_agrees LogTree.ops 40 hreach 0 replaySamples htype⟩

end Stdb
