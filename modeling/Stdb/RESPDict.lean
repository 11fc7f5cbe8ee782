import Stdb.RESP

/-!
# The dictionary of compound series names

`parse_dict` registers the ids of a compound name under a user id with `update_dict`, and
`parse_ids` reads them back with `read_dict` when a unit is addressed by that user id.
`idmap_` is a `std::unordered_multimap`: libstdc++ inserts a new element right before the
first element with the same key (`multimapInsert`), so the ids of one key are iterated newest
first.  `read_dict` therefore returns the row reversed (`readDict_updateDict_fresh`): a row of
one id reads back as it was written, a compound row of two or more ids does not, and a unit
addressed by the user id of such a row writes its `i`-th value to the series `n - 1 - i` of the
compound name.
-/

namespace Stdb

namespace RESP

/-! ### `equal_range` after inserts -/

theorem equalRange_cons (x : ParamId × ParamId) (xs : IdMap) (k : ParamId) :
    equalRange (x :: xs) k = if x.1 = k then x.2 :: equalRange xs k else equalRange xs k := by
  by_cases hx : x.1 = k <;> simp [equalRange, List.filter_cons, hx]

/-- An insert under `uid` puts its id first in `uid`'s range. -/
theorem equalRange_multimapInsert_self (m : IdMap) (uid id : ParamId) :
    equalRange (multimapInsert m (uid, id)) uid = id :: equalRange m uid := by
  induction m with
  | nil => simp [multimapInsert, equalRange_cons]
  | cons x xs ih =>
    unfold multimapInsert
    by_cases hx : x.1 = uid
    · simp only [hx, ↓reduceIte, equalRange_cons]
    · simp only [hx, ↓reduceIte, equalRange_cons, ih]

/-- An insert under `uid` leaves the range of every other key alone. -/
theorem equalRange_multimapInsert_of_ne (m : IdMap) {uid k : ParamId} (id : ParamId)
    (hk : uid ≠ k) : equalRange (multimapInsert m (uid, id)) k = equalRange m k := by
  induction m with
  | nil => simp [multimapInsert, equalRange_cons, hk]
  | cons x xs ih =>
    unfold multimapInsert
    by_cases hx : x.1 = uid
    · simp only [hx, ↓reduceIte, equalRange_cons, hk]
    · simp only [hx, ↓reduceIte, equalRange_cons, ih]

/-- The loop of `update_dict`: the ids of `row` inserted one by one under `uid`. -/
def insertRow (m : IdMap) (uid : ParamId) (row : List ParamId) : IdMap :=
  row.foldl (fun m id => multimapInsert m (uid, id)) m

theorem equalRange_insertRow_self (m : IdMap) (uid : ParamId) (row : List ParamId) :
    equalRange (insertRow m uid row) uid = row.reverse ++ equalRange m uid := by
  induction row generalizing m with
  | nil => rfl
  | cons id ids ih =>
    simp only [insertRow, List.foldl_cons] at ih ⊢
    rw [ih, equalRange_multimapInsert_self, List.reverse_cons, List.append_assoc]
    rfl

theorem equalRange_insertRow_of_ne (m : IdMap) {uid k : ParamId} (row : List ParamId)
    (hk : uid ≠ k) : equalRange (insertRow m uid row) k = equalRange m k := by
  induction row generalizing m with
  | nil => rfl
  | cons id ids ih =>
    simp only [insertRow, List.foldl_cons] at ih ⊢
    rw [ih, equalRange_multimapInsert_of_ne _ _ hk]

/-- A user id that is not a key has an empty range. -/
theorem equalRange_of_fresh {m : IdMap} {uid : ParamId}
    (h : (m.any fun e => e.1 = uid) = false) : equalRange m uid = [] := by
  simp only [List.any_eq_false, decide_eq_true_eq] at h
  simp only [equalRange, List.map_eq_nil_iff, List.filter_eq_nil_iff, decide_eq_true_eq]
  exact h

/-! ### `update_dict` and `read_dict` -/

/-- A second `update_dict` on a user id returns `false` and changes nothing. -/
theorem updateDict_of_mem {m : IdMap} {uid : ParamId} (row : List ParamId)
    (h : (m.any fun e => e.1 = uid) = true) : updateDict m uid row = (false, m) := by
  simp [updateDict, h]

/-- `update_dict` on a fresh user id returns `true`, and `read_dict` then returns the row
reversed, cut at `nvalues` ids. -/
theorem readDict_updateDict_fresh {m : IdMap} {uid : ParamId} (row : List ParamId) (nvalues : ℕ)
    (h : (m.any fun e => e.1 = uid) = false) :
    (updateDict m uid row).1 = true ∧
      readDict (updateDict m uid row).2 uid nvalues = row.reverse.take nvalues := by
  have hu : updateDict m uid row = (true, insertRow m uid row) := by simp [updateDict, h, insertRow]
  rw [hu, readDict, equalRange_insertRow_self, equalRange_of_fresh h, List.append_nil]
  exact ⟨rfl, rfl⟩

/-! ### The keys of the dictionary -/

/-- An insert keeps every key and adds its own. -/
theorem any_multimapInsert (m : IdMap) (e : ParamId × ParamId) (k : ParamId) :
    ((multimapInsert m e).any fun x => x.1 = k) = ((m.any fun x => x.1 = k) || decide (e.1 = k)) := by
  induction m with
  | nil => simp [multimapInsert]
  | cons x xs ih =>
    unfold multimapInsert
    split_ifs with hx
    · simp only [List.any_cons, hx, Bool.or_comm, Bool.or_left_comm]
    · simp only [List.any_cons, ih, Bool.or_assoc]

theorem any_insertRow (m : IdMap) (uid : ParamId) (row : List ParamId) (k : ParamId) :
    ((insertRow m uid row).any fun x => x.1 = k) =
      ((m.any fun x => x.1 = k) || (!row.isEmpty && decide (uid = k))) := by
  induction row generalizing m with
  | nil => simp [insertRow]
  | cons id ids ih =>
    simp only [insertRow, List.foldl_cons] at ih ⊢
    rw [ih, any_multimapInsert]
    cases ids <;> simp [Bool.or_assoc]

/-- `update_dict` keeps every key. -/
theorem any_updateDict_of_any {m : IdMap} {k : ParamId} (uid : ParamId) (row : List ParamId)
    (h : (m.any fun x => x.1 = k) = true) : ((updateDict m uid row).2.any fun x => x.1 = k) = true := by
  unfold updateDict
  split_ifs
  · exact h
  · rw [← insertRow, any_insertRow, h, Bool.true_or]

/-- After `update_dict` with ids, the user id is a key. -/
theorem any_updateDict_self (m : IdMap) (uid : ParamId) {row : List ParamId} (hrow : row ≠ []) :
    ((updateDict m uid row).2.any fun x => x.1 = uid) = true := by
  unfold updateDict
  split_ifs with h
  · exact h
  · rw [← insertRow, any_insertRow]; simp [hrow]

/-- A compound name `a|b` with the ids `1` and `2`, registered under the user id `7`, and a unit
addressed by `7` with the values `10` and `20`: `10` goes to the series `2` and `20` to `1`. -/
theorem parseNext_dictionary_row_reversed (parseTs : List UInt8 → Option Timestamp) :
    ∃ p, parseNext Limits.default (DbSession.naming [(ascii "a|b", [1, 2])]) parseTs
        (Parser.init ()) (ascii "*2\r\n+a|b\r\n:7\r\n:7\r\n:5\r\n*2\r\n:10\r\n:20\r\n") = .ok p ∧
      p.calls = [.nameToParamIdList (ascii "a|b"),
        .write ⟨2, 5, ⟨.float, 40, .ofU64 10, []⟩⟩, .write ⟨1, 5, ⟨.float, 40, .ofU64 20, []⟩⟩] :=
  ⟨_, worker_run (parseDict_run rfl (parseDict_of_exit rfl)) (dataLoop_run rfl (dataLoop_of_exit rfl)),
    by decide⟩

end RESP

end Stdb
