import Stdb.RESP

/-!
# Runs of the RESP worker

What `worker()` writes for a unit, and how a run over a stream split into chunks is made of the
runs over its chunks.

A unit's writes are the column samples of the parser as `parse_values` left it
(`writeColumns_calls`).  Two things the parser does not do follow from the source and are shown
on given bytes:

* `parse_values` reads a single integer into `values_[0]` whatever the series, while `worker()`
  writes column `0` of an event series from `events_[0]`: an event series sent an integer gets
  the body of the last event parsed before (`parseNext_integer_event_stale_body`);
* `parse_dict` only runs at the start of a `worker()` call, so a dictionary array that follows
  units is read as a dictionary when a chunk starts with it and rejected as a unit's ids when it
  does not (`feed_late_dictionary_split`).
-/

namespace Stdb

namespace RESP

section Writes

variable {σ : Type} (lim : Limits) (db : DbSession σ)

/-- The writes of `worker()`'s column loop: the column samples from `i` on, in order. -/
theorem writeColumns_calls {p p' : Parser σ} {ts : Timestamp} {i k : ℕ}
    (h : writeColumns lim db p ts i k = .ok p') :
    p'.calls = p.calls ++ (List.range k).map fun j => DbCall.write (columnSample lim p ts (i + j)) := by
  induction k generalizing p i with
  | zero => cases h; simp
  | succ k ih =>
    unfold writeColumns at h
    dsimp only at h
    split_ifs at h
    rw [ih h, List.range_succ_eq_map]
    simp [columnSample, Nat.add_assoc, Nat.add_comm 1]

/-- A unit for the event series `ev` carries the event `hello`; the next unit for `ev` carries the
integer `42`.  Both writes are events with the body `hello`. -/
theorem parseNext_integer_event_stale_body (parseTs : List UInt8 → Option Timestamp) :
    ∃ p, parseNext Limits.default (DbSession.naming [(ascii "ev", [2 ^ 63 + 1])]) parseTs
        (Parser.init ()) (ascii "+ev\r\n:5\r\n+hello\r\n+ev\r\n:6\r\n:42\r\n") = .ok p ∧
      p.calls = [.nameToParamIdList (ascii "ev"),
        .write ⟨2 ^ 63 + 1, 5, ⟨.event, 45, .indeterminate, ascii "hello"⟩⟩,
        .nameToParamIdList (ascii "ev"),
        .write ⟨2 ^ 63 + 1, 6, ⟨.event, 45, .indeterminate, ascii "hello"⟩⟩] :=
  ⟨_, worker_run (parseDict_of_exit rfl) (dataLoop_run rfl (dataLoop_run rfl (dataLoop_of_exit rfl))),
    by decide⟩

end Writes

section Chunks

variable {σ : Type} (lim : Limits) (db : DbSession σ) (parseTs : List UInt8 → Option Timestamp)

/-- A run over the chunks `cs ++ ds` is the run over `cs` continued over `ds`. -/
theorem feed_append (p : Parser σ) (cs ds : List (List UInt8)) :
    feed lim db parseTs p (cs ++ ds) = (feed lim db parseTs p cs).bind fun p => feed lim db parseTs p ds := by
  induction cs generalizing p with
  | nil => rfl
  | cons c cs ih =>
    simp only [List.cons_append, feed]
    cases parseNext lim db parseTs p c with
    | error e => rfl
    | ok q => exact ih q

/-- A unit for `a`, a dictionary array naming `b` with the user id `7`, and a unit addressed by
`7`.  In one chunk the array is read as the second unit's ids and rejected; cut right before the
array, both units are written. -/
theorem feed_late_dictionary_split :
    (∃ a : LogicalStream, feed Limits.default (DbSession.naming [(ascii "a", [1]), (ascii "b", [2])]) parseTs
        (Parser.init ()) [ascii "+a\r\n:1\r\n:10\r\n*2\r\n+b\r\n:7\r\n:7\r\n:2\r\n:20\r\n"] =
      .error (a.parserError "unexpected parameter id format")) ∧
    ∃ p, feed Limits.default (DbSession.naming [(ascii "a", [1]), (ascii "b", [2])]) parseTs
        (Parser.init ()) [ascii "+a\r\n:1\r\n:10\r\n", ascii "*2\r\n+b\r\n:7\r\n:7\r\n:2\r\n:20\r\n"] =
      .ok p ∧
      p.calls = [.nameToParamIdList (ascii "a"), .write ⟨1, 1, ⟨.float, 40, .ofU64 10, []⟩⟩,
        .nameToParamIdList (ascii "b"), .write ⟨2, 2, ⟨.float, 40, .ofU64 20, []⟩⟩] :=
  ⟨⟨_, feed_of_error (worker_run (parseDict_of_exit rfl) (dataLoop_run rfl (dataLoop_of_exit rfl)))⟩,
    _, feed_run (worker_run (parseDict_of_exit rfl) (dataLoop_run rfl (dataLoop_of_exit rfl)))
      (feed_run (worker_run (parseDict_run rfl (parseDict_of_exit rfl))
        (dataLoop_run rfl (dataLoop_of_exit rfl))) rfl),
    by decide⟩

end Chunks

end RESP

end Stdb
